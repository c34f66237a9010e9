import Flood.HeaderBlock

/-!
# Responses with a Content-Length

`keepalive_recv_resp` on a response whose header block names the length of its body.

* `recvResp_contentLength` — on a stream that arrives without incident, cut in any way, it reads
  exactly the announced body and nothing behind it.
* `BodyRead.consumesOrCloses_iff` — on any events, a connection that is left alive has delivered the
  whole response if and only if the events cover the body.
-/

namespace Flood.ContentLength

open Flood.CString Flood.Loop Flood.Net Flood.SocketKeepalive Flood.HeaderBlock

/-- The head of a keep-alive response that is not chunked and announces the length of its body. -/
structure LengthResponse where
  headers : Headers
  digits : Bytes
  announced : headers.value (bytes "Content-Length") = some digits
  digitsOk : digits ≠ [] ∧ ∀ c ∈ digits, isDigit 10 c
  keepalive : ∀ v, headers.value (bytes "Connection") = some v → eqIgnoreCase v (bytes "Close") = false
  notChunked : ∀ v, headers.value (bytes "Transfer-Encoding") = some v →
    eqIgnoreCase v (bytes "Chunked") = false

/-- The header block with the empty line. -/
def LengthResponse.block (m : LengthResponse) : Bytes := linesText m.headers.lines ++ CRLF

/-- The length the response announces. -/
def LengthResponse.length (m : LengthResponse) : ℕ := digitsValue 10 m.digits

/-- The text is short enough for the code to look at it. -/
abbrev LengthResponse.Short (m : LengthResponse) : Prop := m.digits.length < 16

theorem LengthResponse.length_lt {m : LengthResponse} (hshort : m.Short) : m.length < 10 ^ 15 := by
  calc m.length < 10 ^ m.digits.length := digitsValue_lt m.digitsOk.2
    _ ≤ 10 ^ 15 := Nat.pow_le_pow_right (by decide) (Nat.le_of_lt_succ hshort)

theorem LengthResponse.strlen_digits (m : LengthResponse) : strlen m.digits = m.digits.length := by
  have hnul : 0 ∉ m.digits :=
    fun h0 => digit_ne (by decide) (m.digitsOk.2 0 h0) (d := 0) (by decide) rfl
  rw [strlen, cstr_of_not_mem hnul]

theorem contentLengthValue_short {m : LengthResponse} (hshort : m.Short) :
    contentLengthValue m.digits = ((m.length : ℤ), true) := by
  obtain ⟨hne, hdigits⟩ := m.digitsOk
  have hlt := m.length_lt hshort
  have hstrtol : strtol 10 m.digits = ((m.length : ℤ), []) :=
    strtol_digits (by decide) hne hdigits (by
      simp only [LengthResponse.length, LONG_MAX] at hlt ⊢
      omega)
  have hlen : m.digits.length < 16 := hshort
  simp only [contentLengthValue, m.strlen_digits, if_pos hlen, hstrtol, decide_true]

theorem headerIs_eq (h : Headers) (name val : Bytes) :
    headerIs (linesTable h.lines) name val = (h.value name).any fun v => eqIgnoreCase v val := by
  rw [headerIs, tableGet_lines]

/-- Behind the headers only the length of the body matters. -/
theorem receiveMessage_length {σ : Type} {read : σ → ℕ → ReadResult × σ} (m : LengthResponse)
    {k : KeepaliveSocket} (hmethod : k.method ≠ some .HEAD) {rbuf got : Bytes} {value left : ℤ}
    (hvalue : contentLengthValue m.digits = (value, true))
    (hleft : wrapInt 64 (value - got.length) = left) (b : Bytes) (c : σ) (fuel : ℕ) :
    receiveMessage read k rbuf (m.block ++ got).length
        ⟨(linesText m.headers.lines).length, linesTable m.headers.lines⟩ .success b c fuel =
      receiveBody read k.wantresponse
        ⟨true, false, none, rbuf, (m.block ++ got).length, linesTable m.headers.lines⟩ left 0
        .success b c fuel := by
  have hclose : headerIs (linesTable m.headers.lines) (bytes "Connection") (bytes "Close") = false := by
    rw [headerIs_eq]
    cases h : m.headers.value (bytes "Connection") with
    | none => rfl
    | some v => exact m.keepalive v h
  have hchunked :
      headerIs (linesTable m.headers.lines) (bytes "Transfer-Encoding") (bytes "Chunked") = false := by
    rw [headerIs_eq]
    cases h : m.headers.value (bytes "Transfer-Encoding") with
    | none => rfl
    | some v => exact m.notChunked v h
  have hgot : value - ((m.block ++ got).length -
      ((linesText m.headers.lines).length + CRLF.length : ℕ)) = value - got.length := by
    simp only [LengthResponse.block, List.length_append]
    omega
  have hbody : identityBody (linesTable m.headers.lines) true (m.block ++ got).length
      (linesText m.headers.lines).length = (true, left) := by
    simp only [identityBody, tableGet_lines, m.announced, hvalue, Bool.and_true, if_true, hgot, hleft]
  simp only [receiveMessage, hclose, hchunked, if_neg hmethod, Bool.not_false, hbody,
    Bool.false_eq_true, if_false]

/-- **What is left to read** is the announced length less what the first read brought of it. -/
theorem receiveMessage_short {σ : Type} {read : σ → ℕ → ReadResult × σ} {m : LengthResponse}
    (hshort : m.Short) {k : KeepaliveSocket} (hmethod : k.method ≠ some .HEAD) {rbuf got : Bytes}
    (hgot : got.length ≤ m.length) (b : Bytes) (c : σ) (fuel : ℕ) :
    receiveMessage read k rbuf (m.block ++ got).length
        ⟨(linesText m.headers.lines).length, linesTable m.headers.lines⟩ .success b c fuel =
      receiveBody read k.wantresponse
        ⟨true, false, none, rbuf, (m.block ++ got).length, linesTable m.headers.lines⟩
        (m.length - got.length : ℕ) 0 .success b c fuel := by
  have hlt := m.length_lt hshort
  refine receiveMessage_length m hmethod (contentLengthValue_short hshort) ?_ b c fuel
  rw [show (m.length : ℤ) - got.length = (m.length - got.length : ℕ) by omega]
  exact wrapInt_of_lt (w := 63) (Int.natCast_nonneg _) (by omega)

/-- Without `wantresponse` the body is what the drain loop reads. -/
theorem receiveBody_drain {σ : Type} {read : σ → ℕ → ReadResult × σ} {resp : Response}
    (hchunked : resp.chunked = false) (hkeep : resp.keepalive = true) {contentLength : ℤ}
    {status : Status} {b : Bytes} {c : σ} {s : DrainState σ}
    (h : Halts (fun n => runLoop (drainRound read) n ⟨contentLength, status, b, c⟩) (.ok s)) :
    Halts (receiveBody read false resp contentLength 0 status b c)
      (.ok (.success, some resp, s.conn)) := by
  let result : DrainState σ → Status × Option Response × σ := fun s => (.success, some resp, s.conn)
  refine Halts.congr (r := Except.map result (.ok s)) (fun n => ?_) (h.map (Except.map result))
  simp only [receiveBody, hchunked, hkeep, Bool.false_eq_true, if_false, if_true]
  rcases runLoop (drainRound read) n ⟨contentLength, status, b, c⟩ with _ | _ | _ <;> rfl

/-! ### A stream that arrives without incident -/

/-- No read asks for more than what is left of `left` bytes after the reads before it. -/
def AsksWithin : ℕ → List Read → Prop
  | _, [] => True
  | left, r :: rs => r.requested ≤ left ∧ AsksWithin (left - r.received.length) rs

/-- The length of the next read of the drain loop. -/
theorem drain_request {left : ℕ} (h : left < 2 ^ 63) :
    (if ((left : ℕ) : ℤ) > (MAX_DOC_LENGTH - 1 : ℕ) then MAX_DOC_LENGTH - 1
      else wrapNat 64 ((left : ℕ) : ℤ)) = min left (MAX_DOC_LENGTH - 1) := by
  have hlen := readLength_eq (Int.natCast_nonneg left) (by omega)
  omega

/-- A read into the start of the buffer that returns what was asked for stays inside it. -/
theorem readInto_ok {σ : Type} {read : σ → ℕ → ReadResult × σ} {c c' : σ} {n : ℕ} {r : ReadResult}
    (hread : read c n = (r, c')) (hlen : r.data.length ≤ n) (hn : n ≤ MAX_DOC_LENGTH) (b : Bytes) :
    readInto read b 0 c n = .ok (r, store b 0 r.data, c') := by
  simp only [readInto, hread]
  rw [if_neg (by omega)]

/-- **One read of a body** that arrives without incident takes a piece from the front of what is left
of it, and nothing behind it. -/
theorem readSocket_body {todo rest : Bytes} (hne : todo ≠ []) {segs : List Bytes}
    (hsegs : ∀ s ∈ segs, s ≠ []) (hstream : segs.flatten = todo ++ rest) (log : List Read) :
    ∃ (got todo₁ : Bytes) (segs₁ : List Bytes), todo = got ++ todo₁ ∧ got ≠ [] ∧
      got.length ≤ min todo.length (MAX_DOC_LENGTH - 1) ∧
      readSocket ⟨segs.map arrival, log⟩ (min todo.length (MAX_DOC_LENGTH - 1)) =
        (⟨.success, got.length, got⟩,
          ⟨segs₁.map arrival, log ++ [⟨min todo.length (MAX_DOC_LENGTH - 1), got⟩]⟩) ∧
      (∀ s ∈ segs₁, s ≠ []) ∧ segs₁.flatten = todo₁ ++ rest := by
  have hpos := List.length_pos_iff.mpr hne
  have hsegne : segs ≠ [] := by
    rintro rfl
    exact hne (List.append_eq_nil_iff.mp hstream.symm).1
  obtain ⟨got, segs₁, hread, hgot, hle, hflat, hsegs₁⟩ :=
    readSocket_segments hsegs hsegne log (n := min todo.length (MAX_DOC_LENGTH - 1))
      (lt_min hpos (by decide))
  have hpre : got <+: todo ++ rest := ⟨segs₁.flatten, by rw [← hflat, hstream]⟩
  obtain ⟨todo₁, rfl⟩ := List.prefix_of_prefix_length_le hpre (List.prefix_append todo rest)
    (hle.trans (min_le_left _ _))
  refine ⟨got, todo₁, segs₁, rfl, hgot, hle, hread, hsegs₁, ?_⟩
  rw [hflat, List.append_assoc] at hstream
  exact List.append_cancel_left hstream

/-- **The drain loop reads exactly what is left of the body**, from any segmentation. -/
theorem drain_exact (todo rest : Bytes) (hsmall : todo.length < 2 ^ 63) (segs : List Bytes)
    (hsegs : ∀ s ∈ segs, s ≠ []) (hstream : segs.flatten = todo ++ rest) (b : Bytes)
    (log : List Read) :
    ∃ (s : DrainState Conn) (later : List Read) (segs' : List Bytes),
      Halts (fun n => runLoop (drainRound readSocket) n
          ⟨todo.length, .success, b, ⟨segs.map arrival, log⟩⟩) (.ok s) ∧
      s.conn = ⟨segs'.map arrival, log ++ later⟩ ∧ later.flatMap Read.received = todo ∧
      AsksWithin todo.length later ∧ segs'.flatten = rest := by
  induction hlen : todo.length using Nat.strong_induction_on generalizing todo segs b log with
  | _ left ih =>
    subst hlen
    by_cases hnil : todo = []
    · subst hnil
      refine ⟨⟨0, .success, b, ⟨segs.map arrival, log⟩⟩, [], segs, halts_inl ?_, ?_, rfl, trivial,
        hstream⟩
      · simp [drainRound]
      · simp
    · obtain ⟨got, todo₁, segs₁, rfl, hgot, hle, hread, hsegs₁, hstream₁⟩ :=
        readSocket_body hnil hsegs hstream log
      have hgotpos := List.length_pos_iff.mpr hgot
      simp only [List.length_append] at hsmall hread hle ih ⊢
      let first : Read := ⟨min (got.length + todo₁.length) (MAX_DOC_LENGTH - 1), got⟩
      obtain ⟨s, later, segs', hhalts, hconn, hlater, hasks, hrest⟩ :=
        ih todo₁.length (by omega) todo₁ (by omega) segs₁ hsegs₁ hstream₁ (store b 0 got)
          (log ++ [first]) rfl
      refine ⟨s, first :: later, segs', halts_inr ?_ hhalts, ?_, ?_, ?_, hrest⟩
      · have hinto := readInto_ok hread hle (by omega) b
        have hleft : wrapInt 64 (((got.length + todo₁.length : ℕ) : ℤ) - got.length) = todo₁.length := by
          rw [show ((got.length + todo₁.length : ℕ) : ℤ) - got.length = todo₁.length by omega]
          exact wrapInt_of_lt (w := 63) (Int.natCast_nonneg _) (by omega)
        have hnot : ¬ (((got.length + todo₁.length : ℕ) : ℤ) = 0 ∨ stops .success = true) := by
          simp [stops]; omega
        simp only [drainRound, if_neg hnot, drain_request hsmall, hinto, hleft, first]
      · rw [hconn, List.append_assoc]; rfl
      · rw [List.flatMap_cons, hlater]
      · exact ⟨min_le_left _ _, by simpa [first] using hasks⟩

/-- **A body of announced length is read exactly.**  After a first read of the header block and
`got`, the first bytes of the body, the reads that follow take `todo`, the rest of the body: none of
them asks for more than is left, and what stands behind the body stays on the connection. -/
theorem recvResp_contentLength (m : LengthResponse) (hshort : m.Short) (k : KeepaliveSocket)
    (hwant : k.wantresponse = false) (hmethod : k.method ≠ some .HEAD) (got todo rest : Bytes)
    (hbody : got.length + todo.length = m.length)
    (hfirst : (m.block ++ got).length ≤ MAX_DOC_LENGTH - 1) (segs : List Bytes)
    (hsegs : ∀ s ∈ segs, s ≠ []) (hstream : segs.flatten = todo ++ rest) (mem b : Bytes) :
    ∃ (resp : Response) (later : List Read) (segs' : List Bytes),
      Halts (keepaliveRecvResp readSocket k mem b
          ⟨((m.block ++ got) :: segs).map arrival, []⟩)
        (.ok (.success, some resp,
          ⟨segs'.map arrival, ⟨MAX_DOC_LENGTH - 1, m.block ++ got⟩ :: later⟩)) ∧
      resp.keepalive = true ∧ later.flatMap Read.received = todo ∧ AsksWithin todo.length later ∧
      segs'.flatten = rest := by
  have hlt := m.length_lt hshort
  obtain ⟨s, later, segs', hhalts, hconn, hlater, hasks, hrest⟩ :=
    drain_exact todo rest (by omega) segs hsegs hstream b [⟨MAX_DOC_LENGTH - 1, m.block ++ got⟩]
  let resp : Response := ⟨true, false, none, store mem 0 (m.block ++ got), (m.block ++ got).length,
    linesTable m.headers.lines⟩
  refine ⟨resp, later, segs', keepaliveRecvResp_headers
    (show m.block ++ got = linesText m.headers.lines ++ CRLF ++ got from rfl)
    (readSocket_arrival hfirst (segs.map arrival) []) ?_, rfl, hlater, hasks, hrest⟩
  refine Halts.congr (fun n => receiveMessage_short hshort hmethod (by omega) b _ n) ?_
  rw [hwant, show m.length - got.length = todo.length by omega]
  have hdone := receiveBody_drain (show resp.chunked = false from rfl) rfl hhalts
  rwa [hconn] at hdone

/-- A response with the body length 3. -/
def threeBytes : LengthResponse where
  headers :=
    { status := bytes "HTTP/1.1 200 OK"
      statusOk := by decide
      fields := [⟨bytes "Content-Length", bytes "3", by decide, by decide⟩] }
  digits := bytes "3"
  announced := by decide
  digitsOk := ⟨by decide, fun c hc => by
    obtain rfl : c = 51 := List.mem_singleton.mp hc
    decide⟩
  keepalive := by
    intro v hv
    cases hv
  notChunked := by
    intro v hv
    cases hv

/-- The body `ABC`, cut behind each byte, with an `X` that belongs to the next response. -/
theorem recvResp_contentLength_threeBytes :
    ∃ (resp : Response) (later : List Read) (segs' : List Bytes),
      Halts (keepaliveRecvResp readSocket ⟨some 0, false, false, false, some .GET⟩ [] []
          ⟨[threeBytes.block ++ [65], [66], [67, 88]].map arrival, []⟩)
        (.ok (.success, some resp,
          ⟨segs'.map arrival, ⟨MAX_DOC_LENGTH - 1, threeBytes.block ++ [65]⟩ :: later⟩)) ∧
      resp.keepalive = true ∧ later.flatMap Read.received = [66, 67] ∧ AsksWithin 2 later ∧
      segs'.flatten = [88] :=
  recvResp_contentLength threeBytes (by decide) ⟨some 0, false, false, false, some .GET⟩ rfl
    (by decide) [65] [66, 67] [88] (by decide) (by decide) [[66], [67, 88]] (by decide) rfl [] []

/-! ### Reads of any outcome -/

/-- The events deliver `left` bytes before anything ends or disturbs the loop: no poll fails, and
no status that stops the loop comes before the last of them. -/
def covers : ℕ → List NetEvent → Bool
  | left, [] => left = 0
  | left, ev :: evs =>
    left = 0 ∨ (ev.poll = .success ∧
      (left ≤ ev.bytes.length ∨ (¬ stops ev.recv ∧ covers (left - ev.bytes.length) evs)))

theorem covers_zero (evs : List NetEvent) : covers 0 evs = true := by
  cases evs <;> simp [covers]

theorem covers_cons {left : ℕ} (hleft : 0 < left) (ev : NetEvent) (evs : List NetEvent) :
    covers left (ev :: evs) = true ↔ ev.poll = .success ∧ (left - ev.bytes.length = 0 ∨
      stops ev.recv = false ∧ covers (left - ev.bytes.length) evs = true) := by
  have hne : left ≠ 0 := by omega
  simp [covers, hne, Nat.sub_eq_zero_iff_le]

/-- How much the network can still do. -/
def weight (evs : List NetEvent) : ℕ := (evs.map fun ev => ev.bytes.length + 1).sum

/-- **One read of a receive loop** with `left` bytes to go: the network has less to do afterwards,
unless the loop stops, and the bytes to go are covered if and only if the read stored as many bytes
as it reported and the rest is covered. -/
theorem readSocket_step {left : ℕ} (hleft : 0 < left) (evs : List NetEvent) (log : List Read) :
    ∃ r c, readSocket ⟨evs, log⟩ (min left (MAX_DOC_LENGTH - 1)) = (r, c) ∧
      c.received.length = (log.flatMap Read.received).length + r.data.length ∧
      r.data.length ≤ r.buflen ∧ r.buflen ≤ min left (MAX_DOC_LENGTH - 1) ∧
      (stops r.status = false → weight c.pending < weight evs) ∧
      (covers left evs = true ↔ r.data.length = r.buflen ∧
        (left - r.buflen = 0 ∨ stops r.status = false ∧ covers (left - r.buflen) c.pending = true)) := by
  have hn : 0 < min left (MAX_DOC_LENGTH - 1) := lt_min hleft (by decide)
  have hle : min left (MAX_DOC_LENGTH - 1) ≤ left := min_le_left _ _
  generalize min left (MAX_DOC_LENGTH - 1) = n at hn hle ⊢
  cases evs with
  | nil =>
    refine ⟨_, _, readSocket_nil log n, ?_, Nat.zero_le _, le_rfl, ?_, ?_⟩
    · simp [Conn.received]
    · simp [stops]
    · simp [covers]
      omega
  | cons ev evs =>
    rw [covers_cons hleft]
    by_cases hpoll : ev.poll = .success
    · by_cases hfit : ev.bytes.length ≤ n
      · refine ⟨⟨ev.recv, ev.bytes.length, ev.bytes⟩, ⟨evs, log ++ [⟨n, ev.bytes⟩]⟩, ?_, ?_, le_rfl,
          hfit, ?_, ?_⟩
        · simp [readSocket, aprSocketRecv, hpoll, hfit]
        · simp [Conn.received]
        · simp [weight]
        · simp only [hpoll, true_and]
      · rw [Nat.not_le] at hfit
        have hlen : (ev.bytes.take n).length = n := by simp; omega
        refine ⟨⟨.success, n, ev.bytes.take n⟩,
          ⟨{ ev with bytes := ev.bytes.drop n } :: evs, log ++ [⟨n, ev.bytes.take n⟩]⟩, ?_, ?_,
          hlen.le, le_rfl, ?_, ?_⟩
        · simp [readSocket, aprSocketRecv, hpoll, Nat.not_le.mpr hfit, hlen]
        · simp [Conn.received]
        · simp [weight]
          omega
        · -- the piece that stays behind the read covers what is left of the event
          have hrest : left - n - (ev.bytes.length - n) = left - ev.bytes.length := by omega
          by_cases hall : left = n
          · simp only [hpoll, hlen, hall, Nat.sub_self, true_and, true_or, iff_true]
            exact .inl (by omega)
          · have hmore : 0 < left - n := by omega
            rw [covers_cons hmore, List.length_drop, hrest]
            simp only [hpoll, hlen, true_and, stops, reduceCtorEq, or_self, decide_false]
            constructor
            · exact fun h => .inr h
            · rintro (h | h)
              · omega
              · exact h
    · refine ⟨_, _, readSocket_poll hpoll evs log n, ?_, Nat.zero_le _, le_rfl, ?_, ?_⟩
      · simp [Conn.received]
      · simp [weight]
      · simp only [hpoll, false_and, List.length_nil, false_iff, not_and]
        omega

/-- **The drain loop on any events**: it ends, having consumed at most `left` bytes, and all of them
exactly when the events cover them. -/
theorem drain_covers (left : ℕ) (hsmall : left < 2 ^ 63) (status : Status) (b : Bytes)
    (evs : List NetEvent) (log : List Read) :
    ∃ s n, Halts (fun m => runLoop (drainRound readSocket) m ⟨left, status, b, ⟨evs, log⟩⟩) (.ok s) ∧
      s.conn.received.length = (log.flatMap Read.received).length + n ∧ n ≤ left ∧
      (n = left ↔ left = 0 ∨ stops status = false ∧ covers left evs = true) := by
  induction hμ : (if stops status then 0 else weight evs + 1) using Nat.strong_induction_on
    generalizing left status b evs log with
  | _ μ ih =>
    subst hμ
    by_cases hend : left = 0 ∨ stops status = true
    · refine ⟨⟨left, status, b, ⟨evs, log⟩⟩, 0, halts_inl ?_, rfl, Nat.zero_le _, ?_⟩
      · rw [drainRound, if_pos (by simpa using hend)]
      · rcases hend with h | h
        · simp [h]
        · simp only [h, Bool.true_eq_false, false_and, or_false]
          exact eq_comm
    · rw [not_or, Bool.not_eq_true] at hend
      obtain ⟨hne, hgo⟩ := hend
      obtain ⟨r, c, hread, hreceived, hstored, hreported, hweight, hcovers⟩ :=
        readSocket_step (Nat.pos_of_ne_zero hne) evs log
      have hround : drainRound readSocket ⟨left, status, b, ⟨evs, log⟩⟩ =
          .inr ⟨(left - r.buflen : ℕ), r.status, store b 0 r.data, c⟩ := by
        have hinto := readInto_ok hread (hstored.trans hreported) (by omega) b
        have hleft : wrapInt 64 ((left : ℤ) - r.buflen) = (left - r.buflen : ℕ) := by
          rw [show (left : ℤ) - r.buflen = (left - r.buflen : ℕ) by omega]
          exact wrapInt_of_lt (w := 63) (Int.natCast_nonneg _) (by omega)
        have hnot : ¬ ((left : ℤ) = 0 ∨ stops status = true) := by
          simp [hgo, hne]
        simp only [drainRound, if_neg hnot, drain_request hsmall, hinto, hleft]
      obtain ⟨s, n, hhalts, hn, hle, hiff⟩ := ih
        (if stops r.status then 0 else weight c.pending + 1)
        (by
          rw [hgo]
          cases hst : stops r.status with
          | true => simp
          | false => simpa using hweight hst)
        (left - r.buflen) (by omega) r.status (store b 0 r.data) c.pending c.log rfl
      refine ⟨s, r.data.length + n, halts_inr hround hhalts, ?_, by omega, ?_⟩
      · rw [hn, ← Nat.add_assoc, ← hreceived]
        rfl
      · simp only [hne, hgo, false_or, true_and, hcovers, ← hiff]
        omega

/-- One round of `keepalive_load_resp`, by what its read returns. -/
theorem loadRound_eq {σ : Type} {read : σ → ℕ → ReadResult × σ} {remain : Bool} {s : LoadState σ}
    {n : ℕ} {r : ReadResult} {c : σ}
    (hn : (if remain = false ∨ s.remaining > MAX_DOC_LENGTH - 1 then MAX_DOC_LENGTH - 1
      else s.remaining) = n) (hread : read s.conn n = (r, c)) :
    loadRound read remain s =
      if (s.rbuf.length + r.buflen : ℕ) > (loaded s r c).currentalloc then .inl (.error .fault)
      else if ¬ stops r.status ∧ (remain = false ∨ (loaded s r c).remaining ≠ 0) then
        .inr (loaded s r c)
      else .inl (.ok (r.status, loaded s r c)) := by
  simp only [loadRound, hn, hread]

/-- **The loop of `keepalive_load_resp` on any events**, with `left` bytes to go: where it returns it
has consumed at most these, and all of them exactly when the events cover them.  It does return when
the allocation holds what was read and what is to come. -/
theorem load_covers (left : ℕ) (hleft : 0 < left) (hsmall : left < 2 ^ 63) (rbuf : Bytes)
    (currentalloc : ℤ) (b : Bytes) (evs : List NetEvent) (log : List Read) :
    ∃ out, Halts (fun m => runLoop (loadRound readSocket true) m
        ⟨rbuf, currentalloc, left, b, ⟨evs, log⟩⟩) out ∧
      (∀ status s, out = .ok (status, s) → ∃ n, n ≤ left ∧
        s.conn.received.length = (log.flatMap Read.received).length + n ∧
        (n = left ↔ covers left evs = true)) ∧
      (rbuf.length + left ≤ currentalloc → currentalloc < 2 ^ 64 → ∃ p, out = .ok p) := by
  induction hμ : weight evs using Nat.strong_induction_on
    generalizing left rbuf currentalloc b evs log with
  | _ μ ih =>
    subst hμ
    obtain ⟨r, c, hread, hreceived, hstored, hreported, hweight, hcovers⟩ :=
      readSocket_step hleft evs log
    have hrequest : (if true = false ∨ left > MAX_DOC_LENGTH - 1 then MAX_DOC_LENGTH - 1 else left) =
        min left (MAX_DOC_LENGTH - 1) := by
      simp only [Bool.true_eq_false, false_or]
      split <;> omega
    have hremaining : wrapNat 64 ((left : ℤ) - r.buflen) = left - r.buflen := by
      rw [show (left : ℤ) - r.buflen = (left - r.buflen : ℕ) by omega]
      exact wrapNat_of_lt (by omega)
    have hround := loadRound_eq (r := r) (c := c)
      (s := (⟨rbuf, currentalloc, left, b, ⟨evs, log⟩⟩ : LoadState Conn)) hrequest hread
    let alloc := if rbuf.length + r.buflen > wrapNat 64 currentalloc then wrapInt 32 (currentalloc * 2)
      else currentalloc
    have hloaded : loaded ⟨rbuf, currentalloc, left, b, ⟨evs, log⟩⟩ r c =
        ⟨rbuf ++ fetch (store b 0 r.data) r.buflen, alloc, left - r.buflen, store b 0 r.data, c⟩ := by
      simp only [loaded, hremaining, alloc]
    rw [hloaded] at hround
    -- where the allocation is large enough it is not doubled, and the copy stays inside it
    have hroom : rbuf.length + left ≤ currentalloc → currentalloc < 2 ^ 64 →
        alloc = currentalloc ∧ ¬ ((rbuf.length + r.buflen : ℕ) : ℤ) > alloc := by
      intro hfit hlt
      have hnat : wrapNat 64 currentalloc = currentalloc.toNat := by
        conv_lhs => rw [← Int.toNat_of_nonneg (show 0 ≤ currentalloc by omega)]
        exact wrapNat_of_lt (by omega)
      have halloc : alloc = currentalloc := if_neg (by rw [hnat]; omega)
      exact ⟨halloc, by rw [halloc]; omega⟩
    by_cases hfault : ((rbuf.length + r.buflen : ℕ) : ℤ) > alloc
    · rw [if_pos hfault] at hround
      exact ⟨_, halts_inl hround, fun _ _ h => (by cases h),
        fun hfit hlt => absurd hfault (hroom hfit hlt).2⟩
    · rw [if_neg hfault] at hround
      by_cases hmore : stops r.status = false ∧ left - r.buflen ≠ 0
      · rw [if_pos (by simpa using hmore)] at hround
        obtain ⟨out, hhalts, hn, hok⟩ := ih (weight c.pending) (hweight hmore.1) (left - r.buflen)
          (by omega) (by omega) _ alloc (store b 0 r.data) c.pending c.log rfl
        refine ⟨out, halts_inr hround hhalts, fun status s hout => ?_, fun hfit hlt => ?_⟩
        · obtain ⟨n, hle, hreceived', hiff⟩ := hn status s hout
          refine ⟨r.data.length + n, by omega, ?_, ?_⟩
          · rw [hreceived', ← Nat.add_assoc, ← hreceived]
            rfl
          · rw [hcovers, show (left - r.buflen = 0) = False from eq_false hmore.2, false_or, ← hiff]
            simp only [hmore.1, true_and]
            omega
        · obtain ⟨halloc, -⟩ := hroom hfit hlt
          refine hok ?_ (by rw [halloc]; exact hlt)
          simp only [List.length_append, fetch_length, halloc]
          omega
      · rw [if_neg (by simpa using hmore)] at hround
        refine ⟨_, halts_inl hround, fun status s hout => ?_, fun _ _ => ⟨_, rfl⟩⟩
        simp only [Except.ok.injEq, Prod.mk.injEq] at hout
        obtain ⟨-, rfl⟩ := hout
        refine ⟨r.data.length, by omega, hreceived, ?_⟩
        rw [hcovers]
        constructor
        · intro hall
          exact ⟨by omega, .inl (by omega)⟩
        · rintro ⟨hstore, hdone | ⟨hgo, -⟩⟩
          · omega
          · have := not_and.mp hmore hgo
            omega

/-- The loop of `keepalive_load_resp` without a bound ends too, and never gives bytes back. -/
theorem loadAll_halts (s : LoadState Conn) :
    ∃ out, Halts (fun m => runLoop (loadRound readSocket false) m s) out ∧
      ∀ status s', out = .ok (status, s') → s.conn.received.length ≤ s'.conn.received.length := by
  induction hμ : weight s.conn.pending using Nat.strong_induction_on generalizing s with
  | _ μ ih =>
    subst hμ
    obtain ⟨r, c, hread, hreceived, -, -, hweight, -⟩ :=
      readSocket_step (show 0 < MAX_DOC_LENGTH - 1 by decide) s.conn.pending s.conn.log
    rw [Nat.min_self] at hread
    have hgrows : s.conn.received.length ≤ c.received.length := hreceived ▸ Nat.le_add_right _ _
    have hround := loadRound_eq (s := s) (if_pos (.inl rfl : false = false ∨ _)) hread
    by_cases hfault : ((s.rbuf.length + r.buflen : ℕ) : ℤ) > (loaded s r c).currentalloc
    · rw [if_pos hfault] at hround
      exact ⟨_, halts_inl hround, fun _ _ h => (by cases h)⟩
    · rw [if_neg hfault] at hround
      by_cases hgo : stops r.status = false
      · rw [if_pos ⟨by simpa using hgo, .inl rfl⟩] at hround
        obtain ⟨out, hhalts, hle⟩ := ih (weight c.pending) (hweight hgo) (loaded s r c) rfl
        exact ⟨out, halts_inr hround hhalts, fun status s' hout => hgrows.trans (hle status s' hout)⟩
      · rw [if_neg (fun h => hgo (by simpa using h.1))] at hround
        refine ⟨_, halts_inl hround, fun status s' hout => ?_⟩
        simp only [Except.ok.injEq, Prod.mk.injEq] at hout
        exact hout.2 ▸ hgrows

/-- With `wantresponse` the body is what `keepalive_load_resp` reads into its allocation. -/
theorem receiveBody_load {σ : Type} {read : σ → ℕ → ReadResult × σ} {resp : Response}
    (hkeep : resp.keepalive = true) {left : ℕ} (hsmall : left < 2 ^ 63) {status : Status} {b : Bytes}
    {c : σ} {currentalloc : ℤ} (halloc : currentalloc = wrapInt 32
      (((if left > 0 then left else MAX_DOC_LENGTH : ℕ) : ℤ) + resp.rbufsize))
    (hfit : ¬ currentalloc < resp.rbufsize) {out : Except Abort (Status × LoadState σ)}
    (h : Halts (fun n => runLoop (loadRound read (left > 0)) n
      ⟨fetch resp.rbuf resp.rbufsize, currentalloc, left, b, c⟩) out) :
    Halts (receiveBody read true resp left 0 status b c) (out.map fun p =>
      (.success, some { resp with rbuf := p.2.rbuf, rbufsize := p.2.rbuf.length }, p.2.conn)) := by
  refine Halts.congr (fun n => ?_) (h.map (Except.map _))
  have hleft : wrapNat 64 ((left : ℕ) : ℤ) = left := wrapNat_of_lt (by omega)
  simp only [receiveBody, hkeep, if_true, hleft, keepaliveLoadResp, ← halloc, if_neg hfit]
  rcases runLoop (loadRound read (left > 0)) n
    ⟨fetch resp.rbuf resp.rbufsize, currentalloc, left, b, c⟩ with _ | _ | _ <;> rfl

/-- Bytes that are not covered are left to read, so with `wantresponse` the bound applies. -/
theorem fits_of_not_covers {left rbufsize : ℕ} {evs : List NetEvent}
    (hwant : true = false ∨ left + rbufsize < 2 ^ 31) (hcov : covers left evs = false) :
    left + rbufsize < 2 ^ 31 ∧ left > 0 := by
  refine ⟨hwant.resolve_left (by decide), Nat.pos_of_ne_zero ?_⟩
  rintro rfl
  rw [covers_zero] at hcov
  cases hcov

/-- What `keepalive_recv_resp` does behind the headers of a response with a length, on any events:
it succeeds, unless an allocation fails it, and leaves the connection alive. -/
theorem receiveBody_events (want : Bool) (resp : Response) (hchunked : resp.chunked = false)
    (hkeep : resp.keepalive = true) (left : ℕ) (hsmall : left < 2 ^ 63) (b : Bytes)
    (evs : List NetEvent) (log : List Read) :
    ∃ out, Halts (receiveBody readSocket want resp left 0 .success b ⟨evs, log⟩) out ∧
      (∀ status r c, out = .ok (status, r, c) → status = .success ∧
        (∃ resp', r = some resp' ∧ resp'.keepalive = true) ∧
        ∃ n, c.received.length = (log.flatMap Read.received).length + n ∧
          (left ≤ n ↔ covers left evs = true)) ∧
      (want = false ∨ left + resp.rbufsize < 2 ^ 31 → covers left evs = false →
        ∃ p, out = .ok p) := by
  cases want with
  | false =>
    obtain ⟨s, n, hhalts, hreceived, hle, hiff⟩ := drain_covers left hsmall .success b evs log
    refine ⟨_, receiveBody_drain hchunked hkeep hhalts, ?_, fun _ _ => ⟨_, rfl⟩⟩
    intro status r c hout
    simp only [Except.ok.injEq, Prod.mk.injEq] at hout
    obtain ⟨rfl, rfl, rfl⟩ := hout
    refine ⟨rfl, ⟨resp, rfl, hkeep⟩, n, hreceived, ?_⟩
    rw [show left ≤ n ↔ n = left by omega, hiff]
    by_cases h0 : left = 0
    · simp [h0, covers_zero]
    · simp [h0, stops]
  | true =>
    let currentalloc : ℤ := wrapInt 32
      (((if left > 0 then left else MAX_DOC_LENGTH : ℕ) : ℤ) + resp.rbufsize)
    by_cases hfit : currentalloc < resp.rbufsize
    · -- the allocation is too small for what was read already
      refine ⟨.error .fault, Halts.congr (fun n => ?_) (halts_const _), fun _ _ _ h => (by cases h),
        fun hwant hcov => ?_⟩
      · have hleft : wrapNat 64 ((left : ℕ) : ℤ) = left := wrapNat_of_lt (by omega)
        simp only [receiveBody, hkeep, if_true, hleft, keepaliveLoadResp]
        rw [if_pos hfit]
        rfl
      · obtain ⟨hlt, hpos⟩ := fits_of_not_covers hwant hcov
        have halloc : currentalloc = left + resp.rbufsize := by
          simp only [currentalloc, if_pos hpos]
          exact wrapInt_of_lt (w := 31) (by omega) (by omega)
        omega
    · obtain ⟨out, hhalts, hout, hok⟩ : ∃ out, Halts (fun n => runLoop
            (loadRound readSocket (left > 0)) n
            ⟨fetch resp.rbuf resp.rbufsize, currentalloc, left, b, ⟨evs, log⟩⟩) out ∧
          (∀ status s, out = .ok (status, s) →
            ∃ n, s.conn.received.length = (log.flatMap Read.received).length + n ∧
              (left ≤ n ↔ covers left evs = true)) ∧
          (true = false ∨ left + resp.rbufsize < 2 ^ 31 → covers left evs = false →
            ∃ p, out = .ok p) := by
        by_cases hpos : left > 0
        · obtain ⟨out, hhalts, hout, hok⟩ := load_covers left hpos hsmall
            (fetch resp.rbuf resp.rbufsize) currentalloc b evs log
          refine ⟨out, by simpa only [hpos, decide_true] using hhalts, fun status s h => ?_,
            fun hwant _ => ?_⟩
          · obtain ⟨n, hle, hreceived, hiff⟩ := hout status s h
            exact ⟨n, hreceived, by rw [← hiff]; omega⟩
          · have hlt := hwant.resolve_left (by decide)
            have halloc : currentalloc = left + resp.rbufsize := by
              simp only [currentalloc, if_pos hpos]
              exact wrapInt_of_lt (w := 31) (by omega) (by omega)
            rw [fetch_length] at hok
            exact hok (by omega) (by omega)
        · obtain ⟨out, hhalts, hout⟩ := loadAll_halts
            ⟨fetch resp.rbuf resp.rbufsize, currentalloc, left, b, ⟨evs, log⟩⟩
          obtain rfl : left = 0 := by omega
          refine ⟨out, by simpa using hhalts, fun status s h => ?_, fun _ hcov => ?_⟩
          · obtain ⟨n, hn⟩ := Nat.exists_eq_add_of_le (hout status s h)
            exact ⟨n, hn, by simp [covers_zero]⟩
          · rw [covers_zero] at hcov
            cases hcov
      refine ⟨_, receiveBody_load hkeep hsmall rfl hfit hhalts, fun status r c heq => ?_,
        fun hwant hcov => ?_⟩
      · rcases out with a | ⟨st, s⟩
        · cases heq
        · cases heq
          exact ⟨rfl, ⟨_, rfl, hkeep⟩, hout st s rfl⟩
      · obtain ⟨p, rfl⟩ := hok hwant hcov
        exact ⟨_, rfl⟩

/-- The circumstances of a call of `keepalive_recv_resp` for such a response: a first read of the
header block and a first part of the body, and any events behind it. -/
structure BodyRead where
  resp : LengthResponse
  ksock : KeepaliveSocket
  notHead : ksock.method ≠ some .HEAD
  got : Bytes
  gotOk : got.length ≤ resp.length
  fits : (resp.block ++ got).length ≤ MAX_DOC_LENGTH - 1
  events : List NetEvent
  mem : Bytes
  b : Bytes

/-- The call returns this. -/
def BodyRead.Returns (t : BodyRead) (out : Except Abort (Status × Option Response × Conn)) : Prop :=
  Halts (keepaliveRecvResp readSocket t.ksock t.mem t.b
    ⟨arrival (t.resp.block ++ t.got) :: t.events, []⟩) out

/-- Where the call succeeds and leaves the connection alive, it has consumed the whole response. -/
def BodyRead.ConsumesOrCloses (t : BodyRead) : Prop :=
  ∀ resp c, t.Returns (.ok (.success, some resp, c)) → resp.keepalive = true →
    t.resp.block.length + t.resp.length ≤ c.received.length

/-- The events after the first read cover the rest of the body. -/
def BodyRead.Covered (t : BodyRead) : Prop :=
  covers (t.resp.length - t.got.length) t.events = true

theorem BodyRead.returns_of_body (t : BodyRead) {left : ℤ} {value : ℤ}
    (hvalue : contentLengthValue t.resp.digits = (value, true))
    (hleft : wrapInt 64 (value - t.got.length) = left)
    {out : Except Abort (Status × Option Response × Conn)}
    (h : Halts (receiveBody readSocket t.ksock.wantresponse
      ⟨true, false, none, store t.mem 0 (t.resp.block ++ t.got), (t.resp.block ++ t.got).length,
        linesTable t.resp.headers.lines⟩ left 0 .success t.b
      ⟨t.events, [⟨MAX_DOC_LENGTH - 1, t.resp.block ++ t.got⟩]⟩) out) : t.Returns out :=
  keepaliveRecvResp_headers
    (show t.resp.block ++ t.got = linesText t.resp.headers.lines ++ CRLF ++ t.got from rfl)
    (readSocket_arrival t.fits t.events [])
    (Halts.congr (fun n => receiveMessage_length t.resp t.notHead hvalue hleft t.b _ n) h)

/-- **What a call on a length it looks at does**: unless an allocation fails it, it succeeds, leaves
the connection alive and has consumed the response exactly when the events cover the body. -/
theorem BodyRead.outcome (t : BodyRead) (hshort : t.resp.Short) :
    ∃ out, t.Returns out ∧
      (∀ status r c, out = .ok (status, r, c) → status = .success ∧
        (∃ resp, r = some resp ∧ resp.keepalive = true) ∧
        (t.resp.block.length + t.resp.length ≤ c.received.length ↔ t.Covered)) ∧
      (t.ksock.wantresponse = false ∨ t.resp.block.length + t.resp.length < 2 ^ 31 → ¬ t.Covered →
        ∃ p, out = .ok p) := by
  have hlt := t.resp.length_lt hshort
  have hgot := t.gotOk
  obtain ⟨out, hhalts, hout, hok⟩ := receiveBody_events t.ksock.wantresponse
    (⟨true, false, none, store t.mem 0 (t.resp.block ++ t.got),
      (t.resp.block ++ t.got).length, linesTable t.resp.headers.lines⟩) rfl rfl
    (t.resp.length - t.got.length) (by omega) t.b t.events
    [⟨MAX_DOC_LENGTH - 1, t.resp.block ++ t.got⟩]
  have hrecv : t.Returns out := t.returns_of_body (contentLengthValue_short hshort)
    (by
      rw [show (t.resp.length : ℤ) - t.got.length = (t.resp.length - t.got.length : ℕ) by omega]
      exact wrapInt_of_lt (w := 63) (Int.natCast_nonneg _) (by omega)) hhalts
  refine ⟨out, hrecv, fun status r c heq => ?_, fun hwant hcov => ?_⟩
  · obtain ⟨hstatus, hresp, n, hreceived, hiff⟩ := hout status r c heq
    refine ⟨hstatus, hresp, ?_⟩
    simp only [List.flatMap_cons, List.flatMap_nil, List.append_nil, List.length_append] at hreceived
    rw [BodyRead.Covered, ← hiff]
    omega
  · rw [BodyRead.Covered, Bool.not_eq_true] at hcov
    exact hok (hwant.imp_right fun h => by simp only [List.length_append]; omega) hcov

/-- A successful call returns a response. -/
theorem BodyRead.returns_some (t : BodyRead) (hshort : t.resp.Short) {r : Option Response}
    {c : Conn} (h : t.Returns (.ok (.success, r, c))) : ∃ resp, r = some resp := by
  obtain ⟨out, hret, hout, -⟩ := t.outcome hshort
  obtain ⟨-, ⟨resp, hresp, -⟩, -⟩ := hout _ _ _ (hret.unique h)
  exact ⟨resp, hresp⟩

/-- **A short body leaves the connection alive**: the response is consumed, or the connection given
up, if and only if the events cover the rest of the body. -/
theorem BodyRead.consumesOrCloses_iff (t : BodyRead) (hshort : t.resp.Short) :
    (t.Covered → t.ConsumesOrCloses) ∧
    (t.ksock.wantresponse = false ∨ t.resp.block.length + t.resp.length < 2 ^ 31 →
      t.ConsumesOrCloses → t.Covered) := by
  obtain ⟨out, hret, hout, hok⟩ := t.outcome hshort
  constructor
  · intro hcov resp c h _
    exact (hout _ _ _ (hret.unique h)).2.2.mpr hcov
  · intro hwant hall
    by_contra hcov
    obtain ⟨⟨status, r, c⟩, rfl⟩ := hok hwant hcov
    obtain ⟨rfl, ⟨resp, rfl, hkeep⟩, hiff⟩ := hout _ _ _ rfl
    exact hcov (hiff.mp (hall resp c hret hkeep))

/-- A length of 16 characters or more is taken for 0, and the connection is left alive. -/
theorem BodyRead.not_consumesOrCloses_long (t : BodyRead) (hlong : ¬ t.resp.Short)
    (hwant : t.ksock.wantresponse = false) (hgot : t.got = []) (hpos : 0 < t.resp.length) :
    ¬ t.ConsumesOrCloses := by
  have hvalue : contentLengthValue t.resp.digits = (0, true) := by
    rw [contentLengthValue, t.resp.strlen_digits]
    exact if_neg hlong
  have hleft : wrapInt 64 ((0 : ℤ) - t.got.length) = 0 := by
    rw [hgot]
    exact wrapInt_of_lt (w := 63) le_rfl (by decide)
  have hdrain : Halts (fun n => runLoop (drainRound readSocket) n
      ⟨0, .success, t.b, ⟨t.events, [⟨MAX_DOC_LENGTH - 1, t.resp.block ++ t.got⟩]⟩⟩) (.ok _) :=
    halts_inl (by rw [drainRound, if_pos (.inl rfl)])
  intro hall
  have hle := hall _ _ (t.returns_of_body hvalue hleft
    (by rw [hwant]; exact receiveBody_drain rfl rfl hdrain)) rfl
  simp only [Conn.received, hgot, List.append_nil, List.flatMap_cons, List.flatMap_nil] at hle
  omega

end Flood.ContentLength
