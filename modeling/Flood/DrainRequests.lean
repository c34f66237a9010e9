import Flood.ChunkedBounds

/-!
# The lengths the drain loop asks for

The loop of `keepalive_recv_resp` that throws a body away counts what is to come in a `long` and hands
it to the reader as an `apr_size_t`.

* `HeadersEnd.line_lt` — the header loop stays in memory.
* `contentLengthValue_small` — a text that is looked at denotes a number far from the limits.
* `drain_requests_iff` — every read asks for between 1 and `MAX_DOC_LENGTH - 1` bytes, in every run,
  exactly when the first read ends the loop or brings no more than was announced.
-/

namespace Flood.DrainRequests

open Flood.CString Flood.Loop Flood.Net Flood.SocketKeepalive Flood.ChunkedBounds

variable {σ : Type} {read : σ → ℕ → ReadResult × σ}

/-! ### The end of the headers -/

/-- A reader stores what it reports, or less, and reports no more than it was asked for. -/
structure Bounded (read : σ → ℕ → ReadResult × σ) : Prop where
  stored : ∀ c n, (read c n).1.data.length ≤ (read c n).1.buflen
  asked : ∀ c n, (read c n).1.buflen ≤ n

/-- The header loop ends here, after a first read with this result into a buffer with that memory
behind it. -/
structure HeadersEnd (mem : Bytes) (r : ReadResult) (h : HeaderState) : Prop where
  stored : r.data.length ≤ r.buflen
  asked : r.buflen ≤ MAX_DOC_LENGTH - 1
  memory : mem.length < 2 ^ 62
  status : r.status = .success ∨ r.status = .eof
  loop : Halts (fun fuel => runLoop (headerRound (store mem 0 r.data) r.buflen) fuel ⟨0, []⟩) (.ok h)

/-- The CRLF that a round finds stands in memory. -/
theorem headerRound_within {rbuf : Bytes} {rbufsize : ℕ} {s : HeaderState}
    (hs : s.currentLine ≤ rbuf.length) :
    (∀ s', headerRound rbuf rbufsize s = .inr s' → s'.currentLine ≤ rbuf.length) ∧
    ∀ s', headerRound rbuf rbufsize s = .inl (.ok s') → s'.currentLine ≤ rbuf.length := by
  have hbehind : ∀ n, strstr CRLF (rbuf.drop s.currentLine) = some n →
      s.currentLine + n + CRLF.length ≤ rbuf.length := by
    intro n hn
    have hle := (strstr_pattern hn).length_le
    rw [List.length_drop, List.length_drop] at hle
    have hlen : CRLF.length = 2 := rfl
    omega
  unfold headerRound
  dsimp only
  split
  · exact ⟨fun s' h => (by cases h), fun s' h => (by cases h; exact hs)⟩
  · exact ⟨fun s' h => (by cases h), fun s' h => (by cases h; exact hs)⟩
  · next n hn =>
    split
    · exact ⟨fun s' h => (by cases h), fun s' h => (by cases h)⟩
    · split
      · exact ⟨fun s' h => (by cases h; exact hbehind _ hn), fun s' h => (by cases h)⟩
      · exact ⟨fun s' h => (by cases h), fun s' h => (by cases h; exact hbehind _ hn)⟩

theorem HeadersEnd.line_lt {mem : Bytes} {r : ReadResult} {h : HeaderState}
    (hend : HeadersEnd mem r h) : h.currentLine < 2 ^ 62 := by
  obtain ⟨N, hN⟩ := hend.loop
  have hle := runLoop_invariant (fun s => s.currentLine ≤ (store mem 0 r.data).length)
    (fun out => ∀ h, out = .ok h → h.currentLine ≤ (store mem 0 r.data).length)
    (fun s s' hs hround => (headerRound_within hs).1 s' hround)
    (fun s out hs hround h heq => (headerRound_within hs).2 h (heq ▸ hround))
    (Nat.zero_le _) (hN N le_rfl) h rfl
  have hlen : (store mem 0 r.data).length = r.data.length + (mem.length - r.data.length) := by
    simp [store, fetch]
  have hstored := hend.stored
  have hasked := hend.asked
  have hmem := hend.memory
  have hdoc : MAX_DOC_LENGTH = 8192 := rfl
  omega

/-- Behind its headers a call goes on with the body. -/
theorem keepaliveRecvResp_headersEnd (k : KeepaliveSocket) {mem : Bytes} (b : Bytes) {c c' : σ}
    {r : ReadResult} {h : HeaderState} (hread : read c (MAX_DOC_LENGTH - 1) = (r, c'))
    (hend : HeadersEnd mem r h) :
    ∃ N, ∀ fuel, N ≤ fuel → keepaliveRecvResp read k mem b c fuel =
      receiveMessage read k (store mem 0 r.data) r.buflen h r.status b c' fuel := by
  obtain ⟨N, hN⟩ := hend.loop
  refine ⟨N, fun fuel hfuel => ?_⟩
  have hstatus : ¬ (r.status ≠ .success ∧ r.status ≠ .eof) := by
    rintro ⟨hsuccess, heof⟩
    exact hend.status.elim hsuccess heof
  have hloop : runLoop (headerRound (store mem 0 r.data) r.buflen) fuel ⟨0, []⟩ = some (.ok h) :=
    hN fuel hfuel
  unfold keepaliveRecvResp
  rw [hread]
  dsimp only
  rw [if_neg hstatus, hloop]
  rfl

/-! ### The announced length -/

/-- Saturation does not move a value away from 0. -/
theorem saturate_bounds {v b : ℤ} (hlow : -b < v) (hhigh : v < b) :
    -b < saturate v ∧ saturate v < b := by
  unfold saturate LONG_MIN LONG_MAX
  omega

theorem strtolSign_length (s : Bytes) : (strtolSign s).2.length ≤ s.length := by
  unfold strtolSign
  split
  · exact le_rfl
  · split_ifs
    · exact Nat.le_succ _
    · exact Nat.le_succ _
    · exact le_rfl

theorem strtolPrefix_length (base : ℕ) (s : Bytes) : (strtolPrefix base s).length ≤ s.length := by
  unfold strtolPrefix
  split
  · split_ifs
    · exact (Nat.le_succ _).trans (Nat.le_succ _)
    · exact le_rfl
  · exact le_rfl

/-- The digits that are converted are part of the text. -/
theorem strtol_bounds {base : ℕ} (hbase : 0 < base) (s : Bytes) :
    -((base ^ strlen s : ℕ) : ℤ) < (strtol base s).1 ∧ (strtol base s).1 < (base ^ strlen s : ℕ) := by
  let v := strtolPrefix base (strtolSign ((cstr s).dropWhile isSpace)).2
  let ds := v.takeWhile (isDigit base)
  have hlen : ds.length ≤ strlen s := by
    calc ds.length ≤ v.length := (List.takeWhile_prefix _).length_le
      _ ≤ (strtolSign ((cstr s).dropWhile isSpace)).2.length := strtolPrefix_length _ _
      _ ≤ ((cstr s).dropWhile isSpace).length := strtolSign_length _
      _ ≤ strlen s := (List.dropWhile_suffix _).length_le
  have hvalue : digitsValue base ds < base ^ strlen s := by
    calc digitsValue base ds < base ^ ds.length :=
          digitsValue_lt fun c hc => (List.mem_takeWhile_imp hc)
      _ ≤ base ^ strlen s := Nat.pow_le_pow_right hbase hlen
  generalize base ^ strlen s = limit at hvalue ⊢
  unfold strtol
  dsimp only
  split
  · constructor
    · show -(limit : ℤ) < 0
      omega
    · show (0 : ℤ) < limit
      omega
  · have hsigned : ∀ neg : Bool, -(limit : ℤ) < (if neg then -(digitsValue base ds : ℤ)
        else digitsValue base ds) ∧ (if neg then -(digitsValue base ds : ℤ)
        else digitsValue base ds) < limit := by
      intro neg
      split
      · omega
      · omega
    exact saturate_bounds (hsigned _).1 (hsigned _).2

/-- A text that is looked at is shorter than 16 characters, and denotes a small number. -/
theorem contentLengthValue_small (text : Bytes) :
    -10 ^ 15 < (contentLengthValue text).1 ∧ (contentLengthValue text).1 < 10 ^ 15 := by
  unfold contentLengthValue
  split
  · next hshort =>
    obtain ⟨hlow, hhigh⟩ := strtol_bounds (show 0 < 10 by decide) text
    have hpow : 10 ^ strlen text ≤ 10 ^ 15 := Nat.pow_le_pow_right (by decide) (by omega)
    generalize 10 ^ strlen text = limit at hlow hhigh hpow
    dsimp only
    omega
  · decide

/-- The response is neither chunked nor one to a HEAD request, the connection is to stay open, and the
text of its `Content-Length` is a number or not looked at. -/
structure Announces (k : KeepaliveSocket) (h : HeaderState) (text : Bytes) : Prop where
  notHead : k.method ≠ some .HEAD
  notChunked : headerIs h.headers (bytes "Transfer-Encoding") (bytes "Chunked") = false
  notClosed : headerIs h.headers (bytes "Connection") (bytes "Close") = false
  header : tableGet h.headers (bytes "Content-Length") = some text
  number : (contentLengthValue text).2 = true

/-- The bytes of the body that are still to come: what was announced less what stands behind the
header block. -/
def bytesLeft (text : Bytes) (rbufsize : ℕ) (h : HeaderState) : ℤ :=
  (contentLengthValue text).1 - (rbufsize - (h.currentLine + CRLF.length : ℕ))

/-- They fit into a `long`. -/
theorem bytesLeft_long {mem : Bytes} {r : ReadResult} {h : HeaderState}
    (hend : HeadersEnd mem r h) (text : Bytes) :
    wrapInt 64 (bytesLeft text r.buflen h) = bytesLeft text r.buflen h := by
  obtain ⟨hlow, hhigh⟩ := contentLengthValue_small text
  have hline := hend.line_lt
  have hasked := hend.asked
  have hdoc : MAX_DOC_LENGTH = 8192 := rfl
  have hcrlf : CRLF.length = 2 := rfl
  unfold bytesLeft
  exact wrapInt_eq (w := 63) (by omega) (by omega)

theorem receiveMessage_announces {k : KeepaliveSocket} {h : HeaderState} {text : Bytes}
    (ha : Announces k h text) (rbuf : Bytes) (rbufsize : ℕ) (status : Status) (b : Bytes) (c : σ)
    (fuel : ℕ) :
    receiveMessage read k rbuf rbufsize h status b c fuel =
      receiveBody read k.wantresponse ⟨true, false, none, rbuf, rbufsize, h.headers⟩
        (wrapInt 64 (bytesLeft text rbufsize h)) 0 status b c fuel := by
  have hbody : identityBody h.headers true rbufsize h.currentLine =
      (true, wrapInt 64 (bytesLeft text rbufsize h)) := by
    simp only [identityBody, ha.header, ha.number, Bool.and_true, if_true, bytesLeft]
  simp only [receiveMessage, ha.notClosed, ha.notChunked, if_neg ha.notHead, Bool.not_false, hbody,
    Bool.false_eq_true, if_false]

/-! ### The requests -/

/-- The length of the read that a round of the drain loop makes, if it makes one. -/
def drainRequest (s : DrainState σ) : Option ℕ :=
  if s.contentLength = 0 ∨ stops s.status then none
  else some (if s.contentLength > (MAX_DOC_LENGTH - 1 : ℕ) then MAX_DOC_LENGTH - 1
    else wrapNat 64 s.contentLength)

/-- A round is its read, and a count of the bytes that are left. -/
theorem drainRound_request (s : DrainState σ) :
    drainRound read s =
      match drainRequest s with
      | none => .inl (.ok s)
      | some i =>
        match readInto read s.b 0 s.conn i with
        | .error a => .inl (.error a)
        | .ok (r, b, c) => .inr ⟨wrapInt 64 (s.contentLength - r.buflen), r.status, b, c⟩ := by
  unfold drainRound drainRequest
  split
  · rfl
  · rfl

/-- The call runs the drain loop on the bytes that are left. -/
theorem keepaliveRecvResp_drains {k : KeepaliveSocket} {mem b text : Bytes} {c c' : σ}
    {r : ReadResult} {h : HeaderState} (hwant : k.wantresponse = false)
    (hread : read c (MAX_DOC_LENGTH - 1) = (r, c')) (hend : HeadersEnd mem r h)
    (ha : Announces k h text) :
    ∃ N, ∀ fuel, N ≤ fuel → keepaliveRecvResp read k mem b c fuel =
      (runLoop (drainRound read) fuel
          ⟨wrapInt 64 (bytesLeft text r.buflen h), r.status, b, c'⟩).map (Except.map fun s =>
        (.success, some ⟨true, false, none, store mem 0 r.data, r.buflen, h.headers⟩, s.conn)) := by
  obtain ⟨N, hN⟩ := keepaliveRecvResp_headersEnd k b hread hend
  refine ⟨N, fun fuel hfuel => ?_⟩
  rw [hN fuel hfuel, receiveMessage_announces ha, hwant]
  simp only [receiveBody, Bool.false_eq_true, if_false, if_true]
  cases runLoop (drainRound read) fuel
      ⟨wrapInt 64 (bytesLeft text r.buflen h), r.status, b, c'⟩ with
  | none => rfl
  | some out =>
    cases out with
    | error a => rfl
    | ok s => rfl

/-- The drain loop of a call comes to a state. -/
def DrainVisits (read : σ → ℕ → ReadResult × σ) (k : KeepaliveSocket) (mem b : Bytes) (c : σ)
    (s : DrainState σ) : Prop :=
  k.wantresponse = false ∧ ∃ r c' h text, read c (MAX_DOC_LENGTH - 1) = (r, c') ∧
    HeadersEnd mem r h ∧ Announces k h text ∧
    Steps (drainRound read) ⟨wrapInt 64 (bytesLeft text r.buflen h), r.status, b, c'⟩ s

/-- The read of a round asks for at least one byte and for no more than the buffer holds. -/
def FairRequest (s : DrainState σ) : Prop :=
  ∀ i, drainRequest s = some i → 1 ≤ i ∧ i ≤ MAX_DOC_LENGTH - 1

/-- The first read ends the loop, or brings no more of the body than was announced. -/
def Announced (read : σ → ℕ → ReadResult × σ) (k : KeepaliveSocket) (mem : Bytes) (c : σ) : Prop :=
  k.wantresponse = false → ∀ r c' h text, read c (MAX_DOC_LENGTH - 1) = (r, c') →
    HeadersEnd mem r h → Announces k h text → r.status = .eof ∨ 0 ≤ bytesLeft text r.buflen h

/-- A count that is not negative, of a `long`. -/
def Counts (s : DrainState σ) : Prop := 0 ≤ s.contentLength ∧ s.contentLength < 2 ^ 63

theorem drainRequest_eq {s : DrainState σ} (hs : Counts s) {i : ℕ} (h : drainRequest s = some i) :
    (i : ℤ) = min s.contentLength (MAX_DOC_LENGTH - 1 : ℕ) ∧ s.contentLength ≠ 0 := by
  obtain ⟨hpos, hlong⟩ := hs
  unfold drainRequest at h
  split at h
  · cases h
  · next hgo =>
    rw [not_or] at hgo
    cases h
    exact ⟨readLength_eq hpos hlong, hgo.1⟩

theorem Counts.fairRequest {s : DrainState σ} (hs : Counts s) : FairRequest s := by
  intro i hi
  obtain ⟨hlen, hne⟩ := drainRequest_eq hs hi
  have hpos := hs.1
  have hdoc : ((MAX_DOC_LENGTH - 1 : ℕ) : ℤ) = 8191 := rfl
  have hdoc' : MAX_DOC_LENGTH - 1 = 8191 := rfl
  omega

/-- **One round** keeps the count from becoming negative. -/
theorem drainRound_counts (hread : Bounded read) {s s' : DrainState σ} (hs : Counts s)
    (h : drainRound read s = .inr s') : Counts s' := by
  rw [drainRound_request] at h
  split at h
  · cases h
  · next i hi =>
    obtain ⟨hlen, -⟩ := drainRequest_eq hs hi
    split at h
    · cases h
    · next r b c hinto =>
      cases h
      have hgot : r.buflen ≤ i := readInto_result hinto ▸ hread.asked s.conn i
      have hmin := min_le_left s.contentLength ((MAX_DOC_LENGTH - 1 : ℕ) : ℤ)
      obtain ⟨hpos, hlong⟩ := hs
      unfold Counts
      dsimp only
      rw [wrapInt_of_lt (w := 63) (by omega) (by omega)]
      omega

/-- A negative count asks for more than the buffer holds. -/
theorem fairRequest_counts {s : DrainState σ} (h : FairRequest s) (hgo : stops s.status = false)
    (hlong : -2 ^ 63 ≤ s.contentLength) : 0 ≤ s.contentLength := by
  by_contra hneg
  have hrequest : drainRequest s = some (wrapNat 64 s.contentLength) := by
    unfold drainRequest
    rw [if_neg (by rw [hgo]; simp; omega), if_neg (by omega)]
  obtain ⟨-, hle⟩ := h _ hrequest
  have hlarge := wrapNat_neg (not_le.mp hneg) hlong
  have hdoc' : MAX_DOC_LENGTH - 1 = 8191 := rfl
  omega

/-- **Every read of the drain loop asks for between 1 and `MAX_DOC_LENGTH - 1` bytes**, in every run,
exactly when the first read ends the loop or brings no more of the body than was announced. -/
theorem drain_requests_iff (hread : Bounded read) (k : KeepaliveSocket) (mem b : Bytes) (c : σ) :
    (∀ s, DrainVisits read k mem b c s → FairRequest s) ↔ Announced read k mem c := by
  constructor
  · intro hfair hwant r c' h text hfirst hend ha
    have hlong := bytesLeft_long hend text
    have hs := hfair _ ⟨hwant, r, c', h, text, hfirst, hend, ha, .refl⟩
    rcases hend.status with hok | heof
    · right
      have hpos := fairRequest_counts hs (by dsimp only; rw [hok]; rfl) (le_wrapInt 63 _)
      dsimp only at hpos
      rwa [hlong] at hpos
    · exact .inl heof
  · rintro hann s ⟨hwant, r, c', h, text, hfirst, hend, ha, hsteps⟩
    have hlong := bytesLeft_long hend text
    rcases hann hwant r c' h text hfirst hend ha with heof | hpos
    · have hstop : stops r.status = true := by
        rw [heof]
        rfl
      rcases hsteps.cases_head with rfl | ⟨s', hround, -⟩
      · intro i hi
        rw [drainRequest, if_pos (.inr hstop)] at hi
        cases hi
      · rw [drainRound_request, drainRequest, if_pos (.inr hstop)] at hround
        cases hround
    · have hcounts : Counts s := by
        induction hsteps with
        | refl => exact ⟨by dsimp only; omega, wrapInt_lt 63 _⟩
        | tail _ hround ih => exact drainRound_counts hread ih hround
      exact hcounts.fairRequest

/-- `read_socket` is such a reader. -/
theorem bounded_readSocket : Bounded readSocket where
  stored := by
    intro c n
    unfold readSocket
    split
    · exact Nat.zero_le _
    · split
      · exact Nat.zero_le _
      · unfold aprSocketRecv
        split
        · exact le_rfl
        · exact le_rfl
  asked := by
    intro c n
    unfold readSocket
    split
    · exact le_rfl
    · split
      · exact le_rfl
      · unfold aprSocketRecv
        split
        · next hfit => exact hfit
        · exact (List.length_take_le _ _)

/-- A status line, a `Content-Length` of one digit, and two bytes of the body. -/
def twoBytesOf (digit : UInt8) : Bytes :=
  bytes "A\r\nContent-Length: " ++ digit :: bytes "\r\n\r\nAB"

/-- The headers of these bytes. -/
def twoBytesHeaders (digit : UInt8) : HeaderState := ⟨22, [(bytes "Content-Length", [digit])]⟩

/-- A socket that throws the bodies away. -/
def discards : KeepaliveSocket := { keepaliveSocketInit with wantresponse := false }

theorem twoBytesOf_headersEnd {digit : UInt8} (h : digit = 49 ∨ digit = 51) :
    HeadersEnd [] ⟨.success, 26, twoBytesOf digit⟩ (twoBytesHeaders digit) := by
  rcases h with rfl | rfl
  · exact ⟨by decide, by decide, by decide, .inl rfl, halts_of_runLoop (n := 3) (by decide)⟩
  · exact ⟨by decide, by decide, by decide, .inl rfl, halts_of_runLoop (n := 3) (by decide)⟩

theorem twoBytesOf_announces (want : Bool) {digit : UInt8} (h : digit = 49 ∨ digit = 51) :
    Announces { keepaliveSocketInit with wantresponse := want } (twoBytesHeaders digit) [digit] := by
  rcases h with rfl | rfl
  · exact ⟨nofun, by decide, by decide, by decide, by decide⟩
  · exact ⟨nofun, by decide, by decide, by decide, by decide⟩

theorem twoBytesOf_read {digit : UInt8} (h : digit = 49 ∨ digit = 51) :
    readSocket (brings (twoBytesOf digit)) (MAX_DOC_LENGTH - 1) =
      (⟨.success, 26, twoBytesOf digit⟩, ⟨[], [⟨MAX_DOC_LENGTH - 1, twoBytesOf digit⟩]⟩) := by
  have hlen : (twoBytesOf digit).length = 26 := by rcases h with rfl | rfl <;> rfl
  have hfit : (twoBytesOf digit).length ≤ MAX_DOC_LENGTH - 1 := by
    rw [hlen]
    decide
  have hread := readSocket_arrival hfit [] []
  rwa [hlen] at hread

/-- Of three bytes two have come, and one is asked for. -/
theorem drain_requests_oneLeft :
    (∃ s, DrainVisits readSocket discards [] [] (brings (twoBytesOf 51)) s ∧
      drainRequest s = some 1) ∧
    ∀ s, DrainVisits readSocket discards [] [] (brings (twoBytesOf 51)) s → FairRequest s := by
  have hend := twoBytesOf_headersEnd (.inr rfl)
  refine ⟨⟨_, ⟨rfl, _, _, _, _, twoBytesOf_read (.inr rfl), hend, twoBytesOf_announces false (.inr rfl),
    .refl⟩, by decide⟩, (drain_requests_iff bounded_readSocket discards [] [] _).mpr ?_⟩
  intro _ r c' h text hread hend' ha
  cases (twoBytesOf_read (.inr rfl)).symm.trans hread
  cases hend.loop.unique hend'.loop
  cases (twoBytesOf_announces false (.inr rfl)).header.symm.trans ha.header
  exact .inr (by decide)

/-- Of one byte two have come, and the reader is asked for nearly `2 ^ 64` more. -/
theorem surplus_asksForAll :
    ¬ ∀ s, DrainVisits readSocket discards [] [] (brings (twoBytesOf 49)) s → FairRequest s := by
  intro h
  have hfair := h _ ⟨rfl, _, _, _, _, twoBytesOf_read (.inl rfl), twoBytesOf_headersEnd (.inl rfl),
    twoBytesOf_announces false (.inl rfl), .refl⟩
  have hrequest := hfair (2 ^ 64 - 1) (by decide)
  exact absurd hrequest.2 (by decide)

end Flood.DrainRequests
