import Flood.Loop
import Flood.Net

/-!
# The generic socket's receive loops

`generic_recv_resp` reads until end of file or a timeout.  With `wantresponse` set it keeps every
byte in a buffer that is doubled when the next read does not fit; otherwise it keeps the first
read and throws the rest away.

* `genericRecvResp_full` — what the keeping loop returns on any sequence of data reads that ends by
  end of file or by a timeout.
* `genericRecvResp_exact_iff` — the returned buffer is exactly what was delivered if and only if
  the reads end by end of file: a timeout leaves `*buflen` alone, and the loop then copies the
  length it asked for, 8191 bytes of its stack buffer that no read delivered.
-/

namespace Flood.SocketGeneric

open Flood.CString Flood.Loop Flood.Net

section Receive

variable {σ : Type} (read : σ → ℕ → ReadResult × σ)

/-- The locals of the loop that keeps the response: the bytes copied so far (`rbufsize` of them),
the size of the allocation, the stack buffer and the connection. -/
structure FullState (σ : Type) where
  rbuf : Bytes
  currentalloc : ℕ
  b : Bytes
  conn : σ

/-- One round of the keeping loop.  A copy past the doubled allocation is a fault. -/
def fullRound (s : FullState σ) : (Except Abort (FullState σ)) ⊕ FullState σ :=
  let (r, conn) := read s.conn (MAX_DOC_LENGTH - 1)
  let b := store s.b 0 r.data
  let i := r.buflen
  let currentalloc :=
    if s.rbuf.length + i > s.currentalloc then s.currentalloc * 2 else s.currentalloc
  if s.rbuf.length + i > currentalloc then .inl (.error .fault)
  else
    let s' : FullState σ := ⟨s.rbuf ++ fetch b i, currentalloc, b, conn⟩
    if r.status ≠ .eof ∧ r.status ≠ .timeup then .inr s' else .inl (.ok s')

/-- One round of the loop that throws the data away, on the status of the read before it. -/
def discardRound (s : Status × σ) : (Status × σ) ⊕ (Status × σ) :=
  if s.1 ≠ .eof ∧ s.1 ≠ .timeup then
    let (r, conn) := read s.2 (MAX_DOC_LENGTH - 1)
    .inr (r.status, conn)
  else .inl s

/-- `generic_recv_resp`.  `b` and `mem` are what the stack buffer and the freshly allocated
`rbuf` hold before the first read. -/
def genericRecvResp (wantresponse : Bool) (b mem : Bytes) (c : σ) (fuel : ℕ) :
    Option (Except Abort (Status × Option Response × σ)) :=
  if wantresponse then
    (runLoop (fullRound read) fuel ⟨[], MAX_DOC_LENGTH, b, c⟩).bind fun
      | .error a => some (.error a)
      | .ok s => some (.ok (.success, some ⟨false, false, none, s.rbuf, s.rbuf.length, []⟩, s.conn))
  else
    let (r, c) := read c (MAX_DOC_LENGTH - 1)
    let rbuf := store mem 0 r.data
    (runLoop (discardRound read) fuel (r.status, c)).bind fun (status, c) =>
      if status ≠ .success ∧ status ≠ .eof then some (.ok (status, none, c))
      else some (.ok (.success, some ⟨false, false, none, rbuf, r.buflen, []⟩, c))

end Receive

/-! ### The outcomes of a read -/

/-- An outcome of `read_socket` asked for 8191 bytes: some data, end of file with length 0, or a
timeout in `apr_poll`. -/
inductive Outcome where
  | data (bs : Bytes) (hne : bs ≠ []) (hlen : bs.length ≤ MAX_DOC_LENGTH - 1)
  | eof
  | timeup

def Outcome.event : Outcome → NetEvent
  | .data bs _ _ => arrival bs
  | .eof => ⟨.success, .eof, []⟩
  | .timeup => ⟨.timeup, .success, []⟩

/-- The connection on which the reads turn out as listed. -/
def script (outs : List Outcome) : Conn := ⟨outs.map Outcome.event, []⟩

/-- The data read before the first outcome that is not data. -/
def delivered : List Outcome → Bytes
  | .data bs _ _ :: outs => bs ++ delivered outs
  | _ => []

/-- The first outcome that is not data is end of file. -/
def endsByEof : List Outcome → Bool
  | .data _ _ _ :: outs => endsByEof outs
  | .eof :: _ => true
  | _ => false

/-- The full response is returned, with nothing missing and nothing added. -/
def ReturnsDelivered (outs : List Outcome) (b mem : Bytes) : Prop :=
  ∃ resp c, Halts (genericRecvResp readSocket true b mem (script outs))
      (.ok (.success, some resp, c)) ∧
    resp.rbuf = delivered outs ∧ resp.rbufsize = (delivered outs).length

/-! ### The keeping loop -/

/-- The allocation always holds what was copied, and one full read more after a doubling. -/
structure Room {σ : Type} (s : FullState σ) : Prop where
  fits : s.rbuf.length ≤ s.currentalloc
  large : MAX_DOC_LENGTH ≤ s.currentalloc

/-- A round copies what the read left in `*buflen` and never leaves the allocation. -/
theorem fullRound_eq {σ : Type} {read : σ → ℕ → ReadResult × σ} {s : FullState σ} (hs : Room s)
    {r : ReadResult} {c : σ} (hr : read s.conn (MAX_DOC_LENGTH - 1) = (r, c))
    (hlen : r.buflen ≤ MAX_DOC_LENGTH - 1) :
    ∃ s', Room s' ∧ s'.conn = c ∧ s'.rbuf = s.rbuf ++ fetch (store s.b 0 r.data) r.buflen ∧
      fullRound read s =
        if r.status ≠ .eof ∧ r.status ≠ .timeup then .inr s' else .inl (.ok s') := by
  have h1 := hs.fits
  have h2 := hs.large
  let alloc := if s.rbuf.length + r.buflen > s.currentalloc then s.currentalloc * 2
    else s.currentalloc
  have hfit : s.rbuf.length + r.buflen ≤ alloc := by
    simp only [alloc]
    split <;> omega
  have hlarge : MAX_DOC_LENGTH ≤ alloc := by
    simp only [alloc]
    split <;> omega
  refine ⟨⟨s.rbuf ++ fetch (store s.b 0 r.data) r.buflen, alloc, store s.b 0 r.data, c⟩,
    ⟨?_, hlarge⟩, rfl, rfl, ?_⟩
  · simpa only [List.length_append, fetch_length] using hfit
  · simp only [fullRound, hr]
    rw [if_neg (show ¬ s.rbuf.length + r.buflen > alloc from Nat.not_lt.mpr hfit)]

/-- A read that ends the loop and leaves `n` in `*buflen` adds `n` bytes to the buffer. -/
theorem fullLoop_stop {s : FullState Conn} (hs : Room s) {r : ReadResult} {c : Conn}
    (hr : readSocket s.conn (MAX_DOC_LENGTH - 1) = (r, c)) (hlen : r.buflen ≤ MAX_DOC_LENGTH - 1)
    (hstop : r.status = .eof ∨ r.status = .timeup) :
    ∃ s' tail, Halts (fun n => runLoop (fullRound readSocket) n s) (.ok s') ∧
      s'.rbuf = s.rbuf ++ tail ∧ tail.length = r.buflen := by
  obtain ⟨s', -, -, hbuf, hround⟩ := fullRound_eq hs hr hlen
  rw [if_neg (by rcases hstop with h | h <;> simp [h])] at hround
  exact ⟨s', _, halts_inl hround, hbuf, fetch_length _ _⟩

/-- **What the keeping loop returns.**  After the data reads up to the first other outcome the
buffer holds the delivered bytes, followed after a timeout by 8191 bytes nobody delivered. -/
theorem fullLoop_halts (outs : List Outcome) (log : List Read) (s : FullState Conn) (hs : Room s)
    (hc : s.conn = ⟨outs.map Outcome.event, log⟩) :
    ∃ s' tail, Halts (fun n => runLoop (fullRound readSocket) n s) (.ok s') ∧
      s'.rbuf = s.rbuf ++ delivered outs ++ tail ∧
      tail.length = if endsByEof outs then 0 else MAX_DOC_LENGTH - 1 := by
  induction outs generalizing s log with
  | nil =>
    have hr := readSocket_nil log (MAX_DOC_LENGTH - 1)
    obtain ⟨s', tail, hhalt, hbuf, hlen⟩ := fullLoop_stop hs (hc ▸ hr) le_rfl (.inr rfl)
    exact ⟨s', tail, hhalt, by simp [delivered, hbuf], hlen⟩
  | cons o outs ih =>
    cases o with
    | data bs hne hlen =>
      have hr : readSocket s.conn (MAX_DOC_LENGTH - 1) = _ :=
        hc ▸ readSocket_arrival hlen (outs.map Outcome.event) log
      obtain ⟨s₁, hs₁, hc₁, hbuf₁, hround⟩ := fullRound_eq hs hr hlen
      rw [if_pos ⟨by simp, by simp⟩] at hround
      obtain ⟨s', tail, hhalt, hbuf, htail⟩ := ih _ s₁ hs₁ hc₁
      refine ⟨s', tail, halts_inr hround hhalt, ?_, htail⟩
      rw [hbuf, hbuf₁, fetch_store]
      simp only [delivered, List.append_assoc]
    | eof =>
      have hr : readSocket s.conn (MAX_DOC_LENGTH - 1) =
          (⟨.eof, 0, []⟩, ⟨outs.map Outcome.event, log ++ [⟨MAX_DOC_LENGTH - 1, []⟩]⟩) := by
        rw [hc]; rfl
      obtain ⟨s', tail, hhalt, hbuf, hlen⟩ := fullLoop_stop hs hr (Nat.zero_le _) (.inl rfl)
      exact ⟨s', tail, hhalt, by simp [delivered, hbuf], hlen⟩
    | timeup =>
      have hr : readSocket s.conn (MAX_DOC_LENGTH - 1) = _ :=
        hc ▸ readSocket_poll (show Outcome.timeup.event.poll ≠ Status.success by simp [Outcome.event])
          (outs.map Outcome.event) log (MAX_DOC_LENGTH - 1)
      obtain ⟨s', tail, hhalt, hbuf, hlen⟩ := fullLoop_stop hs hr le_rfl (.inr rfl)
      exact ⟨s', tail, hhalt, by simp [delivered, hbuf], hlen⟩

/-- **What `generic_recv_resp` returns with `wantresponse` set.** -/
theorem genericRecvResp_full (outs : List Outcome) (b mem : Bytes) :
    ∃ resp c tail, Halts (genericRecvResp readSocket true b mem (script outs))
        (.ok (.success, some resp, c)) ∧
      resp.rbuf = delivered outs ++ tail ∧ resp.rbufsize = resp.rbuf.length ∧
      tail.length = if endsByEof outs then 0 else MAX_DOC_LENGTH - 1 := by
  obtain ⟨s, tail, hhalt, hbuf, hlen⟩ := fullLoop_halts outs [] ⟨[], MAX_DOC_LENGTH, b, script outs⟩
    ⟨Nat.zero_le _, le_rfl⟩ rfl
  refine ⟨⟨false, false, none, s.rbuf, s.rbuf.length, []⟩, s.conn, tail, ?_, by simpa using hbuf,
    rfl, hlen⟩
  show Halts (fun n => genericRecvResp readSocket true b mem (script outs) n) _
  simp only [genericRecvResp, if_true]
  exact hhalt.bind (halts_const _)

theorem returnsDelivered_of_eof {outs : List Outcome} (h : endsByEof outs = true) (b mem : Bytes) :
    ReturnsDelivered outs b mem := by
  obtain ⟨resp, c, tail, hhalt, hbuf, hsize, hlen⟩ := genericRecvResp_full outs b mem
  rw [if_pos h, List.length_eq_zero_iff] at hlen
  rw [hlen, List.append_nil] at hbuf
  exact ⟨resp, c, hhalt, hbuf, by rw [hsize, hbuf]⟩

/-- The run is deterministic, so after a timeout the bytes nobody delivered are in the buffer. -/
theorem not_returnsDelivered (outs : List Outcome) (h : endsByEof outs = false) (b mem : Bytes) :
    ¬ ReturnsDelivered outs b mem := by
  obtain ⟨resp, c, tail, hhalt, hbuf, -, hlen⟩ := genericRecvResp_full outs b mem
  rintro ⟨resp', c', hhalt', hbuf', -⟩
  have heq := hhalt.unique hhalt'
  simp only [Except.ok.injEq, Prod.mk.injEq, Option.some.injEq, true_and] at heq
  rw [heq.1, hbuf'] at hbuf
  have htail : tail = [] := List.append_right_eq_self.mp hbuf.symm
  rw [h, htail] at hlen
  exact absurd hlen (by decide)

/-- **The full response is exact if and only if the reads end by end of file.** -/
theorem genericRecvResp_exact_iff (outs : List Outcome) (b mem : Bytes) :
    ReturnsDelivered outs b mem ↔ endsByEof outs = true := by
  refine ⟨fun hret => ?_, fun h => returnsDelivered_of_eof h b mem⟩
  by_contra hne
  exact not_returnsDelivered outs (Bool.eq_false_iff.mpr hne) b mem hret

/-- One byte and then a timeout in `apr_poll`: the buffer comes back 8191 bytes too long. -/
theorem genericRecvResp_timeout :
    ¬ ∀ (outs : List Outcome) (b mem : Bytes), ReturnsDelivered outs b mem := fun h =>
  not_returnsDelivered [.data [65] (by decide) (by decide), .timeup] rfl [] [] (h _ _ _)

end Flood.SocketGeneric
