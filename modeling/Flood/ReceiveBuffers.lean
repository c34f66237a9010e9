import Flood.LoadedResponses
import Flood.SocketGeneric

/-!
# The buffers of the loops that read to the end of the connection

`generic_recv_resp` (with `wantresponse` set) and `keepalive_load_resp` (called with `remaining` 0)
keep a response whose length is not known: behind each read the allocation is doubled, once, if the
bytes do not fit, what was received is copied over, and the bytes are appended.  Here the loops run
on the allocations themselves, with `cp` and `rbufsize` apart as in the source; the two differ in
the first allocation, in the type of `currentalloc` and in the statuses that end them.

* `Doubled.room` — after the one doubling there is room for a read of at most 8191 bytes.
* `Appends.run`, `Appends.halts` — the run of a loop each round of which appends what it reads.
* `copyRound_appends`, `fullRound_appends`, `loadRound_appends` — the loops are of that kind, on the
  allocations and on the bytes kept.
* `unknownLength_kept` — every copy stays inside the allocation, what was received survives the
  reallocation, and the functions return the concatenation of the bytes read.
-/

namespace Flood.ReceiveBuffers

open Flood.CString Flood.Loop Flood.Net Flood.SocketGeneric Flood.SocketKeepalive
open Flood.ContentLength

/-! ### Allocations -/

/-- `apr_palloc`: a block of the size asked for, with whatever bytes are in it. -/
structure Heap where
  block : ℕ → Bytes
  size : ∀ n, (block n).length = n

/-- `memcpy` of `n` bytes to the offset `off` of an allocation. -/
def memcpy (mem : Bytes) (off : ℕ) (src : Bytes) (n : ℕ) : Except Abort Bytes :=
  if mem.length < off + n then .error .fault else .ok (store mem off (fetch src n))

theorem memcpy_ok {mem : Bytes} {off n : ℕ} (h : off + n ≤ mem.length) (src : Bytes) :
    memcpy mem off src n = .ok (store mem off (fetch src n)) :=
  if_neg (Nat.not_lt.mpr h)

theorem store_length {mem bs : Bytes} {off : ℕ} (h : off + bs.length ≤ mem.length) :
    (store mem off bs).length = mem.length := by
  simp only [store, List.length_append, fetch_length, List.length_drop]
  omega

/-- Bytes stored at an offset stand behind the bytes in front of it. -/
theorem store_take (mem bs : Bytes) {off : ℕ} (h : off ≤ mem.length) :
    (store mem off bs).take (off + bs.length) = mem.take off ++ bs := by
  have hlen : (mem.take off ++ bs).length = off + bs.length := by
    rw [List.length_append, List.length_take_of_le h]
  rw [store, fetch_of_le h, ← hlen, List.take_left]

/-! ### The loops on their allocations -/

section Receive

variable {σ : Type} (read : σ → ℕ → ReadResult × σ)

/-- The locals of a loop that keeps what it reads: the allocation, the bytes counted, the offset of
`cp`, the size the allocation is thought to have, the stack buffer and the connection. -/
structure CopyState (σ : Type) where
  rbuf : Bytes
  rbufsize : ℕ
  cp : ℕ
  currentalloc : ℤ
  b : Bytes
  conn : σ

/-- `currentalloc` when `i` bytes are about to be copied; `wrap` is the conversion to its type. -/
def grown (wrap : ℤ → ℤ) (s : CopyState σ) (i : ℕ) : ℤ :=
  if s.rbufsize + i > wrapNat 64 s.currentalloc then wrap (s.currentalloc * 2) else s.currentalloc

/-- The allocation when `i` bytes are about to be copied. -/
def growBuffer (heap : Heap) (wrap : ℤ → ℤ) (s : CopyState σ) (i : ℕ) : Except Abort Bytes :=
  if s.rbufsize + i > wrapNat 64 s.currentalloc then
    memcpy (heap.block (wrapNat 64 (grown wrap s i))) 0 s.rbuf s.cp
  else .ok s.rbuf

/-- One round of either loop; `goesOn` is the condition behind it. -/
def copyRound (heap : Heap) (wrap : ℤ → ℤ) (goesOn : Status → Bool) (s : CopyState σ) :
    (Except Abort (CopyState σ)) ⊕ CopyState σ :=
  let (r, conn) := read s.conn (MAX_DOC_LENGTH - 1)
  let b := store s.b 0 r.data
  let i := r.buflen
  match growBuffer heap wrap s i with
  | .error a => .inl (.error a)
  | .ok rbuf =>
    match memcpy rbuf s.cp b i with
    | .error a => .inl (.error a)
    | .ok rbuf =>
      let s' : CopyState σ := ⟨rbuf, s.rbufsize + i, s.cp + i, grown wrap s i, b, conn⟩
      if goesOn r.status then .inr s' else .inl (.ok s')

/-- The statuses behind which the loop of `generic_recv_resp` goes on. -/
def genericGoesOn (status : Status) : Bool := status ≠ .eof ∧ status ≠ .timeup

/-- The loop of `generic_recv_resp`, where `currentalloc` is an `apr_size_t`. -/
def genericCopyRound (heap : Heap) : CopyState σ → (Except Abort (CopyState σ)) ⊕ CopyState σ :=
  copyRound read heap (fun v => wrapNat 64 v) genericGoesOn

/-- The state in front of the loop of `generic_recv_resp`. -/
def genericStart (heap : Heap) (b : Bytes) (c : σ) : CopyState σ :=
  ⟨heap.block MAX_DOC_LENGTH, 0, 0, MAX_DOC_LENGTH, b, c⟩

/-- The statuses behind which the loop of `keepalive_load_resp` goes on when `remain` is 0. -/
def loadGoesOn (status : Status) : Bool := !stops status

/-- The loop of `keepalive_load_resp` when `remain` is 0; `currentalloc` is an `int`. -/
def loadCopyRound (heap : Heap) : CopyState σ → (Except Abort (CopyState σ)) ⊕ CopyState σ :=
  copyRound read heap (wrapInt 32) loadGoesOn

/-- The state in front of the loop of `keepalive_load_resp` when `remaining` is 0. -/
def loadStart (heap : Heap) (resp : Response) (b : Bytes) (c : σ) :
    Except Abort (CopyState σ) :=
  let currentalloc := wrapInt 32 ((MAX_DOC_LENGTH : ℤ) + resp.rbufsize)
  (memcpy (heap.block (wrapNat 64 currentalloc)) 0 resp.rbuf resp.rbufsize).map fun rbuf =>
    ⟨rbuf, resp.rbufsize, resp.rbufsize, currentalloc, b, c⟩

/-! ### The sequence of reads -/

/-- The connection behind the first `n` reads; both loops ask for 8191 bytes each time. -/
def connAt (c : σ) : ℕ → σ
  | 0 => c
  | n + 1 => (read (connAt c n) (MAX_DOC_LENGTH - 1)).2

/-- The read with the number `n`. -/
def readAt (c : σ) (n : ℕ) : ReadResult := (read (connAt read c n) (MAX_DOC_LENGTH - 1)).1

/-- What the first `n` reads stored, one behind the other. -/
def bytesRead (c : σ) : ℕ → Bytes
  | 0 => []
  | n + 1 => bytesRead c n ++ (readAt read c n).data

/-- The first `n` reads store at most the 8191 bytes requested and report their number truthfully,
and there are fewer than 2^30 of them. -/
structure Truthful (c : σ) (n : ℕ) : Prop where
  small : ∀ k < n, (readAt read c k).data.length ≤ MAX_DOC_LENGTH - 1
  honest : ∀ k < n, (readAt read c k).buflen = (readAt read c k).data.length
  total : (bytesRead read c n).length < 2 ^ 30

theorem Truthful.before {c : σ} {n : ℕ} (h : Truthful read c (n + 1)) : Truthful read c n where
  small k hk := h.small k (by omega)
  honest k hk := h.honest k (by omega)
  total := by
    have htotal := h.total
    simp only [bytesRead, List.length_append] at htotal
    omega

theorem read_connAt (c : σ) (n : ℕ) :
    read (connAt read c n) (MAX_DOC_LENGTH - 1) = (readAt read c n, connAt read c (n + 1)) := rfl

/-! ### The growth of the allocation -/

/-- The first allocation of a loop that starts with `f` bytes, after `m` doublings; there are never
more than 17 of them. -/
def Doubled (f alloc : ℕ) : Prop := ∃ m ≤ 17, alloc = (MAX_DOC_LENGTH + f) * 2 ^ m

theorem doubled_first (f : ℕ) : Doubled f (MAX_DOC_LENGTH + f) := ⟨0, by decide, by simp⟩

theorem Doubled.large {f alloc : ℕ} (h : Doubled f alloc) : MAX_DOC_LENGTH ≤ alloc := by
  obtain ⟨m, -, rfl⟩ := h
  calc MAX_DOC_LENGTH ≤ MAX_DOC_LENGTH + f := Nat.le_add_right _ _
    _ ≤ (MAX_DOC_LENGTH + f) * 2 ^ m := Nat.le_mul_of_pos_right _ (Nat.two_pow_pos m)

theorem Doubled.bounded {f alloc : ℕ} (h : Doubled f alloc) (hf : f ≤ MAX_DOC_LENGTH - 1) :
    alloc < 2 ^ 31 := by
  obtain ⟨m, hm, rfl⟩ := h
  have hpow : 2 ^ m ≤ 2 ^ 17 := Nat.pow_le_pow_right (by decide) hm
  have hbase : MAX_DOC_LENGTH + f ≤ 2 ^ 14 - 1 := by simp only [MAX_DOC_LENGTH] at hf ⊢; omega
  calc (MAX_DOC_LENGTH + f) * 2 ^ m ≤ (2 ^ 14 - 1) * 2 ^ 17 := Nat.mul_le_mul hbase hpow
    _ < 2 ^ 31 := by decide

/-- An allocation that fewer than 2^30 bytes behind the first ones outgrow has not been doubled 17
times. -/
theorem Doubled.double {f alloc : ℕ} (h : Doubled f alloc) (hsmall : alloc < f + 2 ^ 30) :
    Doubled f (alloc * 2) := by
  obtain ⟨m, hm, rfl⟩ := h
  refine ⟨m + 1, ?_, by rw [Nat.pow_succ, Nat.mul_assoc]⟩
  by_contra hlast
  obtain rfl : m = 17 := by omega
  simp only [MAX_DOC_LENGTH] at hsmall
  omega

/-- The size of an allocation that has to hold `n` bytes: it is doubled, once, if it is too small. -/
def grownTo (alloc n : ℕ) : ℕ := if n > alloc then alloc * 2 else alloc

/-- **A single doubling is enough** for a piece of at most 8191 bytes. -/
theorem Doubled.room {f alloc k i : ℕ} (h : Doubled f alloc) (hfits : k ≤ alloc)
    (hi : i ≤ MAX_DOC_LENGTH - 1) (htotal : k + i < f + 2 ^ 30) :
    Doubled f (grownTo alloc (k + i)) ∧ k + i ≤ grownTo alloc (k + i) := by
  have hlarge := h.large
  unfold grownTo
  split
  · exact ⟨h.double (by omega), by omega⟩
  · exact ⟨h, by omega⟩

/-! ### The invariant -/

/-- The allocation has the size it is thought to have, and the bytes received so far at its start,
of which the first `f` were there before the loop; `cp` and `rbufsize` stand behind these. -/
structure Holds (f : ℕ) (s : CopyState σ) (kept : Bytes) : Prop where
  size : (s.rbuf.length : ℤ) = s.currentalloc
  doubled : Doubled f s.rbuf.length
  content : s.rbuf.take kept.length = kept
  counted : s.rbufsize = kept.length
  cp_eq : s.cp = kept.length

theorem Holds.fits {f : ℕ} {s : CopyState σ} {kept : Bytes} (h : Holds f s kept) :
    kept.length ≤ s.rbuf.length := by
  have hlen := congrArg List.length h.content
  rw [List.length_take] at hlen
  omega

/-- The conversion keeps the sizes that occur. -/
def Keeps (wrap : ℤ → ℤ) : Prop := ∀ n : ℕ, n < 2 ^ 31 → wrap n = n

theorem keeps_size : Keeps fun v => wrapNat 64 v := by
  intro n hn
  show ((wrapNat 64 n : ℕ) : ℤ) = n
  rw [wrapNat_of_lt (by omega)]

theorem keeps_int : Keeps (wrapInt 32) := fun n hn =>
  wrapInt_of_lt (w := 31) (Int.natCast_nonneg n) (by exact_mod_cast hn)

/-- **A single doubling is enough**: a piece of at most 8191 bytes fits the grown allocation, and
what was received before is still at its start. -/
theorem growBuffer_fits {f : ℕ} (hf : f ≤ MAX_DOC_LENGTH - 1) {s : CopyState σ} {kept : Bytes}
    (h : Holds f s kept) (heap : Heap) {wrap : ℤ → ℤ} (hwrap : Keeps wrap) {i : ℕ}
    (hi : i ≤ MAX_DOC_LENGTH - 1) (htotal : kept.length + i < f + 2 ^ 30) :
    ∃ rbuf, growBuffer heap wrap s i = .ok rbuf ∧ (rbuf.length : ℤ) = grown wrap s i ∧
      kept.length + i ≤ rbuf.length ∧ Doubled f rbuf.length ∧ rbuf.take kept.length = kept := by
  have hlarge := h.doubled.large
  have hbound := h.doubled.bounded hf
  have hfits := h.fits
  have hcurrent : wrapNat 64 s.currentalloc = s.rbuf.length := by
    rw [← h.size, wrapNat_of_lt (by omega)]
  unfold growBuffer grown
  rw [hcurrent, h.counted, h.cp_eq]
  by_cases hgrow : kept.length + i > s.rbuf.length
  · have hdoubled := h.doubled.double (by omega)
    have hint := hdoubled.bounded hf
    have hdouble : wrap (s.currentalloc * 2) = (s.rbuf.length * 2 : ℕ) := by
      rw [← h.size, ← hwrap _ hint]
      push_cast
      rfl
    have hblock : (heap.block (s.rbuf.length * 2)).length = s.rbuf.length * 2 := heap.size _
    have hkept : fetch s.rbuf kept.length = kept := by rw [fetch_of_le hfits, h.content]
    have hlen : (store (heap.block (s.rbuf.length * 2)) 0 kept).length = s.rbuf.length * 2 := by
      rw [store_length (by rw [hblock]; omega), hblock]
    have htake := store_take (heap.block (s.rbuf.length * 2)) kept (Nat.zero_le _)
    rw [if_pos hgrow, if_pos hgrow, hdouble, wrapNat_of_lt (by omega),
      memcpy_ok (by rw [hblock]; omega), hkept]
    refine ⟨_, rfl, by rw [hlen], by omega, by rwa [hlen], by simpa using htake⟩
  · rw [if_neg hgrow, if_neg hgrow]
    exact ⟨s.rbuf, rfl, h.size, by omega, h.doubled, h.content⟩

/-! ### Loops that append what they read -/

/-- A round of this loop appends what it reads to the bytes that `Inv` says the state has kept, as
long as there are fewer than 2^30 behind the first `f` bytes. -/
def Appends {τ ρ : Type} (goesOn : Status → Bool) (body : τ → (Except Abort ρ) ⊕ τ)
    (out : Status → τ → ρ) (conn : τ → σ) (f : ℕ) (Inv : τ → Bytes → Prop) : Prop :=
  ∀ s kept r c, Inv s kept → read (conn s) (MAX_DOC_LENGTH - 1) = (r, c) →
    r.buflen = r.data.length → r.data.length ≤ MAX_DOC_LENGTH - 1 →
    kept.length + r.data.length < f + 2 ^ 30 →
    ∃ s', Inv s' (kept ++ r.data) ∧ conn s' = c ∧
      body s = if goesOn r.status then .inr s' else .inl (.ok (out r.status s'))

section Run

variable {read} {τ ρ : Type} {goesOn : Status → Bool} {body : τ → (Except Abort ρ) ⊕ τ}
  {out : Status → τ → ρ} {conn : τ → σ} {Inv : τ → Bytes → Prop} {c : σ} {first : Bytes} {start : τ}

/-- The round with the number `n`, from a state that has kept what the reads before it stored. -/
theorem Appends.round (h : Appends read goesOn body out conn first.length Inv) {n : ℕ} {s : τ}
    (hs : Inv s (first ++ bytesRead read c n)) (hconn : conn s = connAt read c n)
    (htruth : Truthful read c (n + 1)) :
    ∃ s', Inv s' (first ++ bytesRead read c (n + 1)) ∧ conn s' = connAt read c (n + 1) ∧
      body s = if goesOn (readAt read c n).status then .inr s'
        else .inl (.ok (out (readAt read c n).status s')) := by
  have htotal := htruth.total
  simp only [bytesRead, List.length_append] at htotal
  obtain ⟨s', hs', hc', hround⟩ := h s _ _ _ hs (hconn ▸ read_connAt read c n)
    (htruth.honest n (by omega)) (htruth.small n (by omega)) (by rw [List.length_append]; omega)
  exact ⟨s', by rwa [bytesRead, ← List.append_assoc], hc', hround⟩

/-- **Every run**: behind `n` reads that let the loop go on, it has kept what was there first and
what these reads stored. -/
theorem Appends.run (h : Appends read goesOn body out conn first.length Inv)
    (hstart : Inv start first) (hconn : conn start = c) {n : ℕ} (htruth : Truthful read c n)
    (hon : ∀ k < n, goesOn (readAt read c k).status = true) :
    ∃ s, Steps body start s ∧ Inv s (first ++ bytesRead read c n) ∧ conn s = connAt read c n := by
  induction n with
  | zero => exact ⟨start, .refl, by simpa [bytesRead] using hstart, hconn⟩
  | succ n ih =>
    obtain ⟨s, hsteps, hs, hc⟩ := ih htruth.before fun k hk => hon k (by omega)
    obtain ⟨s', hs', hc', hround⟩ := h.round hs hc htruth
    rw [if_pos (hon n (by omega))] at hround
    exact ⟨s', hsteps.tail hround, hs', hc'⟩

variable (first start) in
/-- The loop returns at the first read that does not let it go on. -/
theorem Appends.halts (h : Appends read goesOn body out conn first.length Inv)
    (hstart : Inv start first) (hconn : conn start = c) {n : ℕ} (htruth : Truthful read c (n + 1))
    (hon : ∀ k < n, goesOn (readAt read c k).status = true)
    (hstop : goesOn (readAt read c n).status = false) :
    ∃ s, Halts (fun m => runLoop body m start) (.ok (out (readAt read c n).status s)) ∧
      Inv s (first ++ bytesRead read c (n + 1)) ∧ conn s = connAt read c (n + 1) := by
  obtain ⟨s, hsteps, hs, hc⟩ := h.run hstart hconn htruth.before hon
  obtain ⟨s', hs', hc', hround⟩ := h.round hs hc htruth
  rw [hstop, if_neg (by decide)] at hround
  exact ⟨s', halts_of_steps hsteps (halts_inl hround), hs', hc'⟩

end Run

/-- **A round on the allocation appends what it reads.** -/
theorem copyRound_appends {f : ℕ} (hf : f ≤ MAX_DOC_LENGTH - 1) (heap : Heap) {wrap : ℤ → ℤ}
    (hwrap : Keeps wrap) (goesOn : Status → Bool) :
    Appends read goesOn (copyRound read heap wrap goesOn) (fun _ s => s) CopyState.conn f
      (Holds f) := by
  intro s kept r c h hread hhonest hsmall htotal
  obtain ⟨rbuf, hgrow, hsize, hroom, hdoubled, hcontent⟩ :=
    growBuffer_fits hf h heap hwrap hsmall htotal
  refine ⟨⟨store rbuf kept.length r.data, kept.length + r.data.length,
    kept.length + r.data.length, grown wrap s r.data.length, store s.b 0 r.data, c⟩,
    ⟨?_, ?_, ?_, ?_, ?_⟩, rfl, ?_⟩
  · rw [store_length hroom, hsize]
  · rwa [store_length hroom]
  · rw [List.length_append, store_take _ _ (by omega), hcontent]
  · exact (List.length_append).symm
  · exact (List.length_append).symm
  · simp only [copyRound, hread, hhonest, hgrow, h.cp_eq, h.counted, memcpy_ok hroom, fetch_store]

/-- The round of `generic_recv_resp`, on the bytes kept, does the same. -/
theorem fullRound_appends :
    Appends read genericGoesOn (fullRound read) (fun _ s => s) FullState.conn 0
      fun s kept => s.rbuf = kept ∧ Room s := by
  rintro s kept r c ⟨rfl, hroom⟩ hread hhonest hsmall -
  obtain ⟨s', hroom', hc, hbuf, hround⟩ := fullRound_eq hroom hread (hhonest ▸ hsmall)
  rw [hhonest, fetch_store] at hbuf
  refine ⟨s', ⟨hbuf, hroom'⟩, hc, hround.trans ?_⟩
  simp only [genericGoesOn, decide_eq_true_eq]

/-- So does the round of `keepalive_load_resp` with `remaining` 0. -/
theorem loadRound_appends {f : ℕ} (hf : f ≤ MAX_DOC_LENGTH - 1) :
    Appends read loadGoesOn (loadRound read false) Prod.mk LoadState.conn f
      fun s kept => s.rbuf = kept ∧
        ∃ alloc : ℕ, s.currentalloc = alloc ∧ Doubled f alloc ∧ kept.length ≤ alloc := by
  rintro s kept r c ⟨rfl, alloc, halloc, hdoubled, hfits⟩ hread hhonest hsmall htotal
  obtain ⟨hdoubled', hroom⟩ := hdoubled.room hfits hsmall htotal
  have hbound := hdoubled.bounded hf
  have hbuf : (loaded s r c).rbuf = s.rbuf ++ r.data := by
    show s.rbuf ++ fetch (store s.b 0 r.data) r.buflen = s.rbuf ++ r.data
    rw [hhonest, fetch_store]
  have hcurrent : (loaded s r c).currentalloc = (grownTo alloc (s.rbuf.length + r.data.length) : ℕ) := by
    simp only [loaded, halloc, hhonest, grownTo] at hdoubled' ⊢
    rw [wrapNat_of_lt (by omega)]
    split
    · next hgrow =>
      rw [if_pos hgrow] at hdoubled'
      rw [← keeps_int _ (hdoubled'.bounded hf)]
      push_cast
      rfl
    · rfl
  refine ⟨loaded s r c, ⟨hbuf, _, hcurrent, hdoubled', by rwa [List.length_append]⟩, rfl, ?_⟩
  rw [loadRound_eq (if_pos (.inl rfl)) hread, hcurrent, hhonest, if_neg (by omega)]
  simp only [loadGoesOn, true_or, and_true, Bool.not_eq_true, Bool.not_eq_true']

/-! ### What the loops keep -/

/-- Behind `n` reads that let it go on, the loop stands in front of a copy that stays inside the
allocation; what was received before survives the reallocation, and behind the copy all that was
received stands at the start of the allocation. -/
def KeptAt (heap : Heap) (wrap : ℤ → ℤ) (goesOn : Status → Bool)
    (round : CopyState σ → (Except Abort (CopyState σ)) ⊕ CopyState σ) (start : CopyState σ) (c : σ)
    (first : Bytes) (n : ℕ) : Prop :=
  ∃ s s' rbuf, Steps round start s ∧ s.conn = connAt read c n ∧
    growBuffer heap wrap s (readAt read c n).buflen = .ok rbuf ∧
    (s.rbufsize + (readAt read c n).buflen : ℕ) ≤ grown wrap s (readAt read c n).buflen ∧
    (rbuf.length : ℤ) = grown wrap s (readAt read c n).buflen ∧
    rbuf.take s.rbufsize = first ++ bytesRead read c n ∧
    (round s = if goesOn (readAt read c n).status then .inr s' else .inl (.ok s')) ∧
    s'.rbuf.take s'.rbufsize = first ++ bytesRead read c (n + 1)

theorem copyLoop_kept (heap : Heap) {wrap : ℤ → ℤ} (hwrap : Keeps wrap) (goesOn : Status → Bool)
    (first : Bytes) {start : CopyState σ} (hfirst : first.length ≤ MAX_DOC_LENGTH - 1)
    (hstart : Holds first.length start first) {n : ℕ} (htruth : Truthful read start.conn (n + 1))
    (hon : ∀ k < n, goesOn (readAt read start.conn k).status = true) :
    KeptAt read heap wrap goesOn (copyRound read heap wrap goesOn) start start.conn first n := by
  have happ := copyRound_appends read hfirst heap hwrap goesOn
  obtain ⟨s, hsteps, hs, hc⟩ := happ.run hstart rfl htruth.before hon
  obtain ⟨s', hs', -, hround⟩ := happ.round hs hc htruth
  have htotal := htruth.total
  have hhonest := htruth.honest n (by omega)
  simp only [bytesRead, List.length_append] at htotal
  obtain ⟨rbuf, hgrow, hsize, hroom, -, hcontent⟩ :=
    growBuffer_fits hfirst hs heap hwrap (htruth.small n (by omega))
      (by rw [List.length_append]; omega)
  refine ⟨s, s', rbuf, hsteps, hc, by rwa [hhonest], ?_, by rwa [hhonest], ?_, hround, ?_⟩
  · rw [hhonest, ← hsize, hs.counted]
    exact_mod_cast hroom
  · rw [hs.counted, hcontent]
  · rw [hs'.counted, hs'.content]

theorem genericStart_holds (heap : Heap) (b : Bytes) (c : σ) :
    Holds 0 (genericStart heap b c) [] where
  size := by simp only [genericStart, heap.size]
  doubled := by
    simp only [genericStart, heap.size]
    exact doubled_first 0
  content := rfl
  counted := rfl
  cp_eq := rfl

/-- The size of the first allocation of `keepalive_load_resp` is an `int`. -/
theorem loadAlloc_eq {rbufsize : ℕ} (hsize : rbufsize ≤ MAX_DOC_LENGTH - 1) :
    wrapInt 32 ((MAX_DOC_LENGTH : ℤ) + rbufsize) = (MAX_DOC_LENGTH + rbufsize : ℕ) := by
  rw [← keeps_int _ ((doubled_first rbufsize).bounded hsize)]
  push_cast
  rfl

/-- The first allocation of `keepalive_load_resp` holds what was read before it. -/
theorem loadStart_holds (heap : Heap) {resp : Response} (hsize : resp.rbufsize ≤ MAX_DOC_LENGTH - 1)
    (b : Bytes) (c : σ) :
    ∃ start, loadStart heap resp b c = .ok start ∧ start.conn = c ∧
      Holds resp.rbufsize start (fetch resp.rbuf resp.rbufsize) := by
  have hbound := (doubled_first resp.rbufsize).bounded hsize
  have hcurrent := loadAlloc_eq hsize
  have hblock : (heap.block (MAX_DOC_LENGTH + resp.rbufsize)).length =
      MAX_DOC_LENGTH + resp.rbufsize := heap.size _
  have hroom : 0 + (fetch resp.rbuf resp.rbufsize).length ≤
      (heap.block (MAX_DOC_LENGTH + resp.rbufsize)).length := by
    rw [fetch_length, hblock]
    omega
  have hlen := (store_length hroom).trans hblock
  have htake := store_take (heap.block (MAX_DOC_LENGTH + resp.rbufsize))
    (fetch resp.rbuf resp.rbufsize) (Nat.zero_le _)
  refine ⟨⟨store (heap.block (MAX_DOC_LENGTH + resp.rbufsize)) 0 (fetch resp.rbuf resp.rbufsize),
    resp.rbufsize, resp.rbufsize, (MAX_DOC_LENGTH + resp.rbufsize : ℕ), b, c⟩, ?_, rfl, ?_⟩
  · simp only [loadStart, hcurrent]
    rw [wrapNat_of_lt (by omega), memcpy_ok (by rw [hblock]; omega)]
    rfl
  · refine ⟨by rw [hlen], by rw [hlen]; exact doubled_first _, ?_, (fetch_length _ _).symm,
      (fetch_length _ _).symm⟩
    simpa using htake

/-- What `generic_recv_resp` returns when the reads stop it. -/
theorem genericRecvResp_returns (b mem : Bytes) (c : σ) {n : ℕ} (htruth : Truthful read c (n + 1))
    (hon : ∀ k < n, genericGoesOn (readAt read c k).status = true)
    (hstop : genericGoesOn (readAt read c n).status = false) :
    Halts (genericRecvResp read true b mem c)
      (.ok (.success, some ⟨false, false, none, bytesRead read c (n + 1),
        (bytesRead read c (n + 1)).length, []⟩, connAt read c (n + 1))) := by
  obtain ⟨s, hhalts, ⟨hbuf, -⟩, hc⟩ := Appends.halts [] ⟨[], MAX_DOC_LENGTH, b, c⟩
    (fullRound_appends read) ⟨rfl, Nat.zero_le _, le_rfl⟩ rfl htruth hon hstop
  rw [List.nil_append] at hbuf
  rw [← hbuf, ← hc]
  show Halts (fun m => genericRecvResp read true b mem c m) _
  simp only [genericRecvResp, if_true]
  exact hhalts.bind (halts_const _)

/-- What `keepalive_load_resp` returns when the reads stop it. -/
theorem loadResp_returns {resp : Response} (hsize : resp.rbufsize ≤ MAX_DOC_LENGTH - 1) (b : Bytes)
    (c : σ) {n : ℕ} (htruth : Truthful read c (n + 1))
    (hon : ∀ k < n, loadGoesOn (readAt read c k).status = true)
    (hstop : loadGoesOn (readAt read c n).status = false) :
    Halts (keepaliveLoadResp read resp 0 b c)
      (.ok ((readAt read c n).status,
        { resp with
          rbuf := fetch resp.rbuf resp.rbufsize ++ bytesRead read c (n + 1)
          rbufsize := (fetch resp.rbuf resp.rbufsize ++ bytesRead read c (n + 1)).length },
        connAt read c (n + 1))) := by
  have hcurrent := loadAlloc_eq hsize
  obtain ⟨s, hhalts, ⟨hbuf, -⟩, hc⟩ :=
    Appends.halts (fetch resp.rbuf resp.rbufsize)
      ⟨fetch resp.rbuf resp.rbufsize, (MAX_DOC_LENGTH + resp.rbufsize : ℕ), 0, b, c⟩
      (loadRound_appends read (by rwa [fetch_length]))
      ⟨rfl, MAX_DOC_LENGTH + resp.rbufsize, rfl, by rw [fetch_length]; exact doubled_first _,
        by rw [fetch_length]; omega⟩ rfl htruth hon hstop
  rw [← hbuf, ← hc]
  refine Halts.congr (fun m => ?_) (hhalts.map (Except.map fun p : Status × LoadState σ =>
    (p.1, { resp with rbuf := p.2.rbuf, rbufsize := p.2.rbuf.length }, p.2.conn)))
  show keepaliveLoadResp read resp 0 b c m = _
  simp only [keepaliveLoadResp, hcurrent, Nat.lt_irrefl, gt_iff_lt, if_false, decide_false]
  rw [if_neg (by omega)]
  exact congrArg (fun f => Option.map f _) (funext fun r => by cases r <;> rfl)

/-- **The loops that read to the end of the connection**, over any reader and any allocator: every
copy stays inside the allocation, what was received survives the reallocation, and what the two
functions return is the concatenation of all bytes read. -/
theorem unknownLength_kept (heap : Heap) (b : Bytes) (c : σ) (n : ℕ)
    (htruth : Truthful read c (n + 1)) :
    ((∀ k < n, genericGoesOn (readAt read c k).status = true) →
      KeptAt read heap (fun v => wrapNat 64 v) genericGoesOn (genericCopyRound read heap)
        (genericStart heap b c) c [] n ∧
      (genericGoesOn (readAt read c n).status = false → ∀ mem,
        Halts (genericRecvResp read true b mem c)
          (.ok (.success, some ⟨false, false, none, bytesRead read c (n + 1),
            (bytesRead read c (n + 1)).length, []⟩, connAt read c (n + 1))))) ∧
    ∀ resp : Response, resp.rbufsize ≤ MAX_DOC_LENGTH - 1 →
      (∀ k < n, loadGoesOn (readAt read c k).status = true) →
      (∃ start, loadStart heap resp b c = .ok start ∧
        KeptAt read heap (wrapInt 32) loadGoesOn (loadCopyRound read heap) start c
          (fetch resp.rbuf resp.rbufsize) n) ∧
      (loadGoesOn (readAt read c n).status = false →
        Halts (keepaliveLoadResp read resp 0 b c)
          (.ok ((readAt read c n).status,
            { resp with
              rbuf := fetch resp.rbuf resp.rbufsize ++ bytesRead read c (n + 1)
              rbufsize := (fetch resp.rbuf resp.rbufsize ++ bytesRead read c (n + 1)).length },
            connAt read c (n + 1)))) := by
  constructor
  · intro hon
    exact ⟨copyLoop_kept read heap keeps_size genericGoesOn [] (Nat.zero_le _)
        (genericStart_holds heap b c) htruth hon,
      fun hstop mem => genericRecvResp_returns read b mem c htruth hon hstop⟩
  · intro resp hsize hon
    obtain ⟨start, hstart, rfl, hholds⟩ := loadStart_holds heap hsize b c
    rw [← fetch_length resp.rbuf resp.rbufsize] at hsize
    refine ⟨⟨start, hstart, copyLoop_kept read heap keeps_int loadGoesOn _ hsize ?_ htruth hon⟩,
      fun hstop => ?_⟩
    · rwa [fetch_length]
    · exact loadResp_returns read (by rwa [fetch_length] at hsize) b start.conn htruth hon hstop

end Receive

/-- Memory full of zeros. -/
def zeroHeap : Heap where
  block n := List.replicate n 0
  size _ := List.length_replicate

/-- A response whose first read brought two bytes. -/
def twoBytes : Response := ⟨true, false, none, [72, 84], 2, []⟩

/-- A read of as many bytes as are asked for. -/
def fullRead (x : UInt8) : Bytes := List.replicate (MAX_DOC_LENGTH - 1) x

/-- Two such reads, and then end of file. -/
def twoFull : Conn :=
  ⟨[arrival (fullRead 65), arrival (fullRead 66), ⟨.success, .eof, []⟩], []⟩

theorem fullRead_length (x : UInt8) : (fullRead x).length = MAX_DOC_LENGTH - 1 :=
  List.length_replicate

theorem twoFull_reads :
    readAt readSocket twoFull 0 = ⟨.success, MAX_DOC_LENGTH - 1, fullRead 65⟩ ∧
      readAt readSocket twoFull 1 = ⟨.success, MAX_DOC_LENGTH - 1, fullRead 66⟩ ∧
      readAt readSocket twoFull 2 = ⟨.eof, 0, []⟩ := by
  have hfirst := readSocket_arrival (fullRead_length 65).le
    [arrival (fullRead 66), ⟨.success, .eof, []⟩] []
  have hsecond := readSocket_arrival (fullRead_length 66).le [⟨.success, .eof, []⟩]
    ([] ++ [⟨MAX_DOC_LENGTH - 1, fullRead 65⟩])
  rw [fullRead_length] at hfirst hsecond
  simp only [readAt, connAt, twoFull, hfirst, hsecond]
  exact ⟨trivial, trivial, rfl⟩

theorem twoFull_bytes : bytesRead readSocket twoFull 3 = fullRead 65 ++ fullRead 66 := by
  obtain ⟨h₀, h₁, h₂⟩ := twoFull_reads
  simp only [bytesRead, h₀, h₁, h₂, List.nil_append, List.append_nil]

theorem twoFull_truthful : Truthful readSocket twoFull 3 := by
  obtain ⟨h₀, h₁, h₂⟩ := twoFull_reads
  refine ⟨fun k hk => ?_, fun k hk => ?_, ?_⟩
  · obtain rfl | rfl | rfl : k = 0 ∨ k = 1 ∨ k = 2 := by omega
    · rw [h₀, fullRead_length]
    · rw [h₁, fullRead_length]
    · rw [h₂]
      exact Nat.zero_le _
  · obtain rfl | rfl | rfl : k = 0 ∨ k = 1 ∨ k = 2 := by omega
    · rw [h₀, fullRead_length]
    · rw [h₁, fullRead_length]
    · rw [h₂]
      rfl
  · rw [twoFull_bytes, List.length_append, fullRead_length, fullRead_length]
    decide

/-- Two full reads and then end of file: the second doubles the allocation, and both loops return all
that was read. -/
theorem unknownLength_kept_twoFull :
    KeptAt readSocket zeroHeap (fun v => wrapNat 64 v) genericGoesOn
      (genericCopyRound readSocket zeroHeap) (genericStart zeroHeap [] twoFull) twoFull [] 1 ∧
    Halts (genericRecvResp readSocket true [] [] twoFull)
      (.ok (.success, some ⟨false, false, none, fullRead 65 ++ fullRead 66,
        (fullRead 65 ++ fullRead 66).length, []⟩, connAt readSocket twoFull 3)) ∧
    (∃ start, loadStart zeroHeap twoBytes [] twoFull = .ok start ∧
      KeptAt readSocket zeroHeap (wrapInt 32) loadGoesOn (loadCopyRound readSocket zeroHeap) start
        twoFull [72, 84] 1) ∧
    Halts (keepaliveLoadResp readSocket twoBytes 0 [] twoFull)
      (.ok (.eof, { twoBytes with
        rbuf := [72, 84] ++ (fullRead 65 ++ fullRead 66)
        rbufsize := ([72, 84] ++ (fullRead 65 ++ fullRead 66)).length },
        connAt readSocket twoFull 3)) := by
  obtain ⟨h₀, h₁, h₂⟩ := twoFull_reads
  have hon : ∀ goesOn : Status → Bool, goesOn .success = true →
      ∀ k < 2, goesOn (readAt readSocket twoFull k).status = true := by
    intro goesOn hgoes k hk
    obtain rfl | rfl : k = 0 ∨ k = 1 := by omega
    · rwa [h₀]
    · rwa [h₁]
  have hgeneric := hon genericGoesOn rfl
  have hload := hon loadGoesOn rfl
  have hstop : (readAt readSocket twoFull 2).status = .eof := by rw [h₂]
  obtain ⟨hkept, hkept'⟩ := unknownLength_kept readSocket zeroHeap [] twoFull 1
    twoFull_truthful.before
  obtain ⟨hall, hall'⟩ := unknownLength_kept readSocket zeroHeap [] twoFull 2 twoFull_truthful
  rw [twoFull_bytes, hstop] at hall hall'
  exact ⟨(hkept fun k hk => hgeneric k (by omega)).1, (hall hgeneric).2 rfl [],
    (hkept' twoBytes (by decide) fun k hk => hload k (by omega)).1,
    (hall' twoBytes (by decide) hload).2 rfl⟩

end Flood.ReceiveBuffers
