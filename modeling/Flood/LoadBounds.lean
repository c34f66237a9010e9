import Flood.DrainRequests
import Flood.LoadedResponses

/-!
# The bounds of the loading loop

`keepalive_load_resp` adds the bytes that are left to those that were read, and keeps the sum as the
size of its buffer in an `int`.

* `loadRound_exact` — a sum that fits is the size that the whole response needs, and is never grown.
* `load_runsOut` — one that does not fit runs out, if the server sends what it announced.
* `load_inBounds_iff` — no copy leaves the buffer, whatever the later reads bring, exactly when the
  header block and the announced body are shorter than `2 ^ 31` bytes together.
-/

namespace Flood.LoadBounds

open Flood.CString Flood.Loop Flood.Net Flood.SocketKeepalive Flood.ContentLength
open Flood.LoadedResponses Flood.DrainRequests

variable {σ : Type} {read : σ → ℕ → ReadResult × σ}

/-! ### The copies -/

/-- The length of a read with this many bytes to go. -/
def loadRequest (remaining : ℕ) : ℕ := min remaining (MAX_DOC_LENGTH - 1)

/-- The outcome of the read in a round of the loop. -/
def loadRead (read : σ → ℕ → ReadResult × σ) (s : LoadState σ) : ReadResult × σ :=
  read s.conn (loadRequest s.remaining)

/-- The locals behind that read. -/
def behindLoad (read : σ → ℕ → ReadResult × σ) (s : LoadState σ) : LoadState σ :=
  loaded s (loadRead read s).1 (loadRead read s).2

/-- The copy of a round stays inside the buffer: `rbufsize + i <= currentalloc`. -/
def CopyFits (read : σ → ℕ → ReadResult × σ) (s : LoadState σ) : Prop :=
  ((s.rbuf.length + (loadRead read s).1.buflen : ℕ) : ℤ) ≤ (behindLoad read s).currentalloc

/-- **One round**: a copy that leaves the buffer is a fault, any other is made. -/
theorem loadRound_copy (read : σ → ℕ → ReadResult × σ) (s : LoadState σ) :
    (¬ CopyFits read s ∧ loadRound read true s = .inl (.error .fault)) ∨
    (CopyFits read s ∧ loadRound read true s =
      if stops (loadRead read s).1.status = false ∧ (behindLoad read s).remaining ≠ 0 then
        .inr (behindLoad read s)
      else .inl (.ok ((loadRead read s).1.status, behindLoad read s))) := by
  have hrequest : (if true = false ∨ s.remaining > MAX_DOC_LENGTH - 1 then MAX_DOC_LENGTH - 1
      else s.remaining) = loadRequest s.remaining := by
    simp only [loadRequest, Bool.true_eq_false, false_or]
    split <;> omega
  have hread : read s.conn (loadRequest s.remaining) = ((loadRead read s).1, (loadRead read s).2) := rfl
  have hround := loadRound_eq hrequest hread
  by_cases hfits : CopyFits read s
  · right
    refine ⟨hfits, hround.trans ((if_neg (not_lt.mpr hfits)).trans ?_)⟩
    simp only [Bool.true_eq_false, false_or, Bool.not_eq_true]
    rfl
  · exact .inl ⟨hfits, hround.trans (if_pos (not_le.mp hfits))⟩

/-- Every copy of a run that starts here stays inside the buffer, and so does the first one, of what
was read before. -/
def InBounds (read : σ → ℕ → ReadResult × σ) (s₀ : LoadState σ) : Prop :=
  (s₀.rbuf.length : ℤ) ≤ s₀.currentalloc ∧ ∀ s, Steps (loadRound read true) s₀ s → CopyFits read s

/-! ### A sum that fits -/

/-- The buffer has exactly the size of what was read and what is to come, as an `int`. -/
def Exact (s : LoadState σ) : Prop :=
  ((s.rbuf.length + s.remaining : ℕ) : ℤ) = s.currentalloc ∧ s.currentalloc < 2 ^ 31

/-- A read of no more than is left does not make such a buffer grow. -/
theorem loaded_exact {s : LoadState σ} (hs : Exact s) {r : ReadResult}
    (hgot : r.buflen ≤ s.remaining) (c : σ) :
    (loaded s r c).currentalloc = s.currentalloc ∧
      (loaded s r c).remaining = s.remaining - r.buflen ∧
      (loaded s r c).rbuf.length = s.rbuf.length + r.buflen := by
  obtain ⟨hsize, hint⟩ := hs
  have halloc : wrapNat 64 s.currentalloc = s.rbuf.length + s.remaining := by
    rw [← hsize]
    exact wrapNat_of_lt (by omega)
  refine ⟨?_, ?_, ?_⟩
  · exact if_neg (by rw [halloc]; omega)
  · show wrapNat 64 ((s.remaining : ℤ) - r.buflen) = _
    rw [← Int.ofNat_sub hgot]
    exact wrapNat_of_lt (by omega)
  · show (s.rbuf ++ fetch _ r.buflen).length = _
    rw [List.length_append, fetch_length]

theorem loadRead_le (hread : Bounded read) (s : LoadState σ) :
    (loadRead read s).1.buflen ≤ s.remaining :=
  (hread.asked _ _).trans (min_le_left _ _)

theorem Exact.copyFits (hread : Bounded read) {s : LoadState σ} (hs : Exact s) :
    CopyFits read s := by
  have hgot := loadRead_le hread s
  obtain ⟨halloc, -, -⟩ := loaded_exact hs hgot (loadRead read s).2
  have hsize := hs.1
  unfold CopyFits behindLoad
  rw [halloc]
  omega

/-- **One round** of a reader that brings no more than it is asked for keeps the size exact. -/
theorem loadRound_exact (hread : Bounded read) {s s' : LoadState σ} (hs : Exact s)
    (h : loadRound read true s = .inr s') : Exact s' := by
  have hgot := loadRead_le hread s
  obtain ⟨halloc, hremaining, hlen⟩ := loaded_exact hs hgot (loadRead read s).2
  obtain ⟨hsize, hint⟩ := hs
  rcases loadRound_copy read s with ⟨-, hround⟩ | ⟨-, hround⟩
  · rw [hround] at h
    cases h
  · rw [hround] at h
    split at h
    · cases h
      unfold Exact behindLoad
      rw [halloc, hremaining, hlen]
      exact ⟨by omega, hint⟩
    · cases h

/-! ### A sum that does not fit -/

/-- The server has sent what is left, in one piece. -/
def Sent (s : LoadState Conn) : Prop :=
  ∃ bs log, s.conn = ⟨[arrival bs], log⟩ ∧ bs.length = s.remaining ∧ s.remaining < 2 ^ 63

/-- A read then brings all that is asked for, and leaves the rest. -/
theorem sent_read {s : LoadState Conn} (hs : Sent s) :
    (loadRead readSocket s).1.status = .success ∧
      (loadRead readSocket s).1.buflen = loadRequest s.remaining ∧
      (behindLoad readSocket s).remaining = s.remaining - loadRequest s.remaining ∧
      (loadRequest s.remaining < s.remaining → Sent (behindLoad readSocket s)) := by
  obtain ⟨bs, log, hconn, hlen, hlong⟩ := hs
  have hle : loadRequest s.remaining ≤ s.remaining := min_le_left _ _
  have hleft : wrapNat 64 ((s.remaining : ℤ) - (loadRequest s.remaining : ℕ)) =
      s.remaining - loadRequest s.remaining := by
    rw [← Int.ofNat_sub hle]
    exact wrapNat_of_lt (by omega)
  unfold behindLoad loadRead
  rw [hconn]
  by_cases hall : bs.length ≤ loadRequest s.remaining
  · have hreq : loadRequest s.remaining = bs.length := by omega
    rw [readSocket_arrival hall]
    refine ⟨rfl, hreq.symm, ?_, fun hlt => absurd hlt (by omega)⟩
    rw [hreq] at hleft ⊢
    exact hleft
  · rw [readSocket_arrival_split (not_le.mp hall)]
    refine ⟨rfl, rfl, hleft, fun _ => ⟨_, _, rfl, ?_, ?_⟩⟩
    · rw [List.length_drop, hlen]
      exact hleft.symm
    · exact hleft.trans_lt (by omega)

/-- **A buffer whose size does not fit an `int` runs out** if the server sends what is left. -/
theorem load_runsOut {s : LoadState Conn} (hs : Sent s) (hpos : 0 < s.remaining)
    (halloc : s.currentalloc < 2 ^ 31) (hbig : 2 ^ 31 ≤ s.rbuf.length + s.remaining) :
    ∃ s', Steps (loadRound readSocket true) s s' ∧ ¬ CopyFits readSocket s' := by
  induction hn : s.remaining using Nat.strong_induction_on generalizing s with
  | _ n ih =>
    subst hn
    obtain ⟨hstatus, hgot, hleft, hmore⟩ := sent_read hs
    have hlen : (behindLoad readSocket s).rbuf.length =
        s.rbuf.length + loadRequest s.remaining := by
      rw [← hgot]
      show (s.rbuf ++ fetch _ _).length = _
      rw [List.length_append, fetch_length]
    have halloc' : (behindLoad readSocket s).currentalloc < 2 ^ 31 := by
      show (if _ then wrapInt 32 _ else s.currentalloc) < 2 ^ 31
      split
      · exact wrapInt_lt 31 _
      · exact halloc
    have hreq : loadRequest s.remaining = min s.remaining 8191 := rfl
    rcases loadRound_copy readSocket s with ⟨hout, -⟩ | ⟨hfits, hround⟩
    · exact ⟨s, .refl, hout⟩
    · by_cases hend : s.remaining = loadRequest s.remaining
      · -- the last read: everything was copied into a buffer of an `int` size
        unfold CopyFits at hfits
        rw [hgot] at hfits
        omega
      · rw [if_pos ⟨by rw [hstatus]; rfl, by rw [hleft]; omega⟩] at hround
        obtain ⟨s', hsteps, hout⟩ := ih (s.remaining - loadRequest s.remaining) (by omega)
          (hmore (by omega)) (by rw [hleft]; omega) halloc' (by rw [hlen, hleft]; omega) hleft
        exact ⟨s', .head hround hsteps, hout⟩

/-! ### The call -/

/-- Where the loop starts, with this many bytes left. -/
def loadStart (mem b : Bytes) (r : ReadResult) (left : ℕ) (c : σ) : LoadState σ :=
  ⟨fetch (store mem 0 r.data) r.buflen, wrapInt 32 ((left : ℤ) + r.buflen), left, b, c⟩

theorem loadStart_alloc (mem b : Bytes) (r : ReadResult) (left : ℕ) (c : σ) :
    (loadStart mem b r left c).currentalloc = wrapInt 32 ((left : ℤ) + r.buflen) := by
  simp only [loadStart]

/-- The call accepts the text of the `Content-Length`, and its first read leaves some of the body to
load. -/
structure Loads (k : KeepaliveSocket) (mem : Bytes) (r : ReadResult) (h : HeaderState)
    (text : Bytes) (left : ℕ) : Prop where
  wants : k.wantresponse = true
  headers : HeadersEnd mem r h
  announces : Announces k h text
  short : strlen text < 16
  rest : bytesLeft text r.buflen h = left
  pos : 0 < left

section Loads

variable {k : KeepaliveSocket} {mem text : Bytes} {r : ReadResult} {h : HeaderState} {left : ℕ}

/-- The bytes that are left and those that were read are the header block and the announced body. -/
theorem Loads.total (hloads : Loads k mem r h text left) :
    (left : ℤ) + r.buflen = (strtol 10 text).1 + (h.currentLine + CRLF.length : ℕ) := by
  have hrest := hloads.rest
  unfold bytesLeft contentLengthValue at hrest
  rw [if_pos hloads.short] at hrest
  dsimp only at hrest
  omega

theorem Loads.left_lt (hloads : Loads k mem r h text left) : left < 2 ^ 63 := by
  have hrest := hloads.rest
  have hvalue := (contentLengthValue_small text).2
  have hline := hloads.headers.line_lt
  have hcrlf : CRLF.length = 2 := rfl
  unfold bytesLeft at hrest
  omega

/-- **The call loads what is left of the body**, into a buffer that holds what was read. -/
theorem keepaliveRecvResp_loads (hloads : Loads k mem r h text left) {c c' : σ}
    (hread : read c (MAX_DOC_LENGTH - 1) = (r, c')) (b : Bytes) :
    ∃ N, ∀ fuel, N ≤ fuel → keepaliveRecvResp read k mem b c fuel =
      if (loadStart mem b r left c').currentalloc < r.buflen then some (.error .fault)
      else (runLoop (loadRound read true) fuel (loadStart mem b r left c')).map (Except.map fun p =>
        (.success, some ⟨true, false, none, p.2.rbuf, p.2.rbuf.length, h.headers⟩, p.2.conn)) := by
  obtain ⟨N, hN⟩ := keepaliveRecvResp_headersEnd k b hread hloads.headers
  refine ⟨N, fun fuel hfuel => ?_⟩
  have hleft : wrapNat 64 (wrapInt 64 (bytesLeft text r.buflen h)) = left := by
    rw [bytesLeft_long hloads.headers text, hloads.rest]
    exact wrapNat_of_lt (by have := hloads.left_lt; omega)
  rw [hN fuel hfuel, receiveMessage_announces hloads.announces, hloads.wants, receiveBody_want]
  simp only [if_true, hleft]
  unfold keepaliveLoadResp
  dsimp only
  rw [if_pos hloads.pos, decide_eq_true hloads.pos, loadStart_alloc]
  split
  · rfl
  · unfold loadStart
    cases runLoop (loadRound read true) fuel _ with
    | none => rfl
    | some out =>
      cases out with
      | error a => rfl
      | ok p => rfl

/-- **No copy leaves the buffer**, whatever the later reads bring, exactly when the header block and
the announced body are shorter than `2 ^ 31` bytes together. -/
theorem load_inBounds_iff (hloads : Loads k mem r h text left) (b : Bytes) :
    (∀ (σ : Type) (read : σ → ℕ → ReadResult × σ), Bounded read → ∀ c,
        InBounds read (loadStart mem b r left c)) ↔
      (strtol 10 text).1 + (h.currentLine + CRLF.length : ℕ) < 2 ^ 31 := by
  rw [← hloads.total]
  have hlen : ∀ {σ : Type} (c : σ), (loadStart mem b r left c).rbuf.length = r.buflen :=
    fun c => fetch_length _ _
  have hremaining : ∀ {σ : Type} (c : σ), (loadStart mem b r left c).remaining = left :=
    fun _ => rfl
  constructor
  · intro hall
    by_contra hbig
    obtain ⟨s, hsteps, hout⟩ := load_runsOut
      (s := loadStart mem b r left (⟨[arrival (List.replicate left 0)], []⟩ : Conn))
      ⟨_, _, rfl, List.length_replicate, hloads.left_lt⟩ hloads.pos
      (loadStart_alloc mem b r left _ ▸ wrapInt_lt 31 _) (by rw [hlen, hremaining]; omega)
    exact hout ((hall Conn readSocket bounded_readSocket _).2 s hsteps)
  · intro hfits σ read hread c
    have hexact : Exact (loadStart mem b r left c) := by
      have halloc : (loadStart mem b r left c).currentalloc = (left : ℤ) + r.buflen :=
        (loadStart_alloc mem b r left c).trans (wrapInt_of_lt (w := 31) (by omega) hfits)
      simp only [Exact, halloc, hlen, hremaining]
      omega
    constructor
    · have := hexact.1
      omega
    · intro s hsteps
      have hs : Exact s := by
        induction hsteps with
        | refl => exact hexact
        | tail _ hround ih => exact loadRound_exact hread ih hround
      exact hs.copyFits hread

end Loads

theorem loads_oneLeft :
    Loads keepaliveSocketInit [] ⟨.success, 26, twoBytesOf 51⟩ (twoBytesHeaders 51) [51] 1 :=
  ⟨rfl, twoBytesOf_headersEnd (.inr rfl), twoBytesOf_announces true (.inr rfl), by decide, by decide,
    by decide⟩

/-- Of three bytes two have come, and one is loaded. -/
theorem load_inBounds_oneLeft :
    Loads keepaliveSocketInit [] ⟨.success, 26, twoBytesOf 51⟩ (twoBytesHeaders 51) [51] 1 ∧
      ∀ (σ : Type) (read : σ → ℕ → ReadResult × σ), Bounded read → ∀ c,
        InBounds read (loadStart [] [] ⟨.success, 26, twoBytesOf 51⟩ 1 c) :=
  ⟨loads_oneLeft, (load_inBounds_iff loads_oneLeft []).mpr (by decide)⟩

/-- A length whose sum with the header block is no `int`. -/
def hugeLength : Bytes := bytes "2147483648"

/-- The response that announces it, with two bytes of its body. -/
def hugeResponse : Bytes := bytes "A\r\nContent-Length: " ++ hugeLength ++ bytes "\r\n\r\nAB"

/-- The buffer for it has a negative size. -/
theorem hugeLength_overruns :
    Loads keepaliveSocketInit [] ⟨.success, 35, hugeResponse⟩
        ⟨31, [(bytes "Content-Length", hugeLength)]⟩ hugeLength 2147483646 ∧
      ¬ InBounds readSocket
        (loadStart [] [] ⟨.success, 35, hugeResponse⟩ 2147483646 (⟨[], []⟩ : Conn)) := by
  constructor
  · exact ⟨rfl, ⟨by decide, by decide, by decide, .inl rfl, halts_of_runLoop (n := 3) (by decide)⟩,
      ⟨nofun, by decide, by decide, by decide, by decide⟩, by decide, by decide, by decide⟩
  · rintro ⟨hroom, -⟩
    rw [loadStart_alloc] at hroom
    exact absurd hroom (by decide)

end Flood.LoadBounds
