import Flood.SocketKeepalive

/-!
# The reads of a chunked body

`keepalive_read_chunk` reads the data of a chunk to the place where its size line stands, and caps
the length by the size of the whole buffer.

* `chunkRound_reads` — the reads that a round makes.
* `scanChunk_data` — what is left of a chunk that the buffer does not hold.
* `readChunk_safe_iff` — in every run every read asks for at least a byte and stays inside the
  buffer, exactly when what is left of every chunk is a positive number of bytes that fit behind its
  size line.
-/

namespace Flood.ChunkedBounds

open Flood.CString Flood.Loop Flood.Net Flood.SocketKeepalive

variable {σ : Type} {read : σ → ℕ → ReadResult × σ}

/-! ### The reads -/

/-- The read that is made at a point: the offset of its destination and its length. -/
def chunkRead : ChunkPoint → Option (ℕ × ℕ)
  | .line _ => some (0, MAX_DOC_LENGTH - 1)
  | .scan _ _ _ => none
  | .data chunkLength b _ =>
    some (b, if chunkLength > (MAX_DOC_LENGTH - 1 : ℕ) then MAX_DOC_LENGTH - 1
      else wrapNat 64 chunkLength)
  | .trailer => some (0, MAX_DOC_LENGTH - 1)

/-- What a round does with the outcome of its read. -/
def behindRead : ChunkPoint → ReadResult → Bytes → σ → (Except Abort (Status × σ)) ⊕ ChunkState σ
  | .line oldLength, r, buf, c =>
    if r.status ≠ .success then .inl (.ok (r.status, c))
    else .inr ⟨afterRead buf r.buflen oldLength, buf, c⟩
  | .data chunkLength _ oldLength, r, buf, c =>
    if r.status ≠ .success then .inl (.ok (.success, c))
    else
      .inr ⟨if wrapInt 32 (chunkLength - r.buflen) = 0 then .line oldLength
        else .data (wrapInt 32 (chunkLength - r.buflen)) 0 oldLength, buf, c⟩
  | _, r, _, c => .inl (.ok (r.status, c))

/-- **The reads of a round**: a round that makes one is the read and what follows from its outcome,
and any other does not depend on the reader. -/
theorem chunkRound_reads (s : ChunkState σ) :
    match chunkRead s.point with
    | none => ∀ read' : σ → ℕ → ReadResult × σ, chunkRound read (MAX_DOC_LENGTH - 1) s =
        chunkRound read' (MAX_DOC_LENGTH - 1) s
    | some (off, len) => chunkRound read (MAX_DOC_LENGTH - 1) s =
        match readInto read s.buf off s.conn len with
        | .error a => .inl (.error a)
        | .ok (r, buf, c) => behindRead s.point r buf c := by
  obtain ⟨point, buf, conn⟩ := s
  cases point with
  | line oldLength => rfl
  | scan b blen oldLength =>
    intro read'
    rfl
  | data chunkLength b oldLength => rfl
  | trailer => rfl

/-- The read made at a point asks for at least one byte, and for no more than the buffer has behind
its destination. -/
def SafeRead (point : ChunkPoint) : Prop :=
  ∀ off len, chunkRead point = some (off, len) → 1 ≤ len ∧ off + len ≤ MAX_DOC_LENGTH

/-! ### What is left of a chunk -/

/-- The bytes that are missing of the chunk whose size line stands at an offset with `blen` bytes of
the last read behind it, as an `int`; `none` if nothing is missing. -/
def chunkMissing (buf : Bytes) (b blen : ℕ) : Option ℤ :=
  let line := buf.drop b
  let size := wrapInt 32 (keepaliveReadChunkSize line)
  match strstr CRLF line with
  | none => none
  | some n =>
    let held := wrapNat 64 (blen - (n + 2))
    let missing := wrapInt 32 (size - held)
    if size = 0 ∨ wrapNat 64 size ≤ held ∨ missing = 0 then none else some missing

/-- The rest of a chunk is a positive number of bytes and fits behind its size line. -/
def ChunkFits (buf : Bytes) (b blen : ℕ) : Prop :=
  ∀ missing, chunkMissing buf b blen = some missing →
    0 < missing ∧ b + min missing (MAX_DOC_LENGTH - 1 : ℕ) ≤ (MAX_DOC_LENGTH : ℕ)

/-- Where the state stands at a size line, the rest of its chunk fits. -/
def Fits (s : ChunkState σ) : Prop :=
  ∀ b blen oldLength, s.point = .scan b blen oldLength → ChunkFits s.buf b blen

/-- The point is not one in front of data. -/
def NoData (point : ChunkPoint) : Prop :=
  ∀ chunkLength b oldLength, point ≠ .data chunkLength b oldLength

/-- Both loops of a size line end in front of a read or at a size line. -/
theorem noData_resume (b blen : ℕ) (oldLength oldLength' : ℤ) :
    NoData (if blen = 0 then .line oldLength else .scan b blen oldLength') := by
  intro chunkLength b' oldLength'' heq
  split at heq
  · cases heq
  · cases heq

theorem noData_stepOverCrlf (buf : Bytes) (b blen : ℕ) (oldLength : ℤ) :
    NoData (stepOverCrlf buf b blen oldLength) :=
  noData_resume _ _ _ _

theorem noData_afterRead (buf : Bytes) (buflen : ℕ) (oldLength : ℤ) :
    NoData (afterRead buf buflen oldLength) :=
  noData_resume _ _ _ _

/-- **What `keepalive_read_chunk` makes of a size line**: it goes on in front of data exactly where
some of the chunk is missing, and counts that. -/
theorem scanChunk_data {buf : Bytes} {b blen : ℕ} {oldLength : ℤ} {point : ChunkPoint}
    (h : scanChunk buf b blen oldLength = .ok (some point)) :
    (chunkMissing buf b blen = none ∧ NoData point) ∨
      ∃ missing, chunkMissing buf b blen = some missing ∧ point = .data missing b oldLength := by
  unfold scanChunk at h
  unfold chunkMissing
  dsimp only at h ⊢
  split at h
  · next hlast =>
    refine .inl ⟨?_, ?_⟩
    · rw [hlast]
      split
      · rfl
      · exact if_pos (.inl rfl)
    · split at h
      · cases h
        intro chunkLength b' oldLength' heq
        cases heq
      · cases h
  · next hsize =>
    cases hn : strstr CRLF (buf.drop b) with
    | none =>
      rw [hn] at h
      cases h
    | some n =>
      rw [hn] at h
      dsimp only at h ⊢
      split at h
      · next hheld =>
        split at h
        · cases h
        · cases h
          exact .inl ⟨if_pos (.inr (.inl hheld)), noData_stepOverCrlf _ _ _ _⟩
      · next hheld =>
        split at h
        · next hnone =>
          cases h
          exact .inl ⟨if_pos (.inr (.inr hnone)), noData_stepOverCrlf _ _ _ _⟩
        · next hsome =>
          cases h
          refine .inr ⟨_, if_neg ?_, rfl⟩
          rintro (h0 | hle | h0)
          · exact hsize h0
          · exact hheld hle
          · exact hsome h0

/-- What is missing is counted in an `int`. -/
theorem chunkMissing_int {buf : Bytes} {b blen : ℕ} {missing : ℤ}
    (h : chunkMissing buf b blen = some missing) : -2 ^ 31 ≤ missing ∧ missing < 2 ^ 31 := by
  unfold chunkMissing at h
  dsimp only at h
  split at h
  · cases h
  · split at h
    · cases h
    · cases h
      exact ⟨le_wrapInt 31 _, wrapInt_lt 31 _⟩

/-- Where some of the chunk is missing, it does go on there. -/
theorem scanChunk_missing {buf : Bytes} {b blen : ℕ} {missing : ℤ}
    (h : chunkMissing buf b blen = some missing) (oldLength : ℤ) :
    scanChunk buf b blen oldLength = .ok (some (.data missing b oldLength)) := by
  unfold chunkMissing at h
  dsimp only at h
  split at h
  · cases h
  · next n hn =>
    split at h
    · cases h
    · next hnot =>
      cases h
      simp only [not_or] at hnot
      unfold scanChunk
      dsimp only
      rw [if_neg hnot.1, hn]
      dsimp only
      rw [if_neg hnot.2.1, if_neg hnot.2.2]

theorem chunkRound_scan (read : σ → ℕ → ReadResult × σ) (bplen : ℕ) {buf : Bytes} {b blen : ℕ}
    {oldLength : ℤ} {point : ChunkPoint} (h : scanChunk buf b blen oldLength = .ok (some point))
    (c : σ) :
    chunkRound read bplen ⟨.scan b blen oldLength, buf, c⟩ = .inr ⟨point, buf, c⟩ := by
  unfold chunkRound
  dsimp only
  rw [h]

/-! ### Runs -/

/-- Data is read to a place with enough room: the length left of it is a positive `int`, and at most
the whole buffer behind its destination. -/
def RoomFor : ChunkPoint → Prop
  | .data chunkLength b _ =>
    0 < chunkLength ∧ chunkLength < 2 ^ 31 ∧
      b + min chunkLength (MAX_DOC_LENGTH - 1 : ℕ) ≤ (MAX_DOC_LENGTH : ℕ)
  | _ => True

theorem roomFor_noData {point : ChunkPoint} (h : NoData point) : RoomFor point := by
  cases point with
  | line oldLength => trivial
  | scan b blen oldLength => trivial
  | data chunkLength b oldLength => exact absurd rfl (h _ _ _)
  | trailer => trivial

/-- With enough room the read is safe. -/
theorem RoomFor.safeRead {point : ChunkPoint} (h : RoomFor point) : SafeRead point := by
  intro off len hread
  cases point with
  | line oldLength =>
    cases hread
    decide
  | scan b blen oldLength => cases hread
  | data chunkLength b oldLength =>
    obtain ⟨hpos, hint, hroom⟩ := h
    have hlen := readLength_eq hpos.le (by omega)
    cases hread
    have hcap : (0 : ℤ) < (MAX_DOC_LENGTH - 1 : ℕ) := by decide
    constructor
    · have := lt_min hpos hcap
      omega
    · omega
  | trailer =>
    cases hread
    decide

theorem readInto_result {buf buf' : Bytes} {off len : ℕ} {c c' : σ} {r : ReadResult}
    (h : readInto read buf off c len = .ok (r, buf', c')) : (read c len).1 = r := by
  unfold readInto at h
  dsimp only at h
  split at h
  · cases h
  · cases h
    rfl

/-- A reader that stores no more than it was asked for. -/
def Honest (read : σ → ℕ → ReadResult × σ) : Prop :=
  ∀ c n, (read c n).1.status = .success → (read c n).1.buflen ≤ n

/-- **One round**: where there is enough room, and what is left of a chunk fits, there is enough room
behind the round. -/
theorem chunkRound_room (hread : Honest read) {s s' : ChunkState σ} (hroom : RoomFor s.point)
    (hfits : Fits s) (h : chunkRound read (MAX_DOC_LENGTH - 1) s = .inr s') : RoomFor s'.point := by
  obtain ⟨point, buf, conn⟩ := s
  cases point with
  | line oldLength =>
    unfold chunkRound at h
    dsimp only at h
    split at h
    · cases h
    · split at h
      · cases h
      · cases h
        exact roomFor_noData (noData_afterRead _ _ _)
  | scan b blen oldLength =>
    unfold chunkRound at h
    dsimp only at h
    split at h
    · cases h
    · cases h
    · next point' hscan =>
      cases h
      rcases scanChunk_data hscan with ⟨-, hnone⟩ | ⟨missing, hsome, rfl⟩
      · exact roomFor_noData hnone
      · obtain ⟨hpos, hbound⟩ := hfits b blen oldLength rfl missing hsome
        exact ⟨hpos, (chunkMissing_int hsome).2, hbound⟩
  | data chunkLength b oldLength =>
    obtain ⟨hpos, hint, -⟩ := hroom
    have hlen := readLength_eq hpos.le (by omega)
    unfold chunkRound at h
    dsimp only at h
    split at h
    · cases h
    · next r buf' c hinto =>
      have hres := readInto_result hinto
      split at h
      · cases h
      · next hok =>
        cases h
        rw [not_not] at hok
        have hgot := hread conn _ (hres ▸ hok)
        rw [hres] at hgot
        split
        · trivial
        · next hleft =>
          have hmin := min_le_left chunkLength (MAX_DOC_LENGTH - 1 : ℕ)
          rw [wrapInt_of_lt (by omega) (by omega)] at hleft ⊢
          refine ⟨by omega, by omega, ?_⟩
          have := min_le_right (chunkLength - r.buflen) ((MAX_DOC_LENGTH - 1 : ℕ) : ℤ)
          have hdoc : ((MAX_DOC_LENGTH - 1 : ℕ) : ℤ) ≤ (MAX_DOC_LENGTH : ℕ) := by decide
          omega
  | trailer =>
    unfold chunkRound at h
    dsimp only at h
    split at h
    · cases h
    · cases h

/-- Where `keepalive_read_chunk` enters its loops, if it does. -/
def chunkStart (chunk : Option ℕ) (chunkLength : ℤ) (buf : Bytes) (c : σ) :
    Option (ChunkState σ) :=
  if chunk = none then some ⟨.line 0, buf, c⟩
  else if chunkLength < 0 then some ⟨.line chunkLength, buf, c⟩
  else if chunkLength = 0 then none
  else some ⟨.data chunkLength 0 0, buf, c⟩

theorem keepaliveReadChunk_eq (chunk : Option ℕ) (chunkLength : ℤ) (buf : Bytes) (bplen : ℕ)
    (c : σ) (fuel : ℕ) :
    keepaliveReadChunk read chunk chunkLength buf bplen c fuel =
      match chunkStart chunk chunkLength buf c with
      | some s => runLoop (chunkRound read bplen) fuel s
      | none => some (.ok (.success, c)) := by
  unfold keepaliveReadChunk chunkStart
  split_ifs
  · rfl
  · rfl
  · rfl
  · rfl

/-- `keepalive_read_chunk` comes to a state.  The length of the chunk is passed as an `int`. -/
def Visits (read : σ → ℕ → ReadResult × σ) (chunk : Option ℕ) (chunkLength : ℤ) (buf : Bytes)
    (c : σ) (s : ChunkState σ) : Prop :=
  ∃ s₀, chunkStart chunk (wrapInt 32 chunkLength) buf c = some s₀ ∧
    Steps (chunkRound read (MAX_DOC_LENGTH - 1)) s₀ s

theorem chunkStart_room {chunk : Option ℕ} {chunkLength : ℤ} {buf : Bytes} {c : σ}
    {s : ChunkState σ} (h : chunkStart chunk (wrapInt 32 chunkLength) buf c = some s) :
    RoomFor s.point := by
  have hint := wrapInt_lt 31 chunkLength
  unfold chunkStart at h
  split at h
  · cases h
    trivial
  · split at h
    · cases h
      trivial
    · next hneg =>
      split at h
      · cases h
      · next hzero =>
        cases h
        have hcap := min_le_right (wrapInt 32 chunkLength) ((MAX_DOC_LENGTH - 1 : ℕ) : ℤ)
        have hdoc : ((MAX_DOC_LENGTH - 1 : ℕ) : ℤ) ≤ (MAX_DOC_LENGTH : ℕ) := by decide
        exact ⟨by omega, hint, by omega⟩

/-- **A run**: as long as every chunk that is looked at fits, there is enough room. -/
theorem visits_room (hread : Honest read) {chunk : Option ℕ} {chunkLength : ℤ} {buf : Bytes}
    {c : σ} (hfits : ∀ s, Visits read chunk chunkLength buf c s → Fits s) {s : ChunkState σ}
    (hs : Visits read chunk chunkLength buf c s) : RoomFor s.point := by
  obtain ⟨s₀, hstart, hsteps⟩ := hs
  induction hsteps with
  | refl => exact chunkStart_room hstart
  | tail hbefore hround ih => exact chunkRound_room hread ih (hfits _ ⟨s₀, hstart, hbefore⟩) hround

/-- A length below zero asks for more than any buffer holds. -/
theorem wrapNat_neg {v : ℤ} (hneg : v < 0) (hlong : -2 ^ 63 ≤ v) : 2 ^ 63 ≤ wrapNat 64 v := by
  unfold wrapNat
  omega

/-- A read in front of what is left of a chunk is safe only if that fits. -/
theorem fits_of_safeRead {missing : ℤ} {b : ℕ} {oldLength : ℤ}
    (h : SafeRead (.data missing b oldLength)) (hint : -2 ^ 31 ≤ missing) (hmax : missing < 2 ^ 31) :
    0 < missing ∧ b + min missing (MAX_DOC_LENGTH - 1 : ℕ) ≤ (MAX_DOC_LENGTH : ℕ) := by
  obtain ⟨hbyte, hroom⟩ := h _ _ rfl
  rcases lt_trichotomy missing 0 with hneg | rfl | hpos
  · have hlarge := wrapNat_neg hneg (by omega)
    rw [if_neg (by omega)] at hroom
    have hdoc : MAX_DOC_LENGTH = 8192 := rfl
    omega
  · exact absurd hbyte (by decide)
  · have hlen := readLength_eq hpos.le (by omega)
    exact ⟨hpos, by omega⟩

/-- **Every read of `keepalive_read_chunk` asks for at least a byte and stays inside the buffer**, in
every run, exactly when what is left of a chunk always fits behind its size line. -/
theorem readChunk_safe_iff (hread : Honest read) (chunk : Option ℕ) (chunkLength : ℤ) (buf : Bytes)
    (c : σ) :
    (∀ s, Visits read chunk chunkLength buf c s → SafeRead s.point) ↔
      ∀ s, Visits read chunk chunkLength buf c s → Fits s := by
  constructor
  · rintro hsafe ⟨point, buf', c'⟩ ⟨s₀, hstart, hsteps⟩ b blen oldLength hpoint missing hmissing
    obtain rfl : point = .scan b blen oldLength := hpoint
    have hround := chunkRound_scan read (MAX_DOC_LENGTH - 1)
      (scanChunk_missing hmissing oldLength) c'
    exact fits_of_safeRead (hsafe _ ⟨s₀, hstart, hsteps.tail hround⟩) (chunkMissing_int hmissing).1
      (chunkMissing_int hmissing).2
  · intro hfits s hs
    exact (visits_room hread hfits hs).safeRead

/-- `apr_socket_recv` stores no more than it was asked for. -/
theorem honest_readSocket : Honest readSocket := by
  intro c n hok
  unfold readSocket at hok ⊢
  split
  · exact le_rfl
  · split
    · exact le_rfl
    · unfold aprSocketRecv
      split
      · next hfit => exact hfit
      · show (List.take n _).length ≤ n
        rw [List.length_take]
        exact min_le_left _ _

/-- A connection that brings some bytes at once and then stays silent. -/
def brings (bs : Bytes) : Conn := ⟨[arrival bs], []⟩

/-- The state behind the first read of `keepalive_read_chunk`. -/
theorem chunkRound_brings (bs : Bytes) (h : bs.length ≤ MAX_DOC_LENGTH - 1) :
    chunkRound readSocket (MAX_DOC_LENGTH - 1) ⟨.line 0, [], brings bs⟩ =
      .inr ⟨afterRead bs bs.length 0, bs, ⟨[], [⟨MAX_DOC_LENGTH - 1, bs⟩]⟩⟩ := by
  have hfits : ¬ 0 + bs.length > MAX_DOC_LENGTH := by
    have : MAX_DOC_LENGTH = 8192 := rfl
    omega
  have hstore : store [] 0 bs = bs := by simp [store, fetch]
  unfold chunkRound readInto
  dsimp only [brings]
  rw [readSocket_arrival h]
  dsimp only
  rw [if_neg hfits, hstore]
  rfl

/-- A chunk of three bytes, of which the first read brings one and the second two, and a last chunk. -/
def threeBytes : Conn := ⟨[arrival (bytes "3\r\na"), arrival (bytes "bc\r\n0\r\n\r\n")], []⟩

/-- The body is read safely, and two bytes of it as data. -/
theorem readChunk_safe_threeBytes :
    (∃ s, Visits readSocket none 0 [] threeBytes s ∧ s.point = .data 2 0 0) ∧
    ∀ s, Visits readSocket none 0 [] threeBytes s → SafeRead s.point := by
  have hfirst : chunkRound readSocket (MAX_DOC_LENGTH - 1) ⟨.line 0, [], threeBytes⟩ =
      .inr ⟨.scan 0 4 0, bytes "3\r\na", ⟨[arrival (bytes "bc\r\n0\r\n\r\n")],
        [⟨8191, bytes "3\r\na"⟩]⟩⟩ := rfl
  have hscan : scanChunk (bytes "3\r\na") 0 4 0 = .ok (some (.data 2 0 0)) := by decide
  have hsize := chunkRound_scan readSocket (MAX_DOC_LENGTH - 1) hscan
    ⟨[arrival (bytes "bc\r\n0\r\n\r\n")], [⟨8191, bytes "3\r\na"⟩]⟩
  have hdata : chunkRound readSocket (MAX_DOC_LENGTH - 1) ⟨.data 2 0 0, bytes "3\r\na",
        ⟨[arrival (bytes "bc\r\n0\r\n\r\n")], [⟨8191, bytes "3\r\na"⟩]⟩⟩ =
      .inr ⟨.line 0, bytes "bc\na", ⟨[arrival (bytes "\r\n0\r\n\r\n")],
        [⟨8191, bytes "3\r\na"⟩, ⟨2, bytes "bc"⟩]⟩⟩ := rfl
  have hline : chunkRound readSocket (MAX_DOC_LENGTH - 1) ⟨.line 0, bytes "bc\na",
        ⟨[arrival (bytes "\r\n0\r\n\r\n")], [⟨8191, bytes "3\r\na"⟩, ⟨2, bytes "bc"⟩]⟩⟩ =
      .inr ⟨.scan 2 5 0, bytes "\r\n0\r\n\r\n", ⟨[], [⟨8191, bytes "3\r\na"⟩, ⟨2, bytes "bc"⟩,
        ⟨8191, bytes "\r\n0\r\n\r\n"⟩]⟩⟩ := rfl
  have hlast : chunkRound readSocket (MAX_DOC_LENGTH - 1) ⟨.scan 2 5 0, bytes "\r\n0\r\n\r\n",
        ⟨[], [⟨8191, bytes "3\r\na"⟩, ⟨2, bytes "bc"⟩, ⟨8191, bytes "\r\n0\r\n\r\n"⟩]⟩⟩ =
      .inl (.ok (.success, ⟨[], [⟨8191, bytes "3\r\na"⟩, ⟨2, bytes "bc"⟩,
        ⟨8191, bytes "\r\n0\r\n\r\n"⟩]⟩)) := rfl
  refine ⟨⟨_, ⟨_, rfl, (Steps.single hfirst).tail hsize⟩, rfl⟩,
    (readChunk_safe_iff honest_readSocket none 0 [] threeBytes).mpr ?_⟩
  rintro s ⟨s₀, hstart, hsteps⟩
  cases hstart
  -- the states at the two size lines are the ones with a condition
  refine forall_steps_inr hfirst (by rintro b blen oldLength ⟨⟩) ?_ s hsteps
  refine forall_steps_inr hsize ?_ ?_
  · rintro b blen oldLength ⟨⟩ missing hmissing
    cases (show chunkMissing (bytes "3\r\na") 0 4 = some 2 by decide).symm.trans hmissing
    decide
  refine forall_steps_inr hdata (by rintro b blen oldLength ⟨⟩) ?_
  refine forall_steps_inr hline (by rintro b blen oldLength ⟨⟩) ?_
  refine forall_steps_inl hlast ?_
  rintro b blen oldLength ⟨⟩ missing hmissing
  cases (show chunkMissing (bytes "\r\n0\r\n\r\n") 2 5 = none by decide).symm.trans hmissing

/-- One read brings a whole chunk and the size line of a large one: the data is read to the place of
that size line, with a length that is capped by the whole buffer. -/
theorem lateChunk_overruns :
    ¬ ∀ s, Visits readSocket none 0 [] (brings (bytes "1\r\nA\r\n2000\r\n")) s →
      SafeRead s.point := by
  intro h
  have hread := chunkRound_brings (bytes "1\r\nA\r\n2000\r\n") (by decide)
  have hpoint : afterRead (bytes "1\r\nA\r\n2000\r\n") (bytes "1\r\nA\r\n2000\r\n").length 0 =
      .scan 0 12 0 := by
    decide
  have hfirst : scanChunk (bytes "1\r\nA\r\n2000\r\n") 0 12 0 = .ok (some (.scan 6 6 0)) := by
    decide
  have hlate : scanChunk (bytes "1\r\nA\r\n2000\r\n") 6 6 0 = .ok (some (.data 8192 6 0)) := by
    decide
  rw [hpoint] at hread
  generalize bytes "1\r\nA\r\n2000\r\n" = bs at h hread hfirst hlate
  have hsafe := h _ ⟨_, rfl,
    ((Steps.single hread).tail (chunkRound_scan _ _ hfirst _)).tail (chunkRound_scan _ _ hlate _)⟩
  exact absurd (hsafe _ _ rfl).2 (by decide)

end Flood.ChunkedBounds
