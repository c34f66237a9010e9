import Flood.ChunkedResponses

/-!
# From chunk to chunk

Two loops step over chunks that are complete in a buffer: the walk of `keepalive_recv_resp` over the first
read, and the inner loop of `keepalive_read_chunk` over one read that brings the whole body.

* `cut_inData` — what is left of a body that is cut inside the data of a chunk.
* `walk_inData` — the walk ends with the number of data bytes of that chunk that are still to be read.
* `scan_boundary` — the inner loop goes from one chunk to the next.
* `readChunk_oneRead` — the whole body in one read: every chunk is stepped over, at its own boundary.
-/

namespace Flood.ChunkBoundaries

open Flood.CString Flood.Loop Flood.Net Flood.SocketKeepalive Flood.HeaderBlock Flood.ChunkedBody
  Flood.ChunkedReads Flood.ChunkedResponses

/-! ### Complete chunks -/

/-- A chunk with its size line and the CRLF behind it. -/
def Chunk.whole (c : Chunk) : Bytes := c.line ++ c.data ++ CRLF

/-- The bytes of some chunks. -/
def wholes (cs : List Chunk) : Bytes := cs.flatMap Chunk.whole

theorem Chunk.whole_length (c : Chunk) : (Chunk.whole c).length = c.line.length + c.data.length + 2 := by
  rw [Chunk.whole, List.length_append, List.length_append]
  rfl

theorem wholes_cons (c : Chunk) (cs : List Chunk) : wholes (c :: cs) = Chunk.whole c ++ wholes cs :=
  List.flatMap_cons

theorem encode_append (before behind : List Chunk) :
    encode (before ++ behind) = wholes before ++ encode behind := by
  induction before with
  | nil => rfl
  | cons c before ih =>
    rw [List.cons_append, encode, ih, wholes_cons, Chunk.whole, List.append_assoc (_ ++ _ ++ _)]

/-- **A body cut inside the data of a chunk**, behind some of the data or none. -/
theorem cut_inData (before behind : List Chunk) (c : Chunk) {m : ℕ} (hm : m < c.data.length) (off : ℕ) :
    ∃ off', cut (before ++ c :: behind) ((wholes before).length + (c.line.length + m)) off =
      some (.data (c.data.drop m) off' behind) := by
  induction before generalizing off with
  | nil =>
    have hline : 0 < c.line.length := by
      rw [Chunk.line_length]
      omega
    refine ⟨off, ?_⟩
    rw [List.nil_append, show (wholes []).length = 0 from rfl, Nat.zero_add, cut, if_neg (by omega),
      if_neg (by omega), if_pos (by omega), Nat.add_sub_cancel_left]
  | cons b before ih =>
    rw [wholes_cons, List.length_append, Chunk.whole_length, List.cons_append, Nat.add_assoc,
      cut_behind]
    exact ih _

/-- Two chunks; the data of the first looks like the end of a body. -/
def deceptive : List Chunk :=
  [⟨bytes "5", lastChunk, ⟨by decide, by decide, by decide +kernel⟩, by decide, by decide⟩,
    ⟨bytes "02", bytes "hi", ⟨by decide, by decide, by decide +kernel⟩, by decide, by decide⟩]

/-! ### A first read that ends inside the data of a chunk -/

/-- A first read that brings the header block, some chunks and their size lines, and of the last chunk
it reaches `m` bytes of the data, not all. -/
structure CutInData where
  lines : List Line
  chunked : headerIs (linesTable lines) (bytes "Transfer-Encoding") (bytes "Chunked") = true
  before : List Chunk
  chunk : Chunk
  m : ℕ
  inside : m < chunk.data.length
  fits : (linesText lines ++ CRLF ++ (wholes before ++ (chunk.line ++ chunk.data.take m))).length ≤
    MAX_DOC_LENGTH - 1

namespace CutInData

/-- The bytes of the body in the first read. -/
def part (r : CutInData) : Bytes := wholes r.before ++ (r.chunk.line ++ r.chunk.data.take r.m)

def head (r : CutInData) : Bytes := linesText r.lines ++ CRLF ++ r.part

/-- Where the chunks start. -/
def start (r : CutInData) : ℕ := (linesText r.lines).length + CRLF.length

/-- The data bytes of the last chunk that are still to be read. -/
def missing (r : CutInData) : ℤ := r.chunk.data.length - r.m

/-- The response with what the walk stores into it. -/
def response (r : CutInData) (mem : Bytes) (chunk : Option ℕ) : Response where
  keepalive := !headerIs (linesTable r.lines) (bytes "Connection") (bytes "Close")
  chunked := true
  chunk := chunk
  rbuf := store mem 0 r.head
  rbufsize := r.head.length
  headers := linesTable r.lines

theorem part_length (r : CutInData) :
    r.part.length = (wholes r.before).length + (r.chunk.line.length + r.m) := by
  rw [part, List.length_append, List.length_append, List.length_take, Nat.min_eq_left r.inside.le]

/-- Whatever chunks follow, the first read ends inside the data. -/
theorem part_take (r : CutInData) (behind : List Chunk) :
    (encode (r.before ++ r.chunk :: behind)).take
      ((wholes r.before).length + (r.chunk.line.length + r.m)) = r.part := by
  have hsplit : r.chunk.data = r.chunk.data.take r.m ++ r.chunk.data.drop r.m :=
    (List.take_append_drop _ _).symm
  have hlen : r.chunk.line.length + r.m = (r.chunk.line ++ r.chunk.data.take r.m).length := by
    rw [List.length_append, List.length_take, Nat.min_eq_left r.inside.le]
  rw [encode_append, List.take_length_add_append, hlen, encode_take r.chunk behind hsplit rfl, part]

theorem head_length (r : CutInData) : r.head.length = r.start + r.part.length := by
  rw [head, start, List.length_append, List.length_append]

/-- **The walk over a first read that ends inside the data of a chunk** leaves the chunk that it cut and
the number of bytes that are missing of it. -/
theorem firstChunks_inData (r : CutInData) (mem : Bytes) :
    ∃ chunk, Halts (firstChunks (store mem 0 r.head) r.head.length r.start)
      (.ok (some chunk, r.missing)) := by
  obtain ⟨off, hcut⟩ := cut_inData r.before [] r.chunk r.inside 0
  have hbuf : (store mem 0 r.head).drop r.start =
      (encode (r.before ++ [r.chunk])).take
        ((wholes r.before).length + (r.chunk.line.length + r.m)) ++ mem.drop r.head.length := by
    rw [r.part_take []]
    exact store_body mem (linesText r.lines) r.part
  have hsize : r.head.length < 2 ^ 31 := lt_of_le_of_lt r.fits (by decide)
  obtain ⟨chunk, len, hhalts, hends⟩ := firstChunks_cut hsize
    (by rw [head_length, part_length]) hbuf hcut nofun (fun _ => nofun)
  generalize hleft : (chunk, len) = left at hends
  cases hends with
  | data d off cs chunk' =>
    cases hleft
    refine ⟨chunk', ?_⟩
    have hmissing : ((r.chunk.data.drop r.m).length : ℤ) = r.missing := by
      have hinside := r.inside
      rw [List.length_drop, missing]
      omega
    rwa [hmissing] at hhalts

end CutInData

section Receive

variable {σ : Type} {read : σ → ℕ → ReadResult × σ}

/-- **When the first read ends inside the data of a chunk**, be it right behind the size line, the walk
of `keepalive_recv_resp` ends with a chunk and with the number of data bytes of it that are still to be
read, and these are what the call goes on with. -/
theorem walk_inData (r : CutInData) {k : KeepaliveSocket} (hmethod : k.method ≠ some .HEAD) {c c' : σ}
    {status : Status} (hstatus : status = .success ∨ status = .eof)
    (hread : read c (MAX_DOC_LENGTH - 1) = (⟨status, r.head.length, r.head⟩, c')) (mem b : Bytes) :
    ∃ chunk N, ∀ fuel, N ≤ fuel →
      firstChunks (store mem 0 r.head) r.head.length r.start fuel =
        some (.ok (some chunk, (r.chunk.data.length - r.m : ℤ))) ∧
      keepaliveRecvResp read k mem b c fuel =
        receiveBody read k.wantresponse (r.response mem (some chunk)) 0
          (r.chunk.data.length - r.m) status b c' fuel := by
  obtain ⟨chunk, hwalk⟩ := r.firstChunks_inData mem
  obtain ⟨N, hN⟩ := hwalk
  obtain ⟨M, hM⟩ := headerLoop_first mem (show r.head = _ from rfl)
  refine ⟨chunk, max N M, fun fuel hfuel => ?_⟩
  have hchunks := hN fuel (le_trans (le_max_left N M) hfuel)
  have hheaders := hM fuel (le_trans (le_max_right N M) hfuel)
  dsimp only at hheaders
  refine ⟨hchunks, ?_⟩
  have hgo : ¬ (status ≠ .success ∧ status ≠ .eof) := by
    rintro ⟨hsuccess, heof⟩
    exact hstatus.elim hsuccess heof
  unfold keepaliveRecvResp
  rw [hread]
  dsimp only
  rw [if_neg hgo, hheaders]
  show receiveMessage read k _ _ _ _ b c' fuel = _
  unfold receiveMessage
  dsimp only
  rw [if_neg hmethod, if_pos r.chunked]
  show (firstChunks (store mem 0 r.head) r.head.length r.start fuel).bind _ = _
  rw [hchunks]
  rfl

end Receive

/-- Both chunks, the second without its last byte. -/
def deceptiveCut : CutInData where
  lines := threeReads.lines
  chunked := threeReads.chunked
  before := deceptive.take 1
  chunk := ⟨bytes "02", bytes "hi", ⟨by decide, by decide, by decide +kernel⟩, by decide, by decide⟩
  m := 1
  inside := by decide
  fits := by decide

theorem walk_inData_deceptive :
    ∃ chunk N, ∀ fuel, N ≤ fuel →
      firstChunks (store [] 0 deceptiveCut.head) deceptiveCut.head.length deceptiveCut.start fuel =
        some (.ok (some chunk, (2 - 1 : ℤ))) ∧
      keepaliveRecvResp readSocket keepaliveSocketInit [] [] ⟨[arrival deceptiveCut.head], []⟩ fuel =
        receiveBody readSocket true (deceptiveCut.response [] (some chunk)) 0 (2 - 1) .success []
          ⟨[], [⟨MAX_DOC_LENGTH - 1, deceptiveCut.head⟩]⟩ fuel :=
  walk_inData deceptiveCut (by decide) (.inl rfl) (readSocket_arrival deceptiveCut.fits [] []) [] []

/-! ### One read of the whole body -/

section Receive

variable {σ : Type} {read : σ → ℕ → ReadResult × σ}

/-- `keepalive_read_chunk` in front of the chunks `behind`, of which the buffer starts with `before`. -/
def boundary (before behind : List Chunk) (buf : Bytes) (c : σ) : ChunkState σ :=
  ⟨.scan (wholes before).length (encode behind).length 0, buf, c⟩

theorem encode_pos (cs : List Chunk) : 0 < (encode cs).length := by
  cases cs with
  | nil => decide
  | cons c cs =>
    have hdata := c.data_pos
    rw [encode, List.length_append, List.length_append, List.length_append]
    omega

/-- **The inner loop steps over one chunk**: what stands in the data is not looked at. -/
theorem scan_boundary (bplen : ℕ) {before behind : List Chunk} {ch : Chunk} {buf u : Bytes} (c : σ)
    (hbuf : buf = encode (before ++ ch :: behind) ++ u)
    (hsmall : (encode (before ++ ch :: behind)).length < 2 ^ 31) :
    chunkRound read bplen (boundary before (ch :: behind) buf c) =
      .inr (boundary (before ++ [ch]) behind buf c) := by
  have htotal : (encode (ch :: behind)).length =
      ch.line.length + ch.data.length + ((encode behind).length + 2) := by
    rw [encode, List.length_append, List.length_append, List.length_append,
      show CRLF.length = 2 from rfl]
    omega
  have hdrop : buf.drop (wholes before).length =
      (encode (ch :: behind)).take (ch.line.length + ch.data.length + ((encode behind).length + 2)) ++
        u := by
    rw [← htotal, List.take_length, hbuf, encode_append, List.append_assoc, List.drop_left]
  rw [encode_append, List.length_append, htotal] at hsmall
  obtain ⟨hround, hbehind⟩ := scan_whole read bplen c hdrop (by omega)
  rw [stepOverCrlf_cut hbehind, resume, if_neg (by omega)] at hround
  dsimp only at hround
  rw [resume, if_neg (encode_pos behind).ne'] at hround
  have hoff : (wholes (before ++ [ch])).length =
      (wholes before).length + ch.line.length + ch.data.length + 2 := by
    rw [wholes, List.flatMap_append, List.length_append]
    show _ + (wholes [ch]).length = _
    rw [wholes_cons, List.length_append, Chunk.whole_length]
    show _ + (_ + 0) = _
    rw [wholes]
    omega
  unfold boundary
  rw [htotal, hround, hoff]

/-- The inner loop in front of the last chunk. -/
theorem scan_last (bplen : ℕ) {cs : List Chunk} {buf u : Bytes} (c : σ)
    (hbuf : buf = encode cs ++ u) :
    chunkRound read bplen (boundary cs [] buf c) = .inl (.ok (.success, c)) := by
  have hdrop : buf.drop (wholes cs).length = lastChunk ++ u := by
    rw [hbuf, ← List.append_nil cs, encode_append, List.append_nil, List.append_assoc, List.drop_left]
    rfl
  unfold boundary chunkRound
  dsimp only
  rw [scanChunk_last hdrop]

/-- The read of the whole body leads to the first chunk. -/
theorem read_boundary {cs : List Chunk} (hlen : (encode cs).length ≤ MAX_DOC_LENGTH - 1) {c c' : σ}
    (hread : read c (MAX_DOC_LENGTH - 1) = (⟨.success, (encode cs).length, encode cs⟩, c'))
    (buf : Bytes) :
    chunkRound read (MAX_DOC_LENGTH - 1) ⟨.line 0, buf, c⟩ =
      .inr (boundary [] cs (store buf 0 (encode cs)) c') := by
  have hmax : MAX_DOC_LENGTH = 8192 := rfl
  have hfirst : (store buf 0 (encode cs)).drop 0 =
      (encode cs).take (encode cs).length ++ buf.drop (encode cs).length := by
    rw [List.drop_zero, store_zero, List.take_length]
  have hafter := afterRead_size hfirst
  rw [resume, if_neg (encode_pos cs).ne'] at hafter
  unfold chunkRound readInto
  dsimp only
  rw [hread]
  dsimp only
  rw [if_neg (by omega)]
  dsimp only
  rw [if_neg (not_not.mpr rfl), hafter]
  rfl

/-- From one boundary the inner loop comes to every later one. -/
theorem steps_boundary (bplen : ℕ) {buf u : Bytes} (c : σ) (mid before behind : List Chunk)
    (hbuf : buf = encode (before ++ (mid ++ behind)) ++ u)
    (hsmall : (encode (before ++ (mid ++ behind))).length < 2 ^ 31) :
    Steps (chunkRound read bplen) (boundary before (mid ++ behind) buf c)
      (boundary (before ++ mid) behind buf c) := by
  induction mid generalizing before with
  | nil =>
    rw [List.append_nil]
    exact .refl
  | cons ch mid ih =>
    have hassoc : before ++ (ch :: mid ++ behind) = before ++ [ch] ++ (mid ++ behind) := by simp
    have hrest := ih (before ++ [ch]) (hassoc ▸ hbuf) (hassoc ▸ hsmall)
    rw [List.append_assoc, List.singleton_append] at hrest
    exact .head (scan_boundary bplen c hbuf hsmall) hrest

/-- In front of its first read `keepalive_read_chunk` has no chunk. -/
def unread (buf : Bytes) (c : σ) : ChunkState σ := ⟨.line 0, buf, c⟩

/-- The inner loop stands at a boundary of the chunks. -/
def AtBoundary (cs : List Chunk) (buf : Bytes) (c : σ) (s : ChunkState σ) : Prop :=
  ∃ before behind, cs = before ++ behind ∧ s = boundary before behind buf c

/-- Behind the read there are only boundaries. -/
theorem steps_atBoundary {cs : List Chunk} (hlen : (encode cs).length ≤ MAX_DOC_LENGTH - 1) {c c' : σ}
    (hread : read c (MAX_DOC_LENGTH - 1) = (⟨.success, (encode cs).length, encode cs⟩, c'))
    {buf : Bytes} {s : ChunkState σ}
    (hs : Steps (chunkRound read (MAX_DOC_LENGTH - 1)) (unread buf c) s) :
    s = unread buf c ∨ AtBoundary cs (store buf 0 (encode cs)) c' s := by
  have hsmall : (encode cs).length < 2 ^ 31 := lt_of_le_of_lt hlen (by decide)
  induction hs with
  | refl => exact .inl rfl
  | tail _ hround ih =>
    right
    rcases ih with rfl | ⟨before, behind, hcs, rfl⟩
    · rw [unread, read_boundary hlen hread] at hround
      cases hround
      exact ⟨[], cs, rfl, rfl⟩
    · have hbuf := store_zero buf (encode cs)
      cases behind with
      | nil =>
        rw [List.append_nil] at hcs
        subst hcs
        rw [scan_last _ c' hbuf] at hround
        cases hround
      | cons ch behind =>
        subst hcs
        rw [scan_boundary _ c' hbuf hsmall] at hround
        cases hround
        exact ⟨before ++ [ch], behind, by rw [List.append_assoc]; rfl, rfl⟩

/-- A reader that counts its calls. -/
def counted (read : σ → ℕ → ReadResult × σ) (s : σ × ℕ) (len : ℕ) : ReadResult × (σ × ℕ) :=
  ((read s.1 len).1, ((read s.1 len).2, s.2 + 1))

/-- **The whole body in one read**: `keepalive_read_chunk` returns `APR_SUCCESS` behind that read.  It
comes to every chunk in turn, and looks for a size line at no other place. -/
theorem readChunk_oneRead (cs : List Chunk) (hlen : (encode cs).length ≤ MAX_DOC_LENGTH - 1) {c c' : σ}
    (hread : read c (MAX_DOC_LENGTH - 1) = (⟨.success, (encode cs).length, encode cs⟩, c'))
    (chunkLength : ℤ) (buf : Bytes) :
    Halts (keepaliveReadChunk (counted read) none chunkLength buf (MAX_DOC_LENGTH - 1) (c, 0))
        (.ok (.success, (c', 1))) ∧
      (∀ before behind, cs = before ++ behind →
        Steps (chunkRound (counted read) (MAX_DOC_LENGTH - 1)) (unread buf (c, 0))
          (boundary before behind (store buf 0 (encode cs)) (c', 1))) ∧
      ∀ s, Steps (chunkRound (counted read) (MAX_DOC_LENGTH - 1)) (unread buf (c, 0)) s →
        s = unread buf (c, 0) ∨ AtBoundary cs (store buf 0 (encode cs)) (c', 1) s := by
  have hcounted : counted read (c, 0) (MAX_DOC_LENGTH - 1) =
      (⟨.success, (encode cs).length, encode cs⟩, (c', 1)) := by
    rw [counted, hread]
  have hsmall : (encode cs).length < 2 ^ 31 := lt_of_le_of_lt hlen (by decide)
  have hbuf := store_zero buf (encode cs)
  have hfirst := read_boundary hlen hcounted buf
  have hall : ∀ before behind, cs = before ++ behind →
      Steps (chunkRound (counted read) (MAX_DOC_LENGTH - 1)) (unread buf (c, 0))
        (boundary before behind (store buf 0 (encode cs)) (c', 1)) := by
    rintro before behind rfl
    exact .head hfirst (steps_boundary _ (c', 1) before [] behind hbuf hsmall)
  refine ⟨?_, hall, fun s hs => steps_atBoundary hlen hcounted hs⟩
  exact halts_of_steps (hall cs [] (List.append_nil cs).symm) (halts_inl (scan_last _ (c', 1) hbuf))

end Receive

/-- All of both chunks in one read. -/
theorem readChunk_oneRead_deceptive :
    Halts (keepaliveReadChunk (counted readSocket) none 0 [] (MAX_DOC_LENGTH - 1)
        (⟨[arrival (encode deceptive)], []⟩, 0))
      (.ok (.success, (⟨[], [⟨MAX_DOC_LENGTH - 1, encode deceptive⟩]⟩, 1))) :=
  (readChunk_oneRead deceptive (by decide) (readSocket_arrival (by decide) [] []) 0 []).1

end Flood.ChunkBoundaries
