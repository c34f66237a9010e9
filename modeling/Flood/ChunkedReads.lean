import Flood.ChunkedBody

/-!
# Reading the rest of a chunked body

`keepalive_read_chunk` over the arrivals behind the first read.  `next` says which arrivals it can
take: none may end inside a size line or inside the last chunk, and one that starts with the CRLF
behind a chunk may not end inside that.

* `arrives_cut` — the loop over the chunks in the buffer goes from a size line to the place that
  belongs to the cut at the end of the bytes.
* `arrives_next` — one arrival.
* `readChunk_clean` — any arrivals of this kind.
-/

namespace Flood.ChunkedReads

open Flood.CString Flood.Loop Flood.Net Flood.SocketKeepalive Flood.HeaderBlock Flood.ChunkedBody

/-! ### Arrivals that can be taken -/

/-- What is left after an arrival of `n` bytes that starts with the CRLF behind a chunk. -/
def nextCrlf (cs : List Chunk) (n : ℕ) : Option Todo := if n < 2 then none else cut cs (n - 2) 2

/-- What is left after an arrival of `n` bytes, where `keepalive_read_chunk` can take it.  Data has
to fit behind the size line that stands before it in the buffer. -/
def next : Todo → ℕ → Option Todo
  | .size cs, n => cut cs n 0
  | .data d off cs, n =>
    if MAX_DOC_LENGTH < off + min n d.length then none
    else if n < d.length then some (.data (d.drop n) 0 cs)
    else if n = d.length then some (.crlf cs)
    else nextCrlf cs (n - d.length)
  | .crlf cs, n => nextCrlf cs n
  | .lf cs, n => cut cs (n - 1) 1
  | .done, _ => none

/-- Arrivals of these lengths can all be taken, and complete the body. -/
def CleanReads : Todo → List ℕ → Prop
  | .done, [] => True
  | t, n :: ns => ∃ t', next t n = some t' ∧ CleanReads t' ns
  | _, [] => False

/-- The sizes of these chunks are numbers of 32 bits. -/
def Small (cs : List Chunk) : Prop := ∀ c ∈ cs, c.data.length < 2 ^ 32

/-- Data that is left, and the chunks to come, are counted by 32 bits. -/
def Counted : Todo → Prop
  | .size cs | .crlf cs | .lf cs => Small cs
  | .data d _ cs => (d ≠ [] ∧ d.length < 2 ^ 32) ∧ Small cs
  | .done => True

/-! ### Counting in 32 bits -/

/-- A number of 32 bits, taken as an `int`, is compared with an `apr_size_t` as a number that is no
smaller. -/
theorem wrapNat_wrapInt {v : ℕ} (hv : v < 2 ^ 32) :
    (v < 2 ^ 31 ∧ wrapInt 32 v = v ∧ wrapNat 64 (wrapInt 32 v) = v) ∨
      (wrapInt 32 v < 0 ∧ 2 ^ 63 < wrapNat 64 (wrapInt 32 v)) := by
  by_cases h : v < 2 ^ 31
  · have hint : wrapInt 32 (v : ℤ) = v := wrapInt_of_lt (w := 31) (Int.natCast_nonneg _) (by omega)
    rw [hint]
    exact .inl ⟨h, rfl, wrapNat_of_lt (by omega)⟩
  · have hint : wrapInt 32 (v : ℤ) = v - 2 ^ 32 := by
      rw [wrapInt, Int.bmod_def, if_neg (by omega)]
      omega
    rw [hint, wrapNat]
    exact .inr ⟨by omega, by omega⟩

theorem wrapInt_sub (w : ℕ) (a b : ℤ) : wrapInt w (wrapInt w a - b) = wrapInt w (a - b) :=
  Int.bmod_sub_bmod

theorem wrapInt_ne_zero {v : ℕ} (h0 : 0 < v) (hv : v < 2 ^ 32) : wrapInt 32 v ≠ 0 := by
  rcases wrapNat_wrapInt hv with ⟨-, h, -⟩ | ⟨h, -⟩ <;> omega

/-! ### The chunks in the buffer -/

/-- The loop comes from `s` to the place that belongs to `t`, or returns at the end of the body; the
connection is then `c`. -/
def Arrives (bplen : ℕ) (s : ChunkState Conn) (t : Todo) (c : Conn) : Prop :=
  match t with
  | .done => Halts (fun n => runLoop (chunkRound readSocket bplen) n s) (.ok (.success, c))
  | t => ∃ buf, Steps (chunkRound readSocket bplen) s ⟨t.point, buf, c⟩

theorem Arrives.step {bplen : ℕ} {s s' : ChunkState Conn} {t : Todo} {c : Conn}
    (hs : chunkRound readSocket bplen s = .inr s') (h : Arrives bplen s' t c) :
    Arrives bplen s t c := by
  cases t with
  | done => exact halts_inr hs h
  | size cs | data d off cs | crlf cs | lf cs =>
    obtain ⟨buf, hsteps⟩ := h
    exact ⟨buf, .head hs hsteps⟩

theorem Arrives.here {bplen : ℕ} {buf : Bytes} {c : Conn} {t : Todo} (ht : t ≠ .done) :
    Arrives bplen ⟨t.point, buf, c⟩ t c := by
  cases t with
  | done => exact absurd rfl ht
  | size cs | data d off cs | crlf cs | lf cs => exact ⟨buf, .refl⟩

/-- The size line of the last chunk. -/
theorem sizeLine_zero (m : Bytes) : strstr CRLF ([48] ++ CRLF ++ m) = some 1 ∧
    keepaliveReadChunkSize ([48] ++ CRLF ++ m) = 0 := by
  have hline : strstr CRLF ([48] ++ CRLF ++ m) = some 1 :=
    strstr_line [48] m (by decide) (by decide)
  refine ⟨hline, ?_⟩
  simp only [keepaliveReadChunkSize, hline]
  rfl

/-- The last chunk ends the loop. -/
theorem scanChunk_last {buf : Bytes} {b : ℕ} {u : Bytes} (hbuf : buf.drop b = lastChunk ++ u)
    (n : ℕ) (old : ℤ) : scanChunk buf b n old = .ok none := by
  have hsize : keepaliveReadChunkSize (lastChunk ++ u) = 0 := (sizeLine_zero (CRLF ++ u)).2
  have hend : strstr (CRLF ++ CRLF) (lastChunk ++ u) = some 1 := by
    simp [strstr, lastChunk, CRLF, CR, LF, bytes]
  simp only [scanChunk, hbuf, hsize, hend]
  rfl

theorem Chunk.line_length (c : Chunk) : c.line.length = c.digits.length + 2 := by
  simp [Chunk.line, CRLF]

/-- A chunk of which the buffer holds all data is stepped over. -/
theorem scanChunk_whole {buf : Bytes} {b n : ℕ} {c : Chunk} {m : Bytes}
    (hbuf : buf.drop b = c.line ++ m) (hn : c.line.length + c.data.length ≤ n)
    (hsmall : n < 2 ^ 31) (old : ℤ) :
    scanChunk buf b n old = .ok (some (stepOverCrlf buf (b + c.line.length + c.data.length)
      (n - c.line.length - c.data.length) old)) := by
  have hline := Chunk.line_length c
  have hpos := c.data_pos
  have hchunk : wrapInt 32 (c.data.length : ℤ) = c.data.length :=
    wrapInt_of_lt (w := 31) (Int.natCast_nonneg _) (by omega)
  have hblen : wrapNat 64 ((n : ℤ) - ((c.digits.length : ℤ) + 2)) = n - c.line.length := by
    rw [show (n : ℤ) - (c.digits.length + 2) = (n - c.line.length : ℕ) by omega]
    exact wrapNat_of_lt (by omega)
  have hnat : wrapNat 64 (c.data.length : ℤ) = c.data.length := wrapNat_of_lt (by omega)
  have hnext : (b : ℤ) + c.data.length + ((c.digits.length : ℤ) + 2) =
      (b + c.line.length + c.data.length : ℕ) := by omega
  simp only [scanChunk, hbuf, c.readChunkSize, c.strstr_line, hchunk]
  rw [if_neg (by omega), hblen, hnat, if_pos (by omega), hnext, if_neg (by omega),
    Int.toNat_natCast]

/-- A chunk of which some data is missing is waited for. -/
theorem scanChunk_part {buf : Bytes} {b n : ℕ} {c : Chunk} {m : Bytes}
    (hbuf : buf.drop b = c.line ++ m) (hline : c.line.length ≤ n)
    (hn : n < c.line.length + c.data.length) (hsmall : n < 2 ^ 31)
    (hsize : c.data.length < 2 ^ 32) (old : ℤ) :
    scanChunk buf b n old =
      .ok (some (.data (wrapInt 32 (c.line.length + c.data.length - n : ℕ)) b old)) := by
  have hlen := Chunk.line_length c
  have hne := wrapInt_ne_zero c.data_pos hsize
  have hblen : wrapNat 64 ((n : ℤ) - ((c.digits.length : ℤ) + 2)) = n - c.line.length := by
    rw [show (n : ℤ) - (c.digits.length + 2) = (n - c.line.length : ℕ) by omega]
    exact wrapNat_of_lt (by omega)
  have hmore : ¬ wrapNat 64 (wrapInt 32 (c.data.length : ℤ)) ≤ n - c.line.length := by
    rcases wrapNat_wrapInt hsize with ⟨-, -, h⟩ | ⟨-, h⟩ <;> omega
  have hleft : wrapInt 32 (wrapInt 32 (c.data.length : ℤ) - (n - c.line.length : ℕ)) =
      wrapInt 32 (c.line.length + c.data.length - n : ℕ) := by
    rw [wrapInt_sub]
    congr 1
    omega
  have hleft0 := wrapInt_ne_zero (v := c.line.length + c.data.length - n) (by omega) (by omega)
  simp only [scanChunk, hbuf, c.readChunkSize, c.strstr_line]
  rw [if_neg hne, hblen, if_neg hmore, hleft, if_neg hleft0]

/-- Where the loop goes on with `n` bytes of the body left in the buffer from `b` on. -/
def resume (b n : ℕ) : ChunkPoint := if n = 0 then .line 0 else .scan b n 0

/-- Behind the data of a chunk the loop steps over the bytes of the CRLF that are there. -/
theorem stepOverCrlf_cut {buf u e : Bytes} {b k : ℕ} (h : buf.drop b = (CRLF ++ e).take k ++ u) :
    stepOverCrlf buf b k 0 =
      match k with
      | 0 => .line 0
      | 1 => .line (-1)
      | m + 2 => resume (b + 2) m := by
  match k with
  | 0 => rfl
  | 1 =>
    obtain ⟨hcr, -⟩ := byteAt_drop (m := u) (x := CR) h
    simp [stepOverCrlf, hcr]
  | m + 2 =>
    obtain ⟨hcr, h⟩ := byteAt_drop (m := LF :: (e.take m ++ u)) (x := CR) h
    obtain ⟨hlf, -⟩ := byteAt_drop h
    simp [stepOverCrlf, hcr, hlf, resume]

/-- From a chunk of which the buffer holds all data the loop comes to the bytes behind the data. -/
theorem scan_whole {σ : Type} (read : σ → ℕ → ReadResult × σ) (bplen : ℕ) (c : σ) {buf u : Bytes}
    {ch : Chunk} {cs : List Chunk} {b k : ℕ}
    (hbuf : buf.drop b = (encode (ch :: cs)).take (ch.line.length + ch.data.length + k) ++ u)
    (hsmall : ch.line.length + ch.data.length + k < 2 ^ 31) :
    chunkRound read bplen ⟨resume b (ch.line.length + ch.data.length + k), buf, c⟩ =
      .inr ⟨stepOverCrlf buf (b + ch.line.length + ch.data.length) k 0, buf, c⟩ ∧
    buf.drop (b + ch.line.length + ch.data.length) = (CRLF ++ encode cs).take k ++ u := by
  have hline := Chunk.line_length ch
  rw [encode_take_add, List.append_assoc] at hbuf
  constructor
  · have hscan := scanChunk_whole (by rw [hbuf, List.append_assoc])
      (n := ch.line.length + ch.data.length + k) (by omega) hsmall 0
    rw [show ch.line.length + ch.data.length + k - ch.line.length - ch.data.length = k by omega]
      at hscan
    rw [resume, if_neg (by omega)]
    simp only [chunkRound, hscan]
  · rw [Nat.add_assoc, ← List.drop_drop, hbuf]
    exact List.drop_left' (by simp)

/-- **The chunks in the buffer**: from a size line at `b` on, the loop comes to the place that
belongs to the cut behind the `n` bytes there. -/
theorem arrives_cut {bplen : ℕ} {c : Conn} {buf u : Bytes} (cs : List Chunk) (b n : ℕ) {t : Todo}
    (hbuf : buf.drop b = (encode cs).take n ++ u) (hsmall : n < 2 ^ 31)
    (hcs : ∀ c ∈ cs, c.data.length < 2 ^ 32) (ht : cut cs n b = some t) :
    Arrives bplen ⟨resume b n, buf, c⟩ t c := by
  induction cs generalizing b n with
  | nil =>
    rcases cut_nil ht with ⟨rfl, rfl⟩ | ⟨rfl, rfl⟩
    · exact Arrives.here (t := .size []) (by simp)
    · have hlast : scanChunk buf b lastChunk.length 0 = .ok none :=
        scanChunk_last (u := u) (by rw [hbuf, encode, List.take_length]) _ _
      rw [resume, if_neg (by decide)]
      exact halts_inl (by simp only [chunkRound, hlast])
  | cons ch cs ih =>
    have hline := Chunk.line_length ch
    rcases cut_cons ht with ⟨rfl, rfl⟩ | ⟨d₁, d₂, hd, hd₂, rfl, rfl⟩ | ⟨rfl, rfl⟩ | ⟨rfl, rfl⟩ |
      ⟨m, rfl, hm⟩
    · exact Arrives.here (t := .size (ch :: cs)) (by simp)
    · rw [← List.length_append, encode_take ch cs hd rfl, List.append_assoc] at hbuf
      have hpos := List.length_pos_iff.mpr hd₂
      have hlen : ch.data.length = d₁.length + d₂.length := by rw [hd, List.length_append]
      have hscan := scanChunk_part hbuf (n := ch.line.length + d₁.length) (by omega) (by omega)
        hsmall (hcs ch (by simp)) 0
      rw [show ch.line.length + ch.data.length - (ch.line.length + d₁.length) = d₂.length by omega]
        at hscan
      rw [resume, if_neg (by omega)]
      exact (Arrives.here (t := .data d₂ b cs) (by simp)).step
        (by simp only [chunkRound, hscan]; rfl)
    · obtain ⟨hround, hbehind⟩ := scan_whole (k := 0) readSocket bplen c hbuf hsmall
      rw [stepOverCrlf_cut hbehind] at hround
      exact (Arrives.here (t := .crlf cs) (by simp)).step hround
    · obtain ⟨hround, hbehind⟩ := scan_whole (k := 1) readSocket bplen c hbuf hsmall
      rw [stepOverCrlf_cut hbehind] at hround
      exact (Arrives.here (t := .lf cs) (by simp)).step hround
    · rw [Nat.add_assoc _ 2 m, Nat.add_comm 2 m] at hbuf hsmall ⊢
      obtain ⟨hround, hbehind⟩ := scan_whole readSocket bplen c hbuf hsmall
      rw [stepOverCrlf_cut hbehind] at hround
      refine .step hround (ih _ m ?_ (by omega) (fun c hc => hcs c (by simp [hc])) hm)
      rw [← List.drop_drop, hbehind]
      rfl

/-! ### One arrival -/

theorem nextCrlf_spec {cs : List Chunk} {t : Todo} {n : ℕ} (ht : nextCrlf cs n = some t) :
    ∃ m, n = m + 2 ∧ cut cs m 2 = some t := by
  rw [nextCrlf] at ht
  split at ht
  · cases ht
  · exact ⟨n - 2, by omega, ht⟩

/-- **What an arrival does to data that is left**: it takes some, or all and perhaps more. -/
theorem next_data {d : Bytes} {off : ℕ} {cs : List Chunk} {t : Todo} {n : ℕ}
    (ht : next (.data d off cs) n = some t) :
    off + min n d.length ≤ MAX_DOC_LENGTH ∧
      ((n < d.length ∧ t = .data (d.drop n) 0 cs) ∨ (n = d.length ∧ t = .crlf cs) ∨
        d.length < n ∧ nextCrlf cs (n - d.length) = some t) := by
  rw [next] at ht
  split at ht
  · cases ht
  · refine ⟨by omega, ?_⟩
    split at ht
    · next hn => exact .inl ⟨hn, (Option.some.inj ht).symm⟩
    · split at ht
      · next hn => exact .inr (.inl ⟨hn, (Option.some.inj ht).symm⟩)
      · exact .inr (.inr ⟨by omega, ht⟩)

/-- What is left after an arrival that can be taken is what stands behind its bytes. -/
theorem next_bytes {t t' : Todo} {n : ℕ} (hn : 0 < n) (ht : next t n = some t') :
    t.bytes.drop n = t'.bytes := by
  have hcrlf : ∀ {cs n}, nextCrlf cs n = some t' → (CRLF ++ encode cs).drop n = t'.bytes := by
    intro cs n ht
    obtain ⟨m, rfl, hm⟩ := nextCrlf_spec ht
    exact encode_cut hm
  cases t with
  | size cs => exact encode_cut ht
  | data d off cs =>
    rw [Todo.bytes, List.append_assoc]
    rcases (next_data ht).2 with ⟨hlt, rfl⟩ | ⟨rfl, rfl⟩ | ⟨hlt, hnext⟩
    · rw [List.drop_append_of_le_length (by omega), Todo.bytes, List.append_assoc]
    · exact List.drop_left
    · rw [show n = d.length + (n - d.length) by omega, ← List.drop_drop, List.drop_left]
      exact hcrlf hnext
  | crlf cs => exact hcrlf ht
  | lf cs =>
    obtain ⟨m, rfl⟩ : ∃ m, n = m + 1 := ⟨n - 1, by omega⟩
    exact encode_cut ht
  | done => cases ht

theorem cut_counted {cs : List Chunk} {n off : ℕ} {t : Todo} (ht : cut cs n off = some t)
    (hcs : Small cs) : Counted t := by
  induction cs generalizing n off with
  | nil =>
    rcases cut_nil ht with ⟨-, rfl⟩ | ⟨-, rfl⟩
    · exact hcs
    · trivial
  | cons c cs ih =>
    have htail : Small cs := fun c hc => hcs c (by simp [hc])
    rcases cut_cons ht with ⟨-, rfl⟩ | ⟨d₁, d₂, hd, hd₂, -, rfl⟩ | ⟨-, rfl⟩ | ⟨-, rfl⟩ | ⟨m, -, hm⟩
    · exact hcs
    · have hlt := hcs c (by simp)
      rw [hd, List.length_append] at hlt
      exact ⟨⟨hd₂, by omega⟩, htail⟩
    · exact htail
    · exact htail
    · exact ih hm htail

theorem next_counted {t t' : Todo} {n : ℕ} (ht : next t n = some t') (h : Counted t) :
    Counted t' := by
  have hcrlf : ∀ {cs n}, nextCrlf cs n = some t' → Small cs → Counted t' := by
    intro cs n ht hcs
    obtain ⟨m, -, hm⟩ := nextCrlf_spec ht
    exact cut_counted hm hcs
  cases t with
  | size cs => exact cut_counted ht h
  | data d off cs =>
    obtain ⟨⟨-, hd⟩, hcs⟩ := h
    rcases (next_data ht).2 with ⟨hlt, rfl⟩ | ⟨-, rfl⟩ | ⟨-, hnext⟩
    · exact ⟨⟨List.length_pos_iff.mp (by rw [List.length_drop]; omega),
        by rw [List.length_drop]; omega⟩, hcs⟩
    · exact hcs
    · exact hcrlf hnext hcs
  | crlf cs => exact hcrlf ht h
  | lf cs => exact cut_counted ht h
  | done => cases ht

/-- A body starts with a digit, and so with neither NUL nor CR. -/
theorem byteAt_encode {cs : List Chunk} {buf u : Bytes} {b n : ℕ} (hn : 0 < n)
    (hbuf : buf.drop b = (encode cs).take n ++ u) {d : UInt8} (hd : d < 48) : byteAt buf b ≠ d := by
  have hfirst : ∃ x l, encode cs = x :: l ∧ x ≠ d := by
    cases cs with
    | nil => exact ⟨48, CRLF ++ CRLF, rfl, digit_ne (show 16 ≤ 36 by decide) (by decide) hd⟩
    | cons c cs =>
      obtain ⟨x, ds, hx⟩ := List.exists_cons_of_ne_nil c.digitsOk.1
      exact ⟨x, ds ++ CRLF ++ c.data ++ CRLF ++ encode cs, by simp [encode, Chunk.line, hx],
        digit_ne (by decide) (c.digitsOk.2.2 x (by simp [hx])) hd⟩
  obtain ⟨x, l, hl, hx⟩ := hfirst
  obtain ⟨m, rfl⟩ : ∃ m, n = m + 1 := ⟨n - 1, by omega⟩
  rw [hl, List.take_succ_cons, List.cons_append] at hbuf
  rwa [(byteAt_drop hbuf).1]

/-- After a read that starts with a size line, the loop goes on there. -/
theorem afterRead_size {cs : List Chunk} {buf u : Bytes} {n : ℕ}
    (hbuf : buf.drop 0 = (encode cs).take n ++ u) : afterRead buf n 0 = resume 0 n := by
  have hcr : ¬ (2 ≤ n ∧ byteAt buf 0 = CR ∧ byteAt buf 1 = LF) := fun h =>
    byteAt_encode (by omega) hbuf (by decide) h.2.1
  simp only [afterRead, lt_irrefl, if_false, max_self, Nat.zero_add, if_neg hcr, resume]

/-- After a read that starts with the CRLF behind a chunk, the loop goes on behind that. -/
theorem afterRead_crlf {buf m : Bytes} {n : ℕ} (hbuf : buf.drop 0 = CR :: LF :: m) :
    afterRead buf (n + 2) 0 = resume 2 n := by
  obtain ⟨hcr, hrest⟩ := byteAt_drop hbuf
  obtain ⟨hlf, -⟩ := byteAt_drop hrest
  simp [afterRead, resume, hcr, hlf]

/-- After a read that starts with the LF that was missing, the loop goes on behind that. -/
theorem afterRead_lf (cs : List Chunk) {buf u : Bytes} {n : ℕ} (hn : n < 2 ^ 31)
    (hbuf : buf.drop 1 = (encode cs).take n ++ u) : afterRead buf (n + 1) (-1) = resume 1 n := by
  have hwrap : wrapNat 64 ((n + 1 : ℕ) + (-1 : ℤ)) = n := by
    rw [show ((n + 1 : ℕ) + (-1 : ℤ)) = (n : ℕ) by omega]
    exact wrapNat_of_lt (by omega)
  have hcr : ¬ (2 ≤ n ∧ byteAt buf 1 = CR ∧ byteAt buf 2 = LF) := fun h =>
    byteAt_encode (by omega) hbuf (by decide) h.2.1
  simp only [afterRead, hwrap, show (-1 : ℤ) < 0 by decide, if_true,
    show (- -(1 : ℤ)).toNat = 1 from rfl, Nat.reduceAdd, if_neg hcr, resume]
  rfl

/-- `while (!blen)` reads an arrival that fits the buffer as a whole. -/
theorem chunkRound_line {seg : Bytes} (hseg : seg.length ≤ MAX_DOC_LENGTH - 1) (old : ℤ)
    (buf : Bytes) (pend : List NetEvent) (log : List Read) :
    chunkRound readSocket (MAX_DOC_LENGTH - 1) ⟨.line old, buf, ⟨arrival seg :: pend, log⟩⟩ =
      .inr ⟨afterRead (store buf 0 seg) seg.length old, store buf 0 seg,
        ⟨pend, log ++ [⟨MAX_DOC_LENGTH - 1, seg⟩]⟩⟩ := by
  have hmax : MAX_DOC_LENGTH = 8192 := rfl
  simp only [chunkRound, readInto, readSocket_arrival hseg]
  rw [if_neg (by omega)]
  simp

/-- From what is left as `t` the parser takes the arrival `seg`, in reads that all return some of
its bytes, and comes to `t'`. -/
def Takes (t : Todo) (seg : Bytes) (t' : Todo) : Prop :=
  ∀ (buf : Bytes) (pend : List NetEvent) (log : List Read), ∃ later : List Read,
    Arrives (MAX_DOC_LENGTH - 1) ⟨t.point, buf, ⟨arrival seg :: pend, log⟩⟩ t'
      ⟨pend, log ++ later⟩ ∧
    later.flatMap Read.received = seg ∧ ∀ r ∈ later, r.received ≠ []

/-- An arrival that is read into the start of the buffer, behind a size line's place. -/
theorem takes_line (old : ℤ) {t t' : Todo} {seg : Bytes} {b n : ℕ} {cs : List Chunk}
    (hpoint : t.point = .line old) (hne : seg ≠ []) (hlen : seg.length ≤ MAX_DOC_LENGTH - 1)
    (hafter : ∀ u, afterRead (seg ++ u) seg.length old = resume b n) (hb : b ≤ seg.length)
    (hseg : seg.drop b = (encode cs).take n) (hsmall : n < 2 ^ 31) (hcs : Small cs)
    (hcut : cut cs n b = some t') : Takes t seg t' := by
  intro buf pend log
  refine ⟨[⟨MAX_DOC_LENGTH - 1, seg⟩], ?_, by simp, by simpa using hne⟩
  have hround := chunkRound_line hlen old buf pend log
  rw [store_zero, hafter] at hround
  rw [hpoint]
  refine .step hround (arrives_cut (u := buf.drop seg.length) cs b n ?_ hsmall hcs hcut)
  rw [List.drop_append_of_le_length hb, hseg]

theorem takes_crlf (seg : Bytes) {cs : List Chunk} {t' : Todo} {rest : Bytes}
    (ht : nextCrlf cs seg.length = some t') (hb : CRLF ++ encode cs = seg ++ rest)
    (hlen : seg.length ≤ MAX_DOC_LENGTH - 1) (hcs : Small cs) : Takes (.crlf cs) seg t' := by
  have hmax : MAX_DOC_LENGTH = 8192 := rfl
  obtain ⟨m, hm, hcut⟩ := nextCrlf_spec ht
  have hseg : seg = CR :: LF :: (encode cs).take m := by
    have : seg = (CRLF ++ encode cs).take seg.length := by rw [hb, List.take_left]
    rw [this, hm]
    rfl
  refine takes_line 0 (b := 2) (n := m) rfl (by simp [hseg]) hlen (fun u => ?_) (by omega)
    (by rw [hseg]; rfl) (by omega) hcs hcut
  rw [hm]
  exact afterRead_crlf (m := (encode cs).take m ++ u) (by rw [hseg]; rfl)

/-- The length that is asked for when data is missing: all of it, or as much as the buffer takes. -/
theorem dataLen {v : ℕ} (hv : v < 2 ^ 32) :
    (v ≤ MAX_DOC_LENGTH - 1 ∧ (if wrapInt 32 v > (MAX_DOC_LENGTH - 1 : ℕ) then MAX_DOC_LENGTH - 1
        else wrapNat 64 (wrapInt 32 v)) = v) ∨
      (MAX_DOC_LENGTH - 1 < v ∧ MAX_DOC_LENGTH - 1 ≤
        if wrapInt 32 v > (MAX_DOC_LENGTH - 1 : ℕ) then MAX_DOC_LENGTH - 1
        else wrapNat 64 (wrapInt 32 v)) := by
  have hmax : MAX_DOC_LENGTH = 8192 := rfl
  rcases wrapNat_wrapInt hv with ⟨-, hint, hnat⟩ | ⟨hint, hnat⟩
  · rw [hnat, hint]
    split <;> omega
  · rw [if_neg (by omega)]
    right
    refine ⟨?_, by omega⟩
    by_contra hle
    rw [wrapInt_of_lt (w := 31) (Int.natCast_nonneg _) (by omega)] at hint
    omega

/-- A read of `got` in the middle of a chunk. -/
theorem chunkRound_data (off : ℕ) {v len : ℕ} {c c' : Conn} {got : Bytes}
    (hlen : (if wrapInt 32 v > (MAX_DOC_LENGTH - 1 : ℕ) then MAX_DOC_LENGTH - 1
      else wrapNat 64 (wrapInt 32 v)) = len)
    (hread : readSocket c len = (⟨.success, got.length, got⟩, c'))
    (hoff : off + got.length ≤ MAX_DOC_LENGTH) (hv : got.length ≤ v) (hsize : v < 2 ^ 32)
    (buf : Bytes) :
    chunkRound readSocket (MAX_DOC_LENGTH - 1) ⟨.data (wrapInt 32 v) off 0, buf, c⟩ =
      .inr ⟨if v = got.length then .line 0 else .data (wrapInt 32 (v - got.length : ℕ)) 0 0,
        store buf off got, c'⟩ := by
  have hleft : wrapInt 32 (wrapInt 32 (v : ℤ) - got.length) = wrapInt 32 (v - got.length : ℕ) := by
    rw [wrapInt_sub, Int.ofNat_sub hv]
  simp only [chunkRound, hlen, readInto, hread]
  rw [if_neg (by omega)]
  simp only [ne_eq, not_true_eq_false, if_false, hleft]
  by_cases heq : v = got.length
  · rw [if_pos heq, if_pos (by rw [heq, Nat.sub_self]; rfl)]
  · rw [if_neg heq, if_neg (wrapInt_ne_zero (by omega) (by omega))]

theorem takes_data {d : Bytes} {off : ℕ} {cs : List Chunk} {t' : Todo} {seg rest : Bytes}
    (ht : next (.data d off cs) seg.length = some t') (hb : d ++ (CRLF ++ encode cs) = seg ++ rest)
    (hne : seg ≠ []) (hlen : seg.length ≤ MAX_DOC_LENGTH - 1) (hd : d ≠ [] ∧ d.length < 2 ^ 32)
    (hcs : Small cs) : Takes (.data d off cs) seg t' := by
  obtain ⟨hd₀, hd⟩ := hd
  intro buf pend log
  obtain ⟨hfit, hcase⟩ := next_data ht
  -- an arrival of at most the missing data is read as a whole
  have hwhole : seg.length ≤ d.length → ∃ len,
      chunkRound readSocket (MAX_DOC_LENGTH - 1)
        ⟨(Todo.data d off cs).point, buf, ⟨arrival seg :: pend, log⟩⟩ =
      .inr ⟨if d.length = seg.length then .line 0 else
          .data (wrapInt 32 (d.length - seg.length : ℕ)) 0 0,
        store buf off seg, ⟨pend, log ++ [⟨len, seg⟩]⟩⟩ := by
    intro hle
    refine ⟨_, chunkRound_data off rfl (readSocket_arrival ?_ pend log) (by omega) hle hd buf⟩
    rcases dataLen hd with ⟨-, h⟩ | ⟨-, h⟩ <;> omega
  rcases hcase with ⟨hlt, rfl⟩ | ⟨heq, rfl⟩ | ⟨hlt, hnext⟩
  · obtain ⟨len, hround⟩ := hwhole hlt.le
    rw [if_neg (by omega)] at hround
    refine ⟨[⟨len, seg⟩], .step hround ?_, by simp, by simpa using hne⟩
    have hhere : Arrives (MAX_DOC_LENGTH - 1) ⟨(Todo.data (d.drop seg.length) 0 cs).point,
        store buf off seg, ⟨pend, log ++ [⟨len, seg⟩]⟩⟩ (.data (d.drop seg.length) 0 cs)
        ⟨pend, log ++ [⟨len, seg⟩]⟩ := Arrives.here (by simp)
    rwa [Todo.point, List.length_drop] at hhere
  · obtain ⟨len, hround⟩ := hwhole heq.le
    rw [if_pos heq.symm] at hround
    exact ⟨[⟨len, seg⟩], .step hround (Arrives.here (t := .crlf cs) (by simp)), by simp,
      by simpa using hne⟩
  · -- an arrival that goes on behind the data is read in two parts
    rcases dataLen hd with ⟨-, hask⟩ | ⟨h, -⟩
    swap
    · omega
    have hparts : seg.take d.length = d ∧ CRLF ++ encode cs = seg.drop d.length ++ rest := by
      constructor
      · have htake : (d ++ (CRLF ++ encode cs)).take d.length = d := List.take_left
        rw [hb, List.take_append_of_le_length hlt.le] at htake
        exact htake
      · rw [← List.drop_append_of_le_length hlt.le, ← hb, List.drop_left]
    have hread := readSocket_arrival_split hlt pend log
    rw [hparts.1] at hread
    have hround := chunkRound_data off hask hread (by omega) le_rfl hd buf
    rw [if_pos rfl] at hround
    obtain ⟨later, harr, hrec, hall⟩ := takes_crlf (seg.drop d.length)
      (by rw [List.length_drop]; exact hnext) hparts.2 (by rw [List.length_drop]; omega) hcs
      (store buf off d) pend (log ++ [⟨d.length, d⟩])
    refine ⟨⟨d.length, d⟩ :: later, .step hround ?_, ?_, ?_⟩
    · rw [List.append_assoc] at harr
      exact harr
    · rw [List.flatMap_cons, hrec]
      conv_rhs => rw [← List.take_append_drop d.length seg, hparts.1]
    · intro r hr
      rcases List.mem_cons.mp hr with rfl | hr
      · exact hd₀
      · exact hall r hr

/-- **One arrival**: the parser takes it, and what is left behind it is what is left of the body. -/
theorem takes_next {t t' : Todo} {seg rest : Bytes} (ht : next t seg.length = some t')
    (hb : t.bytes = seg ++ rest) (hne : seg ≠ []) (hlen : seg.length ≤ MAX_DOC_LENGTH - 1)
    (hcount : Counted t) : Takes t seg t' ∧ t'.bytes = rest ∧ Counted t' := by
  have hmax : MAX_DOC_LENGTH = 8192 := rfl
  have hpos := List.length_pos_iff.mpr hne
  refine ⟨?_, ?_, next_counted ht hcount⟩
  · cases t with
    | size cs =>
      have hseg : seg = (encode cs).take seg.length := by
        rw [show encode cs = seg ++ rest from hb, List.take_left]
      refine takes_line 0 rfl hne hlen (fun u => ?_) (Nat.zero_le _) hseg (by omega) hcount
        ht
      exact afterRead_size (u := u) (by rw [List.drop_zero, ← hseg])
    | data d off cs =>
      exact takes_data ht (by rw [← hb, Todo.bytes, List.append_assoc]) hne hlen hcount.1 hcount.2
    | crlf cs => exact takes_crlf seg ht hb hlen hcount
    | lf cs =>
      obtain ⟨m, hm⟩ : ∃ m, seg.length = m + 1 := ⟨seg.length - 1, by omega⟩
      have hseg : seg = LF :: (encode cs).take m := by
        have : seg = (LF :: encode cs).take seg.length := by
          rw [show LF :: encode cs = seg ++ rest from hb, List.take_left]
        rw [this, hm]
        rfl
      rw [hm] at ht
      refine takes_line (-1) (b := 1) (n := m) rfl hne hlen (fun u => ?_) (by omega)
        (by rw [hseg]; rfl) (by omega) hcount ht
      rw [hm]
      exact afterRead_lf cs (u := u) (by omega) (by rw [hseg]; rfl)
    | done => cases ht
  · rw [← next_bytes hpos ht, hb, List.drop_left]

/-- **Any arrivals of this kind**: `keepalive_read_chunk` returns when the last of them is read, and
every read returned some of their bytes. -/
theorem readChunk_clean {t : Todo} {segs : List Bytes} (hclean : CleanReads t (segs.map List.length))
    (hb : t.bytes = segs.flatten) (hsegs : ∀ s ∈ segs, s ≠ [] ∧ s.length ≤ MAX_DOC_LENGTH - 1)
    (hcount : Counted t) (hdone : t ≠ .done) (buf : Bytes) (rest : List NetEvent)
    (log : List Read) :
    ∃ later : List Read, Halts
        (fun fuel => runLoop (chunkRound readSocket (MAX_DOC_LENGTH - 1)) fuel
          ⟨t.point, buf, ⟨segs.map arrival ++ rest, log⟩⟩)
        (.ok (.success, ⟨rest, log ++ later⟩)) ∧
      later.flatMap Read.received = segs.flatten ∧ ∀ r ∈ later, r.received ≠ [] := by
  induction segs generalizing t buf log with
  | nil => cases t <;> first | exact absurd rfl hdone | cases hclean
  | cons seg segs ih =>
    have hnext : ∃ t', next t seg.length = some t' ∧ CleanReads t' (segs.map List.length) := by
      cases t <;> exact hclean
    obtain ⟨t', ht, hclean'⟩ := hnext
    obtain ⟨hne, hlen⟩ := hsegs seg (by simp)
    obtain ⟨htakes, hb', hcount'⟩ := takes_next ht (by rw [hb, List.flatten_cons]) hne hlen hcount
    obtain ⟨later, harr, hrec, hall⟩ := htakes buf (segs.map arrival ++ rest) log
    by_cases hdone' : t' = .done
    · subst hdone'
      have hnil : segs = [] := by
        cases segs with
        | nil => rfl
        | cons s segs =>
          obtain ⟨t, ht, -⟩ := hclean'
          cases ht
      subst hnil
      exact ⟨later, harr, by simpa using hrec, hall⟩
    · have hsteps : ∃ buf', Steps (chunkRound readSocket (MAX_DOC_LENGTH - 1))
          ⟨t.point, buf, ⟨arrival seg :: (segs.map arrival ++ rest), log⟩⟩
          ⟨t'.point, buf', ⟨segs.map arrival ++ rest, log ++ later⟩⟩ := by
        cases t' with
        | done => exact absurd rfl hdone'
        | size cs | data d off cs | crlf cs | lf cs => exact harr
      obtain ⟨buf', hsteps⟩ := hsteps
      obtain ⟨more, hhalts, hrec', hall'⟩ := ih hclean' hb'
        (fun s hs => hsegs s (List.mem_cons_of_mem _ hs)) hcount' hdone' buf' (log ++ later)
      refine ⟨later ++ more, ?_, ?_, ?_⟩
      · rw [List.append_assoc] at hhalts
        exact halts_of_steps hsteps hhalts
      · rw [List.flatMap_append, hrec, hrec', List.flatten_cons]
      · intro r hr
        rcases List.mem_append.mp hr with hr | hr
        · exact hall r hr
        · exact hall' r hr

end Flood.ChunkedReads
