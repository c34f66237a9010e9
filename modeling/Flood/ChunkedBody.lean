import Flood.HeaderBlock

/-!
# Chunked bodies

A chunked body and the places at which its bytes can be cut, and the walk of `keepalive_recv_resp`
over the chunks of the first read.  What is left of a body behind a cut is a `Todo`; inside a size
line or inside the last chunk there is none, since the code cannot go on from there.

* `encode_cut` — the bytes behind a cut are those of its `Todo`.
* `firstChunks_cut` — the walk ends with the chunk pointer and the chunk length that its `Todo`
  asks for.
-/

namespace Flood.ChunkedBody

open Flood.CString Flood.Loop Flood.Net Flood.SocketKeepalive Flood.HeaderBlock

/-- A chunk as it is sent: its size in hexadecimal digits, and its data. -/
structure Chunk where
  digits : Bytes
  data : Bytes
  digitsOk : digits ≠ [] ∧ digits.length < 16 ∧ ∀ c ∈ digits, isDigit 16 c
  size : digitsValue 16 digits = data.length
  ne : data ≠ []

def Chunk.line (c : Chunk) : Bytes := c.digits ++ CRLF

/-- The last chunk, without a trailer. -/
def lastChunk : Bytes := bytes "0" ++ CRLF ++ CRLF

/-- The body with these chunks. -/
def encode : List Chunk → Bytes
  | [] => lastChunk
  | c :: cs => c.line ++ c.data ++ CRLF ++ encode cs

/-- What is left of a body: a size line and all behind it, some data of a chunk whose size line was
read to the offset `off` of the buffer, the CRLF behind the data, the LF of it, or nothing. -/
inductive Todo where
  | size (cs : List Chunk)
  | data (d : Bytes) (off : ℕ) (cs : List Chunk)
  | crlf (cs : List Chunk)
  | lf (cs : List Chunk)
  | done

def Todo.bytes : Todo → Bytes
  | .size cs => encode cs
  | .data d _ cs => d ++ CRLF ++ encode cs
  | .crlf cs => CRLF ++ encode cs
  | .lf cs => LF :: encode cs
  | .done => []

/-- What is left of a body behind its first `n` bytes, which stand at the offset `off` of a buffer.
There is no answer inside a size line or inside the last chunk. -/
def cut : List Chunk → ℕ → ℕ → Option Todo
  | [], n, _ => if n = 0 then some (.size []) else if n = lastChunk.length then some .done else none
  | c :: cs, n, off =>
    if n = 0 then some (.size (c :: cs))
    else if n < c.line.length then none
    else if n < c.line.length + c.data.length then
      some (.data (c.data.drop (n - c.line.length)) off cs)
    else
      match n - c.line.length - c.data.length with
      | 0 => some (.crlf cs)
      | 1 => some (.lf cs)
      | m + 2 => cut cs m (off + c.line.length + c.data.length + 2)

/-! ### Size lines -/

theorem Chunk.noCR (c : Chunk) : CR ∉ c.digits :=
  fun h => digit_ne (by decide) (c.digitsOk.2.2 CR h) (d := CR) (by decide) rfl

theorem Chunk.noNUL (c : Chunk) : 0 ∉ c.digits :=
  fun h => digit_ne (by decide) (c.digitsOk.2.2 0 h) (d := 0) (by decide) rfl

theorem Chunk.strstr_line (c : Chunk) (m : Bytes) :
    strstr CRLF (c.line ++ m) = some c.digits.length :=
  CString.strstr_line c.digits m c.noCR c.noNUL

theorem Chunk.data_lt (c : Chunk) : c.data.length < 16 ^ 15 := by
  obtain ⟨-, hlen, hdigits⟩ := c.digitsOk
  calc c.data.length = digitsValue 16 c.digits := c.size.symm
    _ < 16 ^ c.digits.length := digitsValue_lt hdigits
    _ ≤ 16 ^ 15 := Nat.pow_le_pow_right (by decide) (by omega)

theorem Chunk.data_pos (c : Chunk) : 0 < c.data.length := List.length_pos_iff.mpr c.ne

/-- **A complete size line is read as the size of its chunk**, whatever stands behind it. -/
theorem Chunk.readChunkSize (c : Chunk) (m : Bytes) :
    keepaliveReadChunkSize (c.line ++ m) = c.data.length := by
  obtain ⟨hne, hlen, hdigits⟩ := c.digitsOk
  have hlt := c.data_lt
  have hstrtol : strtol 16 c.digits = ((c.data.length : ℤ), []) := by
    rw [← c.size]
    exact strtol_digits (by decide) hne hdigits (by rw [c.size, LONG_MAX]; omega)
  have htake : (c.line ++ m).take c.digits.length = c.digits := by
    rw [Chunk.line, List.append_assoc, List.take_left]
  simp only [keepaliveReadChunkSize, c.strstr_line, if_pos hlen, htake, hstrtol, if_true]

/-- A size line does not start with NUL, CR or LF. -/
theorem Chunk.byteAt_line (c : Chunk) (m : Bytes) {i : ℕ} {d : UInt8} (hd : d < 48)
    {buf : Bytes} (hbuf : buf.drop i = c.line ++ m) : byteAt buf i ≠ d := by
  obtain ⟨x, ds, hx⟩ := List.exists_cons_of_ne_nil c.digitsOk.1
  rw [Chunk.line, hx] at hbuf
  rw [(byteAt_drop hbuf).1]
  exact digit_ne (by decide) (c.digitsOk.2.2 x (by simp [hx])) hd

/-! ### Cuts -/

theorem cut_nil {n off : ℕ} {t : Todo} (h : cut [] n off = some t) :
    (n = 0 ∧ t = .size []) ∨ (n = lastChunk.length ∧ t = .done) := by
  simp only [cut] at h
  split at h
  · next h0 => exact .inl ⟨h0, (Option.some.inj h).symm⟩
  · split at h
    · next h5 => exact .inr ⟨h5, (Option.some.inj h).symm⟩
    · cases h

/-- **Where a cut can be**: before a chunk, in its data, behind its data, inside the CRLF there, or
in what follows the chunk. -/
theorem cut_cons {c : Chunk} {cs : List Chunk} {n off : ℕ} {t : Todo}
    (h : cut (c :: cs) n off = some t) :
    (n = 0 ∧ t = .size (c :: cs)) ∨
    (∃ d₁ d₂, c.data = d₁ ++ d₂ ∧ d₂ ≠ [] ∧ n = c.line.length + d₁.length ∧
      t = .data d₂ off cs) ∨
    (n = c.line.length + c.data.length ∧ t = .crlf cs) ∨
    (n = c.line.length + c.data.length + 1 ∧ t = .lf cs) ∨
    ∃ m, n = c.line.length + c.data.length + 2 + m ∧
      cut cs m (off + c.line.length + c.data.length + 2) = some t := by
  rw [cut] at h
  split at h
  · next h0 => exact .inl ⟨h0, (Option.some.inj h).symm⟩
  · split at h
    · cases h
    · next hline =>
      split at h
      · next hdata =>
        refine .inr (.inl ⟨c.data.take (n - c.line.length), c.data.drop (n - c.line.length),
          (List.take_append_drop _ _).symm, ?_, ?_, (Option.some.inj h).symm⟩)
        · exact List.length_pos_iff.mp (by rw [List.length_drop]; omega)
        · rw [List.length_take]
          omega
      · next hdata =>
        split at h
        · exact .inr (.inr (.inl ⟨by omega, (Option.some.inj h).symm⟩))
        · exact .inr (.inr (.inr (.inl ⟨by omega, (Option.some.inj h).symm⟩)))
        · next m hm => exact .inr (.inr (.inr (.inr ⟨m, by omega, h⟩)))

/-- The first bytes of a body that starts with the chunk `c`. -/
theorem encode_take (c : Chunk) (cs : List Chunk) {l : Bytes} {d₁ d₂ : Bytes}
    (hd : c.data = d₁ ++ d₂) (hl : l = c.line ++ d₁) : (encode (c :: cs)).take l.length = l := by
  rw [encode, hd, hl, ← List.append_assoc, List.append_assoc (c.line ++ d₁),
    List.append_assoc (c.line ++ d₁), List.take_left]

/-- The bytes behind a chunk's data. -/
theorem encode_drop (c : Chunk) (cs : List Chunk) (m : ℕ) :
    (encode (c :: cs)).drop (c.line.length + c.data.length + m) = (CRLF ++ encode cs).drop m := by
  rw [← List.drop_drop, ← List.length_append, encode, List.append_assoc (c.line ++ c.data),
    List.drop_left]

/-- The first bytes of a body, up to some place behind the data of its first chunk. -/
theorem encode_take_add (c : Chunk) (cs : List Chunk) (m : ℕ) :
    (encode (c :: cs)).take (c.line.length + c.data.length + m) =
      c.line ++ c.data ++ (CRLF ++ encode cs).take m := by
  rw [List.take_add, ← List.length_append, encode, List.append_assoc (c.line ++ c.data),
    List.take_left, List.drop_left]

/-- **The bytes behind a cut** are those of its `Todo`. -/
theorem encode_cut {cs : List Chunk} {n off : ℕ} {t : Todo} (h : cut cs n off = some t) :
    (encode cs).drop n = t.bytes := by
  induction cs generalizing n off with
  | nil =>
    rcases cut_nil h with ⟨rfl, rfl⟩ | ⟨rfl, rfl⟩
    · rfl
    · exact List.drop_length
  | cons c cs ih =>
    rcases cut_cons h with ⟨rfl, rfl⟩ | ⟨d₁, d₂, hd, -, rfl, rfl⟩ | ⟨rfl, rfl⟩ | ⟨rfl, rfl⟩ |
      ⟨m, rfl, hm⟩
    · rfl
    · rw [encode, hd, ← List.length_append, ← List.append_assoc, List.append_assoc (c.line ++ d₁),
        List.append_assoc (c.line ++ d₁), List.drop_left]
      simp only [Todo.bytes, List.append_assoc]
    · exact encode_drop c cs 0
    · exact encode_drop c cs 1
    · rw [Nat.add_assoc, encode_drop, ← List.drop_drop]
      exact ih hm

/-- Bytes that end at a cut inside the body start with a whole size line. -/
theorem cut_line {cs : List Chunk} {n off : ℕ} {t : Todo} (h : cut cs n off = some t)
    (hn : n ≠ 0) (hdone : t ≠ .done) : ∃ c cs' m, cs = c :: cs' ∧ (encode cs).take n = c.line ++ m := by
  cases cs with
  | nil =>
    rcases cut_nil h with ⟨h0, -⟩ | ⟨-, hd⟩
    · exact absurd h0 hn
    · exact absurd hd hdone
  | cons c cs =>
    have hadd : ∀ m, ∃ l, (encode (c :: cs)).take (c.line.length + c.data.length + m) = c.line ++ l :=
      fun m => ⟨_, by rw [encode_take_add, List.append_assoc]⟩
    rcases cut_cons h with ⟨h0, -⟩ | ⟨d₁, d₂, hd, -, rfl, -⟩ | ⟨rfl, -⟩ | ⟨rfl, -⟩ | ⟨m, rfl, -⟩
    · exact absurd h0 hn
    · exact ⟨c, cs, d₁, rfl, by rw [← List.length_append, encode_take c cs hd rfl]⟩
    · exact ⟨c, cs, (hadd 0).choose, rfl, (hadd 0).choose_spec⟩
    · exact ⟨c, cs, (hadd 1).choose, rfl, (hadd 1).choose_spec⟩
    · rw [Nat.add_assoc _ 2 m]
      exact ⟨c, cs, (hadd (2 + m)).choose, rfl, (hadd (2 + m)).choose_spec⟩

/-- Data that is left is not empty, and no more than a size line can announce. -/
theorem cut_data {cs cs' : List Chunk} {n off o : ℕ} {d : Bytes}
    (h : cut cs n off = some (.data d o cs')) : d ≠ [] ∧ d.length < 16 ^ 15 := by
  induction cs generalizing n off with
  | nil => rcases cut_nil h with ⟨-, h⟩ | ⟨-, h⟩ <;> cases h
  | cons c cs ih =>
    rcases cut_cons h with ⟨-, h⟩ | ⟨d₁, d₂, hd, hne, -, h⟩ | ⟨-, h⟩ | ⟨-, h⟩ | ⟨m, -, hm⟩
    · cases h
    · cases h
      have hlt := c.data_lt
      rw [hd, List.length_append] at hlt
      exact ⟨hne, by omega⟩
    · cases h
    · cases h
    · exact ih hm

/-! ### The walk over the chunks of the first read -/

/-- What the walk leaves for a first read that ends at such a cut: behind a CRLF there is no chunk
to go on with, and a chunk of which all was read but the LF counts as read one byte too far. -/
inductive WalkEnds : Todo → Option ℕ × ℤ → Prop where
  | size (cs : List Chunk) (len : ℤ) : WalkEnds (.size cs) (none, len)
  | data (d : Bytes) (off : ℕ) (cs : List Chunk) (chunk : ℕ) :
      WalkEnds (.data d off cs) (some chunk, d.length)
  | lf (cs : List Chunk) (chunk : ℕ) : WalkEnds (.lf cs) (some chunk, -1)

/-- The walk looks at a size line that is complete. -/
theorem walkChunk_line {rbuf : Bytes} {rbufsize off : ℕ} (hsize : rbufsize < 2 ^ 31) {c : Chunk}
    {m : Bytes} (hbuf : rbuf.drop off = c.line ++ m) {n : ℕ} (hn : rbufsize = off + n)
    (hline : c.line.length ≤ n) (w : Walk) :
    walkChunk rbuf rbufsize off w =
      Walk.again ⟨some (off + c.line.length), c.data.length, (n - c.line.length : ℕ)⟩ := by
  have hlen : c.line.length = c.digits.length + 2 := by simp [Chunk.line, CRLF]
  have hwrap : ∀ v : ℕ, v ≤ rbufsize → wrapInt 32 (v : ℤ) = v := fun v hv =>
    wrapInt_of_lt (w := 31) (Int.natCast_nonneg v) (by omega)
  have hin : (0 : ℤ) ≤ off ∧ (off : ℤ) < rbufsize ∧ byteAt rbuf (off : ℤ).toNat ≠ 0 :=
    ⟨Int.natCast_nonneg off, by omega, c.byteAt_line m (by decide) hbuf⟩
  simp only [walkChunk]
  rw [if_pos hin]
  simp only [Int.toNat_natCast, hbuf, c.strstr_line, c.readChunkSize]
  rw [Nat.add_assoc, ← hlen, hwrap _ (by omega),
    show (rbufsize : ℤ) - (off + c.line.length : ℕ) = (n - c.line.length : ℕ) by omega,
    hwrap _ (by omega)]

/-- The walk is at the end of the first read. -/
theorem walkChunk_end {rbuf : Bytes} {rbufsize off : ℕ} (hoff : rbufsize = off) {w : Walk}
    (hw : 0 ≤ w.chunkLength) :
    walkChunk rbuf rbufsize off w = .inl (.ok ⟨none, w.chunkLength, 0⟩) := by
  subst hoff
  simp only [walkChunk, lt_irrefl, false_and, and_false, if_false, Walk.again]
  rw [if_neg (by omega)]

/-- The walk goes from a chunk that was read with its CRLF to what follows it. -/
theorem walkChunk_skip (cl : ℕ) {rbuf : Bytes} {rbufsize : ℕ} (hsize : rbufsize < 2 ^ 31) {c : Chunk}
    {cs : List Chunk} {off m : ℕ} {u : Bytes}
    (hbuf : rbuf.drop off = (encode (c :: cs)).take (c.line.length + c.data.length + (2 + m)) ++ u)
    (hn : rbufsize = off + c.line.length + c.data.length + 2 + m) (w : Walk) :
    rbuf.drop (off + c.line.length + c.data.length + 2) = (encode cs).take m ++ u ∧
      ∀ r, LeadsTo (walkRound rbuf rbufsize cl) (walkChunk rbuf rbufsize
          (off + c.line.length + c.data.length + 2 : ℕ)
          ⟨some (off + c.line.length), c.data.length, (c.data.length + (2 + m) : ℕ)⟩) r →
        LeadsTo (walkRound rbuf rbufsize cl) (walkChunk rbuf rbufsize off w) r := by
  rw [encode_take_add, List.append_assoc, List.append_assoc] at hbuf
  constructor
  · have hassoc : rbuf.drop off = c.line ++ c.data ++ CRLF ++ ((encode cs).take m ++ u) := by
      rw [hbuf, show 2 + m = CRLF.length + m from rfl, List.take_length_add_append]
      simp only [List.append_assoc]
    rw [Nat.add_assoc, Nat.add_assoc, ← List.drop_drop, hassoc]
    exact List.drop_left' (by simp [CRLF])
  · intro r hr
    have hleft : c.line.length + c.data.length + (2 + m) - c.line.length =
        c.data.length + (2 + m) := by
      omega
    rw [walkChunk_line (n := c.line.length + c.data.length + (2 + m)) hsize hbuf (by omega)
      (by omega), Walk.again, if_pos (by simp; omega), hleft]
    refine halts_of_leadsTo ?_
    simp only [walkRound]
    rw [if_pos (by omega), show ((off + c.line.length : ℕ) : ℤ) + (c.data.length + 2) =
      (off + c.line.length + c.data.length + 2 : ℕ) by omega]
    exact hr

/-- **The walk over the chunks of the first read**, from a size line at `off` on. -/
theorem walkChunk_cut (cl : ℕ) {rbuf : Bytes} {rbufsize : ℕ} (hsize : rbufsize < 2 ^ 31)
    (cs : List Chunk) (off n : ℕ) (t : Todo) (u : Bytes) (hn : rbufsize = off + n)
    (hbuf : rbuf.drop off = (encode cs).take n ++ u) (w : Walk) (hw : 0 ≤ w.chunkLength)
    {o : ℕ} (ht : cut cs n o = some t) (hdone : t ≠ .done) (hcrlf : ∀ cs, t ≠ .crlf cs) :
    ∃ w', LeadsTo (walkRound rbuf rbufsize cl) (walkChunk rbuf rbufsize off w) (.ok w') ∧
      WalkEnds t (w'.chunk, w'.chunkLength - w'.remaining) := by
  induction cs generalizing off n w o with
  | nil =>
    rcases cut_nil ht with ⟨rfl, rfl⟩ | ⟨-, rfl⟩
    · exact ⟨_, by rw [walkChunk_end (show rbufsize = off from hn) hw]; rfl, .size _ _⟩
    · exact absurd rfl hdone
  | cons c cs ih =>
    rcases cut_cons ht with ⟨rfl, rfl⟩ | ⟨d₁, d₂, hd, hd₂, rfl, rfl⟩ | ⟨-, rfl⟩ | ⟨rfl, rfl⟩ |
      ⟨m, rfl, hm⟩
    · exact ⟨_, by rw [walkChunk_end (show rbufsize = off from hn) hw]; rfl, .size _ _⟩
    · rw [← List.length_append, encode_take c cs hd rfl, List.append_assoc] at hbuf
      have hpos := List.length_pos_iff.mpr hd₂
      have hlen : c.data.length = d₁.length + d₂.length := by rw [hd, List.length_append]
      rw [walkChunk_line hsize hbuf hn (Nat.le_add_right _ _), Walk.again, if_neg (by simp; omega)]
      refine ⟨_, rfl, ?_⟩
      simp only [Nat.add_sub_cancel_left]
      rw [show (c.data.length : ℤ) - d₁.length = d₂.length by omega]
      exact .data _ _ _ _
    · exact absurd rfl (hcrlf cs)
    · rw [encode_take_add, List.append_assoc, List.append_assoc] at hbuf
      rw [walkChunk_line hsize hbuf hn (by omega), Walk.again, if_pos (by simp; omega)]
      refine ⟨⟨some (off + c.line.length), -1, 0⟩, halts_inl ?_, .lf _ _⟩
      have hleft : c.line.length + c.data.length + 1 - c.line.length = c.data.length + 1 := by omega
      simp only [walkRound, hleft]
      rw [if_neg (by omega), show (c.data.length + 1 : ℕ) - (c.data.length : ℤ) = 1 by omega]
    · rw [Nat.add_assoc _ 2 m] at hn hbuf
      have hn' : rbufsize = off + c.line.length + c.data.length + 2 + m := by omega
      obtain ⟨hnext, hskip⟩ := walkChunk_skip cl hsize hbuf hn' w
      obtain ⟨w', hw', hends⟩ := ih (off + c.line.length + c.data.length + 2) m hn' hnext
        ⟨some (off + c.line.length), c.data.length, (c.data.length + (2 + m) : ℕ)⟩
        (Int.natCast_nonneg _) hm
      exact ⟨w', hskip _ hw', hends⟩

/-- The outcome of the walk is what the first read leaves. -/
theorem firstChunks_walk {rbuf : Bytes} {rbufsize cl : ℕ}
    (hin : byteAt rbuf cl ≠ 0 ∧ cl < rbufsize) {out : Except Abort Walk}
    (h : LeadsTo (walkRound rbuf rbufsize cl) (walkChunk rbuf rbufsize cl ⟨none, 0, 0⟩) out) :
    Halts (firstChunks rbuf rbufsize cl)
      (out.map fun w => (w.chunk, wrapInt 64 (w.chunkLength - w.remaining))) := by
  let result : Walk → Option ℕ × ℤ := fun w => (w.chunk, wrapInt 64 (w.chunkLength - w.remaining))
  have hloop : Halts (fun fuel => runLoop (walkRound rbuf rbufsize cl) fuel ⟨none, 0, 0⟩) out :=
    halts_of_leadsTo h
  refine Halts.congr (fun fuel => ?_) (hloop.map (Except.map result))
  rw [firstChunks, if_pos hin]
  congr 1
  funext r
  cases r <;> rfl

/-- **What the first read leaves to `keepalive_read_chunk`**, when it ends at a cut behind which the
walk can go on. -/
theorem firstChunks_cut {rbuf : Bytes} {rbufsize cl n off : ℕ} (hsize : rbufsize < 2 ^ 31)
    {cs : List Chunk} {t : Todo} {u : Bytes} (hn : rbufsize = cl + n)
    (hbuf : rbuf.drop cl = (encode cs).take n ++ u) (ht : cut cs n off = some t)
    (hdone : t ≠ .done) (hcrlf : ∀ cs, t ≠ .crlf cs) :
    ∃ chunk len, Halts (firstChunks rbuf rbufsize cl) (.ok (chunk, len)) ∧
      WalkEnds t (chunk, len) := by
  by_cases hpos : n = 0
  · subst hpos
    refine ⟨none, 0, Halts.congr (fun _ => ?_) (halts_const _), ?_⟩
    · rw [firstChunks, if_neg (by omega)]
    · cases cs with
      | nil =>
        cases ht
        exact .size _ _
      | cons c cs =>
        cases ht
        exact .size _ _
  · obtain ⟨c, cs', m, -, hline⟩ := cut_line ht hpos hdone
    rw [hline, List.append_assoc] at hbuf
    have hin : byteAt rbuf cl ≠ 0 ∧ cl < rbufsize := ⟨c.byteAt_line _ (by decide) hbuf, by omega⟩
    rw [← List.append_assoc, ← hline] at hbuf
    obtain ⟨w, hw, hends⟩ := walkChunk_cut cl hsize cs cl n t u hn hbuf ⟨none, 0, 0⟩ le_rfl
      ht hdone hcrlf
    have hwrap : WalkEnds t (w.chunk, wrapInt 64 (w.chunkLength - w.remaining)) := by
      generalize w.chunkLength - w.remaining = len at hends ⊢
      generalize w.chunk = chunk at hends ⊢
      cases hends with
      | size cs => exact .size _ _
      | data d o cs chunk =>
        rw [wrapInt_of_lt (w := 63) (Int.natCast_nonneg _) (by have := (cut_data ht).2; omega)]
        exact .data _ _ _ _
      | lf cs chunk => exact .lf _ _
    exact ⟨_, _, firstChunks_walk hin hw, hwrap⟩

/-! ### Where `keepalive_read_chunk` goes on -/

/-- The place in `keepalive_read_chunk` that belongs to what is left of the body. -/
def Todo.point : Todo → ChunkPoint
  | .size _ => .line 0
  | .data d off _ => .data (wrapInt 32 d.length) off 0
  | .crlf _ => .line 0
  | .lf _ => .line (-1)
  | .done => .trailer

/-- The data of a chunk that the first read cut is read to the start of the buffer. -/
def Todo.fresh : Todo → Todo
  | .data d _ cs => .data d 0 cs
  | t => t

@[simp] theorem Todo.fresh_bytes (t : Todo) : t.fresh.bytes = t.bytes := by
  cases t <;> rfl

/-- What the first read left of a chunk's data can be counted by an `int`. -/
def Todo.Fits : Todo → Prop
  | .data d _ _ => d.length < 2 ^ 31
  | _ => True

/-- `keepalive_read_chunk` starts at the place that belongs to what the first read left. -/
theorem keepaliveReadChunk_start {σ : Type} {read : σ → ℕ → ReadResult × σ} {t : Todo}
    {chunk : Option ℕ} {len : ℤ} (h : WalkEnds t (chunk, len)) (hfits : t.Fits)
    (hne : ∀ d o cs, t = .data d o cs → d ≠ []) (buf : Bytes) (bplen : ℕ) (c : σ) (fuel : ℕ) :
    keepaliveReadChunk read chunk (wrapInt 32 len) buf bplen c fuel =
      runLoop (chunkRound read bplen) fuel ⟨t.fresh.point, buf, c⟩ := by
  cases h with
  | size cs => rfl
  | data d o cs chunk =>
    have hpos := List.length_pos_iff.mpr (hne d o cs rfl)
    have hsmall : d.length < 2 ^ 31 := hfits
    have hint : wrapInt 32 (d.length : ℤ) = d.length :=
      wrapInt_of_lt (w := 31) (Int.natCast_nonneg _) (by omega)
    rw [keepaliveReadChunk, if_neg (by simp), if_neg (by omega), if_neg (by omega)]
    rfl
  | lf cs chunk => rfl

end Flood.ChunkedBody
