import Flood.ChunkedResponses

/-!
# The walk over the chunks of the first read

Chunked bodies as the protocol has them, with extensions behind the sizes, sizes of any number of
digits and a trailer, and the assertion of `keepalive_recv_resp` that every size line it looks at is
there.

* `SizeLine.readChunkSize` — a size line with an extension, or with more than 15 digits, counts as 0.
* `walk_between`, `walk_inLine` — what the walk does with a cut in front of a size line, or inside it.
* `assertion_between` — the assertion holds unless the first read ends inside a size line, as long as the
  walk is in step with the chunks.
-/

namespace Flood.ChunkWalk

open Flood.CString Flood.Loop Flood.Net Flood.SocketKeepalive Flood.HeaderBlock Flood.ChunkedBody
  Flood.ChunkedResponses

/-! ### Bodies -/

/-- The line in front of the data of a chunk: its size in hexadecimal digits, and extensions, which a
semicolon or a blank separates from it. -/
structure SizeLine where
  digits : Bytes
  ext : Bytes
  digitsOk : digits ≠ [] ∧ ∀ c ∈ digits, isDigit 16 c
  extOk : CR ∉ ext ∧ 0 ∉ ext ∧ ∀ c ∈ ext.head?, c = 59 ∨ c = 32 ∨ c = 9

def SizeLine.text (l : SizeLine) : Bytes := l.digits ++ l.ext

def SizeLine.bytes (l : SizeLine) : Bytes := l.text ++ CRLF

/-- `keepalive_read_chunk_size` understands the line. -/
def SizeLine.Readable (l : SizeLine) : Prop := l.ext = [] ∧ l.digits.length < 16

instance (l : SizeLine) : Decidable l.Readable := inferInstanceAs (Decidable (_ ∧ _))

/-- A chunk of a well-formed body. -/
structure SizedChunk where
  line : SizeLine
  data : Bytes
  size : digitsValue 16 line.digits = data.length
  ne : data ≠ []

/-- A well-formed body: chunks, the line of the last chunk, and a trailer. -/
structure WellFormed where
  chunks : List SizedChunk
  last : SizeLine
  zero : digitsValue 16 last.digits = 0
  trailer : List Bytes
  trailerOk : ∀ l ∈ trailer, l ≠ [] ∧ CR ∉ l ∧ 0 ∉ l

/-- The trailer with the empty line that ends the body. -/
def trailerBytes (trailer : List Bytes) : Bytes := trailer.flatMap (· ++ CRLF) ++ CRLF

/-- Chunks, and what follows them. -/
def chunksBytes (behind : Bytes) : List SizedChunk → Bytes
  | [] => behind
  | c :: cs => c.line.bytes ++ (c.data ++ CRLF ++ chunksBytes behind cs)

def WellFormed.bytes (m : WellFormed) : Bytes :=
  chunksBytes (m.last.bytes ++ trailerBytes m.trailer) m.chunks

/-- Where a body is cut. -/
inductive Cut where
  /-- not inside a size line, and at most two bytes behind one that is not what the walk takes it
  for -/
  | between
  /-- inside a size line, in front of which the walk has understood all -/
  | inLine
  /-- behind the size line of a chunk that the code does not understand, or inside a trailer -/
  | misread
  deriving DecidableEq

/-- The cut of a body behind its first `n` bytes. -/
def cutAt (last : SizeLine) (trailer : List Bytes) : List SizedChunk → ℕ → Cut
  | [], n =>
    if n = 0 then .between
    else if n < last.bytes.length then .inLine
    else if n < last.bytes.length + 3 ∨ trailer = [] then .between
    else .misread
  | c :: cs, n =>
    if n = 0 then .between
    else if n < c.line.bytes.length then .inLine
    else if n < c.line.bytes.length + 3 then .between
    else if ¬ c.line.Readable then .misread
    else if n < c.line.bytes.length + c.data.length + 2 then .between
    else cutAt last trailer cs (n - (c.line.bytes.length + c.data.length + 2))

def WellFormed.cutAt (m : WellFormed) (n : ℕ) : Cut := ChunkWalk.cutAt m.last m.trailer m.chunks n

/-! ### Size lines -/

theorem SizeLine.noCR (l : SizeLine) : CR ∉ l.text := by
  intro h
  rcases List.mem_append.mp h with h | h
  · exact digit_ne (by decide) (l.digitsOk.2 CR h) (d := CR) (by decide) rfl
  · exact l.extOk.1 h

theorem SizeLine.noNUL (l : SizeLine) : 0 ∉ l.text := by
  intro h
  rcases List.mem_append.mp h with h | h
  · exact digit_ne (by decide) (l.digitsOk.2 0 h) (d := 0) (by decide) rfl
  · exact l.extOk.2.1 h

theorem SizeLine.strstr_bytes (l : SizeLine) (m : Bytes) :
    strstr CRLF (l.bytes ++ m) = some l.text.length :=
  CString.strstr_line l.text m l.noCR l.noNUL

theorem SizeLine.bytes_length (l : SizeLine) : l.bytes.length = l.text.length + 2 := by
  rw [SizeLine.bytes, List.length_append]
  rfl

/-- The first byte of a size line is a digit. -/
theorem SizeLine.text_cons (l : SizeLine) : ∃ x t, l.text = x :: t ∧ isDigit 16 x = true := by
  obtain ⟨x, ds, hx⟩ := List.exists_cons_of_ne_nil l.digitsOk.1
  refine ⟨x, ds ++ l.ext, ?_, l.digitsOk.2 x (by simp [hx])⟩
  rw [SizeLine.text, hx, List.cons_append]

/-- A text whose second character is no `x` does not start with `0x`. -/
theorem strtolPrefix_second {base : ℕ} {z x : UInt8} {w : Bytes} (hx : ¬ (x = 120 ∨ x = 88)) :
    strtolPrefix base (z :: x :: w) = z :: x :: w := by
  unfold strtolPrefix
  split
  · next heq =>
    cases heq
    rw [if_neg]
    rintro ⟨-, -, h, -⟩
    exact hx h
  · rfl

/-- Text that goes on behind its digits is not converted to its end. -/
theorem strtol_ext {digits ext : Bytes} (hne : digits ≠ []) (hdigits : ∀ c ∈ digits, isDigit 16 c)
    (hext : ext ≠ []) (hnul : 0 ∉ ext) (hhead : ∀ c ∈ ext.head?, c = 59 ∨ c = 32 ∨ c = 9) :
    (strtol 16 (digits ++ ext)).2 ≠ [] := by
  obtain ⟨c, ds, rfl⟩ := List.exists_cons_of_ne_nil hne
  obtain ⟨x, e, rfl⟩ := List.exists_cons_of_ne_nil hext
  have hc := hdigits c List.mem_cons_self
  have hx : x = 59 ∨ x = 32 ∨ x = 9 := hhead x rfl
  have hstop : isDigit 16 x = false := by
    rcases hx with rfl | rfl | rfl
    · decide
    · decide
    · decide
  have hstr : cstr (c :: ds ++ x :: e) = c :: ds ++ x :: e := by
    apply cstr_of_not_mem
    intro h0
    rcases List.mem_append.mp h0 with h0 | h0
    · exact digit_ne (by decide) (hdigits 0 h0) (d := 0) (by decide) rfl
    · exact hnul h0
  have hsign : strtolSign ((c :: ds ++ x :: e).dropWhile isSpace) = (false, c :: ds ++ x :: e) := by
    simp [isSpace_of_digit (by decide) hc, strtolSign, digit_ne (d := 45) (by decide) hc (by decide),
      digit_ne (d := 43) (by decide) hc (by decide)]
  -- there is no `0x`: the second byte is a digit or separates the extension
  have hplain : strtolPrefix 16 (c :: ds ++ x :: e) = c :: ds ++ x :: e := by
    cases ds with
    | nil =>
      apply strtolPrefix_second
      rcases hx with rfl | rfl | rfl
      · decide
      · decide
      · decide
    | cons d ds =>
      apply strtolPrefix_second
      intro hd
      have hdigit := hdigits d (by simp)
      rw [isDigit_x (by decide) hd] at hdigit
      cases hdigit
  have hbehind : x ∈ (c :: ds ++ x :: e).dropWhile (isDigit 16) := by
    rw [List.dropWhile_append_of_pos hdigits, List.dropWhile_cons_of_neg (by simp [hstop])]
    exact List.mem_cons_self
  unfold strtol
  rw [hstr, hsign]
  dsimp only
  rw [hplain]
  split
  · intro h
    cases h
  · exact List.ne_nil_of_mem hbehind

/-- The size that the code reads from the line. -/
def SizeLine.size (l : SizeLine) : ℕ := if l.Readable then digitsValue 16 l.digits else 0

/-- **What the code makes of a size line.** -/
theorem SizeLine.readChunkSize (l : SizeLine) (m : Bytes) :
    keepaliveReadChunkSize (l.bytes ++ m) = l.size := by
  have htake : (l.bytes ++ m).take l.text.length = l.text := by
    rw [SizeLine.bytes, List.append_assoc, List.take_left]
  unfold keepaliveReadChunkSize
  rw [l.strstr_bytes]
  dsimp only
  rw [htake]
  by_cases hread : l.Readable
  · obtain ⟨hext, hlen⟩ := hread
    have htext : l.text = l.digits := by rw [SizeLine.text, hext, List.append_nil]
    have hlt : digitsValue 16 l.digits < 16 ^ 15 :=
      (digitsValue_lt l.digitsOk.2).trans_le (Nat.pow_le_pow_right (by decide) (by omega))
    have hvalue : l.size = digitsValue 16 l.digits := if_pos ⟨hext, hlen⟩
    rw [hvalue, htext, if_pos hlen,
      strtol_digits (by decide) l.digitsOk.1 l.digitsOk.2 (by rw [LONG_MAX]; omega)]
    rfl
  · have hvalue : l.size = 0 := if_neg hread
    rw [hvalue]
    split
    · next hshort =>
      have hext : l.ext ≠ [] := by
        intro hnil
        rw [SizeLine.text, hnil, List.append_nil] at hshort
        exact hread ⟨hnil, hshort⟩
      exact if_neg (strtol_ext l.digitsOk.1 l.digitsOk.2 hext l.extOk.2.1 l.extOk.2.2)
    · rfl

/-! ### The walk -/

section Walk

variable {rbuf : Bytes} {rbufsize cl : ℕ}

/-- The place at which a round of the walk looks for a size line, if it does. -/
def looksAt (cl : ℕ) (w : Walk) : Option ℤ :=
  match w.chunk with
  | none => some cl
  | some chunk =>
    if w.chunkLength + 2 ≤ w.remaining then some (chunk + (w.chunkLength + 2)) else none

theorem walkRound_looksAt (w : Walk) :
    walkRound rbuf rbufsize cl w =
      match looksAt cl w with
      | some o => walkChunk rbuf rbufsize o w
      | none => .inl (.ok ⟨w.chunk, -(w.remaining - w.chunkLength), 0⟩) := by
  obtain ⟨chunk, chunkLength, remaining⟩ := w
  cases chunk with
  | none => rfl
  | some chunk =>
    unfold walkRound looksAt
    dsimp only
    split
    · rfl
    · rfl

/-- Where a round looks at a byte of the first read, a line starts that ends inside the read. -/
def LineComplete (rbuf : Bytes) (rbufsize cl : ℕ) (w : Walk) : Prop :=
  ∀ o, looksAt cl w = some o → 0 ≤ o → o < rbufsize → byteAt rbuf o.toNat ≠ 0 →
    ∃ n, strstr CRLF (rbuf.drop o.toNat) = some n ∧ o.toNat + n + 2 ≤ rbufsize

/-- In front of a complete line the assertion holds. -/
theorem LineComplete.asserts {w : Walk} (h : LineComplete rbuf rbufsize cl w) :
    walkRound rbuf rbufsize cl w ≠ .inl (.error .assertion) := by
  intro heq
  rw [walkRound_looksAt] at heq
  split at heq
  · next o ho =>
    unfold walkChunk at heq
    split at heq
    · next hin =>
      obtain ⟨n, hn, -⟩ := h o ho hin.1 hin.2.1 hin.2.2
      dsimp only at heq
      rw [hn] at heq
      dsimp only [Walk.again] at heq
      split at heq
      · cases heq
      · cases heq
    · dsimp only [Walk.again] at heq
      split at heq
      · cases heq
      · cases heq
  · cases heq

/-- Every line that the walk looks at from a state on is complete. -/
def Completes (rbuf : Bytes) (rbufsize cl : ℕ) (w : Walk) : Prop :=
  ∀ w', Steps (walkRound rbuf rbufsize cl) w w' → LineComplete rbuf rbufsize cl w'

theorem completes_of_round {w : Walk} (hw : LineComplete rbuf rbufsize cl w)
    (h : ∀ w₁, walkRound rbuf rbufsize cl w = .inr w₁ → Completes rbuf rbufsize cl w₁) :
    Completes rbuf rbufsize cl w := by
  intro w' hsteps
  rcases hsteps.cases_head with rfl | ⟨w₁, hround, hsteps⟩
  · exact hw
  · exact h w₁ hround w' hsteps

/-- A walk whose lines are complete never comes to a failing assertion. -/
theorem Completes.runLoop {w : Walk} (h : Completes rbuf rbufsize cl w) (fuel : ℕ) :
    runLoop (walkRound rbuf rbufsize cl) fuel w ≠ some (.error .assertion) := by
  intro heq
  refine runLoop_invariant (fun w' => Steps (walkRound rbuf rbufsize cl) w w')
    (fun out => out ≠ .error .assertion) (fun s s' hs hround => hs.tail hround) ?_ .refl heq rfl
  intro s out hs hround hout
  rw [hout] at hround
  exact (h s hs).asserts hround

/-! ### Cuts between lines -/

/-- At the end of the first read the walk stops. -/
theorem completes_end {off : ℕ} (hoff : rbufsize = off) {w : Walk} (hlook : looksAt cl w = some (off : ℤ))
    (hw : 0 ≤ w.chunkLength) : Completes rbuf rbufsize cl w := by
  apply completes_of_round
  · intro o ho _ hlt _
    rw [hlook, Option.some.injEq] at ho
    omega
  · intro w₁ hround
    rw [walkRound_looksAt, hlook] at hround
    dsimp only at hround
    rw [walkChunk_end hoff hw] at hround
    cases hround

/-- Where not all of the data and its CRLF was read the walk stops. -/
theorem completes_short {chunk : ℕ} {size left : ℤ} (hshort : left < size + 2) :
    Completes rbuf rbufsize cl ⟨some chunk, size, left⟩ := by
  have hlook : looksAt cl ⟨some chunk, size, left⟩ = none := if_neg (not_le.mpr hshort)
  apply completes_of_round
  · intro o ho
    rw [hlook] at ho
    cases ho
  · intro w₁ hround
    rw [walkRound_looksAt, hlook] at hround
    cases hround

/-- The walk goes on from a line with a step over the data, or not at all. -/
theorem completes_again {chunk : ℕ} {size left : ℤ}
    (h : size + 2 ≤ left → Completes rbuf rbufsize cl ⟨some chunk, size, left⟩) (w₁ : Walk)
    (hround : Walk.again ⟨some chunk, size, left⟩ = .inr w₁) : Completes rbuf rbufsize cl w₁ := by
  unfold Walk.again at hround
  split at hround
  · cases hround
    by_cases hnext : size + 2 ≤ left
    · exact h hnext
    · exact completes_short (not_le.mp hnext)
  · cases hround

/-- **The walk looks at a complete size line.** -/
theorem walkRound_line (hsize : rbufsize < 2 ^ 31) {l : SizeLine} {m : Bytes} {off n : ℕ}
    (hbuf : rbuf.drop off = l.bytes ++ m) (hn : rbufsize = off + n) (hline : l.bytes.length ≤ n)
    {w : Walk} (hlook : looksAt cl w = some (off : ℤ)) :
    LineComplete rbuf rbufsize cl w ∧ walkRound rbuf rbufsize cl w =
      Walk.again ⟨some (off + l.bytes.length), l.size, (n - l.bytes.length : ℕ)⟩ := by
  have hlen := l.bytes_length
  constructor
  · intro o ho _ _ _
    rw [hlook, Option.some.injEq] at ho
    subst ho
    refine ⟨l.text.length, ?_, ?_⟩
    · rw [Int.toNat_natCast, hbuf, l.strstr_bytes]
    · rw [Int.toNat_natCast]
      omega
  · obtain ⟨x, t, hx, hdigit⟩ := l.text_cons
    have hbyte : byteAt rbuf off ≠ 0 := by
      have hcons : rbuf.drop off = x :: (t ++ CRLF ++ m) := by
        rw [hbuf, SizeLine.bytes, hx]
        rfl
      rw [(byteAt_drop hcons).1]
      exact digit_ne (by decide) hdigit (by decide)
    have hwrap : ∀ v : ℕ, v ≤ rbufsize → wrapInt 32 (v : ℤ) = v := by
      intro v hv
      exact wrapInt_of_lt (w := 31) (Int.natCast_nonneg v) (by omega)
    rw [walkRound_looksAt, hlook]
    dsimp only
    unfold walkChunk
    rw [if_pos ⟨Int.natCast_nonneg off, by omega, by rwa [Int.toNat_natCast]⟩]
    dsimp only
    rw [Int.toNat_natCast, hbuf, l.strstr_bytes, l.readChunkSize]
    dsimp only
    rw [Nat.add_assoc, ← hlen, hwrap _ (by omega),
      show (rbufsize : ℤ) - (off + l.bytes.length : ℕ) = (n - l.bytes.length : ℕ) by omega,
      hwrap _ (by omega)]

/-- The first bytes of what starts with a size line, with the line or without all of it. -/
theorem take_line (l : SizeLine) (rest : Bytes) {n : ℕ} (h : l.bytes.length ≤ n) :
    (l.bytes ++ rest).take n = l.bytes ++ rest.take (n - l.bytes.length) := by
  rw [List.take_append, List.take_of_length_le h]

/-- The bytes behind a chunk. -/
theorem chunk_behind {c : SizedChunk} {rest u : Bytes} {off n : ℕ}
    (hbuf : rbuf.drop off =
      c.line.bytes ++ ((c.data ++ CRLF ++ rest).take (n - c.line.bytes.length) ++ u))
    (hle : c.line.bytes.length + c.data.length + 2 ≤ n) :
    rbuf.drop (off + c.line.bytes.length + (c.data.length + 2)) =
      rest.take (n - (c.line.bytes.length + c.data.length + 2)) ++ u := by
  have hstep : c.data.length + 2 = (c.data ++ CRLF).length := by
    rw [List.length_append]
    rfl
  have htake : n - c.line.bytes.length =
      (c.data ++ CRLF).length + (n - (c.line.bytes.length + c.data.length + 2)) := by
    omega
  rw [htake, List.take_length_add_append] at hbuf
  rw [hstep, ← List.drop_drop, ← List.drop_drop, hbuf, List.drop_left, List.append_assoc,
    List.drop_left]

/-- **A walk whose cut is between the size lines** looks at complete lines only. -/
theorem walk_between (hsize : rbufsize < 2 ^ 31) {last : SizeLine} {trailer : List Bytes}
    (cs : List SizedChunk) (off n : ℕ) (u : Bytes) (hn : rbufsize = off + n)
    (hle : n ≤ (chunksBytes (last.bytes ++ trailerBytes trailer) cs).length)
    (hzero : digitsValue 16 last.digits = 0)
    (hbuf : rbuf.drop off =
      (chunksBytes (last.bytes ++ trailerBytes trailer) cs).take n ++ u)
    (hcut : cutAt last trailer cs n = .between) {w : Walk} (hlook : looksAt cl w = some (off : ℤ))
    (hw : 0 ≤ w.chunkLength) : Completes rbuf rbufsize cl w := by
  induction cs generalizing off n w with
  | nil =>
    rw [cutAt] at hcut
    by_cases h0 : n = 0
    · exact completes_end (by omega) hlook hw
    · rw [if_neg h0] at hcut
      split at hcut
      · cases hcut
      · next hline =>
        rw [not_lt] at hline
        rw [chunksBytes, take_line _ _ hline, List.append_assoc] at hbuf
        obtain ⟨hcomplete, hround⟩ := walkRound_line hsize hbuf hn hline hlook
        have hlast : last.size = 0 := by
          unfold SizeLine.size
          split
          · exact hzero
          · rfl
        refine completes_of_round hcomplete fun w₁ h₁ => completes_again (fun hnext => ?_) w₁
          (hround.symm.trans h₁)
        rw [hlast] at hnext
        -- the two bytes that are skipped are the last of the read; without a trailer they are the CRLF
        -- of the empty line
        have htotal : n = last.bytes.length + 2 := by
          split at hcut
          · next hfew =>
            rcases hfew with hfew | hnil
            · omega
            · rw [chunksBytes, hnil, List.length_append] at hle
              have hcrlf : (trailerBytes []).length = 2 := rfl
              omega
          · cases hcut
        have hend : rbufsize = off + last.bytes.length + 2 := by omega
        refine completes_end hend ?_ (Int.natCast_nonneg _)
        unfold looksAt
        dsimp only
        rw [hlast, if_pos hnext]
        rfl
  | cons c cs ih =>
    rw [cutAt] at hcut
    by_cases h0 : n = 0
    · exact completes_end (by omega) hlook hw
    · rw [if_neg h0] at hcut
      split at hcut
      · cases hcut
      · next hline =>
        rw [not_lt] at hline
        rw [chunksBytes] at hle
        rw [chunksBytes, take_line _ _ hline, List.append_assoc] at hbuf
        obtain ⟨hcomplete, hround⟩ := walkRound_line hsize hbuf hn hline hlook
        refine completes_of_round hcomplete fun w₁ h₁ => completes_again (fun hnext => ?_) w₁
          (hround.symm.trans h₁)
        split at hcut
        · next hfew =>
          -- the line counts as 0, and the two bytes behind it are the last of the read
          have hsize0 : c.line.size = 0 := by omega
          have hend : rbufsize = off + c.line.bytes.length + 2 := by omega
          refine completes_end hend ?_ (Int.natCast_nonneg _)
          unfold looksAt
          dsimp only
          rw [if_pos hnext, hsize0]
          rfl
        · split at hcut
          · cases hcut
          · next hread =>
            rw [not_not] at hread
            have hdata : c.line.size = c.data.length := (if_pos hread).trans c.size
            rw [hdata] at hnext ⊢
            rw [if_neg (by omega)] at hcut
            refine ih (off + c.line.bytes.length + (c.data.length + 2))
              (n - (c.line.bytes.length + c.data.length + 2)) (by omega) ?_ ?_ hcut ?_
              (Int.natCast_nonneg _)
            · have hcrlf : CRLF.length = 2 := rfl
              simp only [List.length_append] at hle
              omega
            · exact chunk_behind hbuf (by omega)
            · unfold looksAt
              dsimp only
              rw [if_pos hnext]
              rfl

/-! ### Cuts inside a size line -/

/-- The walk comes to a failing assertion. -/
def Asserts (rbuf : Bytes) (rbufsize cl : ℕ) (w : Walk) : Prop :=
  Halts (fun fuel => runLoop (walkRound rbuf rbufsize cl) fuel w) (.error .assertion)

/-- It does so where it looks at a size line that is cut. -/
theorem asserts_line {l : SizeLine} {rest : Bytes} {off n : ℕ}
    (hbuf : rbuf.drop off = (l.bytes ++ rest).take n) (hn : rbufsize = off + n) (hpos : n ≠ 0)
    (hline : n < l.bytes.length) {w : Walk} (hlook : looksAt cl w = some (off : ℤ)) :
    Asserts rbuf rbufsize cl w := by
  obtain ⟨x, t, hx, hdigit⟩ := l.text_cons
  have hcut : rbuf.drop off = (x :: t ++ CRLF).take n := by
    rw [hbuf, List.take_append_of_le_length hline.le, SizeLine.bytes, hx]
  apply halts_inl
  rw [walkRound_looksAt, hlook]
  dsimp only
  rw [l.bytes_length, hx] at hline
  exact walkChunk_unfinished (hx ▸ l.noCR) (digit_ne (by decide) hdigit (by decide)) hcut hn
    (Nat.pos_of_ne_zero hpos) hline w

/-- **A walk whose cut is inside a size line** fails, where no line ends in the memory behind the
read. -/
theorem walk_inLine (hsize : rbufsize < 2 ^ 31) {last : SizeLine} {trailer : List Bytes}
    (cs : List SizedChunk) (off n : ℕ) (hn : rbufsize = off + n)
    (hbuf : rbuf.drop off = (chunksBytes (last.bytes ++ trailerBytes trailer) cs).take n)
    (hcut : cutAt last trailer cs n = .inLine) {w : Walk} (hlook : looksAt cl w = some (off : ℤ)) :
    Asserts rbuf rbufsize cl w := by
  induction cs generalizing off n w with
  | nil =>
    rw [cutAt] at hcut
    split at hcut
    · cases hcut
    · next h0 =>
      split at hcut
      · next hline => exact asserts_line hbuf hn h0 hline hlook
      · split at hcut
        · cases hcut
        · cases hcut
  | cons c cs ih =>
    rw [cutAt] at hcut
    split at hcut
    · cases hcut
    · next h0 =>
      split at hcut
      · next hline => exact asserts_line hbuf hn h0 hline hlook
      · next hline =>
        rw [not_lt] at hline
        split at hcut
        · cases hcut
        · split at hcut
          · cases hcut
          · next hread =>
            rw [not_not] at hread
            split at hcut
            · cases hcut
            · next hdata =>
              rw [not_lt] at hdata
              rw [chunksBytes, take_line _ _ hline, ← List.append_nil (List.take _ _)] at hbuf
              have hround := (walkRound_line hsize hbuf hn hline hlook).2
              have hsize' : c.line.size = c.data.length := (if_pos hread).trans c.size
              rw [hsize', Walk.again, if_pos (by dsimp only; omega)] at hround
              refine halts_inr hround (ih (off + c.line.bytes.length + (c.data.length + 2))
                (n - (c.line.bytes.length + c.data.length + 2)) (by omega) ?_ hcut ?_)
              · rw [chunk_behind hbuf hdata, List.append_nil]
              · unfold looksAt
                dsimp only
                rw [if_pos (by omega)]
                rfl

end Walk

/-! ### First reads -/

/-- The first read of a chunked response: the header block and the first bytes of the body. -/
structure ChunkedFirst where
  lines : List Line
  chunked : headerIs (linesTable lines) (bytes "Transfer-Encoding") (bytes "Chunked") = true
  body : WellFormed
  first : ℕ
  firstOk : first ≤ body.bytes.length
  fits : (linesText lines ++ CRLF).length + first ≤ MAX_DOC_LENGTH - 1

/-- The bytes it brings. -/
def ChunkedFirst.head (r : ChunkedFirst) : Bytes :=
  linesText r.lines ++ CRLF ++ r.body.bytes.take r.first

/-- Where the chunks start. -/
def ChunkedFirst.start (r : ChunkedFirst) : ℕ := (linesText r.lines).length + CRLF.length

theorem WellFormed.cutAt_zero (m : WellFormed) : m.cutAt 0 = .between := by
  unfold WellFormed.cutAt
  cases m.chunks with
  | nil => rfl
  | cons c cs => rfl

/-- A body starts with a digit. -/
theorem WellFormed.bytes_cons (m : WellFormed) :
    ∃ x t, m.bytes = x :: t ∧ isDigit 16 x = true := by
  have hline : ∀ (l : SizeLine) (rest : Bytes),
      ∃ x t, l.bytes ++ rest = x :: t ∧ isDigit 16 x = true := by
    intro l rest
    obtain ⟨x, t, hx, hdigit⟩ := l.text_cons
    refine ⟨x, t ++ CRLF ++ rest, ?_, hdigit⟩
    rw [SizeLine.bytes, hx]
    rfl
  unfold WellFormed.bytes
  cases m.chunks with
  | nil => exact hline _ _
  | cons c cs => exact hline _ _

/-- The place of its end in the body. -/
def ChunkedFirst.cut (r : ChunkedFirst) : Cut := r.body.cutAt r.first

/-- Every size line that the walk looks for is complete in the first read, whatever stands behind
it in the buffer. -/
def ChunkedFirst.LinesComplete (r : ChunkedFirst) : Prop :=
  ∀ mem, Completes (store mem 0 r.head) r.head.length r.start ⟨none, 0, 0⟩

/-- The walk never comes to a failing assertion. -/
def ChunkedFirst.NeverAsserts (r : ChunkedFirst) : Prop :=
  ∀ mem fuel, firstChunks (store mem 0 r.head) r.head.length r.start fuel ≠
    some (.error .assertion)

theorem ChunkedFirst.head_length (r : ChunkedFirst) : r.head.length = r.start + r.first := by
  rw [ChunkedFirst.head, List.length_append, List.length_append, List.length_take,
    Nat.min_eq_left r.firstOk, ChunkedFirst.start]

theorem ChunkedFirst.head_le (r : ChunkedFirst) : r.head.length ≤ MAX_DOC_LENGTH - 1 := by
  have hfits := r.fits
  rw [List.length_append] at hfits
  rwa [r.head_length]

theorem ChunkedFirst.head_lt (r : ChunkedFirst) : r.head.length < 2 ^ 31 :=
  lt_of_le_of_lt r.head_le (by decide)

/-- The memory behind the header block after the first read. -/
theorem ChunkedFirst.body_drop (r : ChunkedFirst) (mem : Bytes) :
    (store mem 0 r.head).drop r.start =
      r.body.bytes.take r.first ++ mem.drop r.head.length :=
  store_body mem (linesText r.lines) (r.body.bytes.take r.first)

/-- **Behind its header block the call walks over the chunks**: where the walk aborts, so does the
call. -/
theorem ChunkedFirst.recvResp_asserts (r : ChunkedFirst) {k : KeepaliveSocket}
    (hmethod : k.method ≠ some .HEAD) (pend : List NetEvent) {mem b : Bytes}
    (hwalk : Halts (firstChunks (store mem 0 r.head) r.head.length r.start) (.error .assertion)) :
    Halts (keepaliveRecvResp readSocket k mem b ⟨arrival r.head :: pend, []⟩)
      (.error .assertion) :=
  recvResp_assertion hmethod r.chunked rfl r.head_le pend hwalk

/-- Complete lines keep the assertion. -/
theorem ChunkedFirst.LinesComplete.neverAsserts {r : ChunkedFirst} (h : r.LinesComplete) :
    r.NeverAsserts := by
  intro mem fuel heq
  unfold firstChunks at heq
  split at heq
  · obtain ⟨out, hout, hmap⟩ := Option.map_eq_some_iff.mp heq
    cases out with
    | error a =>
      cases hmap
      exact (h mem).runLoop fuel hout
    | ok w => cases hmap
  · cases heq

theorem ChunkedFirst.linesComplete {r : ChunkedFirst} (hcut : r.cut = .between) :
    r.LinesComplete := by
  intro mem
  exact walk_between r.head_lt r.body.chunks r.start r.first _ r.head_length r.firstOk r.body.zero
    (r.body_drop mem) hcut rfl le_rfl

/-- Without a CRLF in the memory behind the first read the assertion fails. -/
theorem ChunkedFirst.asserts {r : ChunkedFirst} (hcut : r.cut = .inLine) :
    Halts (firstChunks (store [] 0 r.head) r.head.length r.start) (.error .assertion) := by
  have hbuf : (store [] 0 r.head).drop r.start = r.body.bytes.take r.first := by
    rw [r.body_drop, List.drop_nil, List.append_nil]
  have hwalk : Asserts (store [] 0 r.head) r.head.length r.start ⟨none, 0, 0⟩ :=
    walk_inLine r.head_lt r.body.chunks r.start r.first r.head_length hbuf hcut rfl
  have hpos : 0 < r.first := by
    rw [Nat.pos_iff_ne_zero]
    intro h0
    rw [ChunkedFirst.cut, h0, r.body.cutAt_zero] at hcut
    cases hcut
  have hin : byteAt (store [] 0 r.head) r.start ≠ 0 ∧ r.start < r.head.length := by
    obtain ⟨x, t, hx, hdigit⟩ := r.body.bytes_cons
    obtain ⟨n, hn⟩ : ∃ n, r.first = n + 1 := ⟨r.first - 1, by omega⟩
    rw [hx, hn, List.take_succ_cons] at hbuf
    have hlen := r.head_length
    rw [(byteAt_drop hbuf).1]
    exact ⟨digit_ne (by decide) hdigit (by decide), by omega⟩
  refine Halts.congr (fun fuel => ?_) (hwalk.map (Except.map fun w : Walk =>
    (w.chunk, wrapInt 64 (w.chunkLength - w.remaining))))
  unfold firstChunks
  rw [if_pos hin]
  congr 1
  funext out
  cases out with
  | error a => rfl
  | ok w => rfl

/-- **The assertion holds**, and every size line that the walk looks for is complete, if the first
read ends between the size lines; if it ends inside one the assertion can fail. -/
theorem assertion_between (r : ChunkedFirst) :
    (r.cut = .between → r.LinesComplete ∧ r.NeverAsserts) ∧
      (r.NeverAsserts → r.cut ≠ .inLine) := by
  constructor
  · intro hcut
    exact ⟨r.linesComplete hcut, (r.linesComplete hcut).neverAsserts⟩
  · intro hnever hcut
    obtain ⟨N, hN⟩ := r.asserts hcut
    exact hnever [] N (hN N le_rfl)

theorem oneByte_ne_nil : bytes "A" ≠ [] := by decide

/-- One chunk of one byte, cut behind the first digit of its size. -/
def oneDigit : ChunkedFirst where
  lines := threeReads.lines
  chunked := threeReads.chunked
  body :=
    { chunks := [⟨⟨bytes "1", [], ⟨by decide, by decide +kernel⟩, ⟨by decide, by decide, nofun⟩⟩,
        bytes "A", by decide, oneByte_ne_nil⟩]
      last := ⟨bytes "0", [], ⟨by decide, by decide +kernel⟩, ⟨by decide, by decide, nofun⟩⟩
      zero := by decide
      trailer := []
      trailerOk := by decide }
  first := 1
  firstOk := by decide
  fits := by decide

/-- A legal response that the call does not survive. -/
theorem oneDigit_asserts : ¬ ∀ r : ChunkedFirst, r.NeverAsserts := by
  intro h
  have hcut : oneDigit.cut = .inLine := by decide
  obtain ⟨N, hN⟩ := ChunkedFirst.asserts hcut
  exact h oneDigit [] N (hN N le_rfl)

end Flood.ChunkWalk
