import Flood.TemplateText

/-!
# Decoding in place

`subst_file_entry_unescape` reads and writes one buffer through the pointers `from` and `to`.  The
model of the decoder elsewhere works on strings; here is the loop on the memory itself.

* `roundAt_spec` — what a round reads and writes is what the decoder does with the string.
* `inPlace_inv` — the bytes written stand in front of memory that was never changed, and `to` is not
  ahead of `from`.
* `unescape_inPlace` — the loop ends, writes only what has been read, and arrives at what decoding a
  copy gives; a text whose special characters were escaped comes back.
* `unescape_noNUL_iff` — which numeric escapes write a NUL.
-/

namespace Flood.UnescapeInPlace

open Flood.CString Flood.Loop Flood.Subst Flood.TemplateText

/-! ### The loop -/

/-- The buffer, and the offsets of `from` and `to` in it. -/
structure Pointers where
  mem : Bytes
  fromPos : ℕ
  toPos : ℕ

/-- `if (IS_NUM(*from)) num = num*10 + (*from++ - '0')` -/
def moreNumAt (m : Bytes) (p : ℕ × ℕ) : ℕ × ℕ :=
  if isNum (byteAt m p.2) then (p.1 * 10 + numVal (byteAt m p.2), p.2 + 1) else p

/-- What a round reads at `from`: the bytes it goes on to write, and where it goes on reading.  All its
reads come before its first write. -/
def roundAt (m : Bytes) (pos : ℕ) : Bytes × ℕ :=
  if byteAt m pos ≠ 92 then ([byteAt m pos], pos + 1)
  else if isNum (byteAt m (pos + 1)) then
    let (num, next) := moreNumAt m (moreNumAt m (numVal (byteAt m (pos + 1)), pos + 2))
    (putNum num, next)
  else if byteAt m (pos + 1) = 0 then ([], pos + 1)
  else ([escaped (byteAt m (pos + 1))], pos + 2)

/-- A round of the loop; behind the last one the string is terminated. -/
def inPlaceRound (s : Pointers) : Pointers ⊕ Pointers :=
  if byteAt s.mem s.fromPos = 0 then .inl { s with mem := store s.mem s.toPos [0] }
  else
    let (written, next) := roundAt s.mem s.fromPos
    .inr ⟨store s.mem s.toPos written, next, s.toPos + written.length⟩

/-- `subst_file_entry_unescape` on a buffer. -/
def unescapeInPlace (m : Bytes) (fuel : ℕ) : Option Pointers := runLoop inPlaceRound fuel ⟨m, 0, 0⟩

/-- The same loop with a copy to read from. -/
def copyRound (src : Bytes) (s : ℕ × Bytes) : Bytes ⊕ (ℕ × Bytes) :=
  if byteAt src s.1 = 0 then .inl s.2
  else
    let (written, next) := roundAt src s.1
    .inr (next, s.2 ++ written)

/-- A round writes in front of the first byte that it has not read. -/
def WritesBehind (s : Pointers) : Prop :=
  byteAt s.mem s.fromPos ≠ 0 →
    s.toPos + (roundAt s.mem s.fromPos).1.length ≤ (roundAt s.mem s.fromPos).2

/-! ### One round -/

/-- A digit more, at a place in front of the terminator. -/
theorem moreNumAt_spec {m s rest : Bytes} {pos : ℕ} (h : m.drop pos = s ++ 0 :: rest) (num : ℕ) :
    ∃ k, moreNumAt m (num, pos) = ((moreNum (num, s)).1, pos + k) ∧
      (moreNum (num, s)).2 = s.drop k ∧ k ≤ s.length := by
  cases s with
  | nil =>
    obtain ⟨hbyte, -⟩ := byteAt_drop (x := 0) h
    refine ⟨0, ?_, rfl, Nat.le_refl 0⟩
    rw [moreNumAt, hbyte]
    rfl
  | cons c s =>
    obtain ⟨hbyte, -⟩ := byteAt_drop (x := c) h
    rw [moreNumAt, hbyte, moreNum]
    by_cases hnum : isNum c = true
    · rw [if_pos hnum, if_pos hnum]
      exact ⟨1, rfl, rfl, Nat.succ_le_succ (Nat.zero_le _)⟩
    · rw [if_neg hnum, if_neg hnum]
      exact ⟨0, rfl, rfl, Nat.zero_le _⟩

theorem putNum_length (num : ℕ) : (putNum num).length ≤ 2 := by
  unfold putNum
  split
  · exact Nat.le_succ 1
  · exact Nat.le_refl 2

/-- **A round**, in front of the terminator: it reads `k` bytes, does with them what the decoder does,
and writes no more bytes than it reads. -/
theorem roundAt_spec {m t rest : Bytes} {c : UInt8} {pos : ℕ}
    (h : m.drop pos = c :: t ++ 0 :: rest) (hnul : 0 ∉ c :: t) :
    ∃ k, roundAt m pos = ((unescapeRound c t).1, pos + k) ∧
      (unescapeRound c t).2 = (c :: t).drop k ∧ 1 ≤ k ∧ k ≤ (c :: t).length ∧
      (unescapeRound c t).1.length ≤ k := by
  obtain ⟨hbyte, hnext⟩ := byteAt_drop (x := c) (m := t ++ 0 :: rest) h
  unfold roundAt unescapeRound
  rw [hbyte]
  by_cases hc : c ≠ 92
  · rw [if_pos hc, if_pos hc]
    exact ⟨1, rfl, rfl, Nat.le_refl 1, Nat.succ_le_succ (Nat.zero_le _), Nat.le_refl 1⟩
  · rw [if_neg hc, if_neg hc]
    cases t with
    | nil =>
      -- the backslash is the last character
      obtain ⟨hzero, -⟩ := byteAt_drop (x := 0) hnext
      rw [hzero, if_neg (by decide), if_pos rfl]
      exact ⟨1, rfl, rfl, Nat.le_refl 1, Nat.le_refl 1, Nat.zero_le 1⟩
    | cons d t =>
      obtain ⟨hd, hnext'⟩ := byteAt_drop (x := d) (m := t ++ 0 :: rest) hnext
      have hne : d ≠ 0 := fun hzero => hnul (by simp [hzero])
      rw [hd]
      by_cases hnum : isNum d = true
      · obtain ⟨k₁, hmore₁, hdrop₁, hle₁⟩ := moreNumAt_spec hnext' (numVal d)
        have hnext₁ : m.drop (pos + 2 + k₁) = (moreNum (numVal d, t)).2 ++ 0 :: rest := by
          rw [← List.drop_drop, hnext', List.drop_append_of_le_length hle₁, hdrop₁]
        obtain ⟨k₂, hmore₂, hdrop₂, hle₂⟩ := moreNumAt_spec hnext₁ (moreNum (numVal d, t)).1
        rw [hdrop₁, List.length_drop] at hle₂
        have hlen := putNum_length (moreNum (moreNum (numVal d, t))).1
        rw [if_pos hnum]
        dsimp only
        rw [if_pos hnum, hmore₁, hmore₂]
        refine ⟨2 + k₁ + k₂, ?_, ?_, by omega, ?_, by dsimp only; omega⟩
        · rw [show pos + (2 + k₁ + k₂) = pos + 2 + k₁ + k₂ by omega]
        · show (moreNum (moreNum (numVal d, t))).2 = (c :: d :: t).drop (2 + k₁ + k₂)
          rw [show 2 + k₁ + k₂ = k₁ + k₂ + 1 + 1 by omega, List.drop_succ_cons, List.drop_succ_cons,
            ← List.drop_drop, ← hdrop₁]
          exact hdrop₂
        · rw [List.length_cons, List.length_cons]
          omega
      · rw [if_neg hnum, if_neg hne]
        dsimp only
        rw [if_neg hnum]
        refine ⟨2, rfl, rfl, by omega, ?_, by dsimp only [List.length]; omega⟩
        rw [List.length_cons, List.length_cons]
        omega

/-! ### The invariant -/

/-- In front of `to` stand the bytes written, and from there on the memory is as it was; what was
written is the decoding of what was read. -/
structure Decoding (s rest out : Bytes) (st : Pointers) : Prop where
  mem : st.mem = out ++ (s ++ 0 :: rest).drop out.length
  toPos : st.toPos = out.length
  behind : out.length ≤ st.fromPos
  inside : st.fromPos ≤ s.length
  decoded : out ++ substFileEntryUnescape (s.drop st.fromPos) = substFileEntryUnescape s

theorem store_behind (out m bs : Bytes) :
    store (out ++ m.drop out.length) out.length bs = (out ++ bs) ++ m.drop (out ++ bs).length := by
  have hfetch : fetch (out ++ m.drop out.length) out.length = out := by simp [fetch]
  rw [store, hfetch, ← List.drop_drop, List.drop_left, List.drop_drop, List.length_append]

/-- What has not been read is as it was. -/
theorem Decoding.unread {s rest out : Bytes} {st : Pointers} (h : Decoding s rest out st) :
    st.mem.drop st.fromPos = s.drop st.fromPos ++ 0 :: rest := by
  obtain ⟨k, hk⟩ := Nat.exists_eq_add_of_le h.behind
  rw [h.mem, hk, ← List.drop_drop, List.drop_left, List.drop_drop, ← hk,
    List.drop_append_of_le_length h.inside]

theorem decoding_start (s rest : Bytes) : Decoding s rest [] ⟨s ++ 0 :: rest, 0, 0⟩ :=
  ⟨rfl, rfl, Nat.le_refl 0, Nat.zero_le _, rfl⟩

/-- At the end of the string everything has been decoded. -/
theorem Decoding.finished {s rest out : Bytes} {st : Pointers} (h : Decoding s rest out st)
    (hend : st.fromPos = s.length) : out = substFileEntryUnescape s := by
  have hdecoded := h.decoded
  rwa [hend, List.drop_length, unescape_nil, List.append_nil] at hdecoded

theorem Decoding.terminator {s rest out : Bytes} {st : Pointers} (h : Decoding s rest out st)
    (hend : st.fromPos = s.length) : byteAt st.mem st.fromPos = 0 := by
  have hunread := h.unread
  rw [hend, List.drop_length] at hunread
  rw [hend]
  exact (byteAt_drop (x := 0) hunread).1

/-- **One round** in front of the terminator. -/
theorem Decoding.round {s rest out : Bytes} (hnul : 0 ∉ s) {st : Pointers}
    (h : Decoding s rest out st) (hlt : st.fromPos < s.length) :
    ∃ written next, roundAt st.mem st.fromPos = (written, next) ∧
      roundAt (s ++ 0 :: rest) st.fromPos = (written, next) ∧
      byteAt st.mem st.fromPos ≠ 0 ∧ byteAt (s ++ 0 :: rest) st.fromPos ≠ 0 ∧
      st.fromPos < next ∧ st.toPos + written.length ≤ next ∧
      Decoding s rest (out ++ written)
        ⟨store st.mem st.toPos written, next, st.toPos + written.length⟩ := by
  obtain ⟨c, t, hct⟩ : ∃ c t, s.drop st.fromPos = c :: t :=
    ⟨_, _, List.drop_eq_getElem_cons hlt⟩
  have hnot : 0 ∉ c :: t := fun hmem => hnul (List.mem_of_mem_drop (hct ▸ hmem))
  have hc : c ≠ 0 := fun hzero => hnot (by simp [hzero])
  have hmem := h.unread
  have hcopy : (s ++ 0 :: rest).drop st.fromPos = s.drop st.fromPos ++ 0 :: rest :=
    List.drop_append_of_le_length h.inside
  rw [hct] at hmem hcopy
  obtain ⟨k, hround, hleft, hk, hkle, hlen⟩ := roundAt_spec hmem hnot
  obtain ⟨k', hround', hleft', hk', hkle', -⟩ := roundAt_spec hcopy hnot
  -- both reads are of the same length
  have hsame : k' = k := by
    have hlens := congrArg List.length (hleft.symm.trans hleft')
    rw [List.length_drop, List.length_drop] at hlens
    omega
  subst hsame
  have hlength : (c :: t).length = s.length - st.fromPos := by rw [← hct, List.length_drop]
  have hbehind := h.behind
  have hto := h.toPos
  refine ⟨_, _, hround, hround', ?_, ?_, by omega, by omega, ?_⟩
  · rw [(byteAt_drop (x := c) hmem).1]
    exact hc
  · rw [(byteAt_drop (x := c) hcopy).1]
    exact hc
  · constructor
    · show store st.mem st.toPos _ = _
      rw [h.mem, hto, store_behind]
    · show st.toPos + _ = _
      rw [hto, List.length_append]
    · show (out ++ _).length ≤ st.fromPos + k'
      rw [List.length_append]
      omega
    · show st.fromPos + k' ≤ s.length
      omega
    · show out ++ _ ++ substFileEntryUnescape (s.drop (st.fromPos + k')) = _
      rw [← List.drop_drop, hct, ← hleft, List.append_assoc, ← unescape_cons, ← hct]
      exact h.decoded

/-- **The invariant** holds in every state of the loop. -/
theorem inPlace_inv {s rest : Bytes} (hnul : 0 ∉ s) {st : Pointers}
    (h : Steps inPlaceRound ⟨s ++ 0 :: rest, 0, 0⟩ st) : ∃ out, Decoding s rest out st := by
  induction h with
  | refl => exact ⟨[], decoding_start s rest⟩
  | @tail st st' _ hstep ih =>
    obtain ⟨out, hout⟩ := ih
    rcases Nat.lt_or_eq_of_le hout.inside with hlt | hend
    · obtain ⟨written, next, hround, -, hbyte, -, -, -, hnext⟩ := hout.round hnul hlt
      rw [inPlaceRound, if_neg hbyte, hround] at hstep
      cases hstep
      exact ⟨_, hnext⟩
    · rw [inPlaceRound, if_pos (hout.terminator hend)] at hstep
      cases hstep

theorem writesBehind {s rest : Bytes} (hnul : 0 ∉ s) {st : Pointers}
    (h : Steps inPlaceRound ⟨s ++ 0 :: rest, 0, 0⟩ st) : WritesBehind st := by
  intro hbyte
  obtain ⟨out, hout⟩ := inPlace_inv hnul h
  rcases Nat.lt_or_eq_of_le hout.inside with hlt | hend
  · obtain ⟨written, next, hround, -, -, -, -, hle, -⟩ := hout.round hnul hlt
    rw [hround]
    exact hle
  · exact absurd (hout.terminator hend) hbyte

/-! ### The end of the loop -/

/-- **The loop ends**, with the decoded string in front of its terminator and of the memory as it
was. -/
theorem inPlace_halts (s rest : Bytes) (hnul : 0 ∉ s) :
    ∃ fin, Halts (unescapeInPlace (s ++ 0 :: rest)) fin ∧
      fin.mem = substFileEntryUnescape s ++
        0 :: (s ++ 0 :: rest).drop ((substFileEntryUnescape s).length + 1) ∧
      fin.toPos = (substFileEntryUnescape s).length := by
  refine halts_of_measure (fun st => ∃ out, Decoding s rest out st) _
    (fun st => s.length - st.fromPos) ?_ ⟨[], decoding_start s rest⟩
  rintro st ⟨out, hout⟩
  rcases Nat.lt_or_eq_of_le hout.inside with hlt | hend
  · right
    obtain ⟨written, next, hround, -, hbyte, -, hgo, -, hnext⟩ := hout.round hnul hlt
    refine ⟨_, ?_, ⟨_, hnext⟩, ?_⟩
    · rw [inPlaceRound, if_neg hbyte, hround]
    · show s.length - next < s.length - st.fromPos
      have hinside := hnext.inside
      dsimp only at hinside
      omega
  · left
    refine ⟨_, by rw [inPlaceRound, if_pos (hout.terminator hend)], ?_, ?_⟩
    · show store st.mem st.toPos [0] = _
      rw [hout.mem, hout.toPos, store_behind, ← hout.finished hend, List.append_assoc,
        List.length_append]
      rfl
    · show st.toPos = _
      rw [hout.toPos, hout.finished hend]

/-- The loop that reads from a copy arrives at the same. -/
theorem copy_halts (s rest : Bytes) (hnul : 0 ∉ s) :
    Halts (fun n => runLoop (copyRound (s ++ 0 :: rest)) n (0, [])) (substFileEntryUnescape s) := by
  let Inv : ℕ × Bytes → Prop := fun st => st.1 ≤ s.length ∧
    st.2 ++ substFileEntryUnescape (s.drop st.1) = substFileEntryUnescape s
  obtain ⟨out, hhalts, rfl⟩ : ∃ out, Halts (fun n => runLoop (copyRound (s ++ 0 :: rest)) n (0, []))
      out ∧ out = substFileEntryUnescape s := by
    refine halts_of_measure Inv _ (fun st => s.length - st.1) ?_ ⟨Nat.zero_le _, rfl⟩
    rintro ⟨pos, out⟩ ⟨hle, hout⟩
    dsimp only at hle hout
    have hmem : (s ++ 0 :: rest).drop pos = s.drop pos ++ 0 :: rest :=
      List.drop_append_of_le_length hle
    rcases Nat.lt_or_eq_of_le hle with hlt | hend
    · right
      obtain ⟨c, t, hct⟩ : ∃ c t, s.drop pos = c :: t := ⟨_, _, List.drop_eq_getElem_cons hlt⟩
      have hnot : 0 ∉ c :: t := fun hmem => hnul (List.mem_of_mem_drop (hct ▸ hmem))
      have hlength : (c :: t).length = s.length - pos := by rw [← hct, List.length_drop]
      rw [hct] at hmem
      obtain ⟨k, hround, hleft, hk, hkle, -⟩ := roundAt_spec hmem hnot
      refine ⟨(pos + k, out ++ (unescapeRound c t).1), ?_, ⟨?_, ?_⟩, ?_⟩
      · rw [copyRound, (byteAt_drop (x := c) hmem).1, if_neg fun hzero => hnot (by simp [hzero]),
          hround]
      · show pos + k ≤ s.length
        omega
      · show out ++ _ ++ substFileEntryUnescape (s.drop (pos + k)) = _
        rw [← List.drop_drop, hct, ← hleft, List.append_assoc, ← unescape_cons, ← hct]
        exact hout
      · show s.length - (pos + k) < s.length - pos
        omega
    · left
      rw [hend, List.drop_length] at hmem
      rw [hend, List.drop_length, unescape_nil, List.append_nil] at hout
      refine ⟨out, ?_, hout⟩
      rw [copyRound, hend, (byteAt_drop (x := 0) hmem).1, if_pos rfl]
  exact hhalts

/-- A character as it is written in a substitution file. -/
def escapeChar (c : UInt8) : Bytes :=
  if c = 92 then [92, 92]
  else if c = LF then [92, 110]
  else if c = CR then [92, 114]
  else if c = 9 then [92, 116]
  else [c]

def escapeText (s : Bytes) : Bytes := s.flatMap escapeChar

/-- **Escaping is undone.** -/
theorem unescape_escape (s : Bytes) : substFileEntryUnescape (escapeText s) = s := by
  induction s with
  | nil => rfl
  | cons c s ih =>
    have hcons : escapeText (c :: s) = escapeChar c ++ escapeText s := List.flatMap_cons
    rw [hcons, escapeChar]
    by_cases hslash : c = 92
    · rw [if_pos hslash, hslash]
      show substFileEntryUnescape (92 :: 92 :: escapeText s) = _
      rw [unescape_escaped (by decide), ih]
      rfl
    · rw [if_neg hslash]
      by_cases hlf : c = LF
      · rw [if_pos hlf, hlf]
        show substFileEntryUnescape (92 :: 110 :: escapeText s) = _
        rw [unescape_escaped (by decide), ih]
        rfl
      · rw [if_neg hlf]
        by_cases hcr : c = CR
        · rw [if_pos hcr, hcr]
          show substFileEntryUnescape (92 :: 114 :: escapeText s) = _
          rw [unescape_escaped (by decide), ih]
          rfl
        · rw [if_neg hcr]
          by_cases htab : c = 9
          · rw [if_pos htab, htab]
            show substFileEntryUnescape (92 :: 116 :: escapeText s) = _
            rw [unescape_escaped (by decide), ih]
            rfl
          · rw [if_neg htab, List.singleton_append, unescape_cons_plain hslash, ih]

theorem zero_notMem_escape {s : Bytes} (hnul : 0 ∉ s) : 0 ∉ escapeText s := by
  intro hmem
  obtain ⟨c, hc, hmem⟩ := List.mem_flatMap.mp hmem
  have hne : (0 : UInt8) ≠ c := fun hzero => hnul (hzero ▸ hc)
  unfold escapeChar at hmem
  split_ifs at hmem
  · exact absurd hmem (by decide)
  · exact absurd hmem (by decide)
  · exact absurd hmem (by decide)
  · exact absurd hmem (by decide)
  · exact hne (List.mem_singleton.mp hmem)

/-- **Decoding in place** ends for every string, writes nothing at or behind the first byte it has not
read, and leaves what decoding a copy gives; a text that was escaped comes back. -/
theorem unescape_inPlace (s rest : Bytes) (hnul : 0 ∉ s) :
    (∀ st, Steps inPlaceRound ⟨s ++ 0 :: rest, 0, 0⟩ st → WritesBehind st) ∧
      (∃ fin out, Halts (unescapeInPlace (s ++ 0 :: rest)) fin ∧
        Halts (fun n => runLoop (copyRound (s ++ 0 :: rest)) n (0, [])) out ∧
        fin.mem = out ++ 0 :: (s ++ 0 :: rest).drop (out.length + 1)) ∧
      ∃ fin, Halts (unescapeInPlace (escapeText s ++ 0 :: rest)) fin ∧ cstr fin.mem = s := by
  obtain ⟨fin, hhalts, hmem, -⟩ := inPlace_halts s rest hnul
  obtain ⟨fin', hhalts', hmem', -⟩ := inPlace_halts (escapeText s) rest (zero_notMem_escape hnul)
  refine ⟨fun st => writesBehind hnul, ⟨fin, _, hhalts, copy_halts s rest hnul, hmem⟩, fin', hhalts',
    ?_⟩
  rw [hmem', unescape_escape, cstr_append_of_not_mem hnul]
  exact List.append_nil s

theorem unescape_inPlace_oneEscape :
    (∀ st, Steps inPlaceRound ⟨bytes "\\n" ++ 0 :: [], 0, 0⟩ st → WritesBehind st) ∧
      (∃ fin out, Halts (unescapeInPlace (bytes "\\n" ++ 0 :: [])) fin ∧
        Halts (fun n => runLoop (copyRound (bytes "\\n" ++ 0 :: [])) n (0, [])) out ∧
        fin.mem = out ++ 0 :: (bytes "\\n" ++ 0 :: []).drop (out.length + 1)) ∧
      ∃ fin, Halts (unescapeInPlace (escapeText (bytes "\\n") ++ 0 :: [])) fin ∧
        cstr fin.mem = bytes "\\n" :=
  unescape_inPlace (bytes "\\n") [] (by decide +kernel)

/-! ### Escapes that cut the string short -/

/-- A backslash behind this text begins an escape: the text ends in an even number of backslashes. -/
def BeginsEscape (before : Bytes) : Prop :=
  (before.reverse.takeWhile (· = 92)).length % 2 = 0

/-- The digits of the numbers up to 999 that a `char` takes for a NUL. -/
def cuttingDigits : List Bytes := [bytes "256", bytes "512", bytes "768"]

/-- An escape of one of these numbers stands in the string. -/
def CutsShort (s : Bytes) : Prop :=
  ∃ before digits behind, s = before ++ 92 :: (digits ++ behind) ∧ BeginsEscape before ∧
    digits ∈ cuttingDigits

/-- A character in front changes nothing, unless it is a backslash. -/
theorem beginsEscape_plain {c : UInt8} (hc : c ≠ 92) (before : Bytes) :
    BeginsEscape (c :: before) ↔ BeginsEscape before := by
  unfold BeginsEscape
  rw [List.reverse_cons, List.takeWhile_append]
  split
  · next hall =>
    rw [List.takeWhile_cons_of_neg (by simpa using hc), List.append_nil, hall]
  · rfl

/-- Nor does a backslash with the character behind it. -/
theorem beginsEscape_pair (d : UInt8) (before : Bytes) :
    BeginsEscape (92 :: d :: before) ↔ BeginsEscape before := by
  by_cases hd : d = 92
  · subst hd
    unfold BeginsEscape
    rw [List.reverse_cons, List.reverse_cons, List.append_assoc, List.takeWhile_append]
    split
    · next hall =>
      rw [hall, List.length_append]
      show (_ + 2) % 2 = 0 ↔ _
      omega
    · rfl
  · rw [← beginsEscape_plain hd before]
    unfold BeginsEscape
    rw [List.reverse_cons, List.takeWhile_append, if_neg]
    intro hall
    have hmem : d ∈ (d :: before).reverse.takeWhile (· = 92) := by
      rw [List.IsPrefix.eq_of_length (List.takeWhile_prefix _) hall]
      simp
    exact hd (by simpa using List.mem_takeWhile_imp hmem)

/-- Nor do digits behind a backslash. -/
theorem beginsEscape_digits {d : UInt8} {ds : Bytes} (hds : ∀ c ∈ ds, isNum c = true)
    (before : Bytes) : BeginsEscape (92 :: d :: (ds ++ before)) ↔ BeginsEscape before := by
  rw [beginsEscape_pair]
  induction ds with
  | nil => rfl
  | cons c ds ih =>
    have hc : c ≠ 92 := by
      rintro rfl
      exact absurd (hds 92 List.mem_cons_self) (by decide)
    rw [List.cons_append, beginsEscape_plain hc, ih fun c hc => hds c (List.mem_cons_of_mem _ hc)]

theorem isNum_of_cutting {digits : Bytes} (h : digits ∈ cuttingDigits) :
    digits.length = 3 ∧ ∀ c ∈ digits, isNum c = true := by
  revert digits
  decide +kernel

theorem cutsShort_plain {c : UInt8} (hc : c ≠ 92) (t : Bytes) : CutsShort (c :: t) ↔ CutsShort t := by
  constructor
  · rintro ⟨before, digits, behind, heq, hbegins, hdigits⟩
    cases before with
    | nil =>
      rw [List.nil_append, List.cons.injEq] at heq
      exact absurd heq.1 hc
    | cons x before =>
      rw [List.cons_append, List.cons.injEq] at heq
      obtain ⟨rfl, rfl⟩ := heq
      exact ⟨before, digits, behind, rfl, (beginsEscape_plain hc before).mp hbegins, hdigits⟩
  · rintro ⟨before, digits, behind, rfl, hbegins, hdigits⟩
    exact ⟨c :: before, digits, behind, rfl, (beginsEscape_plain hc before).mpr hbegins, hdigits⟩

theorem cutsShort_pair {d : UInt8} (hd : isNum d = false) (t : Bytes) :
    CutsShort (92 :: d :: t) ↔ CutsShort t := by
  constructor
  · rintro ⟨before, digits, behind, heq, hbegins, hdigits⟩
    obtain ⟨hlen, hnum⟩ := isNum_of_cutting hdigits
    cases before with
    | nil =>
      obtain ⟨x, digits, rfl⟩ := List.exists_cons_of_length_pos (show 0 < digits.length by omega)
      rw [List.nil_append, List.cons_append, List.cons.injEq, List.cons.injEq] at heq
      obtain ⟨-, rfl, -⟩ := heq
      rw [hnum d List.mem_cons_self] at hd
      cases hd
    | cons x before =>
      cases before with
      | nil =>
        rw [List.singleton_append, List.cons.injEq] at heq
        obtain ⟨rfl, -⟩ := heq
        exact absurd hbegins (by unfold BeginsEscape; decide)
      | cons y before =>
        rw [List.cons_append, List.cons_append, List.cons.injEq, List.cons.injEq] at heq
        obtain ⟨rfl, rfl, rfl⟩ := heq
        exact ⟨before, digits, behind, rfl, (beginsEscape_pair d before).mp hbegins, hdigits⟩
  · rintro ⟨before, digits, behind, rfl, hbegins, hdigits⟩
    exact ⟨92 :: d :: before, digits, behind, rfl, (beginsEscape_pair d before).mpr hbegins, hdigits⟩

/-- What the digits of an escape amount to. -/
def number (ds : Bytes) : ℕ := ds.foldl (fun n c => n * 10 + numVal c) 0

/-- **The digits of an escape**: up to two behind the first, and as many as there are. -/
theorem moreNum_digits (d : UInt8) (t : Bytes) :
    ∃ ds r, t = ds ++ r ∧ (∀ c ∈ ds, isNum c = true) ∧ ds.length ≤ 2 ∧
      (ds.length < 2 → NoDigit r) ∧
      moreNum (moreNum (numVal d, t)) = (number (d :: ds), r) := by
  have hone : number [d] = numVal d := by simp [number]
  cases t with
  | nil => exact ⟨[], [], rfl, nofun, by decide, fun _ => nofun, by rw [hone]; rfl⟩
  | cons e t =>
    by_cases he : isNum e = true
    · have hfirst : moreNum (numVal d, e :: t) = (number [d, e], t) := by
        rw [moreNum, if_pos he]
        simp [number]
      cases t with
      | nil =>
        refine ⟨[e], [], rfl, by simpa using he, by simp, fun _ => nofun, ?_⟩
        rw [hfirst]
        rfl
      | cons f t =>
        by_cases hf : isNum f = true
        · refine ⟨[e, f], t, rfl, by simp [he, hf], by simp, fun h => absurd h (by simp), ?_⟩
          rw [hfirst, moreNum, if_pos hf]
          simp [number]
        · refine ⟨[e], f :: t, rfl, by simpa using he, by simp, fun _ => ?_, ?_⟩
          · rintro c t' heq
            cases heq
            exact Bool.eq_false_iff.mpr hf
          · rw [hfirst, moreNum, if_neg hf]
    · refine ⟨[], e :: t, rfl, nofun, by decide, fun _ => ?_, ?_⟩
      · rintro c t' heq
        cases heq
        exact Bool.eq_false_iff.mpr he
      · have hfirst : moreNum (numVal d, e :: t) = (numVal d, e :: t) := by
          rw [moreNum, if_neg he]
        rw [hfirst, hfirst, hone]

theorem zero_mem_putNum_iff (num : ℕ) : 0 ∈ putNum num ↔ num ≠ 0 ∧ num % 256 = 0 := by
  unfold putNum
  by_cases hnum : num ≠ 0
  · rw [if_pos hnum, List.mem_singleton, eq_comm, ← UInt8.toNat_inj, Nat.toUInt8_eq,
      UInt8.toNat_ofNat']
    exact ⟨fun h => ⟨hnum, h⟩, fun h => h.2⟩
  · rw [if_neg hnum]
    exact ⟨fun h => absurd h (by decide), fun h => absurd h.1 hnum⟩

/-- The code of a digit. -/
theorem toNat_of_isNum {c : UInt8} (h : isNum c = true) : c.toNat = 48 + numVal c ∧ numVal c ≤ 9 := by
  unfold isNum at h
  rw [decide_eq_true_eq, UInt8.le_iff_toNat_le, UInt8.le_iff_toNat_le] at h
  have h48 : (48 : UInt8).toNat = 48 := rfl
  have h57 : (57 : UInt8).toNat = 57 := rfl
  unfold numVal
  omega

theorem digit_of_numVal {c d : UInt8} (hc : isNum c = true) (hd : isNum d = true)
    (h : numVal c = numVal d) : c = d := by
  rw [← UInt8.toNat_inj, (toNat_of_isNum hc).1, (toNat_of_isNum hd).1, h]

theorem number_three (d e f : UInt8) :
    number [d, e, f] = (numVal d * 10 + numVal e) * 10 + numVal f := by
  simp only [number, List.foldl_cons, List.foldl_nil, Nat.zero_mul, Nat.zero_add]

/-- Three digits are told by their number. -/
theorem digits_of_number {d e f : UInt8} (d' e' f' : UInt8)
    (hdigits : isNum d = true ∧ isNum e = true ∧ isNum f = true)
    (hdigits' : isNum d' = true ∧ isNum e' = true ∧ isNum f' = true)
    (h : number [d, e, f] = number [d', e', f']) : [d, e, f] = [d', e', f'] := by
  obtain ⟨hd, he, hf⟩ := hdigits
  obtain ⟨hd', he', hf'⟩ := hdigits'
  have he9 := (toNat_of_isNum he).2
  have hf9 := (toNat_of_isNum hf).2
  have he9' := (toNat_of_isNum he').2
  have hf9' := (toNat_of_isNum hf').2
  rw [number_three, number_three] at h
  rw [digit_of_numVal hd hd' (by omega), digit_of_numVal he he' (by omega),
    digit_of_numVal hf hf' (by omega)]

theorem cutting_number {n : ℕ} (hn : n ≤ 999) (hne : n ≠ 0) (hzero : n % 256 = 0) :
    n = 256 ∨ n = 512 ∨ n = 768 := by
  omega

/-- **The numbers that a `char` takes for a NUL**, among those of up to three digits. -/
theorem zero_mem_number_iff {d : UInt8} {ds : Bytes} (hd : isNum d = true)
    (hds : ∀ c ∈ ds, isNum c = true) (hlen : ds.length ≤ 2) :
    0 ∈ putNum (number (d :: ds)) ↔ d :: ds ∈ cuttingDigits := by
  rw [zero_mem_putNum_iff]
  constructor
  · rintro ⟨hne, hzero⟩
    have h9 := (toNat_of_isNum hd).2
    rcases ds with _ | ⟨e, _ | ⟨f, _ | ⟨g, ds⟩⟩⟩
    · simp only [number, List.foldl_cons, List.foldl_nil] at hne hzero
      omega
    · have he := (toNat_of_isNum (hds e (by simp))).2
      simp only [number, List.foldl_cons, List.foldl_nil] at hne hzero
      omega
    · have he := hds e (by simp)
      have hf := hds f (by simp)
      have he9 := (toNat_of_isNum he).2
      have hf9 := (toNat_of_isNum hf).2
      have hle : number [d, e, f] ≤ 999 := by
        rw [number_three]
        omega
      rcases cutting_number hle hne hzero with hnum | hnum | hnum
      · rw [digits_of_number 50 53 54 ⟨hd, he, hf⟩ (by decide) hnum]
        decide
      · rw [digits_of_number 53 49 50 ⟨hd, he, hf⟩ (by decide) hnum]
        decide
      · rw [digits_of_number 55 54 56 ⟨hd, he, hf⟩ (by decide) hnum]
        decide
    · simp only [List.length_cons] at hlen
      omega
  · intro hmem
    have hall : ∀ digits ∈ cuttingDigits, number digits ≠ 0 ∧ number digits % 256 = 0 := by
      decide +kernel
    exact hall _ hmem

theorem cutsShort_number {d : UInt8} {ds r : Bytes} (hd : isNum d = true)
    (hds : ∀ c ∈ ds, isNum c = true) (hlen : ds.length ≤ 2) (hr : ds.length < 2 → NoDigit r) :
    CutsShort (92 :: d :: (ds ++ r)) ↔ d :: ds ∈ cuttingDigits ∨ CutsShort r := by
  constructor
  · rintro ⟨before, digits, behind, heq, hbegins, hdigits⟩
    obtain ⟨hthree, hnum⟩ := isNum_of_cutting hdigits
    cases before with
    | nil =>
      left
      rw [List.nil_append, List.cons.injEq] at heq
      have happ : d :: ds ++ r = digits ++ behind := heq.2
      rcases List.append_eq_append_iff.mp happ with ⟨more, rfl, hmore⟩ | ⟨more, hmore, hbehind⟩
      · -- no digit was left behind
        cases more with
        | nil => rwa [List.append_nil] at hdigits
        | cons x more =>
          have hshort : ds.length < 2 := by
            rw [List.length_append, List.length_cons, List.length_cons] at hthree
            omega
          have hx := hr hshort x (more ++ behind) hmore
          rw [hnum x (by simp)] at hx
          cases hx
      · cases more with
        | nil =>
          rw [List.append_nil] at hmore
          rwa [hmore]
        | cons x more =>
          have hlens := congrArg List.length hmore
          rw [List.length_append, List.length_cons, List.length_cons] at hlens
          omega
    | cons x before =>
      right
      rw [List.cons_append, List.cons.injEq] at heq
      obtain ⟨rfl, happ⟩ := heq
      have happ' : d :: ds ++ r = before ++ 92 :: (digits ++ behind) := happ
      rcases List.append_eq_append_iff.mp happ' with ⟨more, rfl, hmore⟩ | ⟨more, hmore, hrest⟩
      · exact ⟨more, digits, behind, hmore, (beginsEscape_digits hds more).mp hbegins, hdigits⟩
      · cases more with
        | nil =>
          rw [List.append_nil] at hmore
          rw [List.nil_append] at hrest
          refine ⟨[], digits, behind, hrest.symm, ?_, hdigits⟩
          rw [← hmore] at hbegins
          rw [← List.append_nil ds] at hbegins
          exact (beginsEscape_digits hds []).mp hbegins
        | cons y more =>
          -- a backslash is no digit
          rw [List.cons_append, List.cons.injEq] at hrest
          obtain ⟨rfl, -⟩ := hrest
          have hmem : (92 : UInt8) ∈ d :: ds := by
            rw [hmore]
            simp
          rcases List.mem_cons.mp hmem with rfl | hmem
          · exact absurd hd (by decide)
          · exact absurd (hds 92 hmem) (by decide)
  · rintro (hdigits | ⟨before, digits, behind, rfl, hbegins, hdigits⟩)
    · exact ⟨[], d :: ds, r, rfl, rfl, hdigits⟩
    · refine ⟨92 :: d :: (ds ++ before), digits, behind, ?_, (beginsEscape_digits hds before).mpr hbegins,
        hdigits⟩
      simp only [List.cons_append, List.append_assoc]

/-- **A NUL is written** where an escape of 256, 512 or 768 stands, and nowhere else. -/
theorem zero_mem_unescape_iff {s : Bytes} (hnul : 0 ∉ s) :
    0 ∈ substFileEntryUnescape s ↔ CutsShort s := by
  induction hn : s.length using Nat.strong_induction_on generalizing s with
  | _ n ih =>
    subst hn
    have hshort : ∀ {s : Bytes}, s.length < 4 → ¬ CutsShort s := by
      rintro s hlt ⟨before, digits, behind, rfl, -, hdigits⟩
      have hthree := (isNum_of_cutting hdigits).1
      simp only [List.length_append, List.length_cons] at hlt
      omega
    cases s with
    | nil => exact iff_of_false List.not_mem_nil (hshort (by decide))
    | cons c t =>
      by_cases hc : c = 92
      · subst hc
        cases t with
        | nil => exact iff_of_false (by decide) (hshort (Nat.lt_of_sub_eq_succ rfl))
        | cons d t =>
          have hd0 : (0 : UInt8) ≠ d := fun h => hnul (by simp [h])
          by_cases hd : isNum d = true
          · obtain ⟨ds, r, rfl, hds, hlen, hr, hmore⟩ := moreNum_digits d t
            have hrest := ih r.length (by simp only [List.length_cons, List.length_append]; omega)
              (s := r) (fun h => hnul (by simp [h])) rfl
            rw [unescape_number hd, hmore, List.mem_append, cutsShort_number hd hds hlen hr, hrest,
              zero_mem_number_iff hd hds hlen]
          · rw [Bool.not_eq_true] at hd
            have hrest := ih t.length (by simp only [List.length_cons]; omega)
              (s := t) (fun h => hnul (by simp [h])) rfl
            have hescaped : (0 : UInt8) ≠ escaped d := by
              unfold escaped
              split_ifs
              · decide
              · decide
              · decide
              · exact hd0
            rw [unescape_escaped hd, List.mem_cons, cutsShort_pair hd, hrest]
            exact or_iff_right hescaped
      · have hc0 : (0 : UInt8) ≠ c := fun h => hnul (by simp [h])
        have hrest := ih t.length (by simp only [List.length_cons]; omega)
          (s := t) (fun h => hnul (by simp [h])) rfl
        rw [unescape_cons_plain hc, List.mem_cons, cutsShort_plain hc, hrest]
        exact or_iff_right hc0

/-- **No NUL is written in front of the terminator**, and the string is as long as the number of bytes
written, exactly where no escape of 256, 512 or 768 stands in it. -/
theorem unescape_noNUL_iff (s rest : Bytes) (hnul : 0 ∉ s) :
    (∃ fin, Halts (unescapeInPlace (s ++ 0 :: rest)) fin ∧ 0 ∉ fin.mem.take fin.toPos ∧
      strlen fin.mem = fin.toPos) ↔ ¬ CutsShort s := by
  obtain ⟨fin, hhalts, hmem, hto⟩ := inPlace_halts s rest hnul
  rw [← zero_mem_unescape_iff hnul]
  constructor
  · rintro ⟨fin', hhalts', hzero, -⟩
    rw [← hhalts.unique hhalts', hmem, hto, List.take_left] at hzero
    exact hzero
  · intro hzero
    refine ⟨fin, hhalts, ?_, ?_⟩
    · rwa [hmem, hto, List.take_left]
    · rw [strlen, hmem, cstr_append_of_not_mem hzero, hto]
      show (_ ++ []).length = _
      rw [List.append_nil]

theorem unescape_noNUL_zero :
    (∃ fin, Halts (unescapeInPlace (bytes "\\0" ++ 0 :: [])) fin ∧ 0 ∉ fin.mem.take fin.toPos ∧
      strlen fin.mem = fin.toPos) ↔ ¬ CutsShort (bytes "\\0") :=
  unescape_noNUL_iff (bytes "\\0") [] (by decide +kernel)

/-- The number 256 is stored into a `char`. -/
theorem escape256_cuts : ∃ s rest : Bytes, 0 ∉ s ∧
    ¬ ∃ fin, Halts (unescapeInPlace (s ++ 0 :: rest)) fin ∧ 0 ∉ fin.mem.take fin.toPos ∧
      strlen fin.mem = fin.toPos := by
  refine ⟨bytes "a\\256b", [], by decide +kernel, ?_⟩
  rintro ⟨fin', hhalts', hzero, -⟩
  obtain ⟨fin, hhalts, hmem, hto⟩ := inPlace_halts (bytes "a\\256b") [] (by decide +kernel)
  rw [← hhalts.unique hhalts', hmem, hto, List.take_left] at hzero
  exact hzero (by decide +kernel)

end Flood.UnescapeInPlace
