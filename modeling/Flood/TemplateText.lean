import Flood.RoundRobin

/-!
# What becomes of the text of a template

The string that `handle_param_string` assembles goes through `subst_file_entry_unescape` as a whole.
The layout of a template is that string with holes for the lines of substitution files; it does not
depend on these files.

* `handleParamString_eq` — the call fills the layout with the lines and decodes everything.
* `unescape_fill` — on a settled layout that is the same as decoding the lines alone.
* `settled_of_verbatim` — on any other layout some lines show the difference.
* `expansion_verbatim_iff` — both together, and the case without placeholders.
-/

namespace Flood.TemplateText

open Flood.CString Flood.Net Flood.Subst Flood.Template Flood.RoundRobin

/-! ### Layouts -/

/-- A byte of the template or of a value, or the place of a line of a substitution file. -/
abbrev Cell := Option UInt8

/-- The cells of the text that the loop assembles. -/
def layout (set : ExpandParam) : ℕ → Bytes → Vars → Draws → List Cell
  | 0, cur, _, _ => cur.map some
  | n + 1, cur, state, draws =>
    match regexec cur with
    | none => cur.map some
    | some (cpy, name, rest) =>
      match boundData set name state draws with
      | (some data, state, draws) => (cpy ++ data).map some ++ layout set n rest state draws
      | (none, state, draws) => cpy.map some ++ none :: layout set n rest state draws.next

/-- The lines of substitution files that the loop takes, with the bindings and the draws left
behind. -/
def lines (substList : Option (List SubstRec)) (set : ExpandParam) :
    ℕ → Bytes → Vars → Draws → Except Abort (List Bytes × Vars × Draws)
  | 0, _, state, draws => .ok ([], state, draws)
  | n + 1, cur, state, draws =>
    match regexec cur with
    | none => .ok ([], state, draws)
    | some (_, name, rest) =>
      match boundData set name state draws with
      | (some _, state, draws) => lines substList set n rest state draws
      | (none, state, draws) =>
        match substData substList name (draws 0) with
        | .error a => .error a
        | .ok line =>
          (lines substList set n rest state draws.next).map fun (ls, st, d) => (line :: ls, st, d)

/-- A layout with lines in its holes. -/
def fill : List Cell → List Bytes → Bytes
  | [], _ => []
  | some c :: l, ls => c :: fill l ls
  | none :: l, [] => fill l []
  | none :: l, line :: ls => line ++ fill l ls

@[simp] theorem fill_map_some (t : Bytes) (l : List Cell) (ls : List Bytes) :
    fill (t.map some ++ l) ls = t ++ fill l ls := by
  induction t with
  | nil => rfl
  | cons c t ih => simp only [List.map_cons, List.cons_append, fill, ih]

/-- The loop assembles its layout with the lines in the holes. -/
theorem expandLoop_eq (substList : Option (List SubstRec)) (set : ExpandParam) (n : ℕ)
    (s : ExpandState) :
    (expandLoop substList set n s).map (fun s => (s.returnValue.getD [] ++ s.cur, s.state, s.draws)) =
      (lines substList set n s.cur s.state s.draws).map fun (ls, st, d) =>
        (s.returnValue.getD [] ++ fill (layout set n s.cur s.state s.draws) ls, st, d) := by
  induction n generalizing s with
  | zero =>
    have hfill := fill_map_some s.cur [] []
    rw [List.append_nil] at hfill
    simp [expandLoop, lines, layout, Except.map, hfill, fill]
  | succ n ih =>
    have hfill := fill_map_some s.cur [] []
    rw [List.append_nil] at hfill
    simp only [expandLoop, lines, layout, placeholderData]
    cases hre : regexec s.cur with
    | none => simp [Except.map, hfill, fill]
    | some m =>
      obtain ⟨cpy, name, rest⟩ := m
      rcases hb : boundData set name s.state s.draws with ⟨_ | data, state, draws⟩
      · simp only [hb]
        cases hs : substData substList name (draws 0) with
        | error a => rfl
        | ok line =>
          simp only [ih, Option.getD_some]
          rcases lines substList set n rest state draws.next with _ | ⟨ls, st, d⟩
          · rfl
          · simp [Except.map, fill, List.append_assoc]
      · simp only [hb, ih, Option.getD_some]
        rcases lines substList set n rest state draws with _ | ⟨ls, st, d⟩
        · rfl
        · simp [Except.map, List.append_assoc]

/-- **What `handle_param_string` returns**: the layout with the lines in its holes, decoded as a
whole. -/
theorem handleParamString_eq (substList : Option (List SubstRec)) (set : ExpandParam)
    (template : Bytes) (state : Vars) (draws : Draws) :
    handleParamString substList set template state draws =
      (lines substList set template.length template state draws).map fun (ls, st, d) =>
        (substFileEntryUnescape (fill (layout set template.length template state draws) ls), st, d) := by
  have hloop := expandLoop_eq substList set template.length ⟨template, none, state, draws⟩
  simp only [Option.getD_none, List.nil_append] at hloop
  let decode : Bytes × Vars × Draws → Bytes × Vars × Draws :=
    fun r => (substFileEntryUnescape r.1, r.2.1, r.2.2)
  calc handleParamString substList set template state draws
      = ((expandLoop substList set template.length ⟨template, none, state, draws⟩).map fun s =>
          (s.returnValue.getD [] ++ s.cur, s.state, s.draws)).map decode := by
        rw [handleParamString]
        rcases expandLoop substList set template.length ⟨template, none, state, draws⟩ with _ | s
        · rfl
        · rfl
    _ = _ := by
        rw [hloop]
        rcases lines substList set template.length template state draws with _ | ⟨ls, st, d⟩
        · rfl
        · rfl

/-! ### Settled layouts -/

/-- What may follow the escape `\0`: neither a hole nor a digit. -/
def endsNumber : List Cell → Bool
  | [] => true
  | none :: _ => false
  | some c :: _ => !isNum c

/-- The escape `\0` behind its backslash, which is written as it stands. -/
def zeroEscape : List Cell → Bool
  | some c :: l => c = 48 && endsNumber l
  | _ => false

/-- What may follow a hole, whose line may end with a backslash or with digits of an escape. -/
def endsLine : List Cell → Bool
  | [] => true
  | none :: _ => false
  | some c :: _ => !isNum c && escaped c = c

/-- Decoding cannot touch the text of the layout, nor let the lines run into it. -/
def settled : List Cell → Bool
  | [] => true
  | none :: l => endsLine l && settled l
  | some c :: l => (c ≠ 92 || zeroEscape l) && settled l

theorem zeroEscape_cases {l : List Cell} (h : zeroEscape l = true) :
    ∃ l', l = some 48 :: l' ∧ endsNumber l' = true := by
  unfold zeroEscape at h
  split at h
  · next c l' =>
    rw [Bool.and_eq_true, decide_eq_true_eq] at h
    exact ⟨l', by rw [h.1], h.2⟩
  · cases h

/-- The cases of a settled layout. -/
theorem settled_cons {x : Cell} {l : List Cell} (h : settled (x :: l) = true) :
    settled l = true ∧ ((x = none ∧ endsLine l = true) ∨
      (∃ c, x = some c ∧ c ≠ 92) ∨
      ∃ l', x = some 92 ∧ l = some 48 :: l' ∧ endsNumber l' = true) := by
  cases x with
  | none =>
    rw [settled, Bool.and_eq_true] at h
    exact ⟨h.2, .inl ⟨rfl, h.1⟩⟩
  | some c =>
    rw [settled, Bool.and_eq_true, Bool.or_eq_true, decide_eq_true_eq] at h
    refine ⟨h.2, .inr ?_⟩
    by_cases hc : c = 92
    · have hz := h.1.resolve_left fun hne => hne hc
      subst hc
      right
      unfold zeroEscape at hz
      split at hz
      · next d l' =>
        rw [Bool.and_eq_true, decide_eq_true_eq] at hz
        exact ⟨l', rfl, by rw [hz.1], hz.2⟩
      · cases hz
    · exact .inl ⟨c, rfl, hc⟩

/-! ### Decoding in parts -/

/-- A string that does not go on with a digit. -/
def NoDigit (s : Bytes) : Prop := ∀ c s', s = c :: s' → isNum c = false

theorem moreNum_append {s : Bytes} (hs : NoDigit s) (n : ℕ) (t : Bytes) :
    moreNum (n, t ++ s) = ((moreNum (n, t)).1, (moreNum (n, t)).2 ++ s) := by
  cases t with
  | nil =>
    cases s with
    | nil => rfl
    | cons c s => simp [moreNum, hs c s rfl]
  | cons c t =>
    simp only [List.cons_append, moreNum]
    split <;> rfl

/-- An escaped character that is no digit. -/
theorem unescape_escaped {d : UInt8} (hd : isNum d = false) (s : Bytes) :
    substFileEntryUnescape (92 :: d :: s) = escaped d :: substFileEntryUnescape s := by
  have hround : unescapeRound 92 (d :: s) = ([escaped d], s) := by
    simp [unescapeRound, hd]
  rw [unescape_cons, hround]
  rfl

/-- An escape of up to three digits. -/
theorem unescape_number {d : UInt8} (hd : isNum d = true) (s : Bytes) :
    substFileEntryUnescape (92 :: d :: s) =
      putNum (moreNum (moreNum (numVal d, s))).1 ++
        substFileEntryUnescape (moreNum (moreNum (numVal d, s))).2 := by
  have hround : unescapeRound 92 (d :: s) =
      (putNum (moreNum (moreNum (numVal d, s))).1, (moreNum (moreNum (numVal d, s))).2) := by
    simp [unescapeRound, hd]
  rw [unescape_cons, hround]

/-- The escape `\0` is written as it stands. -/
theorem unescape_zero {s : Bytes} (hs : NoDigit s) :
    substFileEntryUnescape (92 :: 48 :: s) = 92 :: 48 :: substFileEntryUnescape s := by
  have hzero : moreNum (0, s) = (0, s) := moreNum_append hs 0 []
  rw [unescape_number (by decide), show numVal 48 = 0 from rfl, hzero, hzero]
  rfl

/-- What stands behind a line must be read in the same way behind a backslash. -/
def Parts (s : Bytes) : Prop :=
  ∀ c s', s = c :: s' → isNum c = false ∧
    substFileEntryUnescape s = escaped c :: substFileEntryUnescape s'

theorem Parts.noDigit {s : Bytes} (h : Parts s) : NoDigit s := fun c s' hs => (h c s' hs).1

/-- **A line is decoded as if it stood alone**, whatever escape it ends with. -/
theorem unescape_append {s : Bytes} (hs : Parts s) (line : Bytes) :
    substFileEntryUnescape (line ++ s) =
      substFileEntryUnescape line ++ substFileEntryUnescape s := by
  induction hn : line.length using Nat.strong_induction_on generalizing line with
  | _ n ih =>
    subst hn
    cases line with
    | nil => rfl
    | cons c line =>
      by_cases hc : c = 92
      · subst hc
        cases line with
        | nil =>
          cases s with
          | nil => rfl
          | cons d s =>
            obtain ⟨hd, hrest⟩ := hs d s rfl
            rw [List.singleton_append, unescape_escaped hd, hrest]
            rfl
        | cons d line =>
          by_cases hd : isNum d
          · have h1 := moreNum_append hs.noDigit (numVal d) line
            have h2 : moreNum ((moreNum (numVal d, line)).1, (moreNum (numVal d, line)).2 ++ s) =
                ((moreNum (moreNum (numVal d, line))).1,
                  (moreNum (moreNum (numVal d, line))).2 ++ s) :=
              moreNum_append hs.noDigit _ _
            have hlen : (moreNum (moreNum (numVal d, line))).2.length ≤ line.length :=
              (moreNum_length_le _).trans (moreNum_length_le _)
            rw [List.cons_append, List.cons_append, unescape_number hd, unescape_number hd, h1, h2,
              ih _ (by simp only [List.length_cons]; omega) _ rfl, List.append_assoc]
          · rw [Bool.not_eq_true] at hd
            rw [List.cons_append, List.cons_append, unescape_escaped hd, unescape_escaped hd,
              ih _ (by simp only [List.length_cons]; omega) _ rfl]
            rfl
      · rw [List.cons_append, unescape_cons_plain hc, unescape_cons_plain hc,
          ih _ (by simp) _ rfl]
        rfl

theorem noDigit_fill {l : List Cell} (h : endsNumber l = true) (ls : List Bytes) :
    NoDigit (fill l ls) := by
  intro c s' hs
  cases l with
  | nil => cases hs
  | cons x l =>
    cases x with
    | none => cases h
    | some d =>
      rw [fill, List.cons.injEq] at hs
      rw [← hs.1]
      simpa [endsNumber] using h

/-- Where a backslash of the text starts the escape `\0`. -/
def EscapesZero (l : List Cell) : Prop := ∀ l', l = some 92 :: l' → zeroEscape l' = true

/-- What may follow a hole is read in the same way behind a backslash. -/
theorem parts_fill {l : List Cell} (hend : endsLine l = true) (hz : EscapesZero l)
    (ls : List Bytes) : Parts (fill l ls) := by
  intro c s' hs
  cases l with
  | nil => cases hs
  | cons x l =>
    cases x with
    | none => cases hend
    | some d =>
      rw [endsLine, Bool.and_eq_true, decide_eq_true_eq, Bool.not_eq_true'] at hend
      rw [fill, List.cons.injEq] at hs
      obtain ⟨rfl, rfl⟩ := hs
      refine ⟨hend.1, ?_⟩
      rw [hend.2, fill]
      by_cases hd : d = 92
      · subst hd
        obtain ⟨l', rfl, hnum⟩ := zeroEscape_cases (hz l rfl)
        rw [fill, unescape_zero (noDigit_fill hnum ls), unescape_cons_plain (by decide)]
      · exact unescape_cons_plain hd _

/-- **On a settled layout decoding the whole is decoding the lines.** -/
theorem unescape_fill {l : List Cell} (h : settled l = true) (ls : List Bytes) :
    substFileEntryUnescape (fill l ls) = fill l (ls.map substFileEntryUnescape) := by
  induction l generalizing ls with
  | nil => rfl
  | cons x l ih =>
    obtain ⟨hl, hx⟩ := settled_cons h
    have hz : EscapesZero l := by
      rintro l' rfl
      rcases (settled_cons hl).2 with ⟨h, -⟩ | ⟨c, hc, hne⟩ | ⟨l'', -, rfl, hnum⟩
      · cases h
      · cases hc
        exact absurd rfl hne
      · exact hnum
    rcases hx with ⟨rfl, hend⟩ | ⟨c, rfl, hc⟩ | ⟨l', rfl, rfl, hend⟩
    · cases ls with
      | nil => exact ih hl []
      | cons line ls =>
        rw [List.map_cons, fill, fill, ← ih hl ls]
        exact unescape_append (parts_fill hend hz ls) line
    · rw [fill, fill, unescape_cons_plain hc, ih hl]
    · have hrest := ih hl ls
      rw [fill, unescape_cons_plain (by decide), fill, List.cons.injEq] at hrest
      rw [fill, fill, unescape_zero (noDigit_fill hend ls), hrest.2]
      rfl

/-! ### When decoding leaves a string alone -/

theorem unescapeRound_length_add (c : UInt8) (s : Bytes) :
    (unescapeRound c s).1.length + (unescapeRound c s).2.length ≤ s.length + 1 := by
  unfold unescapeRound
  split
  · simp only [List.length_singleton]
    omega
  · split
    · simp
    · next d s =>
      split
      · have hlen := (moreNum_length_le (moreNum (numVal d, s))).trans
          (moreNum_length_le (numVal d, s))
        have hput : ∀ n, (putNum n).length ≤ 2 := by
          intro n
          unfold putNum
          split <;> simp
        have := hput (moreNum (moreNum (numVal d, s))).1
        simp only [List.length_cons] at hlen ⊢
        omega
      · simp only [List.length_cons, List.length_nil]
        omega

/-- Decoding never makes a string longer. -/
theorem unescape_length_le (s : Bytes) : (substFileEntryUnescape s).length ≤ s.length := by
  induction hn : s.length using Nat.strong_induction_on generalizing s with
  | _ n ih =>
    subst hn
    cases s with
    | nil => rfl
    | cons c s =>
      have hrest := unescapeRound_length_le c s
      have hadd := unescapeRound_length_add c s
      have := ih _ (by simp only [List.length_cons]; omega) (unescapeRound c s).2 rfl
      rw [unescape_cons, List.length_append, List.length_cons]
      omega

/-- **A string that decoding leaves alone** holds no escape but `\0`. -/
theorem settled_of_unescape_eq {s : Bytes} (h : substFileEntryUnescape s = s) :
    settled (s.map some) = true := by
  induction s with
  | nil => rfl
  | cons c s ih =>
    by_cases hc : c = 92
    · subst hc
      cases s with
      | nil => cases h
      | cons d s =>
        by_cases hd : isNum d
        · have hmore := moreNum_length_le (moreNum (numVal d, s))
          have hone : (moreNum (numVal d, s)).2.length ≤ s.length := moreNum_length_le _
          have hrest := unescape_length_le (moreNum (moreNum (numVal d, s))).2
          rw [unescape_number hd] at h
          have hlen := congrArg List.length h
          simp only [List.length_append, List.length_cons] at hlen
          by_cases hnum : (moreNum (moreNum (numVal d, s))).1 = 0
          · rw [putNum, if_neg (by simpa using hnum)] at h hlen
            simp only [List.cons_append, List.nil_append, List.cons.injEq, true_and] at h
            simp only [List.length_cons, List.length_nil] at hlen
            obtain ⟨rfl, hs⟩ := h
            have hno : NoDigit s := by
              intro c s' hs'
              by_contra hc
              rw [Bool.not_eq_false] at hc
              rw [hs'] at hmore hlen hrest
              simp only [moreNum, hc, if_true, List.length_cons] at hmore hlen hrest
              omega
            have hrest0 : settled ((48 :: s).map some) = true := by
              refine ih ?_
              have hzero : moreNum (0, s) = (0, s) := moreNum_append hno 0 []
              rw [show numVal 48 = 0 from rfl, hzero, hzero] at hs
              rw [unescape_cons_plain (by decide), hs]
            rw [List.map_cons, settled, hrest0, List.map_cons, zeroEscape]
            cases s with
            | nil => rfl
            | cons c s => simp [endsNumber, hno c s rfl]
          · rw [putNum, if_pos hnum] at hlen
            simp only [List.length_cons, List.length_nil] at hlen
            omega
        · rw [Bool.not_eq_true] at hd
          rw [unescape_escaped hd] at h
          have hlen := congrArg List.length h
          have := unescape_length_le s
          simp only [List.length_cons] at hlen
          omega
    · rw [unescape_cons_plain hc, List.cons.injEq] at h
      simp [settled, hc, ih h.2]

/-! ### Lines that show the difference -/

/-- The number of holes. -/
def holes : List Cell → ℕ
  | [] => 0
  | none :: l => holes l + 1
  | some _ :: l => holes l

@[simp] theorem holes_map_some (t : Bytes) (l : List Cell) : holes (t.map some ++ l) = holes l := by
  induction t with
  | nil => rfl
  | cons c t ih => exact ih

@[simp] theorem holes_text (t : Bytes) : holes (t.map some) = 0 := by
  simpa [holes] using holes_map_some t []

/-- With this line in every hole, decoding the whole is decoding the lines. -/
def SameWith (l : List Cell) (line : Bytes) : Prop :=
  substFileEntryUnescape (fill l (List.replicate (holes l) line)) =
    fill l (List.replicate (holes l) (substFileEntryUnescape line))

theorem SameWith.tail_plain {c : UInt8} (hc : c ≠ 92) {l : List Cell} {line : Bytes}
    (h : SameWith (some c :: l) line) : SameWith l line := by
  simp only [SameWith, holes, fill] at h
  rw [unescape_cons_plain hc, List.cons.injEq] at h
  exact h.2

theorem SameWith.tail_zero {l : List Cell} (hend : endsNumber l = true) {line : Bytes}
    (h : SameWith (some 92 :: some 48 :: l) line) : SameWith (some 48 :: l) line := by
  simp only [SameWith, holes, fill] at h ⊢
  rw [unescape_zero (noDigit_fill hend _), List.cons.injEq, List.cons.injEq] at h
  rw [unescape_cons_plain (by decide), h.2.2]

theorem SameWith.tail_char {c : UInt8} (hc : c ≠ 92) {l : List Cell}
    (h : SameWith (none :: l) [c]) : SameWith l [c] := by
  have hline : substFileEntryUnescape [c] = [c] := unescape_plain (by simpa using hc.symm)
  simp only [SameWith, holes, List.replicate_succ, fill, hline, List.singleton_append] at h ⊢
  rw [unescape_cons_plain hc, List.cons.injEq] at h
  exact h.2

theorem SameWith.tail_hole {l : List Cell} (hend : endsLine l = true) (hz : EscapesZero l)
    {line : Bytes} (h : SameWith (none :: l) line) : SameWith l line := by
  simp only [SameWith, holes, List.replicate_succ, fill] at h
  rw [unescape_append (parts_fill hend hz _)] at h
  exact List.append_cancel_left h

/-- A layout that the line `x` and the line `5` leave alone escapes nothing but `\0` in its text. -/
theorem escapesZero_of_same {l : List Cell} (hx : SameWith l [120]) (h5 : SameWith l [53]) :
    EscapesZero l := by
  rintro l rfl
  have hsettled : ∀ c : UInt8, c ≠ 92 → SameWith (some 92 :: l) [c] →
      zeroEscape ((fill l (List.replicate (holes l) [c])).map some) = true := by
    intro c hc h
    have hline : substFileEntryUnescape [c] = [c] := unescape_plain (by simpa using hc.symm)
    simp only [SameWith, holes, hline] at h
    rcases (settled_cons (settled_of_unescape_eq h)).2 with ⟨h, -⟩ | ⟨d, hd, hne⟩ | ⟨l', -, h, hend⟩
    · cases h
    · cases hd
      exact absurd rfl hne
    · rw [h, zeroEscape, hend]
      rfl
  have h1 := hsettled 120 (by decide) hx
  have h2 := hsettled 53 (by decide) h5
  cases l with
  | nil => exact h1
  | cons y l =>
    cases y with
    | none => cases h1
    | some d =>
      simp only [holes, fill, List.map_cons, zeroEscape, Bool.and_eq_true] at h1 h2 ⊢
      refine ⟨h1.1, ?_⟩
      cases l with
      | nil => rfl
      | cons z l =>
        cases z with
        | none => cases h2.2
        | some e => exact h1.2

/-- What follows a hole, when the lines `\01` and `n\` are read alone. -/
theorem endsLine_of_same {l : List Cell} (h01 : SameWith (none :: l) [92, 48, 49])
    (hn : SameWith (none :: l) [110, 92]) : endsLine l = true := by
  cases l with
  | nil => rfl
  | cons x l =>
    cases x with
    | none =>
      -- the backslash of the first line takes the `n` of the second
      simp only [SameWith, holes, List.replicate_succ, fill, List.cons_append, List.nil_append] at hn
      rw [unescape_cons_plain (by decide), unescape_escaped (by decide)] at hn
      cases hn
    | some c =>
      have hc : isNum c = false := by
        by_contra hc
        rw [Bool.not_eq_false] at hc
        -- the digit goes on the number of the line
        have hval : numVal c ≤ 9 := by
          simp only [isNum, Bool.decide_and, Bool.and_eq_true, decide_eq_true_eq,
            UInt8.le_iff_toNat_le] at hc
          have h57 : (57 : UInt8).toNat = 57 := rfl
          simp only [numVal]
          omega
        simp only [SameWith, holes, List.replicate_succ, fill, List.cons_append, List.nil_append]
          at h01
        have hline : substFileEntryUnescape [92, 48, 49] = [1] := by decide
        have h49 : isNum 49 = true := by decide
        rw [unescape_number (by decide), hline] at h01
        simp only [moreNum, h49, hc, if_true, show numVal 48 = 0 from rfl,
          show numVal 49 = 1 from rfl, putNum] at h01
        rw [if_pos (by omega)] at h01
        simp only [List.cons_append, List.nil_append, List.cons.injEq] at h01
        have hbyte := congrArg UInt8.toNat h01.1
        rw [Nat.toUInt8_eq, UInt8.toNat_ofNat'] at hbyte
        have h1 : (1 : UInt8).toNat = 1 := rfl
        omega
      simp only [SameWith, holes, List.replicate_succ, fill, List.cons_append, List.nil_append] at hn
      rw [unescape_cons_plain (by decide), unescape_escaped hc] at hn
      have hline : substFileEntryUnescape [110, 92] = [110] := by decide
      rw [hline] at hn
      simp only [List.cons_append, List.nil_append, List.cons.injEq, true_and] at hn
      simp [endsLine, hc, hn.1]

/-- **A layout that is not settled shows it** on one of four lines. -/
theorem settled_of_same {l : List Cell} (hx : SameWith l [120]) (h5 : SameWith l [53])
    (h01 : SameWith l [92, 48, 49]) (hn : SameWith l [110, 92]) : settled l = true := by
  induction l with
  | nil => rfl
  | cons y l ih =>
    cases y with
    | none =>
      have hend := endsLine_of_same h01 hn
      have hz := escapesZero_of_same (hx.tail_char (by decide)) (h5.tail_char (by decide))
      rw [settled, hend, ih (hx.tail_hole hend hz) (h5.tail_hole hend hz) (h01.tail_hole hend hz)
        (hn.tail_hole hend hz)]
      rfl
    | some c =>
      by_cases hc : c = 92
      · subst hc
        have hz := escapesZero_of_same hx h5 l rfl
        obtain ⟨l', rfl, hnum⟩ := zeroEscape_cases hz
        rw [settled, hz, ih (hx.tail_zero hnum) (h5.tail_zero hnum) (h01.tail_zero hnum)
          (hn.tail_zero hnum)]
        rfl
      · rw [settled, ih (hx.tail_plain hc) (h5.tail_plain hc) (h01.tail_plain hc)
          (hn.tail_plain hc)]
        simp [hc]

/-! ### Substitution files -/

/-- The same records with files that hold this line and no other. -/
def withLine (line : Bytes) (r : SubstRec) : SubstRec :=
  { r with file := line ++ [LF], fsize := line.length + 1 }

theorem substFileGetFrom_withLine (line name : Bytes) (n : ℕ) (list : List SubstRec) :
    substFileGetFrom name n (list.map (withLine line)) =
      (substFileGetFrom name n list).map (Option.map (withLine line)) := by
  induction n generalizing list with
  | zero => rfl
  | succ n ih =>
    cases list with
    | nil => rfl
    | cons r list =>
      have hvar : (withLine line r).substVar = r.substVar := rfl
      have hvalid : (withLine line r).valid = r.valid := rfl
      simp only [List.map_cons, substFileGetFrom, hvar, hvalid]
      cases r.substVar with
      | none => rfl
      | some v =>
        dsimp only
        split
        · rfl
        · exact ih list

/-- Whatever the random offset, the file with one line gives that line. -/
theorem substFileEntryGet_withLine {line : Bytes} (hlf : LF ∉ line) (hnul : 0 ∉ line)
    (hlen : line.length < 8095) (r : SubstRec) (random : ℕ) :
    substFileEntryGet (withLine line r) random 8096 = .ok line := by
  have hbehind : (aprFileGets 8095 ((line ++ [LF]).drop (random % (line.length + 1)))).2 = [] := by
    have hmod : random % (line.length + 1) ≤ line.length :=
      Nat.le_of_lt_succ (Nat.mod_lt _ (by omega))
    rw [List.drop_append_of_le_length hmod, aprFileGets_line
      (fun h => hlf (List.mem_of_mem_drop h)) (by rw [List.length_drop]; omega)]
  have hfirst := aprFileGets_line hlf hlen []
  have hcstr : cstr (line ++ [LF]) = line ++ [LF] := cstr_of_not_mem (by simpa [LF] using hnul)
  simp only [substFileEntryGet, withLine, Nat.add_one_ne_zero, or_false]
  rw [if_neg (by decide)]
  simp only [Nat.reduceSub, hbehind, hfirst]
  rw [show (aprFileGets 8095 []).1 = [] from rfl, if_pos rfl, hcstr, if_neg (by simp),
    List.dropLast_concat]

theorem substData_withLine {line : Bytes} (hne : line ≠ []) (hlf : LF ∉ line) (hnul : 0 ∉ line)
    (hlen : line.length < 8095) {list : List SubstRec} {name : Bytes} {random : ℕ} {old : Bytes}
    (h : substData (some list) name random = .ok old) (random' : ℕ) :
    substData (some (list.map (withLine line))) name random' = .ok line := by
  simp only [substData, substFileGet] at h
  have hget := substFileGetFrom_withLine line name SUBST_FILE_ARR_MAX list
  rcases hr : substFileGetFrom name SUBST_FILE_ARR_MAX list with _ | _ | r
  · rw [hr] at h
    cases h
  · rw [hr] at h
    cases h
  · rw [hr] at hget
    have hsome : substFileGetFrom name SUBST_FILE_ARR_MAX (list.map (withLine line)) =
        .ok (some (withLine line r)) := hget
    simp only [substData, substFileGet, hsome, substFileEntryGet_withLine hlf hnul hlen, if_neg hne]

/-- **The call with other files** returns too, and takes the line of these files for every hole. -/
theorem lines_withLine {line : Bytes} (hne : line ≠ []) (hlf : LF ∉ line) (hnul : 0 ∉ line)
    (hlen : line.length < 8095) (substList : Option (List SubstRec)) (set : ExpandParam) (n : ℕ)
    (cur : Bytes) (state : Vars) (draws : Draws) {ls : List Bytes} {st : Vars} {d : Draws}
    (h : lines substList set n cur state draws = .ok (ls, st, d)) :
    lines (substList.map (List.map (withLine line))) set n cur state draws =
      .ok (List.replicate (holes (layout set n cur state draws)) line, st, d) := by
  induction n generalizing cur state draws ls with
  | zero =>
    simp only [lines, Except.ok.injEq, Prod.mk.injEq] at h
    simp [lines, layout, h.2.1, h.2.2]
  | succ n ih =>
    simp only [lines, layout] at h ⊢
    cases hre : regexec cur with
    | none =>
      simp only [hre, Except.ok.injEq, Prod.mk.injEq] at h
      simp [h.2.1, h.2.2]
    | some m =>
      obtain ⟨cpy, name, rest⟩ := m
      rcases hb : boundData set name state draws with ⟨_ | data, state', draws'⟩
      · simp only [hre, hb] at h ⊢
        rcases hs : substData substList name (draws' 0) with _ | old
        · rw [hs] at h
          cases h
        · rcases hl : lines substList set n rest state' draws'.next with _ | ⟨ls', st', d'⟩
          · simp [hs, hl, Except.map] at h
          · simp only [hs, hl, Except.map, Except.ok.injEq, Prod.mk.injEq] at h
            obtain ⟨-, rfl, rfl⟩ := h
            cases substList with
            | none => cases hs
            | some list =>
              have hline := substData_withLine hne hlf hnul hlen hs (draws' 0)
              simp only [Option.map_some] at ih ⊢
              simp [hline, ih _ _ _ hl, Except.map, holes, List.replicate_succ]
      · simp only [hre, hb] at h ⊢
        simpa using ih _ _ _ h

/-! ### Templates that appear as they stand -/

/-- The text of the template and the values appear byte for byte in every result of the call: only
the lines of substitution files are decoded. -/
def Verbatim (set : ExpandParam) (template : Bytes) (state : Vars) (draws : Draws) : Prop :=
  ∀ substList s st d, handleParamString substList set template state draws = .ok (s, st, d) →
    ∃ ls, lines substList set template.length template state draws = .ok (ls, st, d) ∧
      s = fill (layout set template.length template state draws) (ls.map substFileEntryUnescape)

theorem verbatim_of_settled {set : ExpandParam} {template : Bytes} {state : Vars} {draws : Draws}
    (h : settled (layout set template.length template state draws) = true) :
    Verbatim set template state draws := by
  intro substList s st d hret
  rw [handleParamString_eq] at hret
  rcases hl : lines substList set template.length template state draws with _ | ⟨ls, st', d'⟩
  · rw [hl] at hret
    cases hret
  · rw [hl] at hret
    simp only [Except.map, Except.ok.injEq, Prod.mk.injEq] at hret
    obtain ⟨rfl, rfl, rfl⟩ := hret
    exact ⟨ls, rfl, unescape_fill h ls⟩

/-- The files can be chosen such that every hole gets this line. -/
theorem sameWith_of_verbatim {set : ExpandParam} {template : Bytes} {state : Vars} {draws : Draws}
    (hverb : Verbatim set template state draws) {substList : Option (List SubstRec)}
    {r : Bytes × Vars × Draws}
    (hret : handleParamString substList set template state draws = .ok r) {line : Bytes}
    (hne : line ≠ []) (hlf : LF ∉ line) (hnul : 0 ∉ line) (hlen : line.length < 8095) :
    SameWith (layout set template.length template state draws) line := by
  rw [handleParamString_eq] at hret
  rcases hl : lines substList set template.length template state draws with _ | ⟨ls, st, d⟩
  · rw [hl] at hret
    cases hret
  · have hother := lines_withLine hne hlf hnul hlen substList set _ template state draws hl
    obtain ⟨ls', hls', hs⟩ := hverb (substList.map (List.map (withLine line))) _ st d
      (by rw [handleParamString_eq, hother]; rfl)
    rw [hother, Except.ok.injEq, Prod.mk.injEq] at hls'
    rw [← hls'.1, List.map_replicate] at hs
    exact hs

theorem settled_of_verbatim {set : ExpandParam} {template : Bytes} {state : Vars} {draws : Draws}
    (hverb : Verbatim set template state draws) {substList : Option (List SubstRec)}
    {r : Bytes × Vars × Draws}
    (hret : handleParamString substList set template state draws = .ok r) :
    settled (layout set template.length template state draws) = true :=
  settled_of_same
    (sameWith_of_verbatim hverb hret (by decide) (by decide) (by decide) (by decide))
    (sameWith_of_verbatim hverb hret (by decide) (by decide) (by decide) (by decide))
    (sameWith_of_verbatim hverb hret (by decide) (by decide) (by decide) (by decide))
    (sameWith_of_verbatim hverb hret (by decide) (by decide) (by decide) (by decide))

/-! ### Templates without placeholders -/

theorem layout_text {template : Bytes} (h : regexec template = none) (set : ExpandParam)
    (state : Vars) (draws : Draws) :
    layout set template.length template state draws = template.map some := by
  cases template with
  | nil => rfl
  | cons c t => simp only [List.length_cons, layout, h]

/-- A template without placeholders is decoded and nothing else. -/
theorem handleParamString_text {template : Bytes} (h : regexec template = none)
    (substList : Option (List SubstRec)) (set : ExpandParam) (state : Vars) (draws : Draws) :
    handleParamString substList set template state draws =
      .ok (substFileEntryUnescape template, state, draws) := by
  have hfill := fill_map_some template [] []
  have hlines : lines substList set template.length template state draws =
      .ok ([], state, draws) := by
    cases template with
    | nil => rfl
    | cons c t => simp only [List.length_cons, lines, h]
  rw [List.append_nil, fill, List.append_nil] at hfill
  rw [handleParamString_eq, hlines, layout_text h, Except.map]
  simp only [hfill]

theorem unescape_eq_iff (t : Bytes) :
    substFileEntryUnescape t = t ↔ settled (t.map some) = true := by
  refine ⟨settled_of_unescape_eq, fun h => ?_⟩
  have hfill := fill_map_some t [] []
  rw [List.append_nil, fill, List.append_nil] at hfill
  simpa [hfill] using unescape_fill h []

/-- **A response template without placeholders** is the regular expression that is compiled if and
only if its backslashes all stand before a lone `0`. -/
theorem responsePattern_eq_iff (rp : RoundRobinProfile) {template : Bytes}
    (h : regexec (cstr template) = none) (draws : Draws) :
    (∃ st d, responsePattern rp template draws = .ok (cstr template, st, d)) ↔
      settled ((cstr template).map some) = true := by
  rw [← unescape_eq_iff]
  simp only [responsePattern, expandParamString, handleParamString_text h, Except.ok.injEq,
    Prod.mk.injEq]
  constructor
  · rintro ⟨st, d, hs, -⟩
    have hpre : cstr (substFileEntryUnescape (cstr template)) <+:
        substFileEntryUnescape (cstr template) := List.takeWhile_prefix _
    rw [hs] at hpre
    exact (hpre.eq_of_length_le (unescape_length_le _)).symm
  · intro hs
    exact ⟨_, _, by rw [hs, cstr_of_not_mem (cstr_noNUL _)], rfl, rfl⟩

/-- **The text of a template and the values appear byte for byte** in what the call returns, for all
substitution files, if and only if the layout is settled (or the call returns for no files at all);
and a response template without placeholders is compiled as it stands if and only if it is settled
itself. -/
theorem expansion_verbatim_iff (set : ExpandParam) (template : Bytes) (state : Vars)
    (draws : Draws) :
    (Verbatim set template state draws ↔
      settled (layout set template.length template state draws) = true ∨
        ∀ substList r, handleParamString substList set template state draws ≠ .ok r) ∧
    (regexec (cstr template) = none → ∀ rp : RoundRobinProfile,
      (∃ st d, responsePattern rp template draws = .ok (cstr template, st, d)) ↔
        settled ((cstr template).map some) = true) := by
  refine ⟨⟨fun hverb => ?_, ?_⟩, fun h rp => responsePattern_eq_iff rp h draws⟩
  · by_cases hret : ∃ substList r, handleParamString substList set template state draws = .ok r
    · obtain ⟨substList, r, hret⟩ := hret
      exact .inl (settled_of_verbatim hverb hret)
    · exact .inr fun substList r h => hret ⟨substList, r, h⟩
  · rintro (h | h)
    · exact verbatim_of_settled h
    · exact fun substList s st d hret => absurd hret (h substList _)

/-- A dot that the regular expression is to take literally. -/
def dotTemplate : Bytes := bytes "a\\.b"

theorem dotTemplate_loses_backslash : ¬ ∀ (set : ExpandParam) (template : Bytes) (state : Vars)
    (draws : Draws), Verbatim set template state draws := fun h =>
  absurd (settled_of_verbatim (h .expand dotTemplate (fun _ => none) fun _ => 0)
    (show handleParamString none .expand dotTemplate (fun _ => none) (fun _ => 0) =
      .ok (bytes "a.b", fun _ => none, fun _ => 0) from rfl)) (by decide)

end Flood.TemplateText
