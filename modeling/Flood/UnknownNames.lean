import Flood.UrllistExpansion
import Flood.TemplateText

/-!
# Names that nothing is known of

`handle_param_string` ends its lookup with "if there is no data, place the original string back": a
name with neither a value nor a substitution file is meant to stay as it is.  The lookup of the file
comes first, and goes on with whatever record it is given.

* `substFileGetFrom_iff` — the record that the search comes to.
* `expandLoop_served`, `served_of_expandLoop` — the loop goes through where every placeholder is
  served, and nowhere else.
* `leavesUnknown_iff` — so the placeholder of an unknown name is never left, and the call does what it
  is meant to just where every placeholder has a value or a line.
-/

namespace Flood.UnknownNames

open Flood.CString Flood.Net Flood.Subst Flood.Template Flood.TemplateSubstitution
open Flood.TemplateText Flood.UrllistExpansion

/-! ### What the call is meant to do -/

/-- A substitution file of the name: a valid record of the list is for it. -/
structure HasFile (substList : Option (List SubstRec)) (name : Bytes) (r : SubstRec) : Prop where
  listed : ∃ list, substList = some list ∧ r ∈ list
  var : r.substVar = some name
  valid : r.valid = true

section Meaning

variable (substList : Option (List SubstRec)) (set : ExpandParam)

/-- What a placeholder is replaced by: its value or a draw, a line of its substitution file, or, where
its name has neither, by itself; with the bindings and the draws left behind. -/
inductive ReplacedBy (name : Bytes) (state : Vars) (draws : Draws) : Bytes → Vars → Draws → Prop
  | value {data : Bytes} {state' : Vars} {draws' : Draws}
    (hdata : boundData set name state draws = (some data, state', draws')) :
    ReplacedBy name state draws data state' draws'
  | line {line : Bytes} {r : SubstRec} {state' : Vars} {draws' : Draws}
    (hdata : boundData set name state draws = (none, state', draws'))
    (hfile : HasFile substList name r) (hline : substFileEntryGet r (draws' 0) 8096 = .ok line) :
    ReplacedBy name state draws line state' draws'.next
  | kept {state' : Vars} {draws' : Draws}
    (hdata : boundData set name state draws = (none, state', draws'))
    (hnone : ∀ r, ¬ HasFile substList name r) :
    ReplacedBy name state draws (placeholder name) state' draws'

/-- What the parts of a template become, from left to right. -/
inductive Becomes : List (Bytes × Bytes) → Bytes → Vars → Draws → Bytes → Vars → Draws → Prop
  | tail {tail : Bytes} {state : Vars} {draws : Draws} :
    Becomes [] tail state draws tail state draws
  | part {lit name data tail s : Bytes} {parts : List (Bytes × Bytes)}
    {state state₁ state' : Vars} {draws draws₁ draws' : Draws}
    (hdata : ReplacedBy substList set name state draws data state₁ draws₁)
    (hrest : Becomes parts tail state₁ draws₁ s state' draws') :
    Becomes ((lit, name) :: parts) tail state draws (lit ++ data ++ s) state' draws'

/-- **The call completes** with the text that the template is to become, decoded as a whole. -/
def LeavesUnknown (template : Bytes) (state : Vars) (draws : Draws) : Prop :=
  ∃ s state' draws', handleParamString substList set template state draws =
      .ok (substFileEntryUnescape s, state', draws') ∧
    Becomes substList set (readTemplate template).1 (readTemplate template).2 state draws s state'
      draws'

end Meaning

/-- Decoding leaves the placeholder of a name alone, whatever stands around it. -/
theorem unescape_placeholder {name : Bytes} (hname : 92 ∉ name) (before behind : Bytes) :
    substFileEntryUnescape (before ++ (placeholder name ++ behind)) =
      substFileEntryUnescape before ++ (placeholder name ++ substFileEntryUnescape behind) := by
  have hplain : 92 ∉ placeholder name := by
    simp only [placeholder, List.mem_cons, List.mem_append, not_or]
    exact ⟨by decide, by decide, hname, by decide, List.not_mem_nil⟩
  have hparts : Parts (placeholder name ++ behind) := by
    intro c s' hs
    rw [placeholder, List.cons_append, List.cons.injEq] at hs
    obtain ⟨rfl, rfl⟩ := hs
    exact ⟨by decide, unescape_cons_plain (by decide) _⟩
  rw [unescape_append hparts, unescape_append_plain hplain]

/-! ### What the code needs -/

/-- The record that the search comes to: among the first ten, behind records that all have a variable
and are not valid ones of the name. -/
def Found (substList : Option (List SubstRec)) (name : Bytes) (r : SubstRec) : Prop :=
  ∃ before behind, substList = some (before ++ r :: behind) ∧ before.length < SUBST_FILE_ARR_MAX ∧
    (∀ b ∈ before, b.substVar ≠ none ∧ ¬ (b.substVar = some name ∧ b.valid = true)) ∧
    r.substVar = some name ∧ r.valid = true

/-- The line behind an offset, or at the end of the file its first, as a C string with its newline. -/
def readLine (r : SubstRec) (offset : ℕ) : Bytes :=
  let behind := (aprFileGets 8095 (r.file.drop offset)).2
  let next := (aprFileGets 8095 behind).1
  cstr (if next = [] then (aprFileGets 8095 r.file).1 else next)

/-- The name has a record that is found, and the line that is read of its file is not empty. -/
def HasLine (substList : Option (List SubstRec)) (name : Bytes) (random : ℕ) : Prop :=
  ∃ r, Found substList name r ∧ r.fsize ≠ 0 ∧ 1 < (readLine r (random % r.fsize)).length

/-- Every placeholder has a value or is a draw where it stands, or has a line. -/
def Served (substList : Option (List SubstRec)) (set : ExpandParam) :
    List (Bytes × Bytes) → Vars → Draws → Prop
  | [], _, _ => True
  | (_, name) :: parts, state, draws =>
    match boundData set name state draws with
    | (some _, state, draws) => Served substList set parts state draws
    | (none, state, draws) =>
      HasLine substList name (draws 0) ∧ Served substList set parts state draws.next

theorem Found.hasFile {substList : Option (List SubstRec)} {name : Bytes} {r : SubstRec}
    (h : Found substList name r) : HasFile substList name r := by
  obtain ⟨before, behind, hlist, -, -, hvar, hvalid⟩ := h
  exact ⟨⟨_, hlist, List.mem_append_right before List.mem_cons_self⟩, hvar, hvalid⟩

/-! ### The search -/

/-- **The search** finds a record of the first `n`, if every one in front of it has a variable. -/
theorem substFileGetFrom_iff (name : Bytes) (n : ℕ) (list : List SubstRec) (r : SubstRec) :
    substFileGetFrom name n list = .ok (some r) ↔
      ∃ before behind, list = before ++ r :: behind ∧ before.length < n ∧
        (∀ b ∈ before, b.substVar ≠ none ∧ ¬ (b.substVar = some name ∧ b.valid = true)) ∧
        r.substVar = some name ∧ r.valid = true := by
  induction n generalizing list with
  | zero =>
    constructor
    · intro h
      cases h
    · rintro ⟨before, behind, -, hlt, -⟩
      exact absurd hlt (Nat.not_lt_zero _)
  | succ n ih =>
    cases list with
    | nil =>
      constructor
      · intro h
        cases h
      · rintro ⟨before, behind, hlist, -⟩
        exact absurd hlist.symm (List.append_ne_nil_of_right_ne_nil _ (List.cons_ne_nil _ _))
    | cons first list =>
      rw [substFileGetFrom]
      cases hvar : first.substVar with
      | none =>
        constructor
        · intro h
          cases h
        · rintro ⟨before, behind, hlist, -, hbefore, hr, -⟩
          cases before with
          | nil =>
            cases hlist
            rw [hvar] at hr
            cases hr
          | cons b before =>
            cases hlist
            exact absurd hvar (hbefore _ List.mem_cons_self).1
      | some v =>
        dsimp only
        by_cases hhere : v = name ∧ first.valid = true
        · rw [if_pos hhere]
          constructor
          · intro h
            cases h
            exact ⟨[], list, rfl, Nat.succ_pos n, List.forall_mem_nil _, by rw [hvar, hhere.1],
              hhere.2⟩
          · rintro ⟨before, behind, hlist, -, hbefore, -⟩
            cases before with
            | nil =>
              cases hlist
              rfl
            | cons b before =>
              cases hlist
              exact absurd ⟨by rw [hvar, hhere.1], hhere.2⟩ (hbefore _ List.mem_cons_self).2
        · rw [if_neg hhere, ih]
          constructor
          · rintro ⟨before, behind, hlist, hlt, hbefore, hr⟩
            refine ⟨first :: before, behind, by rw [hlist]; rfl, Nat.succ_lt_succ hlt, ?_, hr⟩
            rw [List.forall_mem_cons]
            refine ⟨⟨by rw [hvar]; exact Option.some_ne_none v, ?_⟩, hbefore⟩
            rw [hvar, Option.some.injEq]
            exact hhere
          · rintro ⟨before, behind, hlist, hlt, hbefore, hr⟩
            cases before with
            | nil =>
              cases hlist
              rw [hvar, Option.some.injEq] at hr
              exact absurd hr hhere
            | cons b before =>
              cases hlist
              exact ⟨before, behind, rfl, Nat.lt_of_succ_lt_succ hlt,
                (List.forall_mem_cons.mp hbefore).2, hr⟩

theorem substFileGet_iff (name : Bytes) (substList : Option (List SubstRec)) (r : SubstRec) :
    substFileGet name substList = .ok (some r) ↔ Found substList name r := by
  cases substList with
  | none =>
    constructor
    · intro h
      cases h
    · rintro ⟨before, behind, hlist, -⟩
      cases hlist
  | some list =>
    show substFileGetFrom name SUBST_FILE_ARR_MAX list = .ok (some r) ↔ _
    rw [substFileGetFrom_iff]
    unfold Found
    simp only [Option.some.injEq]

/-- **A line** is returned where one is read, and is not empty where it is more than its newline. -/
theorem substFileEntryGet_iff (r : SubstRec) (random : ℕ) :
    (∃ line, substFileEntryGet r random 8096 = .ok line ∧ line ≠ []) ↔
      r.fsize ≠ 0 ∧ 1 < (readLine r (random % r.fsize)).length := by
  have heq : substFileEntryGet r random 8096 =
      if 8096 = 0 ∨ r.fsize = 0 then .error .assertion
      else if readLine r (random % r.fsize) = [] then .error .fault
      else .ok (readLine r (random % r.fsize)).dropLast := rfl
  rw [heq]
  by_cases hsize : r.fsize = 0
  · rw [if_pos (.inr hsize)]
    constructor
    · rintro ⟨line, h, -⟩
      cases h
    · rintro ⟨hne, -⟩
      exact absurd hsize hne
  · rw [if_neg (not_or.mpr ⟨by decide, hsize⟩)]
    by_cases hnil : readLine r (random % r.fsize) = []
    · rw [if_pos hnil]
      constructor
      · rintro ⟨line, h, -⟩
        cases h
      · rintro ⟨-, hlt⟩
        rw [hnil] at hlt
        exact absurd hlt (Nat.not_lt_zero _)
    · rw [if_neg hnil]
      have hlen : (readLine r (random % r.fsize)).dropLast.length =
          (readLine r (random % r.fsize)).length - 1 := List.length_dropLast
      constructor
      · rintro ⟨line, h, hne⟩
        cases h
        have hpos := List.length_pos_iff.mpr hne
        exact ⟨hsize, by omega⟩
      · rintro ⟨-, hlt⟩
        exact ⟨_, rfl, List.length_pos_iff.mp (by omega)⟩

/-- **The text for a name without a value** is a line that is not empty. -/
theorem substData_iff (substList : Option (List SubstRec)) (name line : Bytes) (random : ℕ) :
    substData substList name random = .ok line ↔
      ∃ r, Found substList name r ∧ substFileEntryGet r random 8096 = .ok line ∧ line ≠ [] := by
  unfold substData
  constructor
  · intro h
    cases hget : substFileGet name substList with
    | error a =>
      rw [hget] at h
      cases h
    | ok found =>
      rw [hget] at h
      cases found with
      | none => cases h
      | some r =>
        dsimp only at h
        cases hline : substFileEntryGet r random 8096 with
        | error a =>
          rw [hline] at h
          cases h
        | ok text =>
          rw [hline] at h
          dsimp only at h
          by_cases hnil : text = []
          · rw [if_pos hnil] at h
            cases h
          · rw [if_neg hnil] at h
            cases h
            exact ⟨r, (substFileGet_iff name substList r).mp hget, hline, hnil⟩
  · rintro ⟨r, hfound, hline, hne⟩
    rw [(substFileGet_iff name substList r).mpr hfound]
    dsimp only
    rw [hline]
    exact if_neg hne

theorem hasLine_iff (substList : Option (List SubstRec)) (name : Bytes) (random : ℕ) :
    HasLine substList name random ↔ ∃ line, substData substList name random = .ok line := by
  constructor
  · rintro ⟨r, hfound, hread⟩
    obtain ⟨line, hline, hne⟩ := (substFileEntryGet_iff r random).mpr hread
    exact ⟨line, (substData_iff substList name line random).mpr ⟨r, hfound, hline, hne⟩⟩
  · rintro ⟨line, h⟩
    obtain ⟨r, hfound, hline, hne⟩ := (substData_iff substList name line random).mp h
    exact ⟨r, hfound, (substFileEntryGet_iff r random).mp ⟨line, hline, hne⟩⟩

/-! ### The loop -/

/-- **Where every placeholder is served**, the loop goes through, and makes of the text what it is to
become. -/
theorem expandLoop_served {substList : Option (List SubstRec)} {set : ExpandParam} {n : ℕ}
    {s : ExpandState} (h : Served substList set (readParts n s.cur).1 s.state s.draws) :
    ∃ s' out, expandLoop substList set n s = .ok s' ∧
      Becomes substList set (readParts n s.cur).1 (readParts n s.cur).2 s.state s.draws out s'.state
        s'.draws ∧
      s'.returnValue.getD [] ++ s'.cur = s.returnValue.getD [] ++ out := by
  induction n generalizing s with
  | zero => exact ⟨s, s.cur, rfl, .tail, rfl⟩
  | succ n ih =>
    rw [expandLoop]
    rw [readParts] at h ⊢
    cases hre : regexec s.cur with
    | none => exact ⟨s, s.cur, rfl, .tail, rfl⟩
    | some found =>
      obtain ⟨lit, name, rest⟩ := found
      rw [hre] at h
      dsimp only at h ⊢
      rw [Served] at h
      -- the data of the placeholder, and what is left behind it
      obtain ⟨data, state₁, draws₁, hplace, hdata, hrest⟩ : ∃ data state₁ draws₁,
          placeholderData substList set name s.state s.draws = .ok (data, state₁, draws₁) ∧
          ReplacedBy substList set name s.state s.draws data state₁ draws₁ ∧
          Served substList set (readParts n rest).1 state₁ draws₁ := by
        rcases hbound : boundData set name s.state s.draws with ⟨data, state₁, draws₁⟩
        rw [hbound] at h
        cases data with
        | some data =>
          refine ⟨data, state₁, draws₁, ?_, .value hbound, h⟩
          rw [placeholderData, hbound]
        | none =>
          obtain ⟨hline, hserved⟩ := h
          obtain ⟨line, hsubst⟩ := (hasLine_iff substList name (draws₁ 0)).mp hline
          obtain ⟨r, hfound, hget, -⟩ := (substData_iff substList name line (draws₁ 0)).mp hsubst
          refine ⟨line, state₁, draws₁.next, ?_, .line hbound hfound.hasFile hget, hserved⟩
          rw [placeholderData, hbound]
          dsimp only
          rw [hsubst]
      rw [hplace]
      obtain ⟨s', out, hloop, hbecomes, htext⟩ :=
        ih (s := ⟨rest, some (s.returnValue.getD [] ++ lit ++ data), state₁, draws₁⟩) hrest
      refine ⟨s', lit ++ data ++ out, hloop, .part hdata hbecomes, ?_⟩
      rw [htext, Option.getD_some]
      simp only [List.append_assoc]

/-- **Where the loop goes through**, every placeholder was served. -/
theorem served_of_expandLoop {substList : Option (List SubstRec)} {set : ExpandParam} {n : ℕ}
    {s s' : ExpandState} (h : expandLoop substList set n s = .ok s') :
    Served substList set (readParts n s.cur).1 s.state s.draws := by
  induction n generalizing s with
  | zero => trivial
  | succ n ih =>
    rw [expandLoop] at h
    rw [readParts]
    cases hre : regexec s.cur with
    | none => trivial
    | some found =>
      obtain ⟨lit, name, rest⟩ := found
      rw [hre] at h
      dsimp only at h ⊢
      rw [placeholderData] at h
      rw [Served]
      rcases hbound : boundData set name s.state s.draws with ⟨data, state₁, draws₁⟩
      rw [hbound] at h
      cases data with
      | some data => exact ih h
      | none =>
        dsimp only at h ⊢
        cases hsubst : substData substList name (draws₁ 0) with
        | error a =>
          rw [hsubst] at h
          cases h
        | ok line =>
          rw [hsubst] at h
          exact ⟨(hasLine_iff substList name (draws₁ 0)).mpr ⟨line, hsubst⟩, ih h⟩

/-- **Unknown names are left alone** just where there are none: the call completes with the text that
the template is to become exactly where every placeholder that it comes to has a value or is a draw,
or its name has a record that is found and a line that is not empty. -/
theorem leavesUnknown_iff (substList : Option (List SubstRec)) (set : ExpandParam)
    (template : Bytes) (state : Vars) (draws : Draws) :
    LeavesUnknown substList set template state draws ↔
      Served substList set (readTemplate template).1 state draws := by
  constructor
  · rintro ⟨s, state', draws', hret, -⟩
    unfold handleParamString at hret
    cases hloop : expandLoop substList set template.length ⟨template, none, state, draws⟩ with
    | error a =>
      rw [hloop] at hret
      cases hret
    | ok s' => exact served_of_expandLoop hloop
  · intro hserved
    obtain ⟨s', out, hloop, hbecomes, htext⟩ := expandLoop_served
      (s := ⟨template, none, state, draws⟩) hserved
    refine ⟨out, s'.state, s'.draws, ?_, hbecomes⟩
    rw [Option.getD_none, List.nil_append] at htext
    rw [handleParamString, hloop]
    dsimp only
    rw [htext]

/-- A template with a name that nothing is known of. -/
def unknownTemplate : Bytes := bytes "a$\x7bx\x7d"

/-- Without a substitution list the call does not complete. -/
theorem unknownTemplate_faults : ¬ ∀ (substList : Option (List SubstRec)) (set : ExpandParam)
    (template : Bytes) (state : Vars) (draws : Draws),
    LeavesUnknown substList set template state draws := by
  intro h
  obtain ⟨s, state', draws', hret, -⟩ :=
    h none .expand unknownTemplate (fun _ => none) (fun _ => 0)
  have hfault : handleParamString none .expand unknownTemplate (fun _ => none) (fun _ => 0) =
      .error .fault := rfl
  rw [hfault] at hret
  cases hret

end Flood.UnknownNames
