import Flood.UnknownNames

/-!
# Passing templates through

The templates of the urls in a sequence are expanded when the profile is initialised, in a mode of its
own: `EPE_PASSTHROUGH` is there to replace what is bound and to leave the rest for the requests.  The
code tells the modes apart by the truth value of the enumerator only.

* `expandLoop_passes` — where every name is bound, the loop replaces the placeholders and nothing else.
* `expandLoop_assigns` — a placeholder `${=name}` is drawn and bound.
* `passesThrough_iff` — so templates are passed through just where all their names are bound and none
  is a draw.
-/

namespace Flood.PassThrough

open Flood.CString Flood.Net Flood.Subst Flood.Template Flood.TemplateSubstitution
open Flood.UrllistExpansion Flood.ProfileInit Flood.UnknownNames

/-! ### What is meant to become of a template -/

/-- A placeholder is replaced if it is a name with a value, and stays otherwise. -/
def passedPart (state : Vars) (name : Bytes) : Bytes :=
  if name.head? = some 61 then placeholder name else (state name).getD (placeholder name)

def passedParts (state : Vars) : List (Bytes × Bytes) → Bytes → Bytes
  | [], tail => tail
  | (lit, name) :: parts, tail => lit ++ passedPart state name ++ passedParts state parts tail

/-- The template with the bound placeholders replaced. -/
def passed (state : Vars) (template : Bytes) : Bytes :=
  passedParts state (readTemplate template).1 (readTemplate template).2

/-- **The template is passed through**: the slot has it with the bound placeholders replaced, decoded
like every template, and no variable is assigned. -/
def PassesThrough (template : Bytes) (state : Vars) (draws : Draws) : Prop :=
  ∃ draws', expandTemplate (some template) state draws =
    .ok (some (cstr (substFileEntryUnescape (passed state (cstr template)))), state, draws')

/-! ### The loop -/

theorem passedPart_bound {state : Vars} {name value : Bytes} (hname : name.head? ≠ some 61)
    (hvalue : state name = some value) : passedPart state name = value := by
  rw [passedPart, if_neg hname, hvalue]
  rfl

theorem not_draw {name : Bytes} (h : name.head? ≠ some 61) (var : Bytes) : name ≠ 61 :: var := by
  rintro rfl
  exact h rfl

/-- **Where every name is bound** the loop replaces the placeholders, and leaves the variables and the
draws alone. -/
theorem expandLoop_passes (substList : Option (List SubstRec)) (set : ExpandParam)
    (returnValue : Option Bytes) (draws : Draws) {n : ℕ} {cur : Bytes} {state : Vars}
    (h : ∀ p ∈ (readParts n cur).1, p.2.head? ≠ some 61 ∧ state p.2 ≠ none) :
    ∃ s, expandLoop substList set n ⟨cur, returnValue, state, draws⟩ = .ok s ∧
      s.state = state ∧ s.draws = draws ∧ s.returnValue.getD [] ++ s.cur =
        returnValue.getD [] ++ passedParts state (readParts n cur).1 (readParts n cur).2 := by
  induction n generalizing cur returnValue with
  | zero => exact ⟨_, rfl, rfl, rfl, rfl⟩
  | succ n ih =>
    rw [readParts] at h ⊢
    rw [expandLoop]
    cases hre : regexec cur with
    | none => exact ⟨_, rfl, rfl, rfl, rfl⟩
    | some found =>
      obtain ⟨lit, name, rest⟩ := found
      rw [hre] at h
      dsimp only at h ⊢
      obtain ⟨⟨hname, hbound⟩, hrest⟩ := List.forall_mem_cons.mp h
      obtain ⟨value, hvalue⟩ := Option.ne_none_iff_exists'.mp hbound
      dsimp only at hname hvalue
      have hplace : placeholderData substList set name state draws = .ok (value, state, draws) := by
        rw [placeholderData, boundData_name (not_draw hname), hvalue]
      rw [hplace]
      dsimp only
      obtain ⟨s, hloop, hstate, hdraws, htext⟩ :=
        ih (some (returnValue.getD [] ++ lit ++ value)) hrest
      refine ⟨s, hloop, hstate, hdraws, ?_⟩
      rw [htext, passedParts, passedPart_bound hname hvalue, Option.getD_some]
      simp only [List.append_assoc]

/-- **A placeholder `${=name}` is drawn**: with the same number for every draw, the variable has that
number in the end. -/
theorem expandLoop_assigns {substList : Option (List SubstRec)} {n k : ℕ} {cur : Bytes}
    {returnValue : Option Bytes} {state : Vars} {s : ExpandState}
    (h : expandLoop substList .passthrough n ⟨cur, returnValue, state, fun _ => k⟩ = .ok s)
    {v : Bytes}
    (hv : state v = some (decimal k) ∨ ∃ lit, (lit, 61 :: v) ∈ (readParts n cur).1) :
    s.state v = some (decimal k) := by
  induction n generalizing cur returnValue state with
  | zero =>
    cases h
    rcases hv with hv | ⟨lit, hmem⟩
    · exact hv
    · cases hmem
  | succ n ih =>
    rw [readParts] at hv
    rw [expandLoop] at h
    cases hre : regexec cur with
    | none =>
      rw [hre] at h hv
      cases h
      rcases hv with hv | ⟨lit, hmem⟩
      · exact hv
      · cases hmem
    | some found =>
      obtain ⟨lit, name, rest⟩ := found
      rw [hre] at h hv
      dsimp only at h hv
      by_cases hdraw : ∃ var, name = 61 :: var
      · obtain ⟨var, rfl⟩ := hdraw
        refine ih h ?_
        by_cases heq : v = var
        · subst heq
          exact .inl (Function.update_self _ _ _)
        · rcases hv with hv | ⟨lit', hmem⟩
          · left
            rw [Function.update_of_ne heq]
            exact hv
          · rcases List.mem_cons.mp hmem with hhead | hrest
            · cases hhead
              exact absurd rfl heq
            · exact .inr ⟨lit', hrest⟩
      · have hname : ∀ var, name ≠ 61 :: var := fun var heq => hdraw ⟨var, heq⟩
        have hv' : state v = some (decimal k) ∨ ∃ lit, (lit, 61 :: v) ∈ (readParts n rest).1 := by
          rcases hv with hv | ⟨lit', hmem⟩
          · exact .inl hv
          · rcases List.mem_cons.mp hmem with hhead | hrest
            · cases hhead
              exact absurd rfl (hname v)
            · exact .inr ⟨lit', hrest⟩
        rw [placeholderData, boundData_name hname] at h
        cases hvalue : state name with
        | some value =>
          rw [hvalue] at h
          exact ih h hv'
        | none =>
          rw [hvalue] at h
          dsimp only at h
          cases hsubst : substData substList name k with
          | error a =>
            rw [hsubst] at h
            cases h
          | ok line =>
            rw [hsubst] at h
            exact ih h hv'

/-- Without a substitution list only a name with a value is served. -/
theorem bound_of_served {set : ExpandParam} {parts : List (Bytes × Bytes)} {state : Vars}
    {draws : Draws} (hnames : ∀ p ∈ parts, p.2.head? ≠ some 61)
    (h : Served none set parts state draws) : ∀ p ∈ parts, state p.2 ≠ none := by
  induction parts with
  | nil => exact List.forall_mem_nil _
  | cons part parts ih =>
    obtain ⟨lit, name⟩ := part
    obtain ⟨hname, hrest⟩ := List.forall_mem_cons.mp hnames
    rw [Served, boundData_name (not_draw hname)] at h
    rw [List.forall_mem_cons]
    dsimp only
    cases hvalue : state name with
    | some value =>
      rw [hvalue] at h
      exact ⟨Option.some_ne_none value, ih hrest h⟩
    | none =>
      rw [hvalue] at h
      obtain ⟨⟨r, ⟨before, behind, hlist, -⟩, -⟩, -⟩ := h
      cases hlist

/-! ### Which templates are passed through -/

theorem decimal_ne (value : Option Bytes) : ∃ k, value ≠ some (decimal k) := by
  by_cases h : value = some (decimal 0)
  · refine ⟨1, ?_⟩
    rw [h]
    decide +kernel
  · exact ⟨0, h⟩

/-- **Templates are passed through** just where every placeholder is a name that is bound: a draw is
made and bound at once, and a name without a value ends the process. -/
theorem passesThrough_iff (template : Bytes) (state : Vars) :
    (∀ draws, PassesThrough template state draws) ↔
      ∀ p ∈ (readTemplate (cstr template)).1, p.2.head? ≠ some 61 ∧ state p.2 ≠ none := by
  constructor
  · intro h
    -- what the loop leaves behind, for each choice of the draws
    have hloop : ∀ draws, ∃ s, expandLoop none .passthrough (cstr template).length
        ⟨cstr template, none, state, draws⟩ = .ok s ∧ s.state = state := by
      intro draws
      obtain ⟨draws', hrun⟩ := h draws
      rw [expandTemplate, handleParamString] at hrun
      cases hloop : expandLoop none .passthrough (cstr template).length
          ⟨cstr template, none, state, draws⟩ with
      | error a =>
        rw [hloop] at hrun
        cases hrun
      | ok s =>
        rw [hloop] at hrun
        simp only [Except.ok.injEq, Prod.mk.injEq] at hrun
        exact ⟨s, rfl, hrun.2.1⟩
    have hnames : ∀ p ∈ (readTemplate (cstr template)).1, p.2.head? ≠ some 61 := by
      rintro ⟨lit, name⟩ hp hdraw
      obtain ⟨v, rfl⟩ : ∃ v, name = 61 :: v := by
        cases name with
        | nil => cases hdraw
        | cons c v =>
          cases hdraw
          exact ⟨v, rfl⟩
      obtain ⟨k, hk⟩ := decimal_ne (state v)
      obtain ⟨s, hs, hstate⟩ := hloop fun _ => k
      have hassigned := expandLoop_assigns hs (.inr ⟨lit, hp⟩)
      rw [hstate] at hassigned
      exact hk hassigned
    obtain ⟨s, hs, -⟩ := hloop fun _ => 0
    intro p hp
    exact ⟨hnames p hp, bound_of_served hnames (served_of_expandLoop hs) p hp⟩
  · intro h draws
    obtain ⟨s, hloop, hstate, hdraws, htext⟩ := expandLoop_passes none .passthrough none draws h
    refine ⟨draws, ?_⟩
    rw [Option.getD_none, List.nil_append] at htext
    rw [expandTemplate, handleParamString, hloop]
    dsimp only
    rw [htext, hstate, hdraws]
    rfl

/-- The template of a single draw. -/
def drawTemplate : Bytes := bytes "$\x7b=x\x7d"

/-- The draw is made, and bound, when the profile is initialised. -/
theorem drawTemplate_assigned : ¬ ∀ (template : Bytes) (state : Vars) (draws : Draws),
    PassesThrough template state draws := by
  intro h
  obtain ⟨draws', hrun⟩ := h drawTemplate (fun _ => none) (fun _ => 7)
  have hassigned : expandTemplate (some drawTemplate) (fun _ => none) (fun _ => 7) =
      .ok (some (bytes "7"), Function.update (fun _ => none) (bytes "x") (some (bytes "7")),
        fun _ => 7) := rfl
  rw [hassigned] at hrun
  simp only [Except.ok.injEq, Prod.mk.injEq] at hrun
  have hvalue := congrFun hrun.2.1 (bytes "x")
  rw [Function.update_self] at hvalue
  cases hvalue

end Flood.PassThrough
