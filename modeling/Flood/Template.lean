import Flood.Subst

/-!
# Templates

`handle_param_string` replaces the placeholders `${name}` of a template, left to right: a bound
name by its value, `${=name}` by a random number that is also bound to `name`, any other name by a
random line of its substitution file.  The assembled string then goes through
`subst_file_entry_unescape` as a whole.
-/

namespace Flood.Template

open Flood.CString Flood.Net Flood.Subst

/-- `expand_param_e`. -/
inductive ExpandParam where
  | expand | expandSet | passthrough
  deriving DecidableEq

/-- The value of the enumerator, on which the source branches with `if (set)`. -/
def ExpandParam.val : ExpandParam → ℕ
  | .expand => 0
  | .expandSet => 1
  | .passthrough => 2

/-- The hash `rp->state`. -/
abbrev Vars := Bytes → Option Bytes

/-- The draws of the random generators still to come. -/
abbrev Draws := ℕ → ℕ

def Draws.next (d : Draws) : Draws := fun n => d (n + 1)

/-- `apr_psprintf("%d", n)` for a draw. -/
def decimal (n : ℕ) : Bytes := (Nat.toDigits 10 n).map fun c => c.toNat.toUInt8

/-- A digit is printed as the character that denotes it. -/
theorem digitVal_digitChar : ∀ d < 10, digitVal (Nat.digitChar d).toNat.toUInt8 = d := by decide

theorem decimal_of_lt {n : ℕ} (h : n < 10) : decimal n = [(Nat.digitChar n).toNat.toUInt8] := by
  rw [decimal, Nat.toDigits_of_lt_base h]
  rfl

theorem decimal_of_le {n : ℕ} (h : 10 ≤ n) :
    decimal n = decimal (n / 10) ++ [(Nat.digitChar (n % 10)).toNat.toUInt8] := by
  rw [decimal, Nat.toDigits_of_base_le (by decide) h, List.map_append]
  rfl

/-- **What `%d` prints** are digits that denote the number. -/
theorem decimal_denotes (n : ℕ) : decimal n ≠ [] ∧ (∀ c ∈ decimal n, isDigit 10 c) ∧
    digitsValue 10 (decimal n) = n := by
  induction n using Nat.strong_induction_on with
  | _ n ih =>
    by_cases h : n < 10
    · have hval := digitVal_digitChar n h
      rw [decimal_of_lt h]
      exact ⟨List.cons_ne_nil _ _, by simp [isDigit, hval, h], by simp [digitsValue, hval]⟩
    · have hlt : n % 10 < 10 := Nat.mod_lt n (by decide)
      have hval := digitVal_digitChar (n % 10) hlt
      obtain ⟨-, hdigits, hvalue⟩ := ih (n / 10) (by omega)
      rw [decimal_of_le (Nat.le_of_not_lt h)]
      refine ⟨by simp, fun c hc => ?_, ?_⟩
      · rcases List.mem_append.mp hc with hc | hc
        · exact hdigits c hc
        · rw [List.mem_singleton.mp hc]
          simp [isDigit, hval, hlt]
      · rw [digitsValue_append, hvalue, hval]
        omega

/-- `[^\}]`: inside brackets the backslash is an ordinary character of the set. -/
def nameChar (c : UInt8) : Bool := c ≠ 92 ∧ c ≠ 125

/-- The pattern `\$\{([^\}]+)\}` anchored at the start: the sub-expression and what follows. -/
def matchHere : Bytes → Option (Bytes × Bytes)
  | 36 :: 123 :: s =>
    match s.takeWhile nameChar, s.dropWhile nameChar with
    | c :: name, 125 :: rest => some (c :: name, rest)
    | _, _ => none
  | _ => none

/-- `${name}` -/
def placeholder (name : Bytes) : Bytes := 36 :: 123 :: (name ++ [125])

/-- `regexec` with the placeholder pattern: the text before the leftmost match, its
sub-expression, and the text behind the match. -/
def regexec : Bytes → Option (Bytes × Bytes × Bytes)
  | [] => none
  | c :: s =>
    match matchHere (c :: s) with
    | some (name, rest) => some ([], name, rest)
    | none => (regexec s).map fun (before, name, rest) => (c :: before, name, rest)

theorem matchHere_text {t name rest : Bytes} (h : matchHere t = some (name, rest)) :
    t = placeholder name ++ rest := by
  unfold matchHere at h
  split at h
  · next s =>
    split at h
    · next c name' rest' htake hdrop =>
      cases h
      have hsplit := List.takeWhile_append_dropWhile (p := nameChar) (l := s)
      rw [htake, hdrop] at hsplit
      rw [← hsplit]
      simp [placeholder]
    · cases h
  · cases h

/-- A match is a placeholder, with what stands before it and behind it. -/
theorem regexec_text {t lit name rest : Bytes} (h : regexec t = some (lit, name, rest)) :
    t = lit ++ placeholder name ++ rest := by
  induction t generalizing lit with
  | nil => cases h
  | cons c t ih =>
    rw [regexec] at h
    split at h
    · next hmatch =>
      cases h
      exact matchHere_text hmatch
    · obtain ⟨⟨before, name', rest'⟩, hfound, heq⟩ := Option.map_eq_some_iff.mp h
      cases heq
      rw [ih hfound]
      rfl

/-- The locals of the loop, and what it changes outside. -/
structure ExpandState where
  cur : Bytes
  returnValue : Option Bytes
  state : Vars
  draws : Draws

/-- The text for a name that is not bound: a line of its substitution file.  Without a record the
call reads through a NULL pointer; an empty line ends the process. -/
def substData (substList : Option (List SubstRec)) (name : Bytes) (random : ℕ) :
    Except Abort Bytes :=
  match substFileGet name substList with
  | .error a => .error a
  | .ok none => .error .fault
  | .ok (some r) =>
    match substFileEntryGet r random 8096 with
    | .error a => .error a
    | .ok line => if line = [] then .error .exit else .ok line

/-- The `data` of a placeholder as far as the bindings and the random numbers give it, with the
bindings and the draws left behind. -/
def boundData (set : ExpandParam) (name : Bytes) (state : Vars) (draws : Draws) :
    Option Bytes × Vars × Draws :=
  match name with
  | 61 :: var =>
    if set.val ≠ 0 then
      let data := decimal (draws 0)
      (some data, Function.update state var (some data), draws.next)
    else (none, state, draws)
  | _ => (state name, state, draws)

/-- Only `${=var}` changes a variable, where the mode binds it. -/
theorem boundData_vars (set : ExpandParam) (name : Bytes) (state : Vars) (draws : Draws) :
    (boundData set name state draws).2.1 = state ∨
      ∃ var data, name = 61 :: var ∧ set.val ≠ 0 ∧
        (boundData set name state draws).2.1 = Function.update state var (some data) := by
  unfold boundData
  split
  · next var =>
    split
    · next hset => exact .inr ⟨var, _, rfl, hset, rfl⟩
    · exact .inl rfl
  · exact .inl rfl

/-- The `data` of a placeholder, with the bindings and the draws left behind.  After the
substitution files `data` is never NULL, so the source's last fallback is never taken. -/
def placeholderData (substList : Option (List SubstRec)) (set : ExpandParam) (name : Bytes)
    (state : Vars) (draws : Draws) : Except Abort (Bytes × Vars × Draws) :=
  match boundData set name state draws with
  | (some data, state, draws) => .ok (data, state, draws)
  | (none, state, draws) =>
    match substData substList name (draws 0) with
    | .error a => .error a
    | .ok data => .ok (data, state, draws.next)

/-- The rounds of `while (regexec(...) == REG_OK)`.  A round removes a placeholder from `cur`, so
the length of the template bounds their number. -/
def expandLoop (substList : Option (List SubstRec)) (set : ExpandParam) :
    ℕ → ExpandState → Except Abort ExpandState
  | 0, s => .ok s
  | n + 1, s =>
    match regexec s.cur with
    | none => .ok s
    | some (cpy, name, rest) =>
      match placeholderData substList set name s.state s.draws with
      | .error a => .error a
      | .ok (data, state, draws) =>
        expandLoop substList set n
          ⟨rest, some (s.returnValue.getD [] ++ cpy ++ data), state, draws⟩

/-- The loop binds what its placeholders bind. -/
theorem expandLoop_state {substList : Option (List SubstRec)} {set : ExpandParam} {n : ℕ}
    {s s' : ExpandState} {P : Vars → Prop}
    (hbind : ∀ lit name rest, lit ++ placeholder name ++ rest = s.cur → ∀ st d, P st →
      P (boundData set name st d).2.1)
    (h : expandLoop substList set n s = .ok s') (hs : P s.state) : P s'.state := by
  induction n generalizing s with
  | zero =>
    cases h
    exact hs
  | succ n ih =>
    rw [expandLoop] at h
    split at h
    · cases h
      exact hs
    · next lit name rest hmatch =>
      have htext := regexec_text hmatch
      have hbound := hbind lit name rest htext.symm s.state s.draws hs
      split at h
      · cases h
      · next data state draws hdata =>
        refine ih (fun lit' name' rest' hrest => ?_) h ?_
        · refine hbind (lit ++ placeholder name ++ lit') name' rest' ?_
          have hbehind : lit' ++ placeholder name' ++ rest' = rest := hrest
          rw [htext, ← hbehind]
          simp only [List.append_assoc]
        · unfold placeholderData at hdata
          split at hdata
          · next hbind =>
            cases hdata
            rwa [hbind] at hbound
          · next hbind =>
            rw [hbind] at hbound
            split at hdata
            · cases hdata
            · cases hdata
              exact hbound

/-- `handle_param_string`: the memory of the string returned, up to its terminator. -/
def handleParamString (substList : Option (List SubstRec)) (set : ExpandParam) (template : Bytes)
    (state : Vars) (draws : Draws) : Except Abort (Bytes × Vars × Draws) :=
  match expandLoop substList set template.length ⟨template, none, state, draws⟩ with
  | .error a => .error a
  | .ok s =>
    .ok (substFileEntryUnescape (s.returnValue.getD [] ++ s.cur), s.state, s.draws)

/-- **What a template may do to the variables**: what holds of them, and what no placeholder of the
template changes when it is bound, holds behind the template. -/
theorem handleParamString_state {substList : Option (List SubstRec)} {set : ExpandParam}
    {template out : Bytes} {state state' : Vars} {draws draws' : Draws} {P : Vars → Prop}
    (hbind : ∀ lit name rest, lit ++ placeholder name ++ rest = template → ∀ st d, P st →
      P (boundData set name st d).2.1)
    (h : handleParamString substList set template state draws = .ok (out, state', draws'))
    (hs : P state) : P state' := by
  unfold handleParamString at h
  split at h
  · cases h
  · next hloop =>
    cases h
    exact expandLoop_state hbind hloop hs

/-- `expand_param_string`. -/
def expandParamString (substList : Option (List SubstRec)) (template : Bytes) (state : Vars)
    (draws : Draws) : Except Abort (Bytes × Vars × Draws) :=
  handleParamString substList .expand template state draws

/-- `parse_param_string`. -/
def parseParamString (substList : Option (List SubstRec)) (template : Bytes) (state : Vars)
    (draws : Draws) : Except Abort (Bytes × Vars × Draws) :=
  handleParamString substList .expandSet template state draws

end Flood.Template
