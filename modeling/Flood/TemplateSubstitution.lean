import Flood.Template

/-!
# The substitution that a template asks for

A template read as literal pieces and placeholders, independently of the loop that expands it, and
what a substitution from left to right makes of it.

* `exists_parse`, `Parse.unique` — every text is read in exactly one way.
* `expandLoop_parse` — the loop makes of a text what the substitution makes of its parts.
* `handleParamString_substitutes` — in the assigning mode `handle_param_string` returns the unescaped
  substitution, if every name is bound where it stands.
-/

namespace Flood.TemplateSubstitution

open Flood.CString Flood.Net Flood.Subst Flood.Template

/-! ### Reading a template -/

/-- A name that can stand in a placeholder. -/
def IsName (name : Bytes) : Prop := name ≠ [] ∧ 125 ∉ name

/-- A placeholder stands in front of the text. -/
def StartsWith (t name rest : Bytes) : Prop := IsName name ∧ t = placeholder name ++ rest

/-- The leftmost placeholder of a text: what stands before it, its name, and what stands behind. -/
structure Leftmost (t lit name rest : Bytes) : Prop where
  text : t = lit ++ placeholder name ++ rest
  isName : IsName name
  first : ∀ before behind name' rest', lit = before ++ behind → behind ≠ [] →
    ¬ StartsWith (behind ++ placeholder name ++ rest) name' rest'

/-- No placeholder stands anywhere in the text. -/
def Literal (t : Bytes) : Prop :=
  ∀ before behind name rest, t = before ++ behind → ¬ StartsWith behind name rest

/-- The parts of a template, each a literal piece with the name of the placeholder behind it, and
the piece behind the last placeholder. -/
inductive Parse : Bytes → List (Bytes × Bytes) → Bytes → Prop
  | tail {t : Bytes} (h : Literal t) : Parse t [] t
  | part {t lit name rest tail : Bytes} {parts : List (Bytes × Bytes)}
    (h : Leftmost t lit name rest) (hrest : Parse rest parts tail) :
    Parse t ((lit, name) :: parts) tail

/-- **The substitution**, from left to right: a name is replaced by its value, `=name` by the next
draw, which is bound to the name from then on.  There is none where a name has no value. -/
def substitute : List (Bytes × Bytes) → Bytes → Vars → Draws → Option (Bytes × Vars × Draws)
  | [], tail, state, draws => some (tail, state, draws)
  | (lit, 61 :: var) :: parts, tail, state, draws =>
    let value := decimal (draws 0)
    (substitute parts tail (Function.update state var (some value)) draws.next).map
      fun (s, state, draws) => (lit ++ value ++ s, state, draws)
  | (lit, name) :: parts, tail, state, draws =>
    match state name with
    | none => none
    | some value =>
      (substitute parts tail state draws).map
        fun (s, state, draws) => (lit ++ value ++ s, state, draws)

/-- Every placeholder is a draw, or its name has a value where it stands: from the start, or from a
draw before it. -/
def Resolved (state : Vars) (parts : List (Bytes × Bytes)) : Prop :=
  ∀ before lit name behind, parts = before ++ (lit, name) :: behind →
    (∃ var, name = 61 :: var) ∨ state name ≠ none ∨ ∃ lit', (lit', 61 :: name) ∈ before

/-! ### Every text is read in exactly one way -/

/-- The name of a placeholder in front of a text is what stands before the first brace. -/
theorem placeholder_inj {name name' rest rest' : Bytes} (h : 125 ∉ name) (h' : 125 ∉ name')
    (heq : placeholder name ++ rest = placeholder name' ++ rest') : name = name' ∧ rest = rest' := by
  simp only [placeholder, List.cons_append, List.append_assoc,
    List.cons.injEq, true_and] at heq
  induction name generalizing name' with
  | nil =>
    cases name' with
    | nil => exact ⟨rfl, by simpa using heq⟩
    | cons c name' =>
      simp only [List.nil_append, List.cons_append, List.cons.injEq] at heq
      exact absurd (heq.1 ▸ List.mem_cons_self) h'
  | cons c name ih =>
    cases name' with
    | nil =>
      simp only [List.nil_append, List.cons_append, List.cons.injEq] at heq
      exact absurd (heq.1 ▸ List.mem_cons_self) h
    | cons c' name' =>
      simp only [List.cons_append, List.cons.injEq] at heq
      obtain ⟨hname, hrest⟩ := ih (fun hm => h (List.mem_cons_of_mem _ hm))
        (fun hm => h' (List.mem_cons_of_mem _ hm)) heq.2
      exact ⟨by rw [heq.1, hname], hrest⟩

/-- No leftmost placeholder stands behind another placeholder. -/
theorem Leftmost.not_behind {t lit name rest more name' rest' : Bytes}
    (h : Leftmost t (lit ++ more) name rest) (hname : IsName name')
    (heq : placeholder name' ++ rest' = more ++ (placeholder name ++ rest)) : more = [] := by
  by_contra hmore
  refine h.first lit more name' rest' rfl hmore ⟨hname, ?_⟩
  rw [List.append_assoc, heq]

theorem Leftmost.unique {t lit name rest lit' name' rest' : Bytes} (h : Leftmost t lit name rest)
    (h' : Leftmost t lit' name' rest') : lit = lit' ∧ name = name' ∧ rest = rest' := by
  have htext : lit ++ (placeholder name ++ rest) = lit' ++ (placeholder name' ++ rest') := by
    rw [← List.append_assoc, ← List.append_assoc, ← h.text, ← h'.text]
  -- the longer of the two pieces would hold the other placeholder
  have hlit : lit = lit' := by
    rcases List.append_eq_append_iff.mp htext with ⟨more, rfl, hmore⟩ | ⟨more, rfl, hmore⟩
    · rw [h'.not_behind h.isName hmore, List.append_nil]
    · rw [h.not_behind h'.isName hmore, List.append_nil]
  subst hlit
  exact ⟨rfl, placeholder_inj h.isName.2 h'.isName.2 (List.append_cancel_left htext)⟩

theorem Parse.unique {t tail tail' : Bytes} {parts parts' : List (Bytes × Bytes)}
    (h : Parse t parts tail) (h' : Parse t parts' tail') : parts = parts' ∧ tail = tail' := by
  induction h generalizing parts' with
  | tail hlit =>
    cases h' with
    | tail _ => exact ⟨rfl, rfl⟩
    | part hleft _ =>
      exact absurd ⟨hleft.isName, rfl⟩ (hlit _ _ _ _ (by rw [hleft.text, List.append_assoc]))
  | part hleft _ ih =>
    cases h' with
    | tail hlit =>
      exact absurd ⟨hleft.isName, rfl⟩ (hlit _ _ _ _ (by rw [hleft.text, List.append_assoc]))
    | part hleft' hrest' =>
      obtain ⟨rfl, rfl, rfl⟩ := hleft.unique hleft'
      obtain ⟨rfl, rfl⟩ := ih hrest'
      exact ⟨rfl, rfl⟩

theorem literal_nil : Literal [] := by
  intro before behind name rest h hstart
  obtain ⟨-, rfl⟩ := List.append_eq_nil_iff.mp h.symm
  exact absurd hstart.2 (by simp [placeholder])

/-- A text is literal, or has a leftmost placeholder. -/
theorem literal_or_leftmost (t : Bytes) :
    Literal t ∨ ∃ lit name rest, Leftmost t lit name rest := by
  induction t with
  | nil => exact .inl literal_nil
  | cons c t ih =>
    by_cases hstart : ∃ name rest, StartsWith (c :: t) name rest
    · obtain ⟨name, rest, hname, htext⟩ := hstart
      refine .inr ⟨[], name, rest, htext, hname, fun before behind _ _ hnil hne => ?_⟩
      exact absurd (List.append_eq_nil_iff.mp hnil.symm).2 hne
    · have hhere : ∀ name rest, ¬ StartsWith (c :: t) name rest :=
        fun name rest h => hstart ⟨name, rest, h⟩
      rcases ih with hlit | ⟨lit, name, rest, hleft⟩
      · refine .inl fun before behind name rest heq => ?_
        cases before with
        | nil =>
          rw [← show c :: t = behind from heq]
          exact hhere name rest
        | cons c' before =>
          rw [List.cons_append, List.cons.injEq] at heq
          exact hlit before behind name rest heq.2
      · refine .inr ⟨c :: lit, name, rest, by rw [hleft.text]; rfl, hleft.isName, ?_⟩
        intro before behind name' rest' heq hne
        cases before with
        | nil =>
          rw [List.nil_append] at heq
          rw [← heq, List.cons_append, List.cons_append, ← hleft.text]
          exact hhere name' rest'
        | cons c' before =>
          rw [List.cons_append, List.cons.injEq] at heq
          exact hleft.first before behind name' rest' heq.2 hne

/-- What stands behind a placeholder is shorter than the text. -/
theorem Leftmost.length_lt {t lit name rest : Bytes} (h : Leftmost t lit name rest) :
    rest.length < t.length := by
  rw [h.text]
  simp only [placeholder, List.length_append, List.length_cons]
  omega

theorem exists_parse (t : Bytes) : ∃ parts tail, Parse t parts tail := by
  induction hlen : t.length using Nat.strong_induction_on generalizing t with
  | _ n ih =>
    subst hlen
    rcases literal_or_leftmost t with hlit | ⟨lit, name, rest, hleft⟩
    · exact ⟨[], t, .tail hlit⟩
    · obtain ⟨parts, tail, hrest⟩ := ih rest.length hleft.length_lt rest rfl
      exact ⟨(lit, name) :: parts, tail, .part hleft hrest⟩

theorem Parse.length_le {t tail : Bytes} {parts : List (Bytes × Bytes)} (h : Parse t parts tail) :
    parts.length ≤ t.length := by
  induction h with
  | tail _ => exact Nat.zero_le _
  | part hleft _ ih => exact Nat.lt_of_le_of_lt ih hleft.length_lt

/-! ### The regular expression -/

theorem nameChar_of_not_mem {name : Bytes} (h92 : 92 ∉ name) (h125 : 125 ∉ name) :
    ∀ c ∈ name, nameChar c = true := by
  intro c hc
  simp only [nameChar, decide_eq_true_eq]
  exact ⟨fun h => h92 (h ▸ hc), fun h => h125 (h ▸ hc)⟩

/-- The pattern matches a placeholder whose name has no backslash. -/
theorem matchHere_placeholder {name : Bytes} (hname : IsName name) (h92 : 92 ∉ name)
    (rest : Bytes) : matchHere (placeholder name ++ rest) = some (name, rest) := by
  obtain ⟨hne, h125⟩ := hname
  have hchars := nameChar_of_not_mem h92 h125
  have htake : (name ++ 125 :: rest).takeWhile nameChar = name := by
    rw [List.takeWhile_append_of_pos hchars, List.takeWhile_cons_of_neg (by decide),
      List.append_nil]
  have hdrop : (name ++ 125 :: rest).dropWhile nameChar = 125 :: rest := by
    rw [List.dropWhile_append_of_pos hchars, List.dropWhile_cons_of_neg (by decide)]
  show matchHere (36 :: 123 :: (name ++ [125] ++ rest)) = _
  rw [List.append_assoc, List.singleton_append]
  obtain ⟨c, name, rfl⟩ := List.exists_cons_of_ne_nil hne
  simp only [matchHere, htake, hdrop]

/-- Where the pattern matches there is a placeholder. -/
theorem startsWith_of_matchHere {t name rest : Bytes} (h : matchHere t = some (name, rest)) :
    StartsWith t name rest := by
  unfold matchHere at h
  split at h
  · next s =>
    split at h
    · next c name' rest' htake hdrop =>
      cases h
      refine ⟨⟨List.cons_ne_nil _ _, fun hmem => ?_⟩, ?_⟩
      · have := List.mem_takeWhile_imp (htake ▸ hmem)
        exact absurd this (by decide)
      · show _ = 36 :: 123 :: (c :: name' ++ [125] ++ rest)
        rw [← htake, List.append_assoc, List.singleton_append, ← hdrop,
          List.takeWhile_append_dropWhile]
    · cases h
  · cases h

/-- On a literal text the regular expression finds nothing. -/
theorem regexec_literal {t : Bytes} (h : Literal t) : regexec t = none := by
  induction t with
  | nil => rfl
  | cons c t ih =>
    have hhere : matchHere (c :: t) = none := by
      cases hm : matchHere (c :: t) with
      | none => rfl
      | some m => exact absurd (startsWith_of_matchHere hm) (h [] _ _ _ rfl)
    have hrest : Literal t := fun before behind name rest heq =>
      h (c :: before) behind name rest (by rw [heq, List.cons_append])
    simp only [regexec, hhere, ih hrest, Option.map_none]

/-- Otherwise it finds the leftmost placeholder, if that has no backslash in its name. -/
theorem regexec_leftmost {t lit name rest : Bytes} (h : Leftmost t lit name rest)
    (h92 : 92 ∉ name) : regexec t = some (lit, name, rest) := by
  induction lit generalizing t with
  | nil =>
    have hmatch := matchHere_placeholder h.isName h92 rest
    rw [h.text, List.nil_append]
    simp only [placeholder, List.cons_append] at hmatch ⊢
    simp only [regexec, hmatch]
  | cons c lit ih =>
    have htext : t = c :: (lit ++ placeholder name ++ rest) := h.text
    have hhere : matchHere (c :: (lit ++ placeholder name ++ rest)) = none := by
      cases hm : matchHere (c :: (lit ++ placeholder name ++ rest)) with
      | none => rfl
      | some m =>
        exact absurd (startsWith_of_matchHere hm) (h.first [] (c :: lit) _ _ rfl (by simp))
    have hrest : Leftmost (lit ++ placeholder name ++ rest) lit name rest :=
      ⟨rfl, h.isName, fun before behind name' rest' heq =>
        h.first (c :: before) behind name' rest' (by rw [heq, List.cons_append])⟩
    rw [htext]
    simp only [regexec, hhere, ih hrest, Option.map_some]

/-- The parts of a template, found one behind the other. -/
def readParts : ℕ → Bytes → List (Bytes × Bytes) × Bytes
  | 0, t => ([], t)
  | n + 1, t =>
    match regexec t with
    | none => ([], t)
    | some (lit, name, rest) => ((lit, name) :: (readParts n rest).1, (readParts n rest).2)

/-- The placeholders of a template, each with the text in front of it, and the text behind the last
one. -/
def readTemplate (template : Bytes) : List (Bytes × Bytes) × Bytes :=
  readParts template.length template

/-- A text without a backslash is read in the only way there is. -/
theorem readParts_eq {t tail : Bytes} {parts : List (Bytes × Bytes)} (h : Parse t parts tail)
    (h92 : 92 ∉ t) {n : ℕ} (hn : parts.length ≤ n) : readParts n t = (parts, tail) := by
  induction h generalizing n with
  | tail hlit =>
    cases n with
    | zero => rfl
    | succ n => simp only [readParts, regexec_literal hlit]
  | @part t lit name rest tail parts hleft _ ih =>
    obtain ⟨n, rfl⟩ : ∃ m, n = m + 1 := ⟨n - 1, by simp only [List.length_cons] at hn; omega⟩
    rw [hleft.text] at h92
    simp only [placeholder, List.mem_append, List.mem_cons, not_or] at h92
    have hre := regexec_leftmost hleft (by tauto)
    have hrest := ih h92.2 (Nat.le_of_succ_le_succ hn)
    simp only [readParts, hre, hrest]

theorem readTemplate_parse {t : Bytes} (h92 : 92 ∉ t) :
    Parse t (readTemplate t).1 (readTemplate t).2 := by
  obtain ⟨parts, tail, hparse⟩ := exists_parse t
  rw [readTemplate, readParts_eq hparse h92 hparse.length_le]
  exact hparse

/-! ### The loop -/

theorem boundData_draw (var : Bytes) (state : Vars) (draws : Draws) :
    boundData .expandSet (61 :: var) state draws =
      (some (decimal (draws 0)), Function.update state var (some (decimal (draws 0))),
        draws.next) := rfl

theorem boundData_name {name : Bytes} (h : ∀ var, name ≠ 61 :: var) (set : ExpandParam)
    (state : Vars) (draws : Draws) :
    boundData set name state draws = (state name, state, draws) := by
  unfold boundData
  split
  · exact absurd rfl (h _)
  · rfl

theorem substitute_draw (lit var : Bytes) (parts : List (Bytes × Bytes)) (tail : Bytes)
    (state : Vars) (draws : Draws) :
    substitute ((lit, 61 :: var) :: parts) tail state draws =
      (substitute parts tail (Function.update state var (some (decimal (draws 0)))) draws.next).map
        fun (s, state, draws') => (lit ++ decimal (draws 0) ++ s, state, draws') := rfl

theorem substitute_name {name value : Bytes} (h : ∀ var, name ≠ 61 :: var) {state : Vars}
    (hvalue : state name = some value) (lit : Bytes) (parts : List (Bytes × Bytes)) (tail : Bytes)
    (draws : Draws) :
    substitute ((lit, name) :: parts) tail state draws =
      (substitute parts tail state draws).map
        fun (s, state, draws') => (lit ++ value ++ s, state, draws') := by
  rw [substitute, hvalue]
  exact h

theorem resolved_tail {state : Vars} {lit name : Bytes} {parts : List (Bytes × Bytes)}
    (h : Resolved state ((lit, name) :: parts)) {state' : Vars}
    (hkeeps : ∀ v, state v ≠ none → state' v ≠ none)
    (hbinds : ∀ v, name = 61 :: v → state' v ≠ none) : Resolved state' parts := by
  intro before lit' name' behind heq
  rcases h ((lit, name) :: before) lit' name' behind (by rw [heq, List.cons_append]) with
    hvar | hbound | ⟨lit'', hmem⟩
  · exact .inl hvar
  · exact .inr (.inl (hkeeps name' hbound))
  · rcases List.mem_cons.mp hmem with hhead | hmem
    · exact .inr (.inl (hbinds name' (Prod.mk.inj hhead).2.symm))
    · exact .inr (.inr ⟨lit'', hmem⟩)

/-- One part with its placeholder resolved: the data, and the bindings and draws behind it. -/
theorem part_cases {state : Vars} {lit name : Bytes} {parts : List (Bytes × Bytes)} (tail : Bytes)
    (draws : Draws) (h : Resolved state ((lit, name) :: parts)) :
    ∃ data state' draws', boundData .expandSet name state draws = (some data, state', draws') ∧
      substitute ((lit, name) :: parts) tail state draws =
        (substitute parts tail state' draws').map
          (fun (s, state, draws) => (lit ++ data ++ s, state, draws)) ∧
      Resolved state' parts ∧ ∀ v, name ≠ 61 :: v → state' v = state v := by
  by_cases hvar : ∃ var, name = 61 :: var
  · obtain ⟨var, rfl⟩ := hvar
    refine ⟨_, _, _, boundData_draw var state draws, substitute_draw lit var parts tail state draws,
      resolved_tail h (fun v hv => ?_) (fun v hv => ?_), fun v hv => ?_⟩
    · by_cases heq : v = var
      · simp [heq]
      · rwa [Function.update_of_ne heq]
    · obtain rfl : var = v := by simpa using hv
      simp
    · exact Function.update_of_ne (fun heq => hv (by rw [heq])) _ _
  · have hname : ∀ var, name ≠ 61 :: var := fun var hv => hvar ⟨var, hv⟩
    obtain ⟨value, hvalue⟩ : ∃ value, state name = some value := by
      rcases h [] lit name parts rfl with hv | hbound | ⟨lit', hmem⟩
      · exact absurd hv hvar
      · exact Option.ne_none_iff_exists'.mp hbound
      · exact absurd hmem (List.not_mem_nil)
    refine ⟨value, state, draws, by rw [boundData_name hname, hvalue],
      substitute_name hname hvalue lit parts tail draws,
      resolved_tail h (fun _ hv => hv) (fun v hv => absurd hv (hname v)), fun _ _ => rfl⟩

/-- **The loop makes of a text what the substitution makes of its parts**, and changes no variable
but those it draws. -/
theorem expandLoop_parse {t tail : Bytes} {parts : List (Bytes × Bytes)} (h : Parse t parts tail)
    (h92 : ∀ p ∈ parts, 92 ∉ p.2) (substList : Option (List SubstRec)) (returnValue : Option Bytes)
    {state : Vars} (draws : Draws) (hres : Resolved state parts) {n : ℕ} (hn : parts.length ≤ n) :
    ∃ s out, expandLoop substList .expandSet n ⟨t, returnValue, state, draws⟩ = .ok s ∧
      substitute parts tail state draws = some (out, s.state, s.draws) ∧
      s.returnValue.getD [] ++ s.cur = returnValue.getD [] ++ out ∧
      ∀ v, (∀ lit, (lit, 61 :: v) ∉ parts) → s.state v = state v := by
  induction h generalizing returnValue state draws n with
  | @tail t hlit =>
    refine ⟨⟨t, returnValue, state, draws⟩, t, ?_, rfl, rfl, fun _ _ => rfl⟩
    cases n with
    | zero => rfl
    | succ n => simp only [expandLoop, regexec_literal hlit]
  | @part t lit name rest tail parts hleft _ ih =>
    obtain ⟨n, rfl⟩ : ∃ m, n = m + 1 := ⟨n - 1, by simp only [List.length_cons] at hn; omega⟩
    have hre := regexec_leftmost hleft (h92 (lit, name) List.mem_cons_self)
    obtain ⟨data, state', draws', hdata, hsub, hres', hframe⟩ := part_cases tail draws hres
    obtain ⟨s, out, hloop, hout, hcur, hkeeps⟩ := ih
      (fun p hp => h92 p (List.mem_cons_of_mem _ hp)) (some (returnValue.getD [] ++ lit ++ data))
      draws' hres' (Nat.le_of_succ_le_succ hn)
    refine ⟨s, lit ++ data ++ out, ?_, ?_, ?_, fun v hv => ?_⟩
    · simp only [expandLoop, hre, placeholderData, hdata]
      exact hloop
    · rw [hsub, hout]
      rfl
    · rw [hcur, Option.getD_some]
      simp only [List.append_assoc]
    · rw [hkeeps v fun lit' hmem => hv lit' (List.mem_cons_of_mem _ hmem)]
      exact hframe v fun heq => hv lit (heq ▸ List.mem_cons_self)

/-- **Assigning substitution.**  A template is read in exactly one way as literal pieces and
placeholders.  If no name has a backslash and every placeholder is a draw or bound where it stands,
`handle_param_string` returns the substitution, unescaped as a whole, with the bindings and the draws
that the substitution leaves; no other variable changes. -/
theorem handleParamString_substitutes (substList : Option (List SubstRec)) (template : Bytes)
    (state : Vars) (draws : Draws) :
    ∃ parts tail, Parse template parts tail ∧
      (∀ parts' tail', Parse template parts' tail' → parts' = parts ∧ tail' = tail) ∧
      ((∀ p ∈ parts, 92 ∉ p.2) → Resolved state parts →
        ∃ out state' draws', substitute parts tail state draws = some (out, state', draws') ∧
          handleParamString substList .expandSet template state draws =
            .ok (substFileEntryUnescape out, state', draws') ∧
          ∀ v, (∀ lit, (lit, 61 :: v) ∉ parts) → state' v = state v) := by
  obtain ⟨parts, tail, hparse⟩ := exists_parse template
  refine ⟨parts, tail, hparse, fun parts' tail' h => h.unique hparse, fun h92 hres => ?_⟩
  obtain ⟨s, out, hloop, hout, hcur, hkeeps⟩ :=
    expandLoop_parse hparse h92 substList none draws hres hparse.length_le
  refine ⟨out, s.state, s.draws, hout, ?_, hkeeps⟩
  rw [Option.getD_none, List.nil_append] at hcur
  simp only [handleParamString, hloop, hcur]

/-- A number that is drawn for `r`, and then named. -/
def drawnTwice : Bytes := bytes "id=$\x7b=r\x7d&again=$\x7br\x7d"

theorem drawnTwice_parts : (readTemplate drawnTwice).1 =
    [(bytes "id=", bytes "=r"), (bytes "&again=", bytes "r")] := by decide +kernel

theorem drawnTwice_resolved (state : Vars) : Resolved state (readTemplate drawnTwice).1 := by
  rw [drawnTwice_parts]
  intro before lit name behind h
  rcases before with _ | ⟨p, _ | ⟨q, before⟩⟩
  · cases h
    exact .inl ⟨bytes "r", by decide⟩
  · cases h
    exact .inr (.inr ⟨bytes "id=", List.mem_singleton.mpr (by decide)⟩)
  · simp at h

theorem handleParamString_substitutes_drawn : ∃ state' draws',
    handleParamString none .expandSet drawnTwice (fun _ => none) (fun n => n + 7) =
      .ok (bytes "id=7&again=7", state', draws') ∧ state' (bytes "x") = none := by
  obtain ⟨parts, tail, -, hunique, hall⟩ :=
    handleParamString_substitutes none drawnTwice (fun _ => none) (fun n => n + 7)
  obtain ⟨rfl, rfl⟩ := hunique _ _ (readTemplate_parse (by decide +kernel))
  obtain ⟨out, state', draws', hout, hrun, hkeeps⟩ := hall (by rw [drawnTwice_parts]; decide +kernel)
    (drawnTwice_resolved _)
  have htext : (substitute (readTemplate drawnTwice).1 (readTemplate drawnTwice).2 (fun _ => none)
      (fun n => n + 7)).map Prod.fst = some (bytes "id=7&again=7") := by decide +kernel
  rw [hout, Option.map_some, Option.some.injEq] at htext
  refine ⟨state', draws', ?_, hkeeps _ ?_⟩
  · rw [hrun, show out = bytes "id=7&again=7" from htext, unescape_plain (by decide +kernel)]
  · rw [drawnTwice_parts]
    intro lit hmem
    have hnames : ∀ p ∈ [(bytes "id=", bytes "=r"), (bytes "&again=", bytes "r")],
        p.2 ≠ 61 :: bytes "x" := by decide +kernel
    exact hnames _ hmem rfl

end Flood.TemplateSubstitution
