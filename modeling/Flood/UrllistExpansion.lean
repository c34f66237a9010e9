import Flood.Pieces
import Flood.SlotCount
import Flood.TemplateSubstitution

/-!
# The expansion of a urllist

The traversal of a urllist keeps the items of all sequences in one hash, in which nothing is ever
restored.  The expansion of a urllist is defined over its elements instead, with the items of the
enclosing sequences bound to their names.

* `expandTemplate_bound` — a template of bound names is replaced by its substitution.
* `parseSeqChildren_expands`, `parseUrllist_expands` — the traversal fills the slots of the
  expansion.
* `templates_expanded` — the templates of an initialised profile are those of the expansion.
-/

namespace Flood.UrllistExpansion

open Flood.CString Flood.Net Flood.Subst Flood.Template Flood.TemplateSubstitution
open Flood.RoundRobin Flood.Config Flood.UrlElement Flood.InTurn Flood.ProfileInit
open Flood.UrllistSteps Flood.SlotCount

/-! ### The expansion -/

/-- The parts of a template, with a value for each name. -/
def fillParts (env : Vars) : List (Bytes × Bytes) → Bytes → Bytes
  | [], tail => tail
  | (lit, name) :: parts, tail => lit ++ (env name).getD [] ++ fillParts env parts tail

/-- A template with its placeholders replaced. -/
def replaced (env : Vars) (template : Bytes) : Bytes :=
  fillParts env (readTemplate (cstr template)).1 (readTemplate (cstr template)).2

/-- The name of a sequence. -/
def sequenceName (attr : List XmlAttr) : Bytes :=
  ((lastNamed XML_URLLIST_SEQUENCE_NAME attr).map cstr).getD []

/-- The items of a sequence. -/
def sequenceItems (attr : List XmlAttr) : List Bytes :=
  ((lastNamed XML_URLLIST_SEQUENCE_LIST attr).map seqItems).getD []

/-- **The expansion** of an element and its siblings: a url stands for its templates with the names
replaced, and a sequence for its children once for every item, with the item bound on top. -/
def expansion (env : Vars) : XmlElem → List Templates
  | .null => []
  | .elem name _ attr firstChild next =>
    (if sameName name XML_URLLIST_SEQUENCE then
      (sequenceItems attr).flatMap fun item =>
        expansion (Function.update env (sequenceName attr) (some item)) firstChild
    else if sameName name XML_URLLIST_URL then [(urlTemplates attr).map (replaced env)]
    else []) ++ expansion env next

/-! ### What is asked of a urllist -/

/-- A template without a backslash, in which the placeholders are of these names. -/
structure InScope (names : List Bytes) (template : Bytes) : Prop where
  plain : 92 ∉ cstr template
  names : ∀ part ∈ (readTemplate (cstr template)).1, part.2 ∈ names

/-- A sequence within others: its own name, and items without a backslash. -/
structure WellNamed (names : List Bytes) (attr : List XmlAttr) : Prop where
  oneEach : OneEach attr
  fresh : sequenceName attr ∉ names
  name : (sequenceName attr).head? ≠ some 61
  items : ∀ item ∈ sequenceItems attr, 92 ∉ item

/-- The elements within sequences of these names: every sequence has its own name, and a template
has placeholders of the enclosing sequences only. -/
def Scoped (names : List Bytes) : XmlElem → Prop
  | .null => True
  | .elem name _ attr firstChild next =>
    (sameName name XML_URLLIST_SEQUENCE →
      WellNamed names attr ∧ Scoped (sequenceName attr :: names) firstChild) ∧
    (sameName name XML_URLLIST_URL →
      ∀ template ∈ (urlTemplates attr).toList, InScope names template) ∧
    Scoped names next

instance (names : List Bytes) (template : Bytes) : Decidable (InScope names template) :=
  decidable_of_iff (_ ∧ _) ⟨fun h => ⟨h.1, h.2⟩, fun h => ⟨h.1, h.2⟩⟩

instance (names : List Bytes) (attr : List XmlAttr) : Decidable (WellNamed names attr) :=
  decidable_of_iff (_ ∧ _ ∧ _ ∧ _)
    ⟨fun h => ⟨h.1, h.2.1, h.2.2.1, h.2.2.2⟩, fun h => ⟨h.1, h.2, h.3, h.4⟩⟩

instance decidableScoped : (names : List Bytes) → (e : XmlElem) → Decidable (Scoped names e)
  | _, .null => isTrue trivial
  | names, .elem _ _ attr firstChild next =>
    have := decidableScoped (sequenceName attr :: names) firstChild
    have := decidableScoped names next
    inferInstanceAs (Decidable ((_ → _ ∧ _) ∧
      (_ → ∀ template ∈ (urlTemplates attr).toList, InScope names template) ∧ _))

theorem Scoped.complete {names : List Bytes} {e : XmlElem} (h : Scoped names e) : Complete e := by
  induction e generalizing names with
  | null => trivial
  | elem name cdata attr firstChild next ihchild ihnext =>
    refine ⟨fun hseq => ?_, ihnext h.2.2⟩
    obtain ⟨hnamed, hchild⟩ := h.1 hseq
    exact ⟨hnamed.oneEach, ihchild hchild⟩

/-! ### Templates -/

/-- A character that is neither in the text nor in the values is not in the result. -/
theorem fillParts_avoids {c : UInt8} {t tail : Bytes} {parts : List (Bytes × Bytes)}
    (h : Parse t parts tail) (hc : c ∉ t) {env : Vars}
    (hvalues : ∀ part ∈ parts, c ∉ (env part.2).getD []) : c ∉ fillParts env parts tail := by
  induction h with
  | tail _ => exact hc
  | @part t lit name rest tail parts hleft _ ih =>
    rw [hleft.text] at hc
    simp only [List.mem_append, not_or] at hc
    have hrest := ih hc.2 fun part hpart => hvalues part (List.mem_cons_of_mem _ hpart)
    simp only [fillParts, List.mem_append, not_or]
    exact ⟨⟨hc.1.1, hvalues _ List.mem_cons_self⟩, hrest⟩

theorem fillParts_congr {env env' : Vars} {parts : List (Bytes × Bytes)}
    (h : ∀ part ∈ parts, env part.2 = env' part.2) (tail : Bytes) :
    fillParts env parts tail = fillParts env' parts tail := by
  induction parts with
  | nil => rfl
  | cons part parts ih =>
    obtain ⟨lit, name⟩ := part
    rw [fillParts, fillParts, h _ List.mem_cons_self,
      ih fun part hpart => h part (List.mem_cons_of_mem _ hpart)]

/-- **The loop on a template of bound names** replaces each of them, in any mode. -/
theorem expandLoop_bound {t tail : Bytes} {parts : List (Bytes × Bytes)} (h : Parse t parts tail)
    (h92 : 92 ∉ t) (substList : Option (List SubstRec)) (set : ExpandParam)
    (returnValue : Option Bytes) {state : Vars} (draws : Draws)
    (hbound : ∀ part ∈ parts, (∀ var, part.2 ≠ 61 :: var) ∧ ∃ value, state part.2 = some value)
    {n : ℕ} (hn : parts.length ≤ n) :
    ∃ r cur, expandLoop substList set n ⟨t, returnValue, state, draws⟩ =
        .ok ⟨cur, r, state, draws⟩ ∧
      r.getD [] ++ cur = returnValue.getD [] ++ fillParts state parts tail := by
  induction h generalizing returnValue n with
  | @tail t hlit =>
    refine ⟨returnValue, t, ?_, rfl⟩
    cases n with
    | zero => rfl
    | succ n => simp only [expandLoop, regexec_literal hlit]
  | @part t lit name rest tail parts hleft _ ih =>
    obtain ⟨n, rfl⟩ : ∃ m, n = m + 1 := ⟨n - 1, by simp only [List.length_cons] at hn; omega⟩
    rw [hleft.text] at h92
    simp only [placeholder, List.mem_append, List.mem_cons, not_or] at h92
    have hre := regexec_leftmost hleft (by tauto)
    obtain ⟨hname, value, hvalue⟩ := hbound _ List.mem_cons_self
    obtain ⟨r, cur, hloop, hcur⟩ := ih h92.2 (some (returnValue.getD [] ++ lit ++ value))
      (fun part hpart => hbound part (List.mem_cons_of_mem _ hpart)) (Nat.le_of_succ_le_succ hn)
    refine ⟨r, cur, ?_, ?_⟩
    · simp only [expandLoop, hre, placeholderData, boundData_name hname, hvalue]
      exact hloop
    · rw [hcur, fillParts, hvalue]
      simp only [Option.getD_some, List.append_assoc]

/-- The bindings within sequences of these names: each has an item. -/
structure Bound (names : List Bytes) (env : Vars) : Prop where
  name : ∀ name ∈ names, ∀ var, name ≠ 61 :: var
  item : ∀ name ∈ names, ∃ item, env name = some item ∧ 92 ∉ item ∧ 0 ∉ item

/-- The hash has the items that are bound. -/
def Agrees (names : List Bytes) (state env : Vars) : Prop := ∀ name ∈ names, state name = env name

/-- **A template of bound names** is replaced by its substitution, and nothing else changes. -/
theorem expandTemplate_bound {names : List Bytes} {env state : Vars} (hbound : Bound names env)
    (hagrees : Agrees names state env) {template : Option Bytes}
    (hscope : ∀ t ∈ template.toList, InScope names t) (draws : Draws) :
    expandTemplate template state draws = .ok (template.map (replaced env), state, draws) := by
  cases template with
  | none => rfl
  | some t =>
    obtain ⟨h92, hnames⟩ := hscope t (by simp)
    have hparse := readTemplate_parse h92
    have hsame : ∀ part ∈ (readTemplate (cstr t)).1, state part.2 = env part.2 :=
      fun part hpart => hagrees _ (hnames part hpart)
    have havoids : ∀ part ∈ (readTemplate (cstr t)).1,
        92 ∉ (env part.2).getD [] ∧ 0 ∉ (env part.2).getD [] := by
      intro part hpart
      obtain ⟨item, hitem, h⟩ := hbound.item _ (hnames part hpart)
      rw [hitem]
      exact h
    have hvalues : ∀ part ∈ (readTemplate (cstr t)).1,
        (∀ var, part.2 ≠ 61 :: var) ∧ ∃ value, state part.2 = some value := by
      intro part hpart
      obtain ⟨item, hitem, -⟩ := hbound.item _ (hnames part hpart)
      exact ⟨hbound.name _ (hnames part hpart), item, by rw [hsame part hpart, hitem]⟩
    obtain ⟨r, cur, hloop, hcur⟩ :=
      expandLoop_bound hparse h92 none .passthrough none draws hvalues hparse.length_le
    rw [Option.getD_none, List.nil_append, fillParts_congr hsame] at hcur
    have h92' := fillParts_avoids hparse h92 fun part hpart => (havoids part hpart).1
    have h0 := fillParts_avoids hparse (cstr_noNUL t) fun part hpart => (havoids part hpart).2
    unfold expandTemplate handleParamString
    dsimp only
    rw [hloop]
    dsimp only
    rw [hcur, unescape_plain h92', cstr_of_not_mem h0]
    rfl

/-- The templates of a slot, as strings. -/
def slotTexts (u : Url) : Templates := (slotTemplates u).map cstr

theorem replaced_noNUL {names : List Bytes} {env : Vars} (hbound : Bound names env) {t : Bytes}
    (h : InScope names t) : 0 ∉ replaced env t := by
  refine fillParts_avoids (readTemplate_parse h.plain) (cstr_noNUL t) fun part hpart => ?_
  obtain ⟨item, hitem, -, h0⟩ := hbound.item _ (h.names part hpart)
  rw [hitem]
  exact h0

/-- The templates of a slot in a sequence are replaced. -/
theorem expandUrl_bound {names : List Bytes} {env state : Vars} (hbound : Bound names env)
    (hagrees : Agrees names state env) {u : Url}
    (hscope : ∀ t ∈ (slotTemplates u).toList, InScope names t) (draws : Draws) :
    ∃ u', expandUrl u state draws = .ok (u', state, draws) ∧
      slotTexts u' = (slotTemplates u).map (replaced env) := by
  have hpayload : ∀ t ∈ u.payloadtemplate.toList, InScope names t := fun t ht =>
    hscope t (List.mem_append_left _ (List.mem_append_left _ ht))
  have hrequest : ∀ t ∈ u.requesttemplate.toList, InScope names t := fun t ht =>
    hscope t (List.mem_append_left _ (List.mem_append_right _ ht))
  have hresponse : ∀ t ∈ u.responsetemplate.toList, InScope names t := fun t ht =>
    hscope t (List.mem_append_right _ ht)
  refine ⟨{ u with
    payloadtemplate := u.payloadtemplate.map (replaced env)
    requesttemplate := u.requesttemplate.map (replaced env)
    responsetemplate := u.responsetemplate.map (replaced env) }, ?_, ?_⟩
  · unfold expandUrl
    rw [expandTemplate_bound hbound hagrees hpayload]
    dsimp only
    rw [expandTemplate_bound hbound hagrees hrequest]
    dsimp only
    rw [expandTemplate_bound hbound hagrees hresponse]
  · show ((slotTemplates u).map (replaced env)).map cstr = _
    rw [Templates.map_map]
    exact Templates.map_congr fun t ht => cstr_of_not_mem (replaced_noNUL hbound (hscope t ht))

theorem tail_eq {t tail : Bytes} (h : Parse t [] tail) : tail = t := by
  cases h
  rfl

/-- A template without placeholders is its own substitution. -/
theorem replaced_closed {t : Bytes} (h : InScope [] t) (env : Vars) : replaced env t = cstr t := by
  have hparse := readTemplate_parse h.plain
  have hnil : (readTemplate (cstr t)).1 = [] := by
    rw [List.eq_nil_iff_forall_not_mem]
    exact fun part hpart => List.not_mem_nil (h.names part hpart)
  rw [hnil] at hparse
  unfold replaced
  rw [hnil]
  exact tail_eq hparse

theorem sequenceItems_noNUL {attr : List XmlAttr} {item : Bytes} (h : item ∈ sequenceItems attr) :
    0 ∉ item := by
  unfold sequenceItems at h
  cases hlist : lastNamed XML_URLLIST_SEQUENCE_LIST attr with
  | none =>
    rw [hlist] at h
    cases h
  | some value =>
    rw [hlist] at h
    obtain ⟨piece, hpiece, rfl⟩ := List.mem_map.mp h
    intro h0
    have hmem : 0 ∈ piece := (List.dropWhile_sublist _).mem h0
    exact cstr_noNUL value (Pieces.mem_of_mem_splitOn hpiece hmem)

/-! ### The traversal -/

/-- What a part of the traversal that goes on has done: it has filled slots with these templates, and
has not changed the items of these names. -/
structure Expands (names : List Bytes) (templates : List Templates) (st st' : ParseState) : Prop where
  slots : st'.slots.map (fun slot => slotTexts slot.2) =
    st.slots.map (fun slot => slotTexts slot.2) ++ templates
  state : Agrees names st'.state st.state

theorem Expands.trans {names : List Bytes} {templates more : List Templates}
    {st st₁ st₂ : ParseState} (h : Expands names templates st st₁) (h' : Expands names more st₁ st₂) :
    Expands names (templates ++ more) st st₂ :=
  ⟨by rw [h'.slots, h.slots, List.append_assoc],
    fun name hname => (h'.state name hname).trans (h.state name hname)⟩

theorem Expands.agrees {names : List Bytes} {templates : List Templates} {st st' : ParseState}
    (h : Expands names templates st st') {env : Vars} (hagrees : Agrees names st.state env) :
    Agrees names st'.state env :=
  fun name hname => (h.state name hname).trans (hagrees name hname)

section Traversal

variable {files : Files} {urls : ℤ} {names : List Bytes} {env : Vars} {st st' : ParseState}

theorem skip_expands (h : (skip : Parse) st = (none, st')) : Expands names [] st st' := by
  cases h
  exact ⟨(List.append_nil _).symm, fun _ _ => rfl⟩

/-- **A url element** fills a slot with its templates, replaced.  Outside of a sequence they are left
as they are. -/
theorem fillSlot_expands {inSequence : Bool} {cdata : List Bytes} {attr : List XmlAttr}
    (hbound : Bound names env) (hagrees : Agrees names st.state env)
    (hscope : ∀ t ∈ (urlTemplates attr).toList, InScope names t)
    (houtside : inSequence = false → names = [])
    (h : fillSlot files urls inSequence cdata attr st = (none, st')) :
    Expands names [(urlTemplates attr).map (replaced env)] st st' := by
  unfold fillSlot at h
  dsimp only at h
  split at h
  · cases h
  · split at h
    · cases h
    · next hstat =>
      have htemplates := parseXmlUrlInfo_templates (not_not.mp hstat)
      have hslots : ∀ (u : Url) (slots : List (ℤ × Url)) (i : ℤ), slots = st.slots ++ [(i, u)] →
          slotTexts u = (urlTemplates attr).map (replaced env) →
          slots.map (fun slot => slotTexts slot.2) =
            st.slots.map (fun slot => slotTexts slot.2) ++
              [(urlTemplates attr).map (replaced env)] := by
        intro u slots i heq hu
        rw [heq, List.map_append, List.map_singleton, hu]
      cases inSequence with
      | true =>
        rw [if_pos rfl] at h
        obtain ⟨u, hexpand, hu⟩ := expandUrl_bound hbound hagrees (htemplates ▸ hscope) st.draws
        rw [hexpand] at h
        cases h
        exact ⟨hslots u _ _ rfl (hu.trans (by rw [htemplates])), fun _ _ => rfl⟩
      | false =>
        rw [if_neg Bool.false_ne_true] at h
        cases h
        refine ⟨hslots _ _ _ rfl ?_, fun _ _ => rfl⟩
        rw [houtside rfl] at hscope
        unfold slotTexts
        rw [htemplates]
        exact Templates.map_congr fun t ht => (replaced_closed (hscope t ht) env).symm

/-- **The items of a sequence**, over what the children expand to: they do so with each item bound,
and keep it. -/
theorem forItems_expands {seqname : Bytes} {children : Parse} {items : List Bytes}
    {r : Bytes → List Templates} (hfresh : seqname ∉ names)
    (hchildren : ∀ item ∈ items, ∀ st st' : ParseState,
      Agrees (seqname :: names) st.state (Function.update env seqname (some item)) →
      children st = (none, st') → Expands (seqname :: names) (r item) st st')
    (hagrees : Agrees names st.state env) (h : forItems seqname children items st = (none, st')) :
    Expands names (items.flatMap r) st st' := by
  induction items generalizing st with
  | nil => exact skip_expands h
  | cons item items ih =>
    have hne : ∀ name ∈ names, name ≠ seqname := fun name hname heq => hfresh (heq ▸ hname)
    obtain ⟨st₁, hbind, hrest⟩ := andThen_none.mp h
    obtain ⟨st₂, hone, hmore⟩ := andThen_none.mp hrest
    cases hbind
    have hbound : Agrees (seqname :: names) (Function.update st.state seqname (some item))
        (Function.update env seqname (some item)) := by
      intro name hname
      rcases List.mem_cons.mp hname with rfl | hname
      · rw [Function.update_self, Function.update_self]
      · rw [Function.update_of_ne (hne name hname), Function.update_of_ne (hne name hname)]
        exact hagrees name hname
    have hfirst := hchildren item List.mem_cons_self _ _ hbound hone
    -- the binding that stays in the hash is not one of the enclosing sequences
    have hstate : Agrees names st₂.state st.state := by
      intro name hname
      rw [hfirst.state name (List.mem_cons_of_mem _ hname)]
      exact Function.update_of_ne (hne name hname) _ _
    have hitem : Expands names (r item) st st₂ := ⟨hfirst.slots, hstate⟩
    rw [List.flatMap_cons]
    exact hitem.trans (ih (fun item hmem => hchildren item (List.mem_cons_of_mem _ hmem))
      (hitem.agrees hagrees) hmore)

theorem parseSequence_eq_forItems {attr : List XmlAttr} (h : OneEach attr) (children : Parse) :
    parseSequence attr children = forItems (sequenceName attr) children (sequenceItems attr) := by
  obtain ⟨a, -, hname⟩ := lastNamed_of_one h.name
  obtain ⟨b, -, hlist⟩ := lastNamed_of_one h.list
  funext st
  unfold parseSequence sequenceName sequenceItems
  rw [seqAttrs_eq, hname, hlist]
  rfl

theorem bound_cons {attr : List XmlAttr} (hbound : Bound names env) (h : WellNamed names attr)
    {item : Bytes} (hitem : item ∈ sequenceItems attr) :
    Bound (sequenceName attr :: names) (Function.update env (sequenceName attr) (some item)) := by
  constructor
  · intro name hname var heq
    rcases List.mem_cons.mp hname with rfl | hname
    · exact h.name (by rw [heq]; rfl)
    · exact hbound.name name hname var heq
  · intro name hname
    by_cases heq : name = sequenceName attr
    · subst heq
      exact ⟨item, Function.update_self .., h.items item hitem, sequenceItems_noNUL hitem⟩
    · rw [Function.update_of_ne heq]
      exact hbound.item name ((List.mem_cons.mp hname).resolve_left heq)

/-- **A sequence**, over what the children expand to. -/
theorem parseSequence_expands {attr : List XmlAttr} {children : Parse}
    {r : Vars → List Templates} (hbound : Bound names env) (hnamed : WellNamed names attr)
    (hchildren : ∀ (env : Vars) (st st' : ParseState), Bound (sequenceName attr :: names) env →
      Agrees (sequenceName attr :: names) st.state env → children st = (none, st') →
      Expands (sequenceName attr :: names) (r env) st st')
    (hagrees : Agrees names st.state env) (h : parseSequence attr children st = (none, st')) :
    Expands names ((sequenceItems attr).flatMap fun item =>
      r (Function.update env (sequenceName attr) (some item))) st st' := by
  rw [parseSequence_eq_forItems hnamed.oneEach] at h
  refine forItems_expands hnamed.fresh (fun item hitem st st' hagrees' hrun => ?_) hagrees h
  exact hchildren _ st st' (bound_cons hbound hnamed hitem) hagrees' hrun

/-- **The children of a sequence** expand to their templates, whatever else is in the hash. -/
theorem parseSeqChildren_expands {e : XmlElem} (hscoped : Scoped names e) (hbound : Bound names env)
    (hagrees : Agrees names st.state env) (h : parseSeqChildren files urls e st = (none, st')) :
    Expands names (expansion env e) st st' := by
  induction e generalizing names env st st' with
  | null => exact skip_expands h
  | elem name cdata attr firstChild next ihchild ihnext =>
    obtain ⟨hseq, hurl, hnext⟩ := hscoped
    obtain ⟨st₁, hone, hmore⟩ := andThen_none.mp h
    have hfirst : Expands names (if sameName name XML_URLLIST_SEQUENCE then
        (sequenceItems attr).flatMap fun item =>
          expansion (Function.update env (sequenceName attr) (some item)) firstChild
        else if sameName name XML_URLLIST_URL then [(urlTemplates attr).map (replaced env)]
        else []) st st₁ := by
      split at hone
      · next hname =>
        obtain ⟨hnamed, hchild⟩ := hseq hname
        rw [if_pos hname]
        exact parseSequence_expands (r := fun env => expansion env firstChild) hbound hnamed
          (fun env st st' hbound' hagrees' hrun => ihchild hchild hbound' hagrees' hrun) hagrees hone
      · next hname =>
        rw [if_neg hname]
        split at hone
        · next hname =>
          rw [if_pos hname]
          exact fillSlot_expands hbound hagrees (hurl hname) (fun hfalse => by cases hfalse) hone
        · next hname =>
          rw [if_neg hname]
          exact skip_expands hone
    exact hfirst.trans (ihnext hnext hbound (hfirst.agrees hagrees) hmore)

theorem bound_nil (env : Vars) : Bound [] env :=
  ⟨fun _ hname => absurd hname List.not_mem_nil, fun _ hname => absurd hname List.not_mem_nil⟩

theorem agrees_nil (state env : Vars) : Agrees [] state env :=
  fun _ hname => absurd hname List.not_mem_nil

/-- **The children of the urllist** expand to their templates. -/
theorem parseUrllist_expands {e : XmlElem} (hscoped : Scoped [] e) (env : Vars)
    (h : parseUrllist files urls e st = (none, st')) : Expands [] (expansion env e) st st' := by
  induction e generalizing st st' with
  | null => exact skip_expands h
  | elem name cdata attr firstChild next _ ihnext =>
    obtain ⟨hseq, hurl, hnext⟩ := hscoped
    obtain ⟨st₁, hone, hrest⟩ := andThen_none.mp h
    obtain ⟨st₂, htwo, hmore⟩ := andThen_none.mp hrest
    refine Expands.trans ?_ (ihnext hnext hmore)
    by_cases hname : sameName name XML_URLLIST_SEQUENCE = true
    · rw [if_pos hname] at hone ⊢
      rw [not_url_of_sequence hname] at htwo
      obtain ⟨hnamed, hchild⟩ := hseq hname
      cases htwo
      exact parseSequence_expands (r := fun env => expansion env firstChild) (bound_nil env)
        hnamed (fun env st st' hbound' hagrees' hrun =>
          parseSeqChildren_expands hchild hbound' hagrees' hrun) (agrees_nil _ env) hone
    · rw [if_neg hname] at hone ⊢
      cases hone
      split at htwo
      · next hname =>
        rw [if_pos hname]
        exact fillSlot_expands (bound_nil env) (agrees_nil _ env) (hurl hname) (fun _ => rfl) htwo
      · next hname =>
        rw [if_neg hname]
        exact skip_expands htwo

end Traversal

/-! ### The array of slots -/

theorem setSlots_length (array : List Url) (slots : List (ℤ × Url)) :
    (slots.foldl (fun array slot => array.set slot.1.toNat slot.2) array).length =
      array.length := by
  induction slots generalizing array with
  | nil => rfl
  | cons slot slots ih => rw [List.foldl_cons, ih, List.length_set]

/-- Slots that were filled from the first one on stand at the start of the array. -/
theorem setSlots_take {array : List Url} {slots : List (ℤ × Url)}
    (hindex : slots.map Prod.fst = (List.range slots.length).map fun k : ℕ => (k : ℤ))
    (hlen : slots.length ≤ array.length) :
    (slots.foldl (fun array slot => array.set slot.1.toNat slot.2) array).take slots.length =
      slots.map Prod.snd := by
  induction slots using List.reverseRecOn with
  | nil => rfl
  | append_singleton slots slot ih =>
    rw [List.map_append, List.length_append, List.length_singleton, List.range_succ,
      List.map_append] at hindex
    obtain ⟨hinit, hlast⟩ := List.append_inj' hindex rfl
    simp only [List.map_singleton, List.cons.injEq, and_true] at hlast
    rw [List.length_append, List.length_singleton] at hlen ⊢
    have hfill := ih hinit (by omega)
    have hroom : slots.length <
        (slots.foldl (fun array slot => array.set slot.1.toNat slot.2) array).length := by
      rw [setSlots_length]
      omega
    rw [List.foldl_append, List.foldl_cons, List.foldl_nil, hlast, Int.toNat_natCast,
      List.take_add_one, List.map_append, List.map_singleton]
    congr 1
    · rw [List.take_set_of_le (Nat.le_refl _), hfill]
    · rw [List.getElem?_set_self hroom]
      rfl

/-- Where an initialisation goes on, the steps of the urllist have filled their slots, and the array
has room for them. -/
theorem parseUrls_filled {files : Files} {urllistElem : XmlElem} {values : Values} {draws : Draws}
    {st : ParseState} (h : parseUrls files urllistElem (ParseState.start values draws) = (none, st)) :
    Indexed st ∧ st.slots.length = fills (urllistSteps urllistElem.firstChild) ∧
      (st.slots.length : ℤ) ≤ urlCount urllistElem + 1 ∧ urlCount urllistElem + 1 < 2 ^ 31 ∧
      runSteps files (urlCount urllistElem) (urllistSteps urllistElem.firstChild)
        (ParseState.start values draws) = (none, st) := by
  rcases parseUrls_cases files urllistElem (ParseState.start values draws) with
    ⟨r, hstop⟩ | ⟨hpos, hroom, hrun⟩
  · rw [hstop] at h
    cases h
  · rw [hrun] at h
    have hprogress := runSteps_progress files hroom
      (urllistSteps urllistElem.firstChild) (numbered_start hpos values draws)
    rw [h] at hprogress
    obtain ⟨hnumbered, hlen⟩ := hprogress.done rfl
    have hzero : (ParseState.start values draws).slots.length = 0 := rfl
    rw [hzero, Nat.zero_add] at hlen
    exact ⟨hprogress.indexed, hlen, hnumbered.next ▸ hnumbered.room, hroom, h⟩

/-- The slots of a urllist whose sequences are complete. -/
theorem parseUrls_done {files : Files} {urllistElem : XmlElem} {values : Values} {draws : Draws}
    {st : ParseState} (hcomplete : Complete urllistElem.firstChild)
    (h : parseUrls files urllistElem (ParseState.start values draws) = (none, st)) :
    Indexed st ∧ (st.slots.length : ℤ) = urlCount urllistElem ∧
      parseUrllist files (urlCount urllistElem) urllistElem.firstChild
        (ParseState.start values draws) = (none, st) := by
  obtain ⟨hindexed, hlen, hle, hroom, hrun⟩ := parseUrls_filled h
  refine ⟨hindexed, ?_, by rw [parseUrllist_eq, hrun]⟩
  rw [fills_urllistSteps hcomplete] at hlen
  have htotal : (slotTotal urllistElem.firstChild : ℤ) < 2 ^ 31 := by omega
  rw [urlCount_eq hcomplete, hlen]
  exact (wrapInt_of_lt (Int.natCast_nonneg _) htotal).symm

/-- The array holds the slots that were filled. -/
theorem slotArray_take {urls : ℤ} {st : ParseState} (h : Indexed st)
    (hle : (st.slots.length : ℤ) ≤ urls + 1) :
    (slotArray urls st.slots).take st.slots.length = st.slots.map Prod.snd := by
  refine setSlots_take h ?_
  rw [List.length_replicate]
  omega

/-- **The sequences expand as they should**: where a profile is handed over, and the urllist is one
whose templates have placeholders of the enclosing sequences only, the templates of its slots are
those of the expansion, in order. -/
theorem templates_expanded (uriParse : Bytes → Uri) (files : Files) (profileName : Bytes)
    (rootElem urllistElem : XmlElem) (rounds : ℤ) (values : Values) (draws : Draws)
    (profile : RoundRobinProfile)
    (hfound : findUrllist profileName rootElem = .ok (.success, rounds, urllistElem))
    (hscoped : Scoped [] urllistElem.firstChild)
    (hinit : (roundRobinProfileInit uriParse files profileName rootElem values draws).1 =
      .ok (.success, some profile)) :
    (profile.url.take profile.urls.toNat).map slotTexts =
      expansion (fun _ => none) urllistElem.firstChild := by
  rcases roundRobinProfileInit_slots uriParse files values draws hfound with
    ⟨-, hnone⟩ | ⟨-, hprofile⟩
  · exact absurd hinit (hnone profile)
  · obtain ⟨hdone, hurls, hurl⟩ := hprofile profile hinit
    cases hrun : parseUrls files urllistElem (ParseState.start values draws) with
    | mk r st =>
      rw [hrun] at hdone hurl
      dsimp only at hdone hurl
      subst hdone
      obtain ⟨hindexed, hlen, hlist⟩ := parseUrls_done hscoped.complete hrun
      have hexpands := parseUrllist_expands hscoped (fun _ => none) hlist
      rw [hurl, hurls, ← hlen, Int.toNat_natCast, hlen, slotArray_take hindexed (by omega),
        List.map_map]
      exact hexpands.slots

/-- The profile that an initialisation hands over. -/
def handedOver : Except Abort (Status × Option RoundRobinProfile) → Option RoundRobinProfile
  | .ok (.success, some profile) => some profile
  | _ => none

theorem eq_of_handedOver {r : Except Abort (Status × Option RoundRobinProfile)}
    (h : (handedOver r).isSome = true) : ∃ profile, r = .ok (.success, some profile) := by
  unfold handedOver at h
  split at h
  · exact ⟨_, rfl⟩
  · cases h

theorem templates_expanded_twoItems : ∃ profile : RoundRobinProfile,
    (roundRobinProfileInit (fun _ => ⟨none, none, 0, none, none, none, none, none⟩) noFiles
      (bytes "p") twoItemsConfig (fun _ => none) (fun _ => 0)).1 = .ok (.success, some profile) ∧
    (profile.url.take profile.urls.toNat).map slotTexts =
      [⟨none, some (bytes "/a"), none⟩, ⟨none, some (bytes "/b"), none⟩] := by
  obtain ⟨profile, hinit⟩ := eq_of_handedOver (r := (roundRobinProfileInit
    (fun _ => ⟨none, none, 0, none, none, none, none, none⟩) noFiles (bytes "p") twoItemsConfig
    (fun _ => none) (fun _ => 0)).1) (by decide +kernel)
  refine ⟨profile, hinit, ?_⟩
  rw [templates_expanded _ noFiles (bytes "p") twoItemsConfig twoItemsUrllist 1 (fun _ => none)
    (fun _ => 0) profile twoItems_found (by decide +kernel) hinit]
  decide +kernel

end Flood.UrllistExpansion
