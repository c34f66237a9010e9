import Flood.SlotCount

/-!
# Sequences without a list

A sequence that has no `sequencelist` is an error, which `count_xml_seq_child` reports as the number
0 of slots; its callers add and multiply that number like any other.

* `runSteps_keeps` — a name that is bound stays bound, so what was expanded shows in the end.
* `countSeqs_level` — the number that a level of sequences counts for.
* `runSteps_lead` — what the traversal does in front of the first sequence.
* `unlisted_refused_iff` — such a urllist is refused, with no sequence expanded, only where nothing
  else counts, or something fails in front of the first sequence.
-/

namespace Flood.UnlistedSequences

open Flood.CString Flood.Net Flood.Template Flood.RoundRobin Flood.Config
open Flood.UrlElement Flood.InTurn Flood.ProfileInit Flood.UrllistSteps Flood.SlotCount

/-! ### Bindings stay -/

/-- A name that has a value keeps one. -/
theorem handleParamString_bound {substList : Option (List Subst.SubstRec)} {set : ExpandParam}
    {template out v : Bytes} {state state' : Vars} {draws draws' : Draws} (hv : state v ≠ none)
    (h : handleParamString substList set template state draws = .ok (out, state', draws')) :
    state' v ≠ none := by
  refine handleParamString_state (P := fun st => st v ≠ none) ?_ h hv
  intro lit name rest htext st d hst
  rcases boundData_vars set name st d with hsame | ⟨var, data, -, -, hupdate⟩
  · rwa [hsame]
  · rw [hupdate]
    by_cases heq : v = var
    · rw [heq, Function.update_self]
      exact Option.some_ne_none _
    · rwa [Function.update_of_ne heq]

theorem expandTemplate_keeps {template out : Option Bytes} {v : Bytes} {state state' : Vars}
    {draws draws' : Draws} (hv : state v ≠ none)
    (h : expandTemplate template state draws = .ok (out, state', draws')) : state' v ≠ none := by
  unfold expandTemplate at h
  split at h
  · cases h
    exact hv
  · split at h
    · cases h
    · next hparam =>
      cases h
      exact handleParamString_bound hv hparam

theorem expandUrl_keeps {u u' : Url} {v : Bytes} {state state' : Vars} {draws draws' : Draws}
    (hv : state v ≠ none) (h : expandUrl u state draws = .ok (u', state', draws')) :
    state' v ≠ none := by
  unfold expandUrl at h
  split at h
  · cases h
  · next hpayload =>
    split at h
    · cases h
    · next hrequest =>
      split at h
      · cases h
      · next hresponse =>
        cases h
        exact expandTemplate_keeps (expandTemplate_keeps (expandTemplate_keeps hv hpayload) hrequest)
          hresponse

/-- **A step of the traversal** leaves what is bound bound. -/
theorem runStep_keeps (files : Files) (urls : ℤ) (step : ParseStep) {st : ParseState} {v : Bytes}
    (hv : st.state v ≠ none) : (runStep files urls step st).2.state v ≠ none := by
  cases step with
  | bind seqname item =>
    show Function.update st.state seqname (some item) v ≠ none
    by_cases heq : v = seqname
    · rw [heq, Function.update_self]
      exact Option.some_ne_none _
    · rwa [Function.update_of_ne heq]
  | fill inSequence cdata attr =>
    show (fillSlot files urls inSequence cdata attr st).2.state v ≠ none
    unfold fillSlot
    dsimp only
    split
    · exact hv
    · split
      · exact hv
      · split
        · split
          · exact hv
          · next hexpand => exact expandUrl_keeps hv hexpand
        · exact hv
  | stop r => exact hv

/-- **The traversal** does. -/
theorem runSteps_keeps (files : Files) (urls : ℤ) (steps : List ParseStep) {st : ParseState}
    {v : Bytes} (hv : st.state v ≠ none) : (runSteps files urls steps st).2.state v ≠ none := by
  refine inTurn_preserves (P := fun st : ParseState => st.state v ≠ none) ?_ hv
  intro f hf s hs
  obtain ⟨step, -, rfl⟩ := List.mem_map.mp hf
  exact runStep_keeps files urls step hs

/-! ### The counters -/

/-- A sequence without a `sequencelist`. -/
def Unlisted (name : Bytes) (attr : List XmlAttr) : Prop :=
  sameName name XML_URLLIST_SEQUENCE = true ∧
    ∀ a ∈ attr, sameName a.name XML_URLLIST_SEQUENCE_LIST = false

instance (name : Bytes) (attr : List XmlAttr) : Decidable (Unlisted name attr) :=
  inferInstanceAs (Decidable (_ ∧ _))

/-- One among an element and its siblings is such a sequence. -/
def LevelUnlisted : XmlElem → Prop
  | .null => False
  | .elem name _ attr _ next => Unlisted name attr ∨ LevelUnlisted next

/-- Such a sequence stands at any depth below an element and its siblings, or among these. -/
def HasUnlisted : XmlElem → Prop
  | .null => False
  | .elem name _ attr firstChild next =>
    Unlisted name attr ∨ HasUnlisted firstChild ∨ HasUnlisted next

instance decidableLevelUnlisted : (e : XmlElem) → Decidable (LevelUnlisted e)
  | .null => isFalse id
  | .elem _ _ _ _ next =>
    have := decidableLevelUnlisted next
    inferInstanceAs (Decidable (_ ∨ _))

/-- The number of items in the lists of a sequence. -/
def itemCount (attr : List XmlAttr) : ℕ :=
  ((attr.filter fun a => sameName a.name XML_URLLIST_SEQUENCE_LIST).map fun a =>
    (seqItems a.value).length).sum

/-- The slots that the sequences among an element and its siblings count for: the items of each times
the slots of its children, where the sequences of a level with one without a list count for none. -/
def seqSlots : XmlElem → ℤ
  | .null => 0
  | .elem name _ attr firstChild next =>
    (if sameName name XML_URLLIST_SEQUENCE then
      itemCount attr * ((if LevelUnlisted firstChild then 0 else seqSlots firstChild) +
        countNamed XML_URLLIST_URL firstChild)
    else 0) + seqSlots next

/-- The slots that a level counts for. -/
def levelSlots (e : XmlElem) : ℤ :=
  (if LevelUnlisted e then 0 else seqSlots e) + countNamed XML_URLLIST_URL e

/-- A sequence has an item as soon as it has a list. -/
theorem itemCount_zero_iff (attr : List XmlAttr) :
    itemCount attr = 0 ↔ ∀ a ∈ attr, sameName a.name XML_URLLIST_SEQUENCE_LIST = false := by
  induction attr with
  | nil => exact ⟨fun _ => nofun, fun _ => rfl⟩
  | cons a attr ih =>
    rw [itemCount, List.filter_cons, List.forall_mem_cons, ← ih]
    by_cases hlist : sameName a.name XML_URLLIST_SEQUENCE_LIST = true
    · have hpos := List.length_pos_iff.mpr (seqItems_ne_nil a.value)
      rw [if_pos hlist, List.map_cons, List.sum_cons, hlist]
      constructor
      · intro hzero
        omega
      · rintro ⟨h, -⟩
        cases h
    · rw [if_neg hlist]
      exact ⟨fun h => ⟨Bool.eq_false_iff.mpr hlist, h⟩, fun h => h.2⟩

/-- **What `count_xml_seq_child` arrives at**: the number 0 at a level with a sequence without a list,
and otherwise the slots of its sequences, in the arithmetic of an `int`. -/
theorem countSeqs_level (e : XmlElem) (x : ℤ) :
    countSeqs e (wrapInt 32 x) =
      if LevelUnlisted e then 0 else wrapInt 32 (x + seqSlots e) := by
  induction e generalizing x with
  | null => simp [countSeqs, seqSlots, LevelUnlisted]
  | elem name cdata attr firstChild next ihchild ihnext =>
    have hcount : seqListCount attr 0 = itemCount attr := by
      rw [seqListCount_sum, Nat.zero_add, itemCount]
    rw [seqSlots]
    by_cases hseq : sameName name XML_URLLIST_SEQUENCE = true
    · rw [if_pos hseq]
      by_cases hnone : itemCount attr = 0
      · have hbad : LevelUnlisted (.elem name cdata attr firstChild next) :=
          .inl ⟨hseq, (itemCount_zero_iff attr).mp hnone⟩
        rw [countSeqs, if_pos hseq, hcount, if_pos hnone, if_pos hbad]
      · have hgood : LevelUnlisted (.elem name cdata attr firstChild next) ↔ LevelUnlisted next :=
          or_iff_right fun h => hnone ((itemCount_zero_iff attr).mpr h.2)
        have hchild : countSeqs firstChild 0 =
            wrapInt 32 (if LevelUnlisted firstChild then 0 else seqSlots firstChild) := by
          have hzero := ihchild 0
          rw [show wrapInt 32 0 = 0 from rfl, Int.zero_add] at hzero
          rw [hzero]
          split
          · rfl
          · rfl
        rw [countSeqs_sequence hseq (by rwa [hcount]) hchild, ihnext, hcount, Int.add_assoc]
        simp only [hgood]
    · have hsame : LevelUnlisted (.elem name cdata attr firstChild next) ↔ LevelUnlisted next :=
        or_iff_right fun h => hseq h.1
      rw [countSeqs, if_neg hseq, if_neg hseq, ihnext, Int.zero_add]
      simp only [hsame]

/-- **`p->urls`** is the number of slots that the children of the urllist count for. -/
theorem urlCount_level (urllistElem : XmlElem) :
    urlCount urllistElem = wrapInt 32 (levelSlots urllistElem.firstChild) := by
  have hzero := countSeqs_level urllistElem.firstChild 0
  rw [show wrapInt 32 0 = 0 from rfl, Int.zero_add] at hzero
  rw [urlCount, countXmlSeqChild, hzero, countXmlElemChild, wrapInt_add_right, levelSlots]
  split
  · rfl
  · rw [wrapInt_add_wrapInt]

/-! ### In front of the first sequence -/

/-- What the traversal comes to first. -/
inductive Lead where
  /-- a url element that cannot be parsed -/
  | failed
  /-- a url element for which there is no slot -/
  | noSlot
  /-- a sequence -/
  | sequence
  /-- the end of the urllist -/
  | ended
  deriving DecidableEq

/-- What comes first among an element and its siblings, with the index of the next slot and the memory
of the values. -/
def lead (files : Files) (urls : ℤ) : XmlElem → ℤ → Values → Lead
  | .null, _, _ => .ended
  | .elem name cdata attr _ next, i, values =>
    if sameName name XML_URLLIST_SEQUENCE then .sequence
    else if sameName name XML_URLLIST_URL then
      if i < 0 ∨ urls < i then .noSlot
      else
        match parseXmlUrlInfo files cdata attr {} values with
        | (stat, _, values) =>
          if stat ≠ .success then .failed else lead files urls next (wrapInt 32 (i + 1)) values
    else lead files urls next i values

/-- No name of a sequence has been bound. -/
def Unexpanded (st : ParseState) : Prop := ∀ seqname, st.state seqname = none

/-- What a traversal from a state on ends in, by what it comes to first. -/
def Outcome (st : ParseState) (r : Option (Except Abort Status) × ParseState) : Lead → Prop
  | .failed => ∃ stat, stat ≠ .success ∧ r.1 = some (.ok stat) ∧ r.2.state = st.state
  | .noSlot => ∃ a, r.1 = some (.error a)
  | .sequence => (∃ a, r.1 = some (.error a)) ∨ ¬ Unexpanded r.2
  | .ended => r.1 = none ∧ r.2.state = st.state

/-- **A sequence** that is come to is expanded, or ends the process. -/
theorem runSteps_sequence (files : Files) (urls : ℤ) (attr : List XmlAttr)
    (children more : List ParseStep) (st : ParseState) :
    Outcome st (runSteps files urls (sequenceSteps attr children ++ more) st) .sequence := by
  rw [sequenceSteps, seqAttrs_eq]
  cases hname : lastNamed XML_URLLIST_SEQUENCE_NAME attr with
  | none => exact .inl ⟨_, rfl⟩
  | some seqname =>
    cases hlist : lastNamed XML_URLLIST_SEQUENCE_LIST attr with
    | none => exact .inl ⟨_, rfl⟩
    | some value =>
      right
      obtain ⟨item, items, hitems⟩ := List.exists_cons_of_ne_nil (seqItems_ne_nil value)
      have hbind : ∀ rest, runSteps files urls (.bind (cstr seqname) item :: rest) st =
          runSteps files urls rest
            { st with state := Function.update st.state (cstr seqname) (some item) } :=
        fun _ => rfl
      simp only [Option.map_some, Option.some_or, hitems, List.flatMap_cons, List.cons_append, hbind]
      intro hnone
      refine runSteps_keeps files urls _ (v := cstr seqname) ?_ (hnone (cstr seqname))
      show Function.update st.state (cstr seqname) (some item) (cstr seqname) ≠ none
      rw [Function.update_self]
      exact Option.some_ne_none _

/-- **The traversal**, by what it comes to first. -/
theorem runSteps_lead (files : Files) (urls : ℤ) (e : XmlElem) (st : ParseState) :
    Outcome st (runSteps files urls (urllistSteps e) st)
      (lead files urls e st.currentUrl st.values) := by
  induction e generalizing st with
  | null => exact ⟨rfl, rfl⟩
  | elem name cdata attr firstChild next _ ihnext =>
    rw [urllistSteps, lead]
    by_cases hseq : sameName name XML_URLLIST_SEQUENCE = true
    · rw [if_pos hseq, if_pos hseq]
      exact runSteps_sequence files urls attr _ _ st
    · rw [if_neg hseq, if_neg hseq]
      by_cases hurl : sameName name XML_URLLIST_URL = true
      · rw [if_pos hurl, if_pos hurl]
        show Outcome st (andThen (fillSlot files urls false cdata attr)
          (runSteps files urls (urllistSteps next)) st) _
        by_cases hslot : st.currentUrl < 0 ∨ urls < st.currentUrl
        · rw [if_pos hslot, andThen, fillSlot, if_pos hslot]
          exact ⟨_, rfl⟩
        · rw [if_neg hslot, andThen, fillSlot, if_neg hslot]
          rcases parseXmlUrlInfo files cdata attr {} st.values with ⟨stat, u, values⟩
          dsimp only
          by_cases hstat : stat ≠ .success
          · rw [if_pos hstat, if_pos hstat]
            exact ⟨stat, hstat, rfl, rfl⟩
          · rw [if_neg hstat, if_neg hstat]
            exact ihnext { st with
              slots := st.slots ++ [(st.currentUrl, u)], values := values
              currentUrl := wrapInt 32 (st.currentUrl + 1) }
      · rw [if_neg hurl, if_neg hurl]
        exact ihnext st

/-! ### The substitution list -/

/-- The substitution list has one child more than it has entries. -/
def SubstSurplus (rootElem : XmlElem) : Prop :=
  ((retrieveXmlElemChild rootElem XML_SUBST_LIST).firstChild.siblings.length : ℤ) =
    countXmlElemChild (retrieveXmlElemChild rootElem XML_SUBST_LIST) XML_SUBST_ENTRY + 1

instance (rootElem : XmlElem) : Decidable (SubstSurplus rootElem) :=
  inferInstanceAs (Decidable (_ = _))

/-- **The substitution list is refused** just where it has a child too many. -/
theorem parseSubstList_refused_iff (files : Files) (rootElem : XmlElem) :
    (∃ stat list, stat ≠ .success ∧ parseSubstList files rootElem = .ok (stat, list)) ↔
      SubstSurplus rootElem := by
  unfold SubstSurplus
  generalize hsubst : retrieveXmlElemChild rootElem XML_SUBST_LIST = e
  by_cases hnull : e = .null
  · subst hnull
    rw [parseSubstList, hsubst]
    constructor
    · rintro ⟨stat, list, hstat, heq⟩
      cases heq
      exact absurd rfl hstat
    · intro hsurplus
      exact absurd hsurplus (by decide)
  · rw [parseSubstList_eq files hsubst hnull]
    by_cases hsame : (e.firstChild.siblings.length : ℤ) = countXmlElemChild e XML_SUBST_ENTRY
    · rw [if_pos hsame]
      refine iff_of_false ?_ (by omega)
      rintro ⟨stat, list, hstat, heq⟩
      cases hopen : openSubsts files (e.firstChild.siblings.map entryRec ++ [emptyRec]) with
      | error a =>
        rw [hopen] at heq
        cases heq
      | ok opened =>
        rw [hopen] at heq
        cases heq
        exact hstat rfl
    · rw [if_neg hsame]
      by_cases hsurplus : (e.firstChild.siblings.length : ℤ) =
          countXmlElemChild e XML_SUBST_ENTRY + 1
      · rw [if_pos hsurplus]
        exact iff_of_true ⟨.egeneral, _, by decide, rfl⟩ hsurplus
      · rw [if_neg hsurplus]
        refine iff_of_false ?_ hsurplus
        rintro ⟨stat, list, -, heq⟩
        cases heq

/-! ### The initialisation -/

/-- A child that may be missing has text where it is there. -/
def TextIfAny (elem : XmlElem) (name : Bytes) : Prop :=
  match retrieveXmlElemChild elem name with
  | .null => True
  | .elem _ cdata _ _ _ => cdata ≠ []

theorem optionalText_ok_iff (elem : XmlElem) (name : Bytes) :
    (∃ text, optionalText elem name = .ok text) ↔ TextIfAny elem name := by
  unfold optionalText TextIfAny
  cases retrieveXmlElemChild elem name with
  | null => exact ⟨fun _ => trivial, fun _ => ⟨none, rfl⟩⟩
  | elem n cdata attr firstChild next =>
    cases cdata with
    | nil =>
      constructor
      · rintro ⟨text, h⟩
        cases h
      · intro h
        exact absurd rfl h
    | cons text cdata => exact ⟨fun _ => List.cons_ne_nil _ _, fun _ => ⟨some text, rfl⟩⟩

/-- An error is returned, and no sequence was expanded. -/
def Refused (r : Except Abort (Status × Option RoundRobinProfile) × ParseState) : Prop :=
  (∃ stat, stat ≠ .success ∧ r.1 = .ok (stat, none)) ∧ Unexpanded r.2

/-- What a urllist is refused for, with no sequence expanded. -/
def Refusable (files : Files) (rootElem urllistElem : XmlElem) (values : Values) : Prop :=
  let urls := wrapInt 32 (levelSlots urllistElem.firstChild)
  TextIfAny urllistElem XML_URLLIST_BASE_URL ∧ TextIfAny urllistElem XML_URLLIST_PROXY_URL ∧
    (urls ≤ 0 ∨ urls + 1 < 2 ^ 31 ∧
      (lead files urls urllistElem.firstChild 0 values = .failed ∨
        lead files urls urllistElem.firstChild 0 values = .ended ∧ SubstSurplus rootElem))

/-- What the traversal has to end in. -/
def RunRefused (rootElem : XmlElem) (r : Option (Except Abort Status) × ParseState) : Prop :=
  Unexpanded r.2 ∧
    ((∃ stat, stat ≠ .success ∧ r.1 = some (.ok stat)) ∨ r.1 = none ∧ SubstSurplus rootElem)

/-- A traversal that ends the process is not refused. -/
theorem not_runRefused {rootElem : XmlElem} {r : Option (Except Abort Status) × ParseState}
    {a : Abort} (h : r.1 = some (.error a)) : ¬ RunRefused rootElem r := by
  rintro ⟨-, ⟨stat, -, hr⟩ | ⟨hr, -⟩⟩
  · rw [h] at hr
    cases hr
  · rw [h] at hr
    cases hr

theorem runRefused_iff (files : Files) (rootElem urllistElem : XmlElem) (values : Values)
    (draws : Draws) :
    RunRefused rootElem (parseUrls files urllistElem (ParseState.start values draws)) ↔
      (urlCount urllistElem ≤ 0 ∨ urlCount urllistElem + 1 < 2 ^ 31 ∧
        (lead files (urlCount urllistElem) urllistElem.firstChild 0 values = .failed ∨
          lead files (urlCount urllistElem) urllistElem.firstChild 0 values = .ended ∧
            SubstSurplus rootElem)) := by
  have hlt : urlCount urllistElem < 2 ^ 31 := wrapInt_lt 31 _
  have hstart : Unexpanded (ParseState.start values draws) := fun _ => rfl
  unfold parseUrls
  by_cases hnone : urlCount urllistElem ≤ 0
  · rw [if_pos hnone]
    exact ⟨fun _ => .inl hnone, fun _ => ⟨hstart, .inl ⟨.egeneral, nofun, rfl⟩⟩⟩
  · rw [if_neg hnone]
    by_cases hroom : urlCount urllistElem + 1 < 2 ^ 31
    · have hwrap : wrapInt 32 (urlCount urllistElem + 1) = urlCount urllistElem + 1 :=
        wrapInt_of_lt (w := 31) (by omega) hroom
      rw [if_neg (by rw [hwrap]; omega), parseUrllist_eq, or_iff_right hnone,
        and_iff_right hroom]
      have hrun := runSteps_lead files (urlCount urllistElem) urllistElem.firstChild
        (ParseState.start values draws)
      rw [show (ParseState.start values draws).currentUrl = 0 from rfl,
        show (ParseState.start values draws).values = values from rfl] at hrun
      generalize runSteps files (urlCount urllistElem) (urllistSteps urllistElem.firstChild)
        (ParseState.start values draws) = r at hrun
      cases hlead : lead files (urlCount urllistElem) urllistElem.firstChild 0 values with
      | failed =>
        rw [hlead] at hrun
        obtain ⟨stat, hstat, hr, hstate⟩ := hrun
        refine ⟨fun _ => .inl rfl, fun _ => ⟨fun seqname => ?_, .inl ⟨stat, hstat, hr⟩⟩⟩
        rw [hstate]
        rfl
      | noSlot =>
        rw [hlead] at hrun
        obtain ⟨a, hr⟩ := hrun
        refine iff_of_false (not_runRefused hr) ?_
        rintro (h | ⟨h, -⟩)
        · cases h
        · cases h
      | sequence =>
        rw [hlead] at hrun
        apply iff_of_false
        · rcases hrun with ⟨a, hr⟩ | hbound
          · exact not_runRefused hr
          · exact fun h => hbound h.1
        · rintro (h | ⟨h, -⟩)
          · cases h
          · cases h
      | ended =>
        rw [hlead] at hrun
        obtain ⟨hr, hstate⟩ := hrun
        constructor
        · rintro ⟨-, ⟨stat, -, hr'⟩ | ⟨-, hsurplus⟩⟩
          · rw [hr] at hr'
            cases hr'
          · exact .inr ⟨rfl, hsurplus⟩
        · rintro (h | ⟨-, hsurplus⟩)
          · cases h
          · refine ⟨fun seqname => ?_, .inr ⟨hr, hsurplus⟩⟩
            rw [hstate]
            rfl
    · have hmax : urlCount urllistElem = 2147483647 := by omega
      have hwrap : wrapInt 32 (urlCount urllistElem + 1) ≤ 0 := by
        rw [hmax]
        decide
      rw [if_pos hwrap]
      refine iff_of_false (not_runRefused rfl) ?_
      rintro (h | ⟨h, -⟩)
      · exact hnone h
      · exact hroom h

/-- An initialisation that ends the process is not refused. -/
theorem not_refused {a : Abort} {st : ParseState} : ¬ Refused (.error a, st) := by
  rintro ⟨⟨stat, -, h⟩, -⟩
  cases h

/-- **An initialisation that finds its urllist** refuses it, with no sequence expanded, in these cases. -/
theorem refused_iff (uriParse : Bytes → Uri) (files : Files) {profileName : Bytes}
    {rootElem urllistElem : XmlElem} {rounds : ℤ} (values : Values) (draws : Draws)
    (hfound : findUrllist profileName rootElem = .ok (.success, rounds, urllistElem)) :
    Refused (roundRobinProfileInit uriParse files profileName rootElem values draws) ↔
      Refusable files rootElem urllistElem values := by
  have hrun := runRefused_iff files rootElem urllistElem values draws
  rw [urlCount_level] at hrun
  unfold Refusable
  dsimp only
  rw [← hrun, ← optionalText_ok_iff, ← optionalText_ok_iff]
  unfold roundRobinProfileInit
  rw [hfound]
  dsimp only
  rw [if_neg (not_not.mpr rfl)]
  cases optionalText urllistElem XML_URLLIST_BASE_URL with
  | error a =>
    refine iff_of_false not_refused ?_
    rintro ⟨⟨text, h⟩, -⟩
    cases h
  | ok baseurl =>
    cases optionalText urllistElem XML_URLLIST_PROXY_URL with
    | error a =>
      refine iff_of_false not_refused ?_
      rintro ⟨-, ⟨text, h⟩, -⟩
      cases h
    | ok proxyurl =>
      rw [and_iff_right ⟨baseurl, rfl⟩, and_iff_right ⟨proxyurl, rfl⟩]
      dsimp only
      rcases parseUrls files urllistElem (ParseState.start values draws) with ⟨r, st⟩
      cases r with
      | some r =>
        cases r with
        | error a => exact iff_of_false not_refused (not_runRefused rfl)
        | ok stat =>
          constructor
          · rintro ⟨⟨stat', hstat, h⟩, hun⟩
            cases h
            exact ⟨hun, .inl ⟨stat, hstat, rfl⟩⟩
          · rintro ⟨hun, ⟨stat', hstat, h⟩ | ⟨h, -⟩⟩
            · cases h
              exact ⟨⟨stat, hstat, rfl⟩, hun⟩
            · cases h
      | none =>
        dsimp only
        have hsubst := parseSubstList_refused_iff files rootElem
        cases hlist : parseSubstList files rootElem with
        | error a =>
          refine iff_of_false not_refused ?_
          rintro ⟨-, ⟨stat, -, h⟩ | ⟨-, hsurplus⟩⟩
          · cases h
          · obtain ⟨stat, list, -, hok⟩ := hsubst.mpr hsurplus
            rw [hlist] at hok
            cases hok
        | ok found =>
          obtain ⟨stat, substList⟩ := found
          dsimp only
          by_cases hstat : stat ≠ .success
          · rw [if_pos hstat]
            constructor
            · rintro ⟨-, hun⟩
              exact ⟨hun, .inr ⟨rfl, hsubst.mp ⟨stat, substList, hstat, hlist⟩⟩⟩
            · rintro ⟨hun, -⟩
              exact ⟨⟨stat, hstat, rfl⟩, hun⟩
          · rw [if_neg hstat]
            constructor
            · rintro ⟨⟨stat', -, h⟩, -⟩
              cases h
            · rintro ⟨-, ⟨stat', -, h⟩ | ⟨-, hsurplus⟩⟩
              · cases h
              · obtain ⟨stat', list, hstat', hok⟩ := hsubst.mpr hsurplus
                rw [hlist] at hok
                cases hok
                exact absurd hstat' hstat

/-- **A urllist with a sequence that has no list**, at any depth, is refused with no sequence
expanded exactly where its `baseurl` and its `proxyurl` have text and no slots are counted, or a url
element in front of the first sequence cannot be parsed, or no sequence is come to and the substitution
list has a child too many. -/
theorem unlisted_refused_iff (uriParse : Bytes → Uri) (files : Files) (profileName : Bytes)
    (rootElem urllistElem : XmlElem) (rounds : ℤ) (values : Values) (draws : Draws)
    (hfound : findUrllist profileName rootElem = .ok (.success, rounds, urllistElem)) :
    (HasUnlisted urllistElem.firstChild →
        Refused (roundRobinProfileInit uriParse files profileName rootElem values draws)) ↔
      (HasUnlisted urllistElem.firstChild → Refusable files rootElem urllistElem values) :=
  imp_congr_right fun _ => refused_iff uriParse files values draws hfound

/-- A sequence without a list, with a url. -/
def unlistedSequence : XmlElem :=
  .elem XML_URLLIST_SEQUENCE [] [⟨0, XML_URLLIST_SEQUENCE_NAME, bytes "y"⟩]
    (.elem XML_URLLIST_URL [] [⟨1, XML_URLLIST_REQUEST_TEMPLATE, bytes "/y"⟩] .null .null) .null

/-- A urllist of given children. -/
def urllistOf (children : XmlElem) : XmlElem :=
  .elem XML_URLLIST [] [] (.elem XML_URLLIST_NAME [bytes "u"] [] .null children) .null

/-- A configuration with that urllist. -/
def configOf (children : XmlElem) : XmlElem :=
  .elem (bytes "flood") [] []
    (.elem XML_PROFILE [] []
      (.elem (bytes "name") [bytes "p"] [] .null
        (.elem XML_PROFILE_USEURLLIST [bytes "u"] [] .null .null))
      (urllistOf children))
    .null

theorem unlisted_refused_alone :
    HasUnlisted (urllistOf unlistedSequence).firstChild ∧
      Refused (roundRobinProfileInit (fun _ => ⟨none, none, 0, none, none, none, none, none⟩)
        noFiles (bytes "p") (configOf unlistedSequence) (fun _ => none) (fun _ => 0)) := by
  -- behind the name of the urllist
  have hunlisted : HasUnlisted (urllistOf unlistedSequence).firstChild :=
    .inr (.inr (.inl (by decide)))
  refine ⟨hunlisted, (unlisted_refused_iff _ noFiles (bytes "p") (configOf unlistedSequence)
    (urllistOf unlistedSequence) 1 (fun _ => none) (fun _ => 0) (by decide +kernel)).mpr ?_ hunlisted⟩
  exact fun _ => ⟨trivial, trivial, .inl (by decide +kernel)⟩

/-- A sequence of one item, with a url and the sequence without a list. -/
def nestedSequence : XmlElem :=
  .elem XML_URLLIST_SEQUENCE []
    [⟨2, XML_URLLIST_SEQUENCE_NAME, bytes "x"⟩, ⟨3, XML_URLLIST_SEQUENCE_LIST, bytes "a"⟩]
    (.elem XML_URLLIST_URL [] [⟨4, XML_URLLIST_REQUEST_TEMPLATE, bytes "/x"⟩] .null
      unlistedSequence)
    .null

/-- The number 0 of the inner sequence is added to the 1 of its neighbour: the outer sequence is
expanded. -/
theorem nestedSequence_expanded :
    ∃ (uriParse : Bytes → Uri) (files : Files) (profileName : Bytes) (rootElem urllistElem : XmlElem)
      (rounds : ℤ) (values : Values) (draws : Draws),
      findUrllist profileName rootElem = .ok (.success, rounds, urllistElem) ∧
      HasUnlisted urllistElem.firstChild ∧
      ¬ Refused (roundRobinProfileInit uriParse files profileName rootElem values draws) := by
  have hfound : findUrllist (bytes "p") (configOf nestedSequence) =
      .ok (.success, 1, urllistOf nestedSequence) := by decide +kernel
  refine ⟨fun _ => ⟨none, none, 0, none, none, none, none, none⟩, noFiles, bytes "p",
    configOf nestedSequence, urllistOf nestedSequence, 1, fun _ => none, fun _ => 0, hfound, ?_, ?_⟩
  · -- behind the name, below the sequence, behind its url
    exact .inr (.inr (.inr (.inl (.inr (.inr (.inl (by decide)))))))
  · intro hrefused
    obtain ⟨-, -, hcount | ⟨-, hlead | ⟨hlead, -⟩⟩⟩ :=
      (refused_iff _ noFiles (fun _ => none) (fun _ => 0) hfound).mp hrefused
    · revert hcount
      decide +kernel
    · revert hlead
      decide +kernel
    · revert hlead
      decide +kernel

end Flood.UnlistedSequences
