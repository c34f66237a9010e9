import Flood.ProfileInit

/-!
# The steps of the traversal

The traversal of a urllist, written out: a list of steps, each of which binds an item or fills a
slot.  The list depends on the elements only, so what holds of every run is proved by going through
it.

* `parseSeqChildren_eq`, `parseUrllist_eq` — the traversal does these steps in turn.
* `sequenceSteps_eq` — the steps of a sequence that has a name and a list.
* `runSteps_progress` — the slots are filled one behind the other, as many as there are steps to fill
  one.
-/

namespace Flood.UrllistSteps

open Flood.CString Flood.Net Flood.Template Flood.RoundRobin Flood.Config
open Flood.UrlElement Flood.InTurn Flood.ProfileInit

/-- A step of the traversal. -/
inductive ParseStep where
  | bind (seqname item : Bytes)
  | fill (inSequence : Bool) (cdata : List Bytes) (attr : List XmlAttr)
  | stop (r : Except Abort Status)

/-- What a step does. -/
def runStep (files : Files) (urls : ℤ) : ParseStep → Parse
  | .bind seqname item => bindItem seqname item
  | .fill inSequence cdata attr => fillSlot files urls inSequence cdata attr
  | .stop r => fun st => (some r, st)

/-- The steps in turn. -/
def runSteps (files : Files) (urls : ℤ) (steps : List ParseStep) : Parse :=
  inTurn (steps.map (runStep files urls))

/-- The steps of a sequence, over those of its children. -/
def sequenceSteps (attr : List XmlAttr) (children : List ParseStep) : List ParseStep :=
  match seqAttrs attr none none with
  | .error a => [.stop (.error a)]
  | .ok (some seqname, some seqlist) => seqlist.flatMap fun item => .bind seqname item :: children
  | .ok _ => [.stop (.error .unset)]

/-- The steps for the children of a sequence. -/
def childSteps : XmlElem → List ParseStep
  | .null => []
  | .elem name cdata attr firstChild next =>
    (if sameName name XML_URLLIST_SEQUENCE then sequenceSteps attr (childSteps firstChild)
    else if sameName name XML_URLLIST_URL then [.fill true cdata attr]
    else []) ++ childSteps next

/-- The steps for the children of the urllist. -/
def urllistSteps : XmlElem → List ParseStep
  | .null => []
  | .elem name cdata attr firstChild next =>
    (if sameName name XML_URLLIST_SEQUENCE then sequenceSteps attr (childSteps firstChild)
    else if sameName name XML_URLLIST_URL then [.fill false cdata attr]
    else []) ++ urllistSteps next

/-! ### The traversal is its steps -/

section Traversal

variable {files : Files} {urls : ℤ}

theorem runSteps_append (steps more : List ParseStep) :
    runSteps files urls (steps ++ more) =
      andThen (runSteps files urls steps) (runSteps files urls more) := by
  rw [runSteps, List.map_append, inTurn_append]
  rfl

theorem runSteps_singleton (step : ParseStep) :
    runSteps files urls [step] = runStep files urls step := andThen_skip _

theorem forItems_eq (seqname : Bytes) (children : List ParseStep) (seqlist : List Bytes) :
    forItems seqname (runSteps files urls children) seqlist =
      runSteps files urls (seqlist.flatMap fun item => .bind seqname item :: children) := by
  induction seqlist with
  | nil => rfl
  | cons item seqlist ih =>
    rw [forItems, ih, List.flatMap_cons, runSteps_append]
    show _ = andThen (andThen (bindItem seqname item) (runSteps files urls children)) _
    rw [andThen_assoc]

theorem parseSequence_eq (attr : List XmlAttr) (children : List ParseStep) :
    parseSequence attr (runSteps files urls children) =
      runSteps files urls (sequenceSteps attr children) := by
  funext st
  unfold parseSequence sequenceSteps
  cases seqAttrs attr none none with
  | error a => rfl
  | ok found =>
    obtain ⟨seqname, seqlist⟩ := found
    cases seqname with
    | none => rfl
    | some seqname =>
      cases seqlist with
      | none => rfl
      | some seqlist => exact congrFun (forItems_eq seqname children seqlist) st

/-- **The children of a sequence** are done in the steps listed. -/
theorem parseSeqChildren_eq (e : XmlElem) :
    parseSeqChildren files urls e = runSteps files urls (childSteps e) := by
  induction e with
  | null => rfl
  | elem name cdata attr firstChild next ihchild ihnext =>
    rw [parseSeqChildren, childSteps, runSteps_append, ihnext, ihchild, parseSequence_eq]
    congr 1
    split
    · rfl
    · split
      · exact (runSteps_singleton (.fill true cdata attr)).symm
      · rfl

/-- A name is not both that of a sequence and that of a url. -/
theorem not_url_of_sequence {name : Bytes} (h : sameName name XML_URLLIST_SEQUENCE = true) :
    sameName name XML_URLLIST_URL = false := sameName_false h (by decide)

/-- **The children of the urllist** are done in the steps listed. -/
theorem parseUrllist_eq (e : XmlElem) :
    parseUrllist files urls e = runSteps files urls (urllistSteps e) := by
  induction e with
  | null => rfl
  | elem name cdata attr firstChild next _ ihnext =>
    rw [parseUrllist, urllistSteps, runSteps_append, ihnext, parseSeqChildren_eq, parseSequence_eq,
      ← andThen_assoc]
    congr 1
    by_cases hseq : sameName name XML_URLLIST_SEQUENCE = true
    · rw [if_pos hseq, if_pos hseq, not_url_of_sequence hseq]
      exact andThen_skip _
    · rw [if_neg hseq, if_neg hseq]
      split
      · exact (runSteps_singleton (.fill false cdata attr)).symm
      · rfl

end Traversal

/-! ### The attributes of a sequence -/

theorem seqAttrs_eq (attr : List XmlAttr) (seqname : Option Bytes) (seqlist : Option (List Bytes)) :
    seqAttrs attr seqname seqlist =
      .ok (((lastNamed XML_URLLIST_SEQUENCE_NAME attr).map cstr).or seqname,
        ((lastNamed XML_URLLIST_SEQUENCE_LIST attr).map seqItems).or seqlist) := by
  induction attr generalizing seqname seqlist with
  | nil => rfl
  | cons a attr ih =>
    rw [seqAttrs, lastNamed, lastNamed]
    by_cases hname : sameName a.name XML_URLLIST_SEQUENCE_NAME = true
    · have hlist : sameName a.name XML_URLLIST_SEQUENCE_LIST = false :=
        sameName_false hname (by decide)
      rw [if_pos hname, if_pos hname, hlist, ih]
      cases lastNamed XML_URLLIST_SEQUENCE_NAME attr with
      | none => simp
      | some value => simp
    · rw [if_neg hname, if_neg hname, splitSeqlist_eq]
      by_cases hlist : sameName a.name XML_URLLIST_SEQUENCE_LIST = true
      · rw [if_pos hlist, if_pos hlist, Option.or_none]
        show seqAttrs attr seqname (some (seqItems a.value)) = _
        rw [ih]
        cases lastNamed XML_URLLIST_SEQUENCE_LIST attr with
        | none => simp
        | some value => simp
      · rw [if_neg hlist, if_neg hlist, Option.or_none, Option.or_none, ih]

/-- **A sequence with a name and a list** goes through its children for every item. -/
theorem sequenceSteps_eq {attr : List XmlAttr} {seqname value : Bytes}
    (hname : lastNamed XML_URLLIST_SEQUENCE_NAME attr = some seqname)
    (hlist : lastNamed XML_URLLIST_SEQUENCE_LIST attr = some value) (children : List ParseStep) :
    sequenceSteps attr children =
      (seqItems value).flatMap fun item => .bind (cstr seqname) item :: children := by
  rw [sequenceSteps, seqAttrs_eq, hname, hlist]
  rfl

/-- A sequence with one name and one list. -/
structure OneEach (attr : List XmlAttr) : Prop where
  name : (attr.filter fun a => sameName a.name XML_URLLIST_SEQUENCE_NAME).length = 1
  list : (attr.filter fun a => sameName a.name XML_URLLIST_SEQUENCE_LIST).length = 1

instance (attr : List XmlAttr) : Decidable (OneEach attr) :=
  decidable_of_iff (_ ∧ _) ⟨fun h => ⟨h.1, h.2⟩, fun h => ⟨h.1, h.2⟩⟩

/-- The attribute that is the only one of its name. -/
theorem lastNamed_of_one {name : Bytes} {attr : List XmlAttr}
    (h : (attr.filter fun a => sameName a.name name).length = 1) :
    ∃ a, (attr.filter fun a => sameName a.name name) = [a] ∧ lastNamed name attr = some a.value := by
  obtain ⟨a, ha⟩ := List.length_eq_one_iff.mp h
  refine ⟨a, ha, ?_⟩
  have hnone : ∀ attr : List XmlAttr, (attr.filter fun a => sameName a.name name) = [] →
      lastNamed name attr = none := by
    intro attr hnil
    induction attr with
    | nil => rfl
    | cons b attr ih =>
      rw [List.filter_cons] at hnil
      split at hnil
      · cases hnil
      · next hb => rw [lastNamed, ih hnil, if_neg hb]; rfl
  clear h
  induction attr with
  | nil => cases ha
  | cons b attr ih =>
    rw [List.filter_cons] at ha
    rw [lastNamed]
    split at ha
    · next hb =>
      rw [List.cons.injEq] at ha
      rw [hnone attr ha.2, if_pos hb, ha.1]
      rfl
    · next hb => rw [ih ha, Option.some_or]

/-! ### The slots that are filled -/

/-- The number of steps that fill a slot. -/
def fills (steps : List ParseStep) : ℕ :=
  steps.countP fun
    | .fill _ _ _ => true
    | _ => false

theorem fills_append (steps more : List ParseStep) :
    fills (steps ++ more) = fills steps + fills more := List.countP_append

/-- The slots were filled from the first one on. -/
def Indexed (st : ParseState) : Prop :=
  st.slots.map Prod.fst = (List.range st.slots.length).map fun k : ℕ => (k : ℤ)

/-- The slots were filled one behind the other, and the next one is within the array. -/
structure Numbered (urls : ℤ) (st : ParseState) : Prop where
  indexed : Indexed st
  next : st.currentUrl = st.slots.length
  room : st.currentUrl ≤ urls + 1

/-- What is known of the slots behind a part of the traversal that fills `k` slots: where it stops, it
has filled no more of them; where it goes on, it has filled all of them. -/
structure Progress (urls : ℤ) (k : ℕ) (st : ParseState)
    (r : Option (Except Abort Status) × ParseState) : Prop where
  indexed : Indexed r.2
  le : r.2.slots.length ≤ st.slots.length + k
  done : r.1 = none → Numbered urls r.2 ∧ r.2.slots.length = st.slots.length + k

theorem indexed_snoc {st : ParseState} (h : Indexed st) {st' : ParseState} {u : Url}
    (hslots : st'.slots = st.slots ++ [((st.slots.length : ℤ), u)]) : Indexed st' := by
  show st'.slots.map Prod.fst = _
  rw [hslots, List.map_append, List.length_append, List.length_singleton, List.range_succ,
    List.map_append, show st.slots.map Prod.fst = _ from h]
  rfl

theorem fillSlot_progress {files : Files} {urls : ℤ} (hurls : urls + 1 < 2 ^ 31)
    {st : ParseState} (hst : Numbered urls st) (inSequence : Bool) (cdata : List Bytes)
    (attr : List XmlAttr) : Progress urls 1 st (fillSlot files urls inSequence cdata attr st) := by
  have hlen : ∀ u : Url, (st.slots ++ [(st.currentUrl, u)]).length = st.slots.length + 1 := by
    intro u
    simp
  have hsnoc : ∀ (u : Url) (st' : ParseState),
      st'.slots = st.slots ++ [(st.currentUrl, u)] → Indexed st' := by
    intro u st' hslots
    rw [hst.next] at hslots
    exact indexed_snoc hst.indexed hslots
  have hstop : ∀ (u : Url) (e : Except Abort Status) (st' : ParseState),
      st'.slots = st.slots ++ [(st.currentUrl, u)] → Progress urls 1 st (some e, st') := by
    intro u e st' hslots
    exact ⟨hsnoc u st' hslots, Nat.le_of_eq (by rw [hslots, hlen]), fun h => by cases h⟩
  unfold fillSlot
  dsimp only
  split
  · exact hstop {} _ _ rfl
  · next hin =>
    rw [not_or, not_lt, not_lt] at hin
    have hgo : ∀ (u : Url) (st' : ParseState), st'.slots = st.slots ++ [(st.currentUrl, u)] →
        st'.currentUrl = wrapInt 32 (st.currentUrl + 1) → Progress urls 1 st (none, st') := by
      intro u st' hslots hnext
      have hwrap : wrapInt 32 (st.currentUrl + 1) = st.currentUrl + 1 :=
        wrapInt_of_lt (by omega) (by omega)
      refine ⟨hsnoc u st' hslots, Nat.le_of_eq (by rw [hslots, hlen]), fun _ => ⟨⟨?_, ?_, ?_⟩, ?_⟩⟩
      · exact hsnoc u st' hslots
      · rw [hnext, hwrap, hslots, hlen, hst.next]
        rfl
      · rw [hnext, hwrap]
        omega
      · rw [hslots, hlen]
    split
    · exact hstop _ _ _ rfl
    · split
      · split
        · exact hstop _ _ _ rfl
        · exact hgo _ _ rfl rfl
      · exact hgo _ _ rfl rfl

/-- **The slots behind a traversal.** -/
theorem runSteps_progress (files : Files) {urls : ℤ} (hurls : urls + 1 < 2 ^ 31)
    (steps : List ParseStep) {st : ParseState} (hst : Numbered urls st) :
    Progress urls (fills steps) st (runSteps files urls steps st) := by
  induction steps generalizing st with
  | nil => exact ⟨hst.indexed, Nat.le_refl _, fun _ => ⟨hst, rfl⟩⟩
  | cons step steps ih =>
    have hone : Progress urls (fills [step]) st (runStep files urls step st) := by
      cases step with
      | bind seqname item =>
        exact ⟨hst.indexed, Nat.le_refl _, fun _ => ⟨⟨hst.indexed, hst.next, hst.room⟩, rfl⟩⟩
      | fill inSequence cdata attr => exact fillSlot_progress hurls hst inSequence cdata attr
      | stop r => exact ⟨hst.indexed, Nat.le_refl _, fun h => by cases h⟩
    have hfills : fills (step :: steps) = fills [step] + fills steps := fills_append [step] steps
    show Progress urls _ st (andThen (runStep files urls step) (runSteps files urls steps) st)
    unfold andThen
    rw [hfills]
    cases hrun : runStep files urls step st with
    | mk r st₁ =>
      rw [hrun] at hone
      cases r with
      | some r =>
        exact ⟨hone.indexed, Nat.le_trans hone.le (by omega), fun h => by cases h⟩
      | none =>
        obtain ⟨hst₁, hlen₁⟩ := hone.done rfl
        dsimp only at hst₁ hlen₁
        have hrest := ih hst₁
        show Progress urls _ st (runSteps files urls steps st₁)
        refine ⟨hrest.indexed, ?_, ?_⟩
        · have hle := hrest.le
          omega
        · intro hnone
          obtain ⟨hdone, hlen⟩ := hrest.done hnone
          exact ⟨hdone, by omega⟩

end Flood.UrllistSteps
