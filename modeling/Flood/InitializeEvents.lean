import Flood.ProfileTables
import Mathlib.Data.List.Infix

/-!
# Binding the events of a profile

`initialize_events` binds every event to its generic implementation, lets the group elements of the
profile (`report`, `socket`, `profiletype`) override those, and lets the elements named like an event
override both.

* `overrideEach_spec` — what a loop over element names leaves, when an assignment touches the events
  of its own name only.
* `overrideEach_congr` — such a loop looks at the first child of each name.
* `initializeEvents_pieces` — every event is bound to what its own element names, else to what its
  group prescribes, else to the generic implementation, where only the first piece of a text counts;
  names that are not in the tables fail.
* `whole_of_listed` — no name in the tables begins with another one.
* `initializeEvents_iff` — when the profile is bound as its texts say.
-/

namespace Flood.InitializeEvents

open Flood.CString Flood.Net Flood.Config Flood.ProfileTables

/-- The loops of `initialize_events`: for each name in turn, the text of the first child of that name
is assigned; `assign` is the function called. -/
def overrideEach (assign : ProfileEvents → Bytes → Bytes → Status × ProfileEvents)
    (profileElem : XmlElem) :
    List Bytes → ProfileEvents → Except Abort (Status × ProfileEvents)
  | [], events => .ok (.success, events)
  | p :: names, events =>
    match retrieveXmlElemChild profileElem p with
    | .null => overrideEach assign profileElem names events
    | .elem _ [] _ _ _ => .error .fault
    | .elem _ (text :: _) _ _ _ =>
      match assign events p text with
      | (stat, events) =>
        if stat ≠ .success then .ok (stat, events)
        else overrideEach assign profileElem names events

/-- `initialize_events`; with a status other than `APR_SUCCESS` the events are not handed over. -/
def initializeEvents (profileName : Bytes) (rootElem : XmlElem) :
    Except Abort (Status × ProfileEvents) :=
  match createProfileEvents with
  | (stat, newEvents) =>
    if stat ≠ .success then .ok (stat, newEvents)
    else
      match retrieveXmlElemWithChildmatch rootElem XML_PROFILE (bytes "name") profileName with
      | .error a => .error a
      | .ok .null => .ok (.egeneral, newEvents)
      | .ok profileElem =>
        match overrideEach assignProfileGroupHandler profileElem profileGroupHandlerNames
            newEvents with
        | .error a => .error a
        | .ok (stat, newEvents) =>
          if stat ≠ .success then .ok (stat, newEvents)
          else
            overrideEach assignProfileEventHandler profileElem profileEventHandlerNames newEvents

/-! ### What a profile prescribes -/

/-- The text of the first child of a name. -/
def childText (elem : XmlElem) (name : Bytes) : Option Bytes :=
  (retrieveXmlElemChild elem name).node.bind fun n => n.cdata.head?

/-- The group elements and the event elements of a profile have text. -/
def HasTexts (profileElem : XmlElem) : Prop :=
  ∀ n ∈ profileElem.firstChild.siblings,
    ∀ p ∈ profileGroupHandlerNames ++ profileEventHandlerNames, sameName n.name p → n.cdata ≠ []

/-- The text of the first child of a name, with all of its pieces. -/
def fullText (elem : XmlElem) (name : Bytes) : Option Bytes :=
  (retrieveXmlElemChild elem name).node.map textOf

/-- The first pieces are the whole texts. -/
def Whole (profileElem : XmlElem) : Prop :=
  ∀ p ∈ profileGroupHandlerNames ++ profileEventHandlerNames,
    fullText profileElem p = (childText profileElem p).map cstr

section Prescribed

variable (text : Bytes → Option Bytes)

/-- The implementation that the group element of the event prescribes, if the named group contains
the event. -/
def groupImpl (ev : EventName) : Option Impl :=
  ev.groupClass.bind fun className => (text className).bind fun groupName =>
    (findGroup className groupName).bind ev.implInGroup

/-- The implementation that the event's own element names, else the one of its group, else the
generic one. -/
def prescribed (ev : EventName) : Option Impl :=
  match text ev.name with
  | some implName => ev.implNamed implName
  | none => (groupImpl text ev).or (some ev.generic)

/-- Every group and every implementation that the profile names is in the tables. -/
structure AllListed : Prop where
  groups : ∀ className ∈ profileGroupHandlerNames, ∀ groupName,
    text className = some groupName → findGroup className groupName ≠ none
  impls : ∀ ev : EventName, ∀ implName,
    text ev.name = some implName → ev.implNamed implName ≠ none

instance : Decidable (AllListed text) :=
  decidable_of_iff
    ((∀ className ∈ profileGroupHandlerNames, ∀ groupName ∈ text className,
        findGroup className groupName ≠ none) ∧
      ∀ ev ∈ EventName.all, ∀ implName ∈ text ev.name, ev.implNamed implName ≠ none)
    ⟨fun h => ⟨h.1, fun ev => h.2 ev ev.mem_all⟩, fun h => ⟨h.groups, fun ev _ => h.impls ev⟩⟩

end Prescribed

/-! ### A loop over element names -/

section Loop

variable {assign : ProfileEvents → Bytes → Bytes → Status × ProfileEvents} {p : Bytes}
  {names : List Bytes} {profileElem : XmlElem}

theorem overrideEach_accepted {n text : Bytes} {more : List Bytes} {attr : List XmlAttr}
    {firstChild next : XmlElem} {events : ProfileEvents}
    (helem : retrieveXmlElemChild profileElem p = .elem n (text :: more) attr firstChild next)
    (h : (assign events p text).1 = .success) :
    overrideEach assign profileElem (p :: names) events =
      overrideEach assign profileElem names (assign events p text).2 := by
  rw [overrideEach, helem]
  exact if_neg (not_not.mpr h)

theorem overrideEach_refused {n text : Bytes} {more : List Bytes} {attr : List XmlAttr}
    {firstChild next : XmlElem} {events : ProfileEvents}
    (helem : retrieveXmlElemChild profileElem p = .elem n (text :: more) attr firstChild next)
    (h : (assign events p text).1 ≠ .success) :
    overrideEach assign profileElem (p :: names) events = .ok (assign events p text) := by
  rw [overrideEach, helem]
  exact if_pos h

/-- What is known of an assignment: which texts it accepts for a name, what it then binds, and the
name on which the binding of an event depends. -/
structure Overriding (assign : ProfileEvents → Bytes → Bytes → Status × ProfileEvents)
    (names : List Bytes) (accepts : Bytes → Bytes → Prop)
    (value : Bytes → Bytes → EventName → Option Impl) (owner : EventName → Option Bytes) :
    Prop where
  accepted : ∀ p ∈ names, ∀ text events, accepts p text →
    (assign events p text).1 = .success ∧
      ∀ ev, (assign events p text).2.get ev = (value p text ev).or (events.get ev)
  refused : ∀ p ∈ names, ∀ text events, ¬ accepts p text → (assign events p text).1 ≠ .success
  owned : ∀ p ∈ names, ∀ text ev, value p text ev ≠ none → owner ev = some p

theorem Overriding.tail {assign : ProfileEvents → Bytes → Bytes → Status × ProfileEvents}
    {p : Bytes} {names : List Bytes} {accepts : Bytes → Bytes → Prop}
    {value : Bytes → Bytes → EventName → Option Impl} {owner : EventName → Option Bytes}
    (h : Overriding assign (p :: names) accepts value owner) :
    Overriding assign names accepts value owner where
  accepted q hq := h.accepted q (List.mem_cons_of_mem _ hq)
  refused q hq := h.refused q (List.mem_cons_of_mem _ hq)
  owned q hq := h.owned q (List.mem_cons_of_mem _ hq)

/-- What the elements of a list of names bind an event to. -/
def boundBy (profileElem : XmlElem) (names : List Bytes)
    (value : Bytes → Bytes → EventName → Option Impl) (owner : EventName → Option Bytes)
    (ev : EventName) : Option Impl :=
  (owner ev).bind fun p =>
    if p ∈ names then (childText profileElem p).bind fun text => value p text ev else none

/-- An element in front, whose name none of the others has. -/
theorem boundBy_cons {profileElem : XmlElem} {p : Bytes} {names : List Bytes}
    {value : Bytes → Bytes → EventName → Option Impl} {owner : EventName → Option Bytes}
    (hp : p ∉ names) (howned : ∀ text ev, value p text ev ≠ none → owner ev = some p)
    (ev : EventName) :
    boundBy profileElem (p :: names) value owner ev =
      (boundBy profileElem names value owner ev).or
        ((childText profileElem p).bind fun text => value p text ev) := by
  unfold boundBy
  cases howner : owner ev with
  | none =>
    have hnone : ∀ text, value p text ev = none := by
      intro text
      by_contra hsome
      rw [howned text ev hsome] at howner
      cases howner
    simp [hnone]
  | some q =>
    by_cases hq : q = p
    · subst hq
      simp [hp]
    · have hnone : ∀ text, value p text ev = none := by
        intro text
        by_contra hsome
        rw [howned text ev hsome] at howner
        exact hq (Option.some.inj howner).symm
      simp [hq, hnone]

/-- **A loop over element names** succeeds exactly when all texts are accepted, and then binds each
event as the element that it depends on says. -/
theorem overrideEach_spec {assign : ProfileEvents → Bytes → Bytes → Status × ProfileEvents}
    {names : List Bytes} {accepts : Bytes → Bytes → Prop}
    {value : Bytes → Bytes → EventName → Option Impl} {owner : EventName → Option Bytes}
    (h : Overriding assign names accepts value owner) (hnodup : names.Nodup)
    {profileElem : XmlElem}
    (htext : ∀ p ∈ names, childText profileElem p = none →
      retrieveXmlElemChild profileElem p = .null) (events : ProfileEvents) :
    ∃ stat events', overrideEach assign profileElem names events = .ok (stat, events') ∧
      (stat = .success ↔
        ∀ p ∈ names, ∀ text, childText profileElem p = some text → accepts p text) ∧
      (stat = .success → ∀ ev,
        events'.get ev = (boundBy profileElem names value owner ev).or (events.get ev)) := by
  induction names generalizing events with
  | nil =>
    refine ⟨.success, events, rfl, ⟨fun _ p hp => absurd hp (List.not_mem_nil), fun _ => rfl⟩, ?_⟩
    intro _ ev
    unfold boundBy
    cases owner ev with
    | none => rfl
    | some p => simp
  | cons p names ih =>
    rw [List.nodup_cons] at hnodup
    have htext' : ∀ q ∈ names, childText profileElem q = none →
        retrieveXmlElemChild profileElem q = .null := fun q hq =>
      htext q (List.mem_cons_of_mem _ hq)
    have hcons : ∀ ev, boundBy profileElem (p :: names) value owner ev =
        (boundBy profileElem names value owner ev).or
          ((childText profileElem p).bind fun text => value p text ev) :=
      boundBy_cons hnodup.1 (h.owned p (List.mem_cons_self ..))
    cases hchild : childText profileElem p with
    | none =>
      -- no element of that name: the loop goes on
      have hnull := htext p (List.mem_cons_self ..) hchild
      obtain ⟨stat, events', hrun, hstat, hget⟩ := ih h.tail hnodup.2 htext' events
      refine ⟨stat, events', ?_, ?_, ?_⟩
      · rw [overrideEach, hnull]
        exact hrun
      · rw [hstat, List.forall_mem_cons]
        simp [hchild]
      · intro hsucc ev
        rw [hget hsucc ev, hcons ev, hchild]
        simp
    | some text =>
      obtain ⟨n, more, attr, firstChild, next, helem⟩ : ∃ n more attr firstChild next,
          retrieveXmlElemChild profileElem p = .elem n (text :: more) attr firstChild next := by
        unfold childText at hchild
        cases helem : retrieveXmlElemChild profileElem p with
        | null => rw [helem] at hchild; cases hchild
        | elem n cdata attr firstChild next =>
          rw [helem] at hchild
          obtain ⟨more, hcdata⟩ := List.head?_eq_some_iff.mp hchild
          exact ⟨n, more, attr, firstChild, next, by rw [← hcdata]⟩
      by_cases hacc : accepts p text
      · obtain ⟨hsucc, hset⟩ := h.accepted p (List.mem_cons_self ..) text events hacc
        obtain ⟨stat, events', hrun, hstat, hget⟩ :=
          ih h.tail hnodup.2 htext' (assign events p text).2
        refine ⟨stat, events', ?_, ?_, ?_⟩
        · rw [overrideEach_accepted helem hsucc]
          exact hrun
        · rw [hstat, List.forall_mem_cons]
          simp [hchild, hacc]
        · intro hsucc ev
          rw [hget hsucc ev, hset ev, hcons ev, hchild, Option.or_assoc]
          rfl
      · have hfail := h.refused p (List.mem_cons_self ..) text events hacc
        refine ⟨(assign events p text).1, (assign events p text).2,
          overrideEach_refused helem hfail, ?_, fun hsucc => absurd hsucc hfail⟩
        constructor
        · intro hsucc
          exact absurd hsucc hfail
        · intro hall
          exact absurd (hall p (List.mem_cons_self ..) text hchild) hacc

end Loop

/-! ### The two loops -/

theorem classNames_distinct : ∀ className ∈ profileGroupHandlerNames,
    ∀ g ∈ profileGroupHandlers, sameName className g.className → className = g.className := by
  decide +kernel

theorem overriding_groups :
    Overriding assignProfileGroupHandler profileGroupHandlerNames
      (fun className groupName => findGroup className groupName ≠ none)
      (fun className groupName ev => (findGroup className groupName).bind ev.implInGroup)
      EventName.groupClass where
  accepted className _ groupName events hfound := by
    obtain ⟨g, hg⟩ := Option.ne_none_iff_exists'.mp hfound
    refine ⟨(assignGroup_get hg events .profileInit).1, ?_⟩
    intro ev
    rw [(assignGroup_get hg events ev).2, hg]
    rfl
  refused className _ groupName events hnot := by
    rw [assignProfileGroupHandler, not_not.mp hnot]
    intro hsucc
    cases hsucc
  owned className hclass groupName ev hvalue := by
    obtain ⟨impl, himpl⟩ := Option.ne_none_iff_exists'.mp hvalue
    obtain ⟨g, hg, hin⟩ := Option.bind_eq_some_iff.mp himpl
    obtain ⟨hmem, hsame⟩ := findGroup_mem hg
    rw [implInGroup_class hmem hin, classNames_distinct className hclass g hmem hsame]

theorem exists_event {p : Bytes} (h : p ∈ profileEventHandlerNames) :
    ∃ ev : EventName, p = ev.name := by
  rw [← names_all] at h
  obtain ⟨ev, -, hev⟩ := List.mem_map.mp h
  exact ⟨ev, hev.symm⟩

theorem name_injective {ev ev' : EventName} (h : ev.name = ev'.name) : ev = ev' :=
  EventName.name_inj (by rw [h]; exact sameName_refl _)

theorem overriding_events :
    Overriding assignProfileEventHandler profileEventHandlerNames
      (fun p implName => ∀ ev : EventName, p = ev.name → ev.implNamed implName ≠ none)
      (fun p implName ev => if p = ev.name then ev.implNamed implName else none)
      (fun ev => some ev.name) where
  accepted p hp implName events hacc := by
    obtain ⟨ev, rfl⟩ := exists_event hp
    obtain ⟨impl, himpl⟩ := Option.ne_none_iff_exists'.mp (hacc ev rfl)
    rw [assignProfileEventHandler_eq, himpl]
    refine ⟨rfl, ?_⟩
    intro ev'
    show (events.set impl ev).get ev' = _
    rw [ProfileEvents.get_set]
    by_cases hev : ev' = ev
    · subst hev
      rw [if_pos rfl, if_pos rfl, himpl]
      rfl
    · rw [if_neg hev, if_neg fun hname => hev (name_injective hname).symm]
      rfl
  refused p hp implName events hnot := by
    obtain ⟨ev, rfl⟩ := exists_event hp
    have hnone : ev.implNamed implName = none := by
      by_contra hsome
      apply hnot
      intro ev' hev'
      rw [← name_injective hev']
      exact hsome
    rw [assignProfileEventHandler_eq, hnone]
    intro hsucc
    cases hsucc
  owned p hp implName ev hvalue := by
    by_contra hne
    apply hvalue
    exact if_neg fun hname => hne (by rw [hname])

/-- With text in the elements that count, no text means no element. -/
theorem HasTexts.null {profileElem : XmlElem} (h : HasTexts profileElem) {p : Bytes}
    (hp : p ∈ profileGroupHandlerNames ++ profileEventHandlerNames)
    (hnone : childText profileElem p = none) : retrieveXmlElemChild profileElem p = .null := by
  unfold childText at hnone
  have hfind := retrieveXmlElemChild_eq profileElem p
  cases helem : retrieveXmlElemChild profileElem p with
  | null => rfl
  | elem n cdata attr firstChild next =>
    rw [helem] at hfind hnone
    have hmem := List.mem_of_find?_eq_some hfind.symm
    have hname := List.find?_some hfind.symm
    exact absurd (List.head?_eq_none_iff.mp hnone) (h _ hmem p hp hname)

theorem groupClass_mem {ev : EventName} {className : Bytes} (h : ev.groupClass = some className) :
    className ∈ profileGroupHandlerNames := by
  cases ev <;> cases h <;> decide

theorem name_mem (ev : EventName) : ev.name ∈ profileEventHandlerNames := by
  rw [← names_all]
  exact List.mem_map_of_mem ev.mem_all

/-- What the group elements bind. -/
theorem boundBy_groups (profileElem : XmlElem) (ev : EventName) :
    boundBy profileElem profileGroupHandlerNames
      (fun className groupName ev => (findGroup className groupName).bind ev.implInGroup)
      EventName.groupClass ev = groupImpl (childText profileElem) ev := by
  unfold boundBy groupImpl
  cases hclass : ev.groupClass with
  | none => rfl
  | some className => exact if_pos (groupClass_mem hclass)

/-- What the event elements bind. -/
theorem boundBy_events (profileElem : XmlElem) (ev : EventName) :
    boundBy profileElem profileEventHandlerNames
      (fun p implName ev => if p = ev.name then ev.implNamed implName else none)
      (fun ev => some ev.name) ev =
      (childText profileElem ev.name).bind ev.implNamed := by
  unfold boundBy
  rw [Option.bind_some, if_pos (name_mem ev)]
  congr 1
  funext implName
  exact if_pos rfl

/-- **Both loops together**, from the generic implementations on. -/
theorem override_spec {profileElem : XmlElem} (htext : HasTexts profileElem)
    {events : ProfileEvents} (hgeneric : ∀ ev, events.get ev = some ev.generic) :
    ∃ stat events₁, overrideEach assignProfileGroupHandler profileElem profileGroupHandlerNames
        events = .ok (stat, events₁) ∧
      (stat ≠ .success → ¬ AllListed (childText profileElem)) ∧
      (stat = .success → ∃ stat' events₂, overrideEach assignProfileEventHandler profileElem
          profileEventHandlerNames events₁ = .ok (stat', events₂) ∧
        (stat' = .success ↔ AllListed (childText profileElem)) ∧
        (stat' = .success → ∀ ev, events₂.get ev = prescribed (childText profileElem) ev ∧
          prescribed (childText profileElem) ev ≠ none)) := by
  obtain ⟨stat, events₁, hgroups, hstat, hget⟩ := overrideEach_spec overriding_groups (by decide)
    (fun p hp => htext.null (List.mem_append_left _ hp)) events
  refine ⟨stat, events₁, hgroups, ?_, ?_⟩
  · intro hfail hall
    exact hfail (hstat.mpr hall.groups)
  · intro hsucc
    obtain ⟨stat', events₂, hevents, hstat', hget'⟩ := overrideEach_spec overriding_events
      (by rw [← names_all]; decide +kernel)
      (fun p hp => htext.null (List.mem_append_right _ hp)) events₁
    have himpls : stat' = .success → ∀ ev : EventName, ∀ implName,
        childText profileElem ev.name = some implName → ev.implNamed implName ≠ none := by
      intro hsucc' ev implName hchild
      exact hstat'.mp hsucc' ev.name (name_mem ev) implName hchild ev rfl
    refine ⟨stat', events₂, hevents, ?_, ?_⟩
    · constructor
      · intro hsucc'
        exact ⟨hstat.mp hsucc, himpls hsucc'⟩
      · intro hall
        apply hstat'.mpr
        rintro p - implName hchild ev rfl
        exact hall.impls ev implName hchild
    · intro hsucc' ev
      have hev := hget' hsucc' ev
      rw [boundBy_events, hget hsucc ev, boundBy_groups, hgeneric] at hev
      unfold prescribed
      cases hchild : childText profileElem ev.name with
      | none =>
        rw [hchild] at hev
        exact ⟨hev, by cases groupImpl (childText profileElem) ev <;> simp⟩
      | some implName =>
        obtain ⟨impl, himpl⟩ := Option.ne_none_iff_exists'.mp (himpls hsucc' ev implName hchild)
        rw [hchild, Option.bind_some, himpl] at hev
        show events₂.get ev = ev.implNamed implName ∧ ev.implNamed implName ≠ none
        rw [hev, himpl]
        exact ⟨rfl, Option.some_ne_none impl⟩

/-! ### Reordering the children -/

/-- The same children in another order: the first one stays first, and those of one name (as the
program compares names) keep their order. -/
structure ChildrenReordered (firstChild firstChild' : XmlElem) : Prop where
  first : firstChild.node = firstChild'.node
  perm : firstChild.siblings.Perm firstChild'.siblings
  order : ∀ name, (firstChild.siblings.filter fun n => sameName n.name name) =
    firstChild'.siblings.filter fun n => sameName n.name name

theorem ChildrenReordered.refl (firstChild : XmlElem) :
    ChildrenReordered firstChild firstChild where
  first := rfl
  perm := List.Perm.refl _
  order _ := rfl

/-- An element and its siblings, with the children of each in another order. -/
inductive Reordered : XmlElem → XmlElem → Prop where
  | null : Reordered .null .null
  | elem {name : Bytes} {cdata : List Bytes} {attr : List XmlAttr}
      {firstChild firstChild' next next' : XmlElem} :
      ChildrenReordered firstChild firstChild' → Reordered next next' →
      Reordered (.elem name cdata attr firstChild next) (.elem name cdata attr firstChild' next')

theorem reordered_findNamed {e e' : XmlElem} (h : Reordered e e') (name : Bytes) :
    Reordered (findNamed name e) (findNamed name e') := by
  induction h with
  | null => exact .null
  | elem hchildren hnext ih =>
    rw [findNamed, findNamed]
    split
    · exact .elem hchildren hnext
    · exact ih

/-- The search by a first child finds the same element. -/
theorem reordered_findWithChild {e e' : XmlElem} (h : Reordered e e')
    (lc childName childVal : Bytes) :
    (∃ a, findWithChild lc childName childVal e = .error a ∧
      findWithChild lc childName childVal e' = .error a) ∨
    ∃ r r', findWithChild lc childName childVal e = .ok r ∧
      findWithChild lc childName childVal e' = .ok r' ∧ Reordered r r' := by
  induction h with
  | null => exact .inr ⟨.null, .null, rfl, rfl, .null⟩
  | @elem name cdata attr firstChild firstChild' next next' hchildren hnext ih =>
    have hfirst := hchildren.first
    cases firstChild with
    | null =>
      cases firstChild' with
      | null => exact ih
      | elem => cases hfirst
    | elem cn text cattr cchild cnext =>
      cases firstChild' with
      | null => cases hfirst
      | elem cn' text' cattr' cchild' cnext' =>
        simp only [XmlElem.node, Option.some.injEq, Node.mk.injEq] at hfirst
        obtain ⟨rfl, rfl, rfl, rfl⟩ := hfirst
        unfold findWithChild
        dsimp only
        split
        · cases text with
          | nil => exact .inl ⟨.fault, rfl, rfl⟩
          | cons text more =>
            dsimp only
            split
            · exact .inr ⟨_, _, rfl, rfl, .elem hchildren hnext⟩
            · exact ih
        · exact ih

/-- The first child of a name is the same. -/
theorem ChildrenReordered.child_node {firstChild firstChild' : XmlElem}
    (h : ChildrenReordered firstChild firstChild') {e e' : XmlElem}
    (he : e.firstChild = firstChild) (he' : e'.firstChild = firstChild') (name : Bytes) :
    (retrieveXmlElemChild e name).node = (retrieveXmlElemChild e' name).node := by
  rw [retrieveXmlElemChild_eq, retrieveXmlElemChild_eq, he, he', ← List.head?_filter,
    ← List.head?_filter, h.order]

/-- **A loop over element names** looks at the first child of each name. -/
theorem overrideEach_congr {assign : ProfileEvents → Bytes → Bytes → Status × ProfileEvents}
    {e e' : XmlElem}
    (h : ∀ name, (retrieveXmlElemChild e name).node = (retrieveXmlElemChild e' name).node)
    (names : List Bytes) (events : ProfileEvents) :
    overrideEach assign e names events = overrideEach assign e' names events := by
  induction names generalizing events with
  | nil => rfl
  | cons p names ih =>
    have hp := h p
    rw [overrideEach, overrideEach]
    cases hchild : retrieveXmlElemChild e p with
    | null =>
      cases hchild' : retrieveXmlElemChild e' p with
      | null => exact ih events
      | elem =>
        rw [hchild, hchild'] at hp
        cases hp
    | elem n cdata attr firstChild next =>
      cases hchild' : retrieveXmlElemChild e' p with
      | null =>
        rw [hchild, hchild'] at hp
        cases hp
      | elem n' cdata' attr' firstChild' next' =>
        rw [hchild, hchild'] at hp
        simp only [XmlElem.node, Option.some.injEq, Node.mk.injEq] at hp
        obtain ⟨rfl, rfl, rfl, rfl⟩ := hp
        cases cdata with
        | nil => rfl
        | cons text more =>
          show (if (assign events p text).1 ≠ .success then _ else _) =
            if (assign events p text).1 ≠ .success then _ else _
          rw [ih]

/-- `initialize_events`, from the profile element on. -/
theorem initializeEvents_found {profileName : Bytes} {rootElem profileElem : XmlElem}
    (hfound : retrieveXmlElemWithChildmatch rootElem XML_PROFILE (bytes "name") profileName =
      .ok profileElem) (hne : profileElem ≠ .null) :
    initializeEvents profileName rootElem =
      match overrideEach assignProfileGroupHandler profileElem profileGroupHandlerNames
          createProfileEvents.2 with
      | .error a => .error a
      | .ok (stat, newEvents) =>
        if stat ≠ .success then .ok (stat, newEvents)
        else
          overrideEach assignProfileEventHandler profileElem profileEventHandlerNames
            newEvents := by
  have hcreate := createProfileEvents_get.1
  rw [initializeEvents, hfound]
  revert hcreate
  generalize createProfileEvents = created
  intro hcreate
  cases profileElem with
  | null => exact absurd rfl hne
  | elem n cdata attr firstChild next => exact if_neg (not_not.mpr hcreate)

theorem pathComponents_profile : pathComponents 46 XML_PROFILE = [XML_PROFILE] := by
  decide +kernel

/-- The search for the profile is the search among the children of the root. -/
theorem retrieve_profile (rootElem : XmlElem) (childName childVal : Bytes) :
    retrieveXmlElemWithChildmatch rootElem XML_PROFILE childName childVal =
      match findNamed XML_PROFILE rootElem.firstChild with
      | .null => .ok .null
      | .elem lc cdata attr firstChild next =>
        findWithChild lc childName childVal (.elem lc cdata attr firstChild next) := by
  rw [retrieveXmlElemWithChildmatch, pathComponents_profile, walkPath, retrieveXmlElemChild]
  cases findNamed XML_PROFILE rootElem.firstChild with
  | null => rfl
  | elem lc cdata attr firstChild next => rfl

/-- **The order of the children** does not matter. -/
theorem initializeEvents_reordered {rootElem rootElem' : XmlElem}
    (h : Reordered rootElem.firstChild rootElem'.firstChild) (profileName : Bytes) :
    initializeEvents profileName rootElem = initializeEvents profileName rootElem' := by
  have hfound : (∃ a, retrieveXmlElemWithChildmatch rootElem XML_PROFILE (bytes "name")
        profileName = .error a ∧
      retrieveXmlElemWithChildmatch rootElem' XML_PROFILE (bytes "name") profileName = .error a) ∨
    ∃ r r', retrieveXmlElemWithChildmatch rootElem XML_PROFILE (bytes "name") profileName =
        .ok r ∧
      retrieveXmlElemWithChildmatch rootElem' XML_PROFILE (bytes "name") profileName = .ok r' ∧
      Reordered r r' := by
    have hnamed := reordered_findNamed h XML_PROFILE
    rw [retrieve_profile, retrieve_profile]
    revert hnamed
    generalize findNamed XML_PROFILE rootElem.firstChild = node
    generalize findNamed XML_PROFILE rootElem'.firstChild = node'
    intro hnamed
    cases hnamed with
    | null => exact .inr ⟨.null, .null, rfl, rfl, .null⟩
    | elem hchildren hnext =>
      exact reordered_findWithChild (.elem hchildren hnext) _ (bytes "name") profileName
  rcases hfound with ⟨a, hr, hr'⟩ | ⟨r, r', hr, hr', hreordered⟩
  · rw [initializeEvents, initializeEvents, hr, hr']
  · cases hreordered with
    | null => rw [initializeEvents, initializeEvents, hr, hr']
    | @elem name cdata attr firstChild firstChild' next next' hchildren hnext =>
      have hchild : ∀ p, (retrieveXmlElemChild (.elem name cdata attr firstChild next) p).node =
          (retrieveXmlElemChild (.elem name cdata attr firstChild' next') p).node :=
        hchildren.child_node rfl rfl
      rw [initializeEvents_found hr (by simp), initializeEvents_found hr' (by simp),
        overrideEach_congr hchild]
      cases overrideEach assignProfileGroupHandler _ profileGroupHandlerNames
          createProfileEvents.2 with
      | error a => rfl
      | ok p =>
        dsimp only
        rw [overrideEach_congr hchild]

/-! ### The events of a profile -/

/-- **The first pieces of the texts** decide: `initialize_events` succeeds exactly when they are all in
the tables, and then binds every event as they prescribe. -/
theorem initializeEvents_pieces {profileName : Bytes} {rootElem profileElem : XmlElem}
    (hfound : retrieveXmlElemWithChildmatch rootElem XML_PROFILE (bytes "name") profileName =
      .ok profileElem) (hne : profileElem ≠ .null) (htext : HasTexts profileElem) :
    ∃ stat events, initializeEvents profileName rootElem = .ok (stat, events) ∧
      (stat = .success ↔ AllListed (childText profileElem)) ∧
      (stat = .success → ∀ ev, events.get ev = prescribed (childText profileElem) ev ∧
        prescribed (childText profileElem) ev ≠ none) := by
  obtain ⟨stat, events₁, hgroups, hfail, hsucc⟩ := override_spec htext
    fun ev => createProfileEvents_get.2 ev ev.mem_all
  rw [initializeEvents_found hfound hne, hgroups]
  by_cases hstat : stat = .success
  · obtain ⟨stat', events₂, hevents, hlisted, hbound⟩ := hsucc hstat
    refine ⟨stat', events₂, ?_, hlisted, hbound⟩
    rw [← hevents]
    exact if_neg (not_not.mpr hstat)
  · exact ⟨stat, events₁, if_pos hstat,
      ⟨fun h => absurd h hstat, fun h => absurd h (hfail hstat)⟩, fun h => absurd h hstat⟩

/-! ### Texts in pieces -/

theorem groupKeys_prefixFree : ∀ g ∈ profileGroupHandlers, ∀ g' ∈ profileGroupHandlers,
    nameKey g.groupName <+: nameKey g'.groupName → nameKey g.groupName = nameKey g'.groupName := by
  decide +kernel

theorem implKeys_prefixFree : ∀ r ∈ profileEventHandlers, ∀ r' ∈ profileEventHandlers,
    nameKey r.implName <+: nameKey r'.implName → nameKey r.implName = nameKey r'.implName := by
  decide +kernel

theorem groupKeys_short : ∀ g ∈ profileGroupHandlers,
    (nameKey g.groupName).length < FLOOD_STRLEN_MAX := by
  decide +kernel

theorem implKeys_short : ∀ r ∈ profileEventHandlers,
    (nameKey r.implName).length < FLOOD_STRLEN_MAX := by
  decide +kernel

/-- Where the first piece and the whole text both go by a name, and neither name begins with the
other, nothing follows the first piece. -/
theorem rest_eq_nil {t rest k k' : Bytes} (hnul : 0 ∉ rest) (ht : nameKey t = k)
    (hwhole : nameKey (cstr t ++ rest) = k') (hfree : k <+: k' → k = k')
    (hshort : k'.length < FLOOD_STRLEN_MAX) : rest = [] := by
  have hstr : cstr (cstr t ++ rest) = cstr t ++ rest := by
    apply cstr_of_not_mem
    intro h0
    rcases List.mem_append.mp h0 with h0 | h0
    · exact cstr_noNUL t h0
    · exact hnul h0
  rw [nameKey, hstr] at hwhole
  have hpre : k <+: k' := by
    rw [← ht, ← hwhole, nameKey]
    exact ((List.prefix_append (cstr t) rest).take _).map _
  have hlen : k'.length = (nameKey t).length := by rw [ht, hfree hpre]
  rw [← hwhole] at hlen hshort
  simp only [nameKey, List.length_map, List.length_take, List.length_append] at hlen hshort
  exact List.eq_nil_of_length_eq_zero (by omega)

theorem findGroup_key {className groupName : Bytes} {g : GroupHandler}
    (h : findGroup className groupName = some g) : nameKey groupName = nameKey g.groupName := by
  have hboth := List.find?_some h
  rw [Bool.and_eq_true] at hboth
  exact sameName_iff.mp hboth.2

/-- A text begins with its first piece. -/
theorem fullText_of_childText {elem : XmlElem} {p t : Bytes} (h : childText elem p = some t) :
    ∃ rest, fullText elem p = some (cstr t ++ rest) ∧ 0 ∉ rest := by
  unfold childText at h
  obtain ⟨n, hn, ht⟩ := Option.bind_eq_some_iff.mp h
  obtain ⟨more, hcdata⟩ := List.head?_eq_some_iff.mp ht
  refine ⟨(more.map cstr).flatten, ?_, ?_⟩
  · rw [fullText, hn, Option.map_some, textOf, hcdata]
    rfl
  · intro h0
    obtain ⟨piece, hpiece, h0⟩ := List.mem_flatten.mp h0
    obtain ⟨s, -, rfl⟩ := List.mem_map.mp hpiece
    exact cstr_noNUL s h0

/-- **No name in the tables begins with another one**: if the first pieces are all in the tables, and so
are the whole texts, the first pieces are the whole texts. -/
theorem whole_of_listed {profileElem : XmlElem} (htext : HasTexts profileElem)
    (hfirst : AllListed (childText profileElem)) (hfull : AllListed (fullText profileElem)) :
    Whole profileElem := by
  intro p hp
  cases hchild : childText profileElem p with
  | none =>
    rw [fullText, htext.null hp hchild]
    rfl
  | some t =>
    obtain ⟨rest, hrest, hnul⟩ := fullText_of_childText hchild
    have hnil : rest = [] := by
      rcases List.mem_append.mp hp with hp | hp
      · obtain ⟨g, hg⟩ := Option.ne_none_iff_exists'.mp (hfirst.groups p hp t hchild)
        obtain ⟨g', hg'⟩ := Option.ne_none_iff_exists'.mp (hfull.groups p hp _ hrest)
        exact rest_eq_nil hnul (findGroup_key hg) (findGroup_key hg')
          (groupKeys_prefixFree g (findGroup_mem hg).1 g' (findGroup_mem hg').1)
          (groupKeys_short g' (findGroup_mem hg').1)
      · obtain ⟨ev, rfl⟩ := exists_event hp
        obtain ⟨impl, himpl⟩ := Option.ne_none_iff_exists'.mp (hfirst.impls ev t hchild)
        obtain ⟨impl', himpl'⟩ := Option.ne_none_iff_exists'.mp (hfull.impls ev _ hrest)
        obtain ⟨r, hr, -, hname, -⟩ := implNamed_eq_some_iff.mp himpl
        obtain ⟨r', hr', -, hname', -⟩ := implNamed_eq_some_iff.mp himpl'
        exact rest_eq_nil hnul (sameName_iff.mp hname) (sameName_iff.mp hname')
          (implKeys_prefixFree r hr r' hr') (implKeys_short r' hr')
    rw [hrest, hnil, List.append_nil]
    rfl

theorem findGroup_cstr (className t : Bytes) :
    findGroup className (cstr t) = findGroup className t := by
  unfold findGroup
  congr 1
  funext g
  rw [sameName_congr (sameName_cstr t)]

section Whole

variable {profileElem : XmlElem}

theorem Whole.groupImpl (h : Whole profileElem) (ev : EventName) :
    groupImpl (fullText profileElem) ev = groupImpl (childText profileElem) ev := by
  unfold InitializeEvents.groupImpl
  cases hclass : ev.groupClass with
  | none => rfl
  | some className =>
    have hmem : className ∈ profileGroupHandlerNames := groupClass_mem hclass
    rw [Option.bind_some, Option.bind_some, h className (List.mem_append_left _ hmem)]
    cases childText profileElem className with
    | none => rfl
    | some t => rw [Option.map_some, Option.bind_some, Option.bind_some, findGroup_cstr]

theorem Whole.prescribed (h : Whole profileElem) (ev : EventName) :
    prescribed (fullText profileElem) ev = prescribed (childText profileElem) ev := by
  unfold InitializeEvents.prescribed
  rw [h.groupImpl, h ev.name (List.mem_append_right _ (name_mem ev))]
  cases childText profileElem ev.name with
  | none => rfl
  | some t => exact implNamed_congr (sameName_cstr t) ev

theorem Whole.allListed (h : Whole profileElem) :
    AllListed (fullText profileElem) ↔ AllListed (childText profileElem) := by
  constructor
  · intro hfull
    refine ⟨fun className hclass t ht => ?_, fun ev t ht => ?_⟩
    · have hwhole := h className (List.mem_append_left _ hclass)
      rw [ht] at hwhole
      rw [← findGroup_cstr]
      exact hfull.groups className hclass _ hwhole
    · have hwhole := h ev.name (List.mem_append_right _ (name_mem ev))
      rw [ht] at hwhole
      rw [← implNamed_congr (sameName_cstr t)]
      exact hfull.impls ev _ hwhole
  · intro hfirst
    refine ⟨fun className hclass t ht => ?_, fun ev t ht => ?_⟩
    · rw [h className (List.mem_append_left _ hclass), Option.map_eq_some_iff] at ht
      obtain ⟨piece, hpiece, rfl⟩ := ht
      rw [findGroup_cstr]
      exact hfirst.groups className hclass _ hpiece
    · rw [h ev.name (List.mem_append_right _ (name_mem ev)), Option.map_eq_some_iff] at ht
      obtain ⟨piece, hpiece, rfl⟩ := ht
      rw [implNamed_congr (sameName_cstr piece)]
      exact hfirst.impls ev _ hpiece

end Whole

/-- What the profile asks for, in the whole texts of its elements: the call returns, it fails where a
name is not in the tables, a success binds every event as prescribed, and the order of the children
does not matter. -/
structure AsNamed (profileName : Bytes) (rootElem profileElem : XmlElem) : Prop where
  returns : ∃ stat events, initializeEvents profileName rootElem = .ok (stat, events)
  listed : ∀ events, initializeEvents profileName rootElem = .ok (.success, events) →
    AllListed (fullText profileElem)
  bound : ∀ events, initializeEvents profileName rootElem = .ok (.success, events) →
    ∀ ev, events.get ev = prescribed (fullText profileElem) ev ∧
      prescribed (fullText profileElem) ev ≠ none
  reordered : ∀ rootElem', Reordered rootElem.firstChild rootElem'.firstChild →
    initializeEvents profileName rootElem' = initializeEvents profileName rootElem

/-- The call succeeds where all that the profile names is in the tables. -/
def SucceedsIfListed (profileName : Bytes) (rootElem profileElem : XmlElem) : Prop :=
  AllListed (fullText profileElem) →
    ∃ events, initializeEvents profileName rootElem = .ok (.success, events)

/-- Every member of a group is an implementation in the table, so no assignment of a group fails. -/
theorem groups_listed : ∀ g ∈ profileGroupHandlers, ∀ m ∈ g.handlers,
    ∃ ev : EventName, ev.implNamed m ≠ none := by
  intro g hg m hm
  obtain ⟨ev, -, hev, -⟩ := (groups_complete g hg).2 (eventOf m) (List.mem_map_of_mem hm)
  obtain ⟨impl, himpl⟩ := eventOf_eq_some_iff.mp hev
  exact ⟨ev, by rw [himpl]; exact Option.some_ne_none impl⟩

/-- **`initialize_events`** binds every event as the profile prescribes, or fails where a name is not
in the tables, exactly if the texts that count are whole in their first pieces, or one of the first
pieces is not in the tables.  It also succeeds where it should exactly if the texts are whole, or
neither the first pieces nor the whole texts are all in the tables. -/
theorem initializeEvents_iff (profileName : Bytes) (rootElem profileElem : XmlElem)
    (hfound : retrieveXmlElemWithChildmatch rootElem XML_PROFILE (bytes "name") profileName =
      .ok profileElem) (hne : profileElem ≠ .null) (htext : HasTexts profileElem) :
    (AsNamed profileName rootElem profileElem ↔
      Whole profileElem ∨ ¬ AllListed (childText profileElem)) ∧
    (AsNamed profileName rootElem profileElem ∧
        SucceedsIfListed profileName rootElem profileElem ↔
      Whole profileElem ∨
        ¬ AllListed (childText profileElem) ∧ ¬ AllListed (fullText profileElem)) ∧
    ∀ g ∈ profileGroupHandlers, ∀ m ∈ g.handlers, ∃ ev : EventName, ev.implNamed m ≠ none := by
  obtain ⟨stat, events, hrun, hstat, hbound⟩ := initializeEvents_pieces hfound hne htext
  have hreordered : ∀ rootElem', Reordered rootElem.firstChild rootElem'.firstChild →
      initializeEvents profileName rootElem' = initializeEvents profileName rootElem :=
    fun rootElem' h => (initializeEvents_reordered h profileName).symm
  have hsuccess : AllListed (childText profileElem) →
      initializeEvents profileName rootElem = .ok (.success, events) := fun hfirst => by
    rw [hrun, hstat.mpr hfirst]
  have hasked : AsNamed profileName rootElem profileElem ↔
      Whole profileElem ∨ ¬ AllListed (childText profileElem) := by
    constructor
    · intro h
      by_cases hfirst : AllListed (childText profileElem)
      · exact .inl (whole_of_listed htext hfirst (h.listed events (hsuccess hfirst)))
      · exact .inr hfirst
    · intro h
      have hcases : ∀ events', initializeEvents profileName rootElem = .ok (.success, events') →
          events' = events ∧ AllListed (childText profileElem) ∧ Whole profileElem := by
        intro events' hrun'
        rw [hrun, Except.ok.injEq, Prod.mk.injEq] at hrun'
        have hfirst := hstat.mp hrun'.1
        exact ⟨hrun'.2.symm, hfirst, h.resolve_right (not_not.mpr hfirst)⟩
      refine ⟨⟨stat, events, hrun⟩, fun events' hrun' => ?_, fun events' hrun' => ?_, hreordered⟩
      · obtain ⟨-, hfirst, hwhole⟩ := hcases events' hrun'
        exact hwhole.allListed.mpr hfirst
      · obtain ⟨rfl, hfirst, hwhole⟩ := hcases events' hrun'
        intro ev
        rw [hwhole.prescribed]
        exact hbound (hstat.mpr hfirst) ev
  refine ⟨hasked, ?_, groups_listed⟩
  rw [hasked]
  constructor
  · rintro ⟨hwhole | hfirst, hsucceeds⟩
    · exact .inl hwhole
    · refine .inr ⟨hfirst, fun hfull => ?_⟩
      obtain ⟨events', hrun'⟩ := hsucceeds hfull
      rw [hrun, Except.ok.injEq, Prod.mk.injEq] at hrun'
      exact hfirst (hstat.mp hrun'.1)
  · rintro (hwhole | ⟨hfirst, hfull⟩)
    · exact ⟨.inl hwhole, fun hfull => ⟨events, hsuccess (hwhole.allListed.mp hfull)⟩⟩
    · exact ⟨.inr hfirst, fun hlisted => absurd hlisted hfull⟩

/-- A configuration with one profile. -/
def oneProfile (profileElem : XmlElem) : XmlElem := .elem (bytes "flood") [] [] profileElem .null

/-- A profile with the keepalive sockets, whose reading of responses is overridden. -/
def keepaliveProfile : XmlElem :=
  .elem XML_PROFILE [] []
    (.elem (bytes "name") [bytes "p"] [] .null
      (.elem (bytes "socket") [bytes "keepalive"] [] .null
        (.elem (bytes "recv_resp") [bytes "generic_fullresp_recv_resp"] [] .null .null)))
    .null

/-- The keepalive profile is bound as its texts say. -/
theorem initializeEvents_keepalive :
    ∃ events, initializeEvents (bytes "p") (oneProfile keepaliveProfile) = .ok (.success, events) ∧
      events.get .beginConn = some .keepaliveBeginConn ∧
      events.get .recvResp = some .genericFullrespRecvResp ∧
      events.get .verifyResp = some .genericVerifyResp := by
  obtain ⟨hnamed, hsucceeds⟩ := (initializeEvents_iff (bytes "p") (oneProfile keepaliveProfile)
    keepaliveProfile (by decide +kernel) (by decide) (by unfold HasTexts; decide +kernel)).2.1.mpr
      (.inl (by unfold Whole; decide +kernel))
  obtain ⟨events, hrun⟩ := hsucceeds (by decide +kernel)
  have hbound := hnamed.bound events hrun
  refine ⟨events, hrun, (hbound .beginConn).1.trans ?_, (hbound .recvResp).1.trans ?_,
    (hbound .verifyResp).1.trans ?_⟩
  · decide +kernel
  · decide +kernel
  · decide +kernel

/-- A profile whose report is named by a text in pieces. -/
def piecesProfile (pieces : List Bytes) : XmlElem :=
  .elem XML_PROFILE [] []
    (.elem (bytes "name") [bytes "p"] [] .null (.elem (bytes "report") pieces [] .null .null)) .null

/-- Of a report `easy_no_such_group`, in the pieces `easy` and `_no_such_group`, the call makes a
success, and of the report `easy`, in the pieces `ea` and `sy`, a failure. -/
theorem piecesProfile_misread :
    ¬ AsNamed (bytes "p") (oneProfile (piecesProfile [bytes "easy", bytes "_no_such_group"]))
      (piecesProfile [bytes "easy", bytes "_no_such_group"]) ∧
    ¬ SucceedsIfListed (bytes "p") (oneProfile (piecesProfile [bytes "ea", bytes "sy"]))
      (piecesProfile [bytes "ea", bytes "sy"]) := by
  have hrun : ∀ pieces, retrieveXmlElemWithChildmatch (oneProfile (piecesProfile pieces)) XML_PROFILE
        (bytes "name") (bytes "p") = .ok (piecesProfile pieces) → HasTexts (piecesProfile pieces) →
      ∃ stat events, initializeEvents (bytes "p") (oneProfile (piecesProfile pieces)) =
        .ok (stat, events) ∧ (stat = .success ↔ AllListed (childText (piecesProfile pieces))) := by
    intro pieces hfound htext
    obtain ⟨stat, events, hrun, hstat, -⟩ := initializeEvents_pieces hfound (by simp [piecesProfile])
      htext
    exact ⟨stat, events, hrun, hstat⟩
  constructor
  · obtain ⟨stat, events, hrun, hstat⟩ := hrun [bytes "easy", bytes "_no_such_group"]
      (by decide +kernel) (by unfold HasTexts; decide +kernel)
    intro hnamed
    have hsucc : stat = .success := hstat.mpr (by decide +kernel)
    exact absurd (hnamed.listed events (hsucc ▸ hrun)) (by decide +kernel)
  · obtain ⟨stat, events, hrun, hstat⟩ := hrun [bytes "ea", bytes "sy"] (by decide +kernel)
      (by unfold HasTexts; decide +kernel)
    intro hsucceeds
    obtain ⟨events', hrun'⟩ := hsucceeds (by decide +kernel)
    rw [hrun, Except.ok.injEq, Prod.mk.injEq] at hrun'
    exact absurd (hstat.mp hrun'.1) (by decide +kernel)

end Flood.InitializeEvents
