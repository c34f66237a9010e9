import Flood.Config

/-!
# Finding an element by its name

Profiles, urllists, farmers and farms are found by `retrieve_xml_elem_with_childmatch`, which goes down
a path and then looks for the element whose child has the name asked for.  It looks at the first child
of an element only, at the first piece of its text only, and at the first 256 characters of whatever it
compares.  Two elements may be alike, so what is found is told by its place in the tree.

* `retrieveXmlElemWithChildmatch_eq` — the search is a scan of the children of one parent.
* `scan_iff` — a scan finds the first element of a kind exactly where every element up to it is judged
  right.
* `childmatch_iff` — when the search finds what the path, the name and the text ask for.
-/

namespace Flood.ChildMatch

open Flood.CString Flood.Net Flood.Config

/-! ### Scanning a list -/

/-- What a search makes of an element: it goes on, it ends there, or it ends the process. -/
inductive Verdict where
  | skip | take | fault
  deriving DecidableEq

/-- The verdict on an element that is wanted, or not. -/
def Verdict.ofBool (wanted : Bool) : Verdict := if wanted then take else skip

section Scan

variable {α : Type} {judge : α → Verdict} {wanted : α → Bool}

/-- The index of the first element that is taken. -/
def scan (judge : α → Verdict) : List α → Except Abort (Option ℕ)
  | [] => .ok none
  | x :: l =>
    match judge x with
    | .take => .ok (some 0)
    | .fault => .error .fault
    | .skip => (scan judge l).map (Option.map (· + 1))

/-- Every element with nothing wanted in front of it is judged right. -/
def JudgedRight (judge : α → Verdict) (wanted : α → Bool) (l : List α) : Prop :=
  ∀ before x after, l = before ++ x :: after → (∀ y ∈ before, wanted y = false) →
    judge x = Verdict.ofBool (wanted x)

theorem judgedRight_cons {x : α} {l : List α} :
    JudgedRight judge wanted (x :: l) ↔
      judge x = Verdict.ofBool (wanted x) ∧ (wanted x = false → JudgedRight judge wanted l) := by
  constructor
  · intro h
    refine ⟨h [] x l rfl nofun, fun hx before y after hl hbefore => ?_⟩
    refine h (x :: before) y after (congrArg (x :: ·) hl) fun z hz => ?_
    obtain rfl | hz := List.mem_cons.mp hz
    · exact hx
    · exact hbefore z hz
  · rintro ⟨hx, hrest⟩ before y after hl hbefore
    cases before with
    | nil =>
      cases hl
      exact hx
    | cons z before =>
      cases hl
      exact hrest (hbefore _ List.mem_cons_self) before y after rfl fun w hw =>
        hbefore w (List.mem_cons_of_mem _ hw)

/-- A result that is renamed one to one. -/
theorem map_found_iff {β : Type} {f : ℕ → β} (hf : Function.Injective f)
    {r : Except Abort (Option ℕ)} {found : Option ℕ} :
    r.map (Option.map f) = .ok (found.map f) ↔ r = .ok found := by
  cases r with
  | error a => exact iff_of_false nofun nofun
  | ok found' =>
    constructor
    · intro h
      rw [Option.map_injective hf (Except.ok.inj h)]
    · intro h
      rw [Except.ok.inj h]
      rfl

theorem succ_injective : Function.Injective (· + 1 : ℕ → ℕ) := fun _ _ h => Nat.succ.inj h

/-- **A scan finds the first wanted element** exactly where every element up to it is judged right. -/
theorem scan_iff (l : List α) :
    scan judge l = .ok (l.findIdx? wanted) ↔ JudgedRight judge wanted l := by
  induction l with
  | nil => exact iff_of_true rfl fun before x after h => by cases before <;> cases h
  | cons x l ih =>
    rw [judgedRight_cons, List.findIdx?_cons, scan, ← ih]
    cases hx : wanted x with
    | true =>
      simp only [if_true, Verdict.ofBool]
      cases judge x with
      | take => simp
      | fault => simp
      | skip =>
        refine iff_of_false (fun h => ?_) nofun
        cases hrest : scan judge l with
        | error a =>
          rw [hrest] at h
          cases h
        | ok found =>
          rw [hrest] at h
          cases found with
          | none => cases h
          | some i => cases h
    | false =>
      simp only [Bool.false_eq_true, if_false, Verdict.ofBool, true_implies]
      cases judge x with
      | take =>
        refine iff_of_false (fun h => ?_) fun h => nomatch h.1
        cases hfind : l.findIdx? wanted with
        | none =>
          rw [hfind] at h
          cases h
        | some i =>
          rw [hfind] at h
          cases h
      | fault => exact iff_of_false nofun fun h => nomatch h.1
      | skip =>
        show (scan judge l).map (Option.map (· + 1)) = .ok ((l.findIdx? wanted).map (· + 1)) ↔ _
        rw [map_found_iff succ_injective]
        exact (and_iff_right rfl).symm

/-- A scan finds nothing where every element is skipped. -/
theorem scan_none_iff (l : List α) :
    scan judge l = .ok none ↔ ∀ x ∈ l, judge x = .skip := by
  induction l with
  | nil => exact iff_of_true rfl nofun
  | cons x l ih =>
    rw [scan, List.forall_mem_cons, ← ih]
    cases judge x with
    | take => exact iff_of_false nofun fun h => nomatch h.1
    | fault => exact iff_of_false nofun fun h => nomatch h.1
    | skip =>
      show (scan judge l).map (Option.map (· + 1)) = .ok (Option.map (· + 1) none) ↔ _
      rw [map_found_iff succ_injective]
      exact (and_iff_right rfl).symm

end Scan

/-! ### Places in the tree -/

/-- The sibling that many places behind an element. -/
def sibling : ℕ → XmlElem → XmlElem
  | _, .null => .null
  | 0, e => e
  | i + 1, .elem _ _ _ _ next => sibling i next

/-- The element at a place, given by the indices of the children on the way to it. -/
def elemAt : List ℕ → XmlElem → XmlElem
  | [], e => e
  | i :: place, e => elemAt place (sibling i e.firstChild)

/-- The place a path leads to, each time to the first child of the name. -/
def walkPlace (same : Bytes → Bytes → Bool) : List Bytes → XmlElem → Option (List ℕ)
  | [], _ => some []
  | pc :: path, node =>
    match node.firstChild.siblings.findIdx? fun n => same n.name pc with
    | none => none
    | some i => (walkPlace same path (sibling i node.firstChild)).map (i :: ·)

/-- The children of the element at a place. -/
def childrenAt (topElem : XmlElem) : Option (List ℕ) → List Node
  | none => []
  | some place => (elemAt place topElem).firstChild.siblings

theorem elemAt_append (e : XmlElem) (place : List ℕ) (i : ℕ) :
    elemAt (place ++ [i]) e = sibling i (elemAt place e).firstChild := by
  induction place generalizing e with
  | nil => rfl
  | cons j place ih => exact ih _

theorem findNamed_sibling (name : Bytes) (e : XmlElem) :
    findNamed name e = match e.siblings.findIdx? fun n => sameName n.name name with
      | none => .null
      | some i => sibling i e := by
  induction e with
  | null => rfl
  | elem n cdata attr firstChild next _ ih =>
    rw [findNamed, XmlElem.siblings, List.findIdx?_cons]
    dsimp only
    split
    · rfl
    · rw [ih]
      cases next.siblings.findIdx? fun n => sameName n.name name with
      | none => rfl
      | some i => rfl

/-- An index that was found is that of an element. -/
theorem sibling_found {p : Node → Bool} {e : XmlElem} {i : ℕ} (h : e.siblings.findIdx? p = some i) :
    sibling i e ≠ .null := by
  induction e generalizing i with
  | null => cases h
  | elem n cdata attr firstChild next _ ih =>
    rw [XmlElem.siblings, List.findIdx?_cons] at h
    split at h
    · cases h
      exact XmlElem.noConfusion
    · obtain ⟨j, hj, rfl⟩ := Option.map_eq_some_iff.mp h
      exact ih hj

/-- **The walk along a path** ends at its place. -/
theorem walkPath_place (path : List Bytes) (e : XmlElem) :
    walkPath path e = match walkPlace sameName path e with
      | none => .null
      | some place => elemAt place e := by
  induction path generalizing e with
  | nil => rfl
  | cons pc path ih =>
    rw [walkPath, walkPlace, retrieveXmlElemChild, findNamed_sibling]
    cases hfind : e.firstChild.siblings.findIdx? fun n => sameName n.name pc with
    | none => rfl
    | some i =>
      dsimp only
      have hfound := sibling_found hfind
      cases hnode : sibling i e.firstChild with
      | null => exact absurd hnode hfound
      | elem n cdata attr firstChild next =>
        dsimp only
        rw [← hnode, ih]
        cases walkPlace sameName path (sibling i e.firstChild) with
        | none => rfl
        | some place => rfl

/-! ### What is asked for -/

/-- The element has the name, and a child with the child's name and exactly the text. -/
def wanted (lc childName childVal : Bytes) (n : Node) : Bool :=
  eqIgnoreCase n.name lc &&
    n.firstChild.siblings.any fun c => eqIgnoreCase c.name childName && textOf c == cstr childVal

/-- The place of the first element that is wanted, under the parent that the path leads to when names
are compared as a whole. -/
def firstWanted (topElem : XmlElem) (path : List Bytes) (lc childName childVal : Bytes) :
    Option (List ℕ) :=
  match walkPlace eqIgnoreCase path topElem with
  | none => none
  | some place =>
    ((childrenAt topElem (some place)).findIdx? (wanted lc childName childVal)).map fun i =>
      place ++ [i]

/-! ### What is found -/

/-- What the search makes of an element. -/
def judge (lc childName childVal : Bytes) (n : Node) : Verdict :=
  match n.firstChild with
  | .null => .skip
  | .elem cn text _ _ _ =>
    if sameName n.name lc ∧ sameName cn childName then
      match text with
      | [] => .fault
      | text :: _ => if sameText text childVal then .take else .skip
    else .skip

theorem findWithChild_scan (lc childName childVal : Bytes) (e : XmlElem) :
    findWithChild lc childName childVal e =
      (scan (judge lc childName childVal) e.siblings).map fun
        | none => .null
        | some i => sibling i e := by
  induction e with
  | null => rfl
  | elem n cdata attr firstChild next _ ih =>
    have hnext : findWithChild lc childName childVal next =
        ((scan (judge lc childName childVal) next.siblings).map (Option.map (· + 1))).map fun
          | none => .null
          | some i => sibling i (.elem n cdata attr firstChild next) := by
      rw [ih]
      cases scan (judge lc childName childVal) next.siblings with
      | error a => rfl
      | ok found =>
        cases found with
        | none => rfl
        | some i => rfl
    unfold findWithChild
    rw [XmlElem.siblings, scan, judge]
    cases firstChild with
    | null => exact hnext
    | elem cn text cattr cfirst cnext =>
      dsimp only
      split
      · cases text with
        | nil => rfl
        | cons text rest =>
          dsimp only
          split
          · rfl
          · exact hnext
      · exact hnext

theorem findWithChild_congr {lc lc' : Bytes} (h : sameName lc lc' = true) (childName childVal : Bytes)
    (e : XmlElem) : findWithChild lc childName childVal e = findWithChild lc' childName childVal e := by
  have hname : ∀ n, sameName n lc = sameName n lc' := by
    intro n
    rw [sameName_comm n lc, sameName_comm n lc', sameName_congr h]
  rw [findWithChild_scan, findWithChild_scan]
  have hjudge : judge lc childName childVal = judge lc' childName childVal := by
    funext n
    unfold judge
    rw [hname]
  rw [hjudge]

/-- The elements in front of the first one of the name are not taken. -/
theorem findWithChild_findNamed (lc childName childVal : Bytes) (e : XmlElem) :
    findWithChild lc childName childVal (findNamed lc e) = findWithChild lc childName childVal e := by
  induction e with
  | null => rfl
  | elem n cdata attr firstChild next _ ih =>
    rw [findNamed]
    split
    · rfl
    · next hname =>
      rw [ih]
      conv_rhs => unfold findWithChild
      cases firstChild with
      | null => rfl
      | elem cn text cattr cfirst cnext =>
        dsimp only
        rw [if_neg fun h => hname h.1]

theorem walkPath_null (path : List Bytes) : walkPath path .null = .null := by
  cases path with
  | nil => rfl
  | cons pc path => rfl

theorem walkPath_append (path more : List Bytes) (e : XmlElem) :
    walkPath (path ++ more) e = walkPath more (walkPath path e) := by
  induction path generalizing e with
  | nil => rfl
  | cons pc path ih =>
    rw [List.cons_append, walkPath, walkPath]
    split
    · exact (walkPath_null more).symm
    · exact ih _

/-- **The search is a scan** of the children of the parent that the path leads to. -/
theorem retrieveXmlElemWithChildmatch_eq {topElem : XmlElem} {path childName childVal : Bytes}
    {parents : List Bytes} {lc : Bytes} (hpath : pathComponents 46 path = parents ++ [lc]) :
    retrieveXmlElemWithChildmatch topElem path childName childVal =
      findWithChild lc childName childVal (walkPath parents topElem).firstChild := by
  rw [← findWithChild_findNamed]
  unfold retrieveXmlElemWithChildmatch
  rw [hpath, walkPath_append, walkPath, retrieveXmlElemChild]
  have hname : ∀ {n : Bytes} {cdata : List Bytes} {attr : List XmlAttr} {firstChild next e : XmlElem},
      findNamed lc e = .elem n cdata attr firstChild next → sameName n lc = true := by
    intro n cdata attr firstChild next e h
    induction e with
    | null => cases h
    | elem m _ _ _ next' _ ih =>
      rw [findNamed] at h
      split at h
      · next hm =>
        cases h
        exact hm
      · exact ih h
  cases hfound : findNamed lc (walkPath parents topElem).firstChild with
  | null => rfl
  | elem n cdata attr firstChild next => exact findWithChild_congr (hname hfound) _ _ _

/-- The place of what the search finds. -/
def retrievePlace (topElem : XmlElem) (parents : List Bytes) (lc childName childVal : Bytes) :
    Except Abort (Option (List ℕ)) :=
  match walkPlace sameName parents topElem with
  | none => .ok none
  | some place =>
    (scan (judge lc childName childVal) (childrenAt topElem (some place))).map
      (Option.map fun i => place ++ [i])

/-- What stands at a place. -/
def foundAt (topElem : XmlElem) : Option (List ℕ) → XmlElem
  | none => .null
  | some place => elemAt place topElem

/-- **What the search finds** is what stands at the place. -/
theorem retrieveXmlElemWithChildmatch_place {topElem : XmlElem} {path childName childVal : Bytes}
    {parents : List Bytes} {lc : Bytes} (hpath : pathComponents 46 path = parents ++ [lc]) :
    retrieveXmlElemWithChildmatch topElem path childName childVal =
      (retrievePlace topElem parents lc childName childVal).map (foundAt topElem) := by
  rw [retrieveXmlElemWithChildmatch_eq hpath, walkPath_place, retrievePlace]
  cases walkPlace sameName parents topElem with
  | none => rfl
  | some place =>
    dsimp only
    rw [findWithChild_scan]
    show (scan _ (elemAt place topElem).firstChild.siblings).map _ =
      ((scan _ (elemAt place topElem).firstChild.siblings).map _).map _
    cases scan (judge lc childName childVal) (elemAt place topElem).firstChild.siblings with
    | error a => rfl
    | ok found =>
      cases found with
      | none => rfl
      | some i =>
        show Except.ok _ = Except.ok (elemAt (place ++ [i]) topElem)
        rw [elemAt_append]

/-! ### When the search is right -/

/-- The search ends at the place of the first element that is wanted, or with `APR_EGENERAL` where
there is none. -/
def FindsWanted (topElem : XmlElem) (path childName childVal : Bytes) (parents : List Bytes)
    (lc : Bytes) : Prop :=
  retrievePlace topElem parents lc childName childVal =
      .ok (firstWanted topElem parents lc childName childVal) ∧
    retrieveXmlElemWithChildmatch topElem path childName childVal =
      .ok (foundAt topElem (firstWanted topElem parents lc childName childVal))

/-- Names cut at 256 characters lead along the path to the same parent, and every child of it with
nothing wanted in front is judged right by its first child; or the search finds nothing where it looks,
and nothing is wanted where it should have looked. -/
def SearchSound (topElem : XmlElem) (parents : List Bytes) (lc childName childVal : Bytes) : Prop :=
  (walkPlace sameName parents topElem = walkPlace eqIgnoreCase parents topElem ∧
    JudgedRight (judge lc childName childVal) (wanted lc childName childVal)
      (childrenAt topElem (walkPlace sameName parents topElem))) ∨
  ((∀ n ∈ childrenAt topElem (walkPlace sameName parents topElem),
      judge lc childName childVal n = .skip) ∧
    ∀ n ∈ childrenAt topElem (walkPlace eqIgnoreCase parents topElem),
      wanted lc childName childVal n = false)

theorem judgedRight_of_skip {α : Type} {judge : α → Verdict} {wanted : α → Bool} {l : List α}
    (hskip : ∀ x ∈ l, judge x = .skip) (hnone : ∀ x ∈ l, wanted x = false) :
    JudgedRight judge wanted l := by
  intro before x after hl _
  have hx : x ∈ l := hl ▸ List.mem_append_right before List.mem_cons_self
  rw [hskip x hx, hnone x hx]
  rfl

theorem place_injective (place : List ℕ) : Function.Injective fun i => place ++ [i] := by
  intro i j h
  exact (List.cons.inj (List.append_cancel_left h)).1

/-- **The search ends at the right place** exactly where it is sound. -/
theorem retrievePlace_iff (topElem : XmlElem) (parents : List Bytes) (lc childName childVal : Bytes) :
    retrievePlace topElem parents lc childName childVal =
        .ok (firstWanted topElem parents lc childName childVal) ↔
      SearchSound topElem parents lc childName childVal := by
  unfold retrievePlace firstWanted SearchSound
  cases walkPlace sameName parents topElem with
  | none =>
    cases walkPlace eqIgnoreCase parents topElem with
    | none => exact iff_of_true rfl (.inr ⟨nofun, nofun⟩)
    | some there =>
      dsimp only
      constructor
      · intro h
        have hnone := Option.map_eq_none_iff.mp (Except.ok.inj h).symm
        exact .inr ⟨nofun, List.findIdx?_eq_none_iff.mp hnone⟩
      · rintro (⟨hsame, -⟩ | ⟨-, hnone⟩)
        · cases hsame
        · rw [List.findIdx?_eq_none_iff.mpr hnone]
          rfl
  | some here =>
    cases walkPlace eqIgnoreCase parents topElem with
    | none =>
      show (scan _ _).map (Option.map _) = .ok (Option.map (fun i => here ++ [i]) none) ↔ _
      rw [map_found_iff (place_injective here), scan_none_iff]
      constructor
      · exact fun hskip => .inr ⟨hskip, nofun⟩
      · rintro (⟨hsame, -⟩ | ⟨hskip, -⟩)
        · cases hsame
        · exact hskip
    | some there =>
      dsimp only
      by_cases hsame : here = there
      · subst hsame
        rw [map_found_iff (place_injective here), scan_iff]
        constructor
        · exact fun hright => .inl ⟨rfl, hright⟩
        · rintro (⟨-, hright⟩ | ⟨hskip, hnone⟩)
          · exact hright
          · exact judgedRight_of_skip hskip hnone
      · -- two parents have no child in common
        have hnever : ∀ i j, here ++ [i] ≠ there ++ [j] := fun i j h =>
          hsame (List.append_inj_left' h rfl)
        rw [← scan_none_iff, ← List.findIdx?_eq_none_iff]
        constructor
        · intro h
          right
          cases hscan : scan (judge lc childName childVal) (childrenAt topElem (some here)) with
          | error a =>
            rw [hscan] at h
            cases h
          | ok found =>
            rw [hscan] at h
            have hfound := Except.ok.inj h
            cases found with
            | none => exact ⟨rfl, Option.map_eq_none_iff.mp hfound.symm⟩
            | some i =>
              obtain ⟨j, -, hj⟩ := Option.map_eq_some_iff.mp hfound.symm
              exact absurd hj.symm (hnever i j)
        · rintro (⟨hplace, -⟩ | ⟨hscan, hfind⟩)
          · exact absurd (Option.some.inj hplace) hsame
          · rw [hscan, hfind]
            rfl

/-- **What is asked for is found** exactly where the search is sound. -/
theorem childmatch_iff {topElem : XmlElem} {path childName childVal : Bytes} {parents : List Bytes}
    {lc : Bytes} (hpath : pathComponents 46 path = parents ++ [lc]) :
    FindsWanted topElem path childName childVal parents lc ↔
      SearchSound topElem parents lc childName childVal := by
  rw [← retrievePlace_iff]
  constructor
  · exact And.left
  · intro hplace
    refine ⟨hplace, ?_⟩
    rw [retrieveXmlElemWithChildmatch_place hpath, hplace]
    rfl

/-! ### Elements as they are usually written -/

/-- The element begins with its name, in one piece, has no other, and nothing compared is longer than
what is looked at. -/
structure Tidy (lc childName childVal : Bytes) (n : Node) : Prop where
  child : ∃ cn text attr firstChild next, n.firstChild = .elem cn [text] attr firstChild next ∧
    strlen cn ≤ FLOOD_STRLEN_MAX ∧ strlen text ≤ FLOOD_STRLEN_MAX ∧
    ∀ c ∈ next.siblings, eqIgnoreCase c.name childName = false
  short : strlen n.name ≤ FLOOD_STRLEN_MAX ∧ strlen lc ≤ FLOOD_STRLEN_MAX ∧
    strlen childName ≤ FLOOD_STRLEN_MAX ∧ strlen childVal ≤ FLOOD_STRLEN_MAX

theorem Tidy.judge {lc childName childVal : Bytes} {n : Node} (h : Tidy lc childName childVal n) :
    judge lc childName childVal n = Verdict.ofBool (wanted lc childName childVal n) := by
  obtain ⟨cn, text, attr, firstChild, next, hchild, hcn, htext, hothers⟩ := h.child
  obtain ⟨hname, hlc, hchildName, hchildVal⟩ := h.short
  have hnone : (next.siblings.any fun c => eqIgnoreCase c.name childName &&
      textOf c == cstr childVal) = false := by
    rw [List.any_eq_false]
    intro c hc
    rw [hothers c hc]
    exact Bool.false_ne_true
  have hsame : sameText text childVal = (cstr text == cstr childVal) := by
    unfold sameText
    rw [List.take_of_length_le htext, List.take_of_length_le hchildVal, beq_eq_decide]
  have htextOf : textOf ⟨cn, [text], attr, firstChild⟩ = cstr text := by
    unfold textOf
    rw [List.map_singleton, List.flatten_singleton]
  unfold ChildMatch.judge wanted
  rw [hchild, XmlElem.siblings, List.any_cons, hnone, Bool.or_false, htextOf]
  dsimp only
  rw [hsame, sameName, sameName, eqIgnoreCaseN_short hname hlc, eqIgnoreCaseN_short hcn hchildName]
  cases eqIgnoreCase n.name lc with
  | false => rfl
  | true =>
    cases eqIgnoreCase cn childName with
    | false => rfl
    | true =>
      cases cstr text == cstr childVal with
      | false => rfl
      | true => rfl

/-- **Among tidy elements the search is sound**, where the path leads to the same parent. -/
theorem searchSound_of_tidy {topElem : XmlElem} {parents : List Bytes} {lc childName childVal : Bytes}
    (hwalk : walkPlace sameName parents topElem = walkPlace eqIgnoreCase parents topElem)
    (htidy : ∀ n ∈ childrenAt topElem (walkPlace sameName parents topElem),
      Tidy lc childName childVal n) : SearchSound topElem parents lc childName childVal := by
  refine .inl ⟨hwalk, ?_⟩
  intro before n after hl _
  exact (htidy n (hl ▸ List.mem_append_right before List.mem_cons_self)).judge

/-! ### Some configurations -/

/-- Two profiles with these first children, the second of which is followed by the name `p`. -/
def twoProfiles (first second : XmlElem → XmlElem) : XmlElem :=
  .elem (bytes "flood") [] []
    (.elem (bytes "profile") [] [] (first .null)
      (.elem (bytes "profile") [] [] (second (.elem (bytes "name") [bytes "p"] [] .null .null)) .null))
    .null

/-- A name with some pieces of text. -/
def nameElem (cdata : List Bytes) (next : XmlElem) : XmlElem :=
  .elem (bytes "name") cdata [] .null next

/-- The first profile has another name, the second begins with its name. -/
def namedProfiles : XmlElem := twoProfiles (nameElem [bytes "q"]) id

theorem childmatch_iff_named :
    FindsWanted namedProfiles (bytes "profile") (bytes "name") (bytes "p") [] (bytes "profile") ↔
      SearchSound namedProfiles [] (bytes "profile") (bytes "name") (bytes "p") :=
  childmatch_iff (by decide)

/-- An empty name in the first profile ends the process, and behind a description the name is not
found. -/
theorem emptyName_faults :
    firstWanted (twoProfiles (nameElem []) id) [] (bytes "profile") (bytes "name") (bytes "p") =
      some [1] ∧
    retrieveXmlElemWithChildmatch (twoProfiles (nameElem []) id) (bytes "profile") (bytes "name")
      (bytes "p") = .error .fault ∧
    firstWanted (twoProfiles id (.elem (bytes "description") [bytes "d"] [] .null)) []
      (bytes "profile") (bytes "name") (bytes "p") = some [1] ∧
    retrieveXmlElemWithChildmatch
      (twoProfiles id (.elem (bytes "description") [bytes "d"] [] .null)) (bytes "profile")
      (bytes "name") (bytes "p") = .ok .null ∧
    ¬ FindsWanted (twoProfiles (nameElem []) id) (bytes "profile") (bytes "name") (bytes "p") []
      (bytes "profile") := by
  have hfault : retrieveXmlElemWithChildmatch (twoProfiles (nameElem []) id) (bytes "profile")
      (bytes "name") (bytes "p") = .error .fault := by decide +kernel
  refine ⟨by decide +kernel, hfault, by decide +kernel, by decide +kernel, ?_⟩
  intro h
  have hfound := h.2
  rw [hfault] at hfound
  cases hfound

end Flood.ChildMatch
