import Flood.Net

/-!
# The configuration tree

The parsed XML document as the program walks it: an element with its attributes, its first text, its
first child and its next sibling, and the searches of `flood_config.c`.  A pointer to an element is
the tree from that element on, with the siblings behind it.

* `retrieveXmlElemChild_eq` — the search for a child is the first match in the list of children.
-/

namespace Flood.Config

open Flood.CString Flood.Net

def FLOOD_STRLEN_MAX : ℕ := 256
def XML_PROFILE : Bytes := bytes "profile"

/-- `apr_xml_attr`; the parser leaves neither field NULL.  `addr` is the address of the value and
`value` what the parser stored there. -/
structure XmlAttr where
  addr : ℕ
  name : Bytes
  value : Bytes
  deriving DecidableEq

/-- A pointer to an `apr_xml_elem`: NULL, or an element with the pieces of its text
(`first_cdata`) and its links. -/
inductive XmlElem where
  | null
  | elem (name : Bytes) (cdata : List Bytes) (attr : List XmlAttr) (firstChild next : XmlElem)
  deriving DecidableEq

/-- `strncasecmp(a, b, FLOOD_STRLEN_MAX) == 0` -/
def sameName (a b : Bytes) : Bool := eqIgnoreCaseN FLOOD_STRLEN_MAX a b

/-- `strncmp(a, b, FLOOD_STRLEN_MAX) == 0` -/
def sameText (a b : Bytes) : Bool :=
  (cstr a).take FLOOD_STRLEN_MAX = (cstr b).take FLOOD_STRLEN_MAX

/-- `e->first_child` -/
def XmlElem.firstChild : XmlElem → XmlElem
  | null => null
  | elem _ _ _ firstChild _ => firstChild

/-- The first among an element and its siblings that has the name, with the siblings behind it. -/
def findNamed (name : Bytes) : XmlElem → XmlElem
  | .null => .null
  | .elem n cdata attr firstChild next =>
    if sameName n name then .elem n cdata attr firstChild next else findNamed name next

/-- `retrieve_xml_elem_child`; NULL stands for `APR_EGENERAL`. -/
def retrieveXmlElemChild (topElem : XmlElem) (name : Bytes) : XmlElem :=
  findNamed name topElem.firstChild

/-- The number of elements of the name among an element and its siblings. -/
def countNamed (name : Bytes) : XmlElem → ℕ
  | .null => 0
  | .elem n _ _ _ next => (if sameName n name then 1 else 0) + countNamed name next

/-- `count_xml_elem_child` -/
def countXmlElemChild (elem : XmlElem) (name : Bytes) : ℤ :=
  wrapInt 32 (countNamed name elem.firstChild)

/-- The components of a path: the tokens that `apr_strtok` finds. -/
def pathComponents (delim : UInt8) (path : Bytes) : List Bytes :=
  ((cstr path).splitBy fun a b => (a == delim) == (b == delim)).filter fun c => delim ∉ c

/-- The walk along the components of a path. -/
def walkPath : List Bytes → XmlElem → XmlElem
  | [], node => node
  | pc :: path, node =>
    match retrieveXmlElemChild node pc with
    | .null => .null
    | node => walkPath path node

/-- The search among a node and its siblings for one named `lc` whose first child has the name and
the text; an element without text ends the process. -/
def findWithChild (lc childName childVal : Bytes) : XmlElem → Except Abort XmlElem
  | .null => .ok .null
  | .elem n cdata attr firstChild next =>
    match firstChild with
    | .null => findWithChild lc childName childVal next
    | .elem cn text _ _ _ =>
      if sameName n lc ∧ sameName cn childName then
        match text with
        | [] => .error .fault
        | text :: _ =>
          if sameText text childVal then .ok (.elem n cdata attr firstChild next)
          else findWithChild lc childName childVal next
      else findWithChild lc childName childVal next

/-- `retrieve_xml_elem_with_childmatch`; NULL stands for `APR_EGENERAL`. -/
def retrieveXmlElemWithChildmatch (topElem : XmlElem) (path childName childVal : Bytes) :
    Except Abort XmlElem :=
  match walkPath (pathComponents 46 path) topElem with
  | .null => .ok .null
  | .elem lc cdata attr firstChild next =>
    findWithChild lc childName childVal (.elem lc cdata attr firstChild next)

/-! ### Names -/

/-- The value of the last attribute of a name. -/
def lastNamed (name : Bytes) : List XmlAttr → Option Bytes
  | [] => none
  | a :: attr => (lastNamed name attr).or (if sameName a.name name then some a.value else none)

theorem lastNamed_append (name : Bytes) (as bs : List XmlAttr) :
    lastNamed name (as ++ bs) = (lastNamed name bs).or (lastNamed name as) := by
  induction as with
  | nil =>
    show _ = (lastNamed name bs).or none
    rw [Option.or_none]
    rfl
  | cons a as ih =>
    show (lastNamed name (as ++ bs)).or _ = (lastNamed name bs).or ((lastNamed name as).or _)
    rw [ih, Option.or_assoc]

/-- What a comparison of names looks at. -/
def nameKey (a : Bytes) : Bytes := ((cstr a).take FLOOD_STRLEN_MAX).map toLower

theorem sameName_iff {a b : Bytes} : sameName a b = true ↔ nameKey a = nameKey b :=
  decide_eq_true_iff

theorem sameName_congr {a b : Bytes} (h : sameName a b = true) (c : Bytes) :
    sameName a c = sameName b c := by
  show decide (nameKey a = nameKey c) = decide (nameKey b = nameKey c)
  rw [sameName_iff.mp h]

theorem sameName_comm (a b : Bytes) : sameName a b = sameName b a := by
  show decide (nameKey a = nameKey b) = decide (nameKey b = nameKey a)
  rw [decide_eq_decide]
  exact eq_comm

theorem sameName_refl (a : Bytes) : sameName a a = true := sameName_iff.mpr rfl

theorem sameName_cstr (a : Bytes) : sameName (cstr a) a = true := by
  rw [sameName_iff, nameKey, nameKey, cstr_of_not_mem (cstr_noNUL a)]

/-- A name is compared with two others that are not the same. -/
theorem sameName_false {a b c : Bytes} (h : sameName a b = true) (hbc : sameName b c = false) :
    sameName a c = false := by
  rw [sameName_congr h, hbc]

/-! ### Children as a list -/

/-- An element without its siblings. -/
structure Node where
  name : Bytes
  cdata : List Bytes
  attr : List XmlAttr
  firstChild : XmlElem
  deriving DecidableEq

/-- The text of an element, of all its pieces. -/
def textOf (n : Node) : Bytes := (n.cdata.map cstr).flatten

/-- An element and the siblings behind it. -/
def XmlElem.siblings : XmlElem → List Node
  | null => []
  | elem name cdata attr firstChild next => ⟨name, cdata, attr, firstChild⟩ :: next.siblings

/-- The first among an element and its siblings, without those. -/
def XmlElem.node : XmlElem → Option Node
  | null => none
  | elem name cdata attr firstChild _ => some ⟨name, cdata, attr, firstChild⟩

/-- **The search for a child** finds the first of the name. -/
theorem retrieveXmlElemChild_eq (topElem : XmlElem) (name : Bytes) :
    (retrieveXmlElemChild topElem name).node =
      topElem.firstChild.siblings.find? fun n => sameName n.name name := by
  rw [retrieveXmlElemChild]
  induction topElem.firstChild with
  | null => rfl
  | elem n cdata attr firstChild next _ ih =>
    rw [findNamed, XmlElem.siblings, List.find?_cons]
    cases sameName n name with
    | true => rfl
    | false => exact ih

/-! ### All attributes -/

/-- The attributes of an element, of its siblings and of all that is below them. -/
def XmlElem.attrs : XmlElem → List XmlAttr
  | null => []
  | elem _ _ attr firstChild next => attr ++ firstChild.attrs ++ next.attrs

theorem mem_attrs_elem {a : XmlAttr} {name : Bytes} {cdata : List Bytes} {attr : List XmlAttr}
    {firstChild next : XmlElem} : a ∈ (XmlElem.elem name cdata attr firstChild next).attrs ↔
      a ∈ attr ∨ a ∈ firstChild.attrs ∨ a ∈ next.attrs := by
  rw [XmlElem.attrs, List.mem_append, List.mem_append, or_assoc]

theorem mem_attrs_firstChild {a : XmlAttr} {e : XmlElem} (h : a ∈ e.firstChild.attrs) :
    a ∈ e.attrs := by
  cases e with
  | null => exact h
  | elem name cdata attr firstChild next => exact mem_attrs_elem.mpr (.inr (.inl h))

theorem mem_attrs_findNamed {a : XmlAttr} {name : Bytes} {e : XmlElem}
    (h : a ∈ (findNamed name e).attrs) : a ∈ e.attrs := by
  induction e with
  | null => exact h
  | elem n cdata attr firstChild next _ ih =>
    rw [findNamed] at h
    split at h
    · exact h
    · exact mem_attrs_elem.mpr (.inr (.inr (ih h)))

theorem mem_attrs_walkPath {a : XmlAttr} {path : List Bytes} {e : XmlElem}
    (h : a ∈ (walkPath path e).attrs) : a ∈ e.attrs := by
  induction path generalizing e with
  | nil => exact h
  | cons pc path ih =>
    rw [walkPath] at h
    split at h
    · cases h
    · exact mem_attrs_firstChild (mem_attrs_findNamed (ih h))

theorem mem_attrs_findWithChild {a : XmlAttr} {lc childName childVal : Bytes} {e found : XmlElem}
    (hfound : findWithChild lc childName childVal e = .ok found) (h : a ∈ found.attrs) :
    a ∈ e.attrs := by
  induction e with
  | null =>
    cases hfound
    exact h
  | elem n cdata attr firstChild next _ ih =>
    have hnext : findWithChild lc childName childVal next = .ok found →
        a ∈ (XmlElem.elem n cdata attr firstChild next).attrs :=
      fun hfound => mem_attrs_elem.mpr (.inr (.inr (ih hfound)))
    unfold findWithChild at hfound
    split at hfound
    · exact hnext hfound
    · split at hfound
      · split at hfound
        · cases hfound
        · split at hfound
          · cases hfound
            exact h
          · exact hnext hfound
      · exact hnext hfound

/-- **What a search finds** is in the tree. -/
theorem mem_attrs_childmatch {a : XmlAttr} {e found : XmlElem} {path childName childVal : Bytes}
    (hfound : retrieveXmlElemWithChildmatch e path childName childVal = .ok found)
    (h : a ∈ found.attrs) : a ∈ e.attrs := by
  unfold retrieveXmlElemWithChildmatch at hfound
  split at hfound
  · cases hfound
    cases h
  · next hwalk =>
    have hin : a ∈ (walkPath (pathComponents 46 path) e).attrs := by
      rw [hwalk]
      exact mem_attrs_findWithChild hfound h
    exact mem_attrs_walkPath hin

end Flood.Config
