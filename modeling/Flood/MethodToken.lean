import Flood.CreateReq
import Flood.SlotCount

/-!
# The method of a url element

A url slot keeps the method twice: an enum, by which a request is laid out, and a string, which is
printed in the request line.  `parse_xml_url_info` sets both together, and compares the method by
its first letters only.

* `methodKept_iff` — the slot keeps the method asked for exactly where the element has no attributes
  at all, or a method whose text does not merely begin with the name of a known one.
-/

namespace Flood.MethodToken

open Flood.CString Flood.Net Flood.Config Flood.RoundRobin Flood.CreateReq Flood.UrlElement
open Flood.SlotCount (noFiles)

/-! ### The method asked for -/

/-- The enum and the token of a method: those of a known one, whatever the case, else the text. -/
def namedMethod (value : Bytes) : Method × Bytes :=
  if eqIgnoreCase value XML_URLLIST_METHOD_GET then (.GET, bytes "GET")
  else if eqIgnoreCase value XML_URLLIST_METHOD_POST then (.POST, bytes "POST")
  else if eqIgnoreCase value XML_URLLIST_METHOD_HEAD then (.HEAD, bytes "HEAD")
  else (.OTHER, cstr value)

/-- The method of a url element: GET where there is no method attribute. -/
def askedMethod (attr : List XmlAttr) : Method × Bytes :=
  ((lastNamed XML_URLLIST_METHOD attr).map namedMethod).getD (.GET, bytes "GET")

/-- A slot keeps a method: in the enum, in the string, in the layout of its requests and in their
request lines. -/
structure MethodKept (u : Url) (asked : Method × Bytes) : Prop where
  enum : u.method = asked.1
  string : u.methodString = some asked.2
  layout : ∀ env rp draws r rp' d, urlSlot rp.url rp.currentUrl = some u →
    roundRobinGetNextUrl env rp draws = .ok (r, rp', d) → r.method = asked.1
  line : ∀ base64 rp r r', urlSlot rp.url rp.currentUrl = some u →
    roundRobinCreateReq base64 rp r = .ok (.success, r') → asked.2 ++ bytes " " <+: r'.rbuf

/-- The text begins with the name of a known method and goes on behind it. -/
def ExtendsKnown (value : Bytes) : Prop :=
  (eqIgnoreCaseN 4 value XML_URLLIST_METHOD_POST = true ∧
    eqIgnoreCase value XML_URLLIST_METHOD_POST = false) ∨
  (eqIgnoreCaseN 4 value XML_URLLIST_METHOD_HEAD = true ∧
    eqIgnoreCase value XML_URLLIST_METHOD_HEAD = false) ∨
  (eqIgnoreCaseN 3 value XML_URLLIST_METHOD_GET = true ∧
    eqIgnoreCase value XML_URLLIST_METHOD_GET = false)

/-- The attributes leave the method to its default or name it plainly. -/
def MethodPlain (attr : List XmlAttr) : Prop :=
  attr = [] ∨ ∃ value, lastNamed XML_URLLIST_METHOD attr = some value ∧ ¬ ExtendsKnown value

/-! ### The method of a slot -/

/-- What a method attribute leaves in a slot. -/
def storedMethod (value : Bytes) : Method × Option Bytes :=
  ((parseMethod value {}).method, (parseMethod value {}).methodString)

/-- The method of a slot, twice as it is kept. -/
def slotMethod (u : Url) : Method × Option Bytes := (u.method, u.methodString)

theorem slotMethod_reads : SlotPart.Reads [.method] slotMethod := by
  intro part hpart v u
  cases part
  all_goals first | rfl | exact absurd List.mem_cons_self hpart

theorem parseMethod_stored (value : Bytes) (u : Url) :
    slotMethod (parseMethod value u) = storedMethod value := by
  unfold storedMethod parseMethod
  split
  · rfl
  · split
    · rfl
    · split
      · rfl
      · rfl

/-- **The method of a slot** that was filled without an error. -/
theorem parseXmlUrlInfo_method {files : Files} {cdata : List Bytes} {attr : List XmlAttr}
    {values : Values} (hattr : attr ≠ [])
    (h : (parseXmlUrlInfo files cdata attr {} values).1 = .success) :
    slotMethod (parseXmlUrlInfo files cdata attr {} values).2.1 =
      ((lastNamed XML_URLLIST_METHOD attr).map storedMethod).getD (.GET, none) := by
  refine parseXmlUrlInfo_named rfl slotMethod_reads (fun _ _ => rfl) ?_ hattr h
  intro a u values hnamed _
  unfold parseUrlAttr
  rw [if_pos hnamed]
  exact parseMethod_stored a.value u

/-! ### The comparison -/

/-- The known methods differ in their first three letters. -/
theorem not_both {value a b : Bytes} {m n : ℕ} (hab : eqIgnoreCaseN 3 a b = false)
    (hm : 3 ≤ m) (hn : 3 ≤ n) (ha : eqIgnoreCaseN m value a = true) :
    eqIgnoreCaseN n value b = false ∧ eqIgnoreCase value b = false := by
  have hnot : ¬ eqIgnoreCaseN 3 value b = true := by
    intro hb
    have hboth := eqIgnoreCaseN_agree (eqIgnoreCaseN_le hm ha) hb
    rw [hab] at hboth
    cases hboth
  constructor
  · exact Bool.eq_false_iff.mpr fun hb => hnot (eqIgnoreCaseN_le hn hb)
  · exact Bool.eq_false_iff.mpr fun hb => hnot (eqIgnoreCaseN_of_eq hb 3)

/-- **The method that is stored** is the one named, unless the text goes on behind the name of a known
one. -/
theorem storedMethod_iff (value : Bytes) :
    storedMethod value = ((namedMethod value).1, some (namedMethod value).2) ↔
      ¬ ExtendsKnown value := by
  unfold storedMethod parseMethod namedMethod ExtendsKnown
  by_cases hpost : eqIgnoreCaseN 4 value XML_URLLIST_METHOD_POST = true
  · obtain ⟨hhead, hhead'⟩ := not_both (b := XML_URLLIST_METHOD_HEAD) (n := 4) (by decide)
      (by decide) (by decide) hpost
    obtain ⟨hget, hget'⟩ := not_both (b := XML_URLLIST_METHOD_GET) (n := 3) (by decide)
      (by decide) (by decide) hpost
    cases hwhole : eqIgnoreCase value XML_URLLIST_METHOD_POST with
    | true => simp [hpost, hhead, hget, hget']
    | false => simp [hpost, hhead', hget']
  · have hpost' : eqIgnoreCase value XML_URLLIST_METHOD_POST = false :=
      Bool.eq_false_iff.mpr fun h => hpost (eqIgnoreCaseN_of_eq h 4)
    by_cases hhead : eqIgnoreCaseN 4 value XML_URLLIST_METHOD_HEAD = true
    · obtain ⟨hget, hget'⟩ := not_both (b := XML_URLLIST_METHOD_GET) (n := 3) (by decide)
        (by decide) (by decide) hhead
      cases hwhole : eqIgnoreCase value XML_URLLIST_METHOD_HEAD with
      | true => simp [hpost, hpost', hhead, hget, hget']
      | false => simp [hpost, hpost', hhead, hget']
    · have hhead' : eqIgnoreCase value XML_URLLIST_METHOD_HEAD = false :=
        Bool.eq_false_iff.mpr fun h => hhead (eqIgnoreCaseN_of_eq h 4)
      cases hwhole : eqIgnoreCase value XML_URLLIST_METHOD_GET with
      | true =>
        have hget := eqIgnoreCaseN_of_eq hwhole 3
        simp [hpost, hhead, hget]
      | false =>
        cases hget : eqIgnoreCaseN 3 value XML_URLLIST_METHOD_GET with
        | true => simp [hpost, hpost', hhead, hhead']
        | false => simp [hpost, hpost', hhead, hhead']

/-! ### The slot and its requests -/

/-- What is kept in the slot is in its requests. -/
theorem methodKept_of_slot {u : Url} {asked : Method × Bytes}
    (hslot : slotMethod u = (asked.1, some asked.2)) (hline : cstr asked.2 = asked.2) :
    MethodKept u asked := by
  have henum : u.method = asked.1 := congrArg Prod.fst hslot
  have hstring : u.methodString = some asked.2 := congrArg Prod.snd hslot
  refine ⟨henum, hstring, ?_, ?_⟩
  · intro env rp draws r rp' d hu hnext
    rw [(roundRobinGetNextUrl_slot hu hnext).1, henum]
  · intro base64 rp r r' hu hcreate
    obtain ⟨u', authz, hu', -, hrbuf, -⟩ := createReq_text hcreate
    rw [hu] at hu'
    cases hu'
    rw [hrbuf, requestHead, requestStart, hstring, fmtS_some, hline]
    simp only [List.append_assoc]
    rw [← List.append_assoc asked.2]
    exact List.prefix_append _ _

/-- A token is a C string. -/
theorem cstr_askedMethod (attr : List XmlAttr) : cstr (askedMethod attr).2 = (askedMethod attr).2 := by
  unfold askedMethod
  cases lastNamed XML_URLLIST_METHOD attr with
  | none => decide
  | some value =>
    show cstr (namedMethod value).2 = (namedMethod value).2
    unfold namedMethod
    split
    · decide
    · split
      · decide
      · split
        · decide
        · exact cstr_of_not_mem (cstr_noNUL value)

/-- **The method asked for is kept** by exactly those elements that have no attributes or a method
that is plain. -/
theorem methodKept_iff {files : Files} {cdata : List Bytes} {attr : List XmlAttr} {values : Values}
    (h : (parseXmlUrlInfo files cdata attr {} values).1 = .success) :
    MethodKept (parseXmlUrlInfo files cdata attr {} values).2.1 (askedMethod attr) ↔
      MethodPlain attr := by
  have hslot : slotMethod (parseXmlUrlInfo files cdata attr {} values).2.1 =
      ((askedMethod attr).1, some (askedMethod attr).2) ↔ MethodPlain attr := by
    by_cases hattr : attr = []
    · subst hattr
      exact iff_of_true rfl (.inl rfl)
    · rw [parseXmlUrlInfo_method hattr h, MethodPlain, askedMethod]
      cases hlast : lastNamed XML_URLLIST_METHOD attr with
      | none =>
        refine iff_of_false (fun hnull => ?_) ?_
        · cases congrArg Prod.snd hnull
        · rintro (hnil | ⟨value, hvalue, -⟩)
          · exact hattr hnil
          · cases hvalue
      | some value =>
        show storedMethod value = ((namedMethod value).1, some (namedMethod value).2) ↔ _
        rw [storedMethod_iff]
        constructor
        · exact fun hplain => .inr ⟨value, rfl, hplain⟩
        · rintro (hnil | ⟨v, hv, hplain⟩)
          · exact absurd hnil hattr
          · cases hv
            exact hplain
  constructor
  · intro hkept
    exact hslot.mp (Prod.ext hkept.enum hkept.string)
  · intro hplain
    exact methodKept_of_slot (hslot.mpr hplain) (cstr_askedMethod attr)

/-- A method in mixed case behind another attribute. -/
def mixedCase : List XmlAttr :=
  [⟨0, XML_URLLIST_PAYLOAD, bytes "a=b"⟩, ⟨1, bytes "Method", bytes "Post"⟩]

theorem methodKept_mixedCase :
    MethodKept (parseXmlUrlInfo noFiles [bytes "/"] mixedCase {} fun _ => none).2.1
      (askedMethod mixedCase) ↔ MethodPlain mixedCase :=
  methodKept_iff (by decide)

/-- A content type and no method. -/
def contenttypeOnly : List XmlAttr := [⟨0, XML_URLLIST_CONTENT_TYPE, bytes "text/plain"⟩]

/-- The method that is not given becomes no string. -/
theorem contenttypeOnly_null :
    (parseXmlUrlInfo noFiles [bytes "/"] contenttypeOnly {} fun _ => none).1 = .success ∧
      (parseXmlUrlInfo noFiles [bytes "/"] contenttypeOnly {} fun _ => none).2.1.methodString =
        none ∧
      askedMethod contenttypeOnly = (.GET, bytes "GET") ∧
      ¬ MethodKept (parseXmlUrlInfo noFiles [bytes "/"] contenttypeOnly {} fun _ => none).2.1
        (askedMethod contenttypeOnly) := by
  refine ⟨by decide, by decide, by decide, ?_⟩
  intro h
  exact absurd h.string (by decide)

end Flood.MethodToken
