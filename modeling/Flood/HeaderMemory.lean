import Flood.UrlElement

/-!
# The memory of the extra headers

Of all that `parse_xml_url_info` reads in the document, it writes to the memory of the `extraheader`
attributes only.  This file follows the texts in that memory over any number of readings.

* `parseUrlAttr_other`, `parseUrlAttr_extra` — what one attribute does to the memory.
* `Settling` — a text is as it was parsed, or settled; every reading keeps that.
* `stable_of_readLength_eq` — a second reading gives fewer headers, unless the texts were stable.
* `parseXmlUrlInfo_again` — from stable texts a url element gives the same slot in every reading.
-/

namespace Flood.HeaderMemory

open Flood.CString Flood.Net Flood.RoundRobin Flood.Config Flood.ExtraHeaders Flood.UrlElement

/-- An `extraheader` attribute. -/
def isExtra (a : XmlAttr) : Bool := sameName a.name XML_URLLIST_EXTRA_HEADERS

/-- The text that each attribute has. -/
abbrev Texts := XmlAttr → Bytes

/-- The texts in the memory of the values. -/
def textsOf (values : Values) : Texts := fun a => cstr (values.at a)

/-- The texts behind a reading of one of them. -/
def Texts.read (texts : Texts) (a : XmlAttr) : Texts := fun b =>
  if b.addr = a.addr then settled (texts a) else texts b

/-! ### One attribute -/

theorem branch_other {c : Prop} [Decidable c] {x x' y y' : Option Status × Url × Values}
    {values : Values} (hx : c → x = (x'.1, x'.2.1, values)) (hy : y = (y'.1, y'.2.1, values)) :
    (if c then x else y) = ((if c then x' else y').1, (if c then x' else y').2.1, values) := by
  split
  · next hc => exact hx hc
  · exact hy

/-- Any other attribute neither reads the memory nor writes to it. -/
theorem parseUrlAttr_other (files : Files) {a : XmlAttr} (h : isExtra a = false) (u : Url)
    (values values' : Values) :
    parseUrlAttr files a u values =
      ((parseUrlAttr files a u values').1, (parseUrlAttr files a u values').2.1, values) := by
  have hextra : ¬ sameName a.name XML_URLLIST_EXTRA_HEADERS = true := by
    rw [show sameName a.name XML_URLLIST_EXTRA_HEADERS = false from h]
    exact Bool.false_ne_true
  unfold parseUrlAttr
  refine branch_other (fun _ => rfl) ?_
  refine branch_other (fun _ => rfl) ?_
  refine branch_other (fun _ => rfl) ?_
  refine branch_other (fun _ => rfl) ?_
  refine branch_other (fun hc => absurd hc hextra) ?_
  refine branch_other (fun _ => rfl) ?_
  refine branch_other (fun _ => rfl) ?_
  refine branch_other (fun _ => rfl) ?_
  refine branch_other (fun _ => rfl) ?_
  refine branch_other (fun _ => rfl) ?_
  refine branch_other (fun _ => rfl) ?_
  refine branch_other (fun _ => rfl) ?_
  refine branch_other (fun _ => rfl) ?_
  refine branch_other (fun _ => rfl) ?_
  refine branch_other (fun _ => rfl) ?_
  refine branch_other (fun _ => rfl) ?_
  rfl

/-- An `extraheader` adds the headers of its text, and settles it. -/
theorem parseUrlAttr_extra (files : Files) {a : XmlAttr} (h : isExtra a = true) (u : Url)
    (values : Values) :
    ∃ values', parseUrlAttr files a u values =
        (none, { u with
          extraHeaders := addHeaders u.extraHeaders (headerTokens (textsOf values a)) }, values') ∧
      textsOf values' = (textsOf values).read a := by
  obtain ⟨hbuf, hheaders⟩ := parseExtraHeaders_spec (values.at a) u.extraHeaders
  have hnot : ∀ name : Bytes, sameName XML_URLLIST_EXTRA_HEADERS name = false →
      ¬ sameName a.name name = true := by
    intro name hname
    rw [sameName_congr h, hname]
    exact Bool.false_ne_true
  refine ⟨Function.update values a.addr (some (parseExtraHeaders (values.at a) u.extraHeaders).1),
    ?_, ?_⟩
  · unfold parseUrlAttr
    rw [if_neg (hnot _ (by decide)), if_neg (hnot _ (by decide)), if_neg (hnot _ (by decide)),
      if_neg (hnot _ (by decide)),
      if_pos (show sameName a.name XML_URLLIST_EXTRA_HEADERS = true from h)]
    show (none, { u with extraHeaders := (parseExtraHeaders (values.at a) u.extraHeaders).2 }, _) = _
    rw [hheaders]
    rfl
  · funext b
    unfold textsOf Texts.read Values.at
    by_cases hb : b.addr = a.addr
    · rw [if_pos hb, hb, Function.update_self]
      exact hbuf
    · rw [if_neg hb, Function.update_of_ne hb]

/-! ### Texts that settle -/

/-- One address holds one text. -/
def Addressed (attrs : List XmlAttr) (texts : Texts) : Prop :=
  ∀ a ∈ attrs, ∀ b ∈ attrs, a.addr = b.addr → texts a = texts b

/-- What was parsed at one address is one text. -/
def Parsed (attrs : List XmlAttr) : Prop := Addressed attrs fun a => cstr a.value

/-- Every text is as it was parsed, or settled. -/
def Settling (attrs : List XmlAttr) (texts : Texts) : Prop :=
  ∀ a ∈ attrs, texts a = cstr a.value ∨ texts a = settled (cstr a.value)

/-- The texts after a number of readings. -/
def readAll (extras : List XmlAttr) (texts : Texts) : Texts := extras.foldl Texts.read texts

/-- The length of the headers that the texts of these attributes give, one read behind the other. -/
def readLength : List XmlAttr → Texts → ℕ
  | [], _ => 0
  | a :: extras, texts => headersLength (headerTokens (texts a)) + readLength extras (texts.read a)

/-- The tokens of the texts of these attributes, read one behind the other. -/
def readTokens : List XmlAttr → Texts → List Bytes
  | [], _ => []
  | a :: extras, texts => headerTokens (texts a) ++ readTokens extras (texts.read a)

theorem headersLength_readTokens (extras : List XmlAttr) (texts : Texts) :
    headersLength (readTokens extras texts) = readLength extras texts := by
  induction extras generalizing texts with
  | nil => rfl
  | cons a extras ih =>
    rw [readLength, ← ih, readTokens]
    simp only [headersLength, List.map_append, List.sum_append]

theorem Addressed.read {attrs : List XmlAttr} {texts : Texts} (h : Addressed attrs texts)
    (a : XmlAttr) : Addressed attrs (texts.read a) := by
  intro b hb c hc hbc
  unfold Texts.read
  rw [hbc, h b hb c hc hbc]

/-- A settled text stays as it is, and any other settles in the same way. -/
theorem Addressed.settled_read {attrs : List XmlAttr} {texts : Texts} (h : Addressed attrs texts)
    {a b : XmlAttr} (ha : a ∈ attrs) (hb : b ∈ attrs) :
    settled (texts.read a b) = settled (texts b) := by
  unfold Texts.read
  split
  · next heq => rw [settled_settled, h b hb a ha heq]
  · rfl

/-- **A reading keeps** that the texts are as they were parsed, or settled. -/
theorem Settling.read {attrs : List XmlAttr} {texts : Texts} (hparsed : Parsed attrs)
    (h : Settling attrs texts) {a : XmlAttr} (ha : a ∈ attrs) : Settling attrs (texts.read a) := by
  intro b hb
  unfold Texts.read
  split
  · next heq =>
    right
    rw [show cstr b.value = cstr a.value from hparsed b hb a ha heq]
    rcases h a ha with htext | htext
    · rw [htext]
    · rw [htext, settled_settled]
  · exact h b hb

theorem readAll_cons (a : XmlAttr) (extras : List XmlAttr) (texts : Texts) :
    readAll (a :: extras) texts = readAll extras (texts.read a) := rfl

section Readings

variable {attrs : List XmlAttr} {texts : Texts} {extras : List XmlAttr}

/-- What has been read has settled. -/
theorem readAll_settled (h : Addressed attrs texts) (hextras : ∀ a ∈ extras, a ∈ attrs)
    {b : XmlAttr} (hb : b ∈ attrs) :
    readAll extras texts b = texts b ∨ readAll extras texts b = settled (texts b) := by
  induction extras generalizing texts with
  | nil => exact .inl rfl
  | cons a extras ih =>
    rw [List.forall_mem_cons] at hextras
    rw [readAll_cons]
    have hsettled := h.settled_read hextras.1 hb
    rcases ih (h.read a) hextras.2 with hrest | hrest
    · rw [hrest]
      unfold Texts.read
      split
      · next heq => exact .inr (by rw [h b hb a hextras.1 heq])
      · exact .inl rfl
    · exact .inr (by rw [hrest, hsettled])

theorem readAll_of_mem (h : Addressed attrs texts) (hextras : ∀ a ∈ extras, a ∈ attrs)
    {b : XmlAttr} (hb : b ∈ extras) : readAll extras texts b = settled (texts b) := by
  induction extras generalizing texts with
  | nil => cases hb
  | cons a extras ih =>
    rw [List.forall_mem_cons] at hextras
    rw [readAll_cons]
    rcases List.mem_cons.mp hb with rfl | hb
    · have hread : texts.read b b = settled (texts b) := if_pos rfl
      rcases readAll_settled (h.read b) hextras.2 hextras.1 with hrest | hrest
      · rw [hrest, hread]
      · rw [hrest, hread, settled_settled]
    · rw [ih (h.read a) hextras.2 hb, h.settled_read hextras.1 (hextras.2 b hb)]

/-- The length of the headers that a text gives. -/
def textLength (s : Bytes) : ℕ := headersLength (headerTokens s)

/-- **A reading gives at least the headers of the settled texts**, and no more only if all the texts
are stable. -/
theorem readLength_ge (h : Addressed attrs texts) (hextras : ∀ a ∈ extras, a ∈ attrs) :
    (extras.map fun a => textLength (settled (texts a))).sum ≤ readLength extras texts ∧
      (readLength extras texts = (extras.map fun a => textLength (settled (texts a))).sum →
        ∀ a ∈ extras, Stable (texts a)) := by
  induction extras generalizing texts with
  | nil => exact ⟨Nat.le_refl _, fun _ a ha => absurd ha List.not_mem_nil⟩
  | cons a extras ih =>
    rw [List.forall_mem_cons] at hextras
    obtain ⟨hle, hstable⟩ := ih (h.read a) hextras.2
    obtain ⟨hone, honestable⟩ := headersLength_settled (texts a)
    have hrest : (extras.map fun b => textLength (settled (texts.read a b))) =
        extras.map fun b => textLength (settled (texts b)) := by
      apply List.map_congr_left
      intro b hb
      rw [h.settled_read hextras.1 (hextras.2 b hb)]
    rw [hrest] at hle hstable
    rw [List.map_cons, List.sum_cons, readLength]
    unfold textLength at *
    refine ⟨Nat.add_le_add hone hle, fun heq => ?_⟩
    have hfirst : Stable (texts a) := honestable (by omega)
    refine List.forall_mem_cons.mpr ⟨hfirst, fun b hb => ?_⟩
    have hread := hstable (by omega) b hb
    unfold Texts.read at hread
    split at hread
    · next haddr =>
      rw [h b (hextras.2 b hb) a hextras.1 haddr]
      exact hfirst
    · exact hread

/-- Settled texts give their headers in every reading. -/
theorem readLength_settled (h : Addressed attrs texts) (hextras : ∀ a ∈ extras, a ∈ attrs)
    (hsettled : ∀ a ∈ extras, settled (texts a) = texts a) :
    readLength extras texts = (extras.map fun a => textLength (texts a)).sum := by
  induction extras generalizing texts with
  | nil => rfl
  | cons a extras ih =>
    rw [List.forall_mem_cons] at hextras hsettled
    have hsame : ∀ b ∈ extras, texts.read a b = texts b := by
      intro b hb
      unfold Texts.read
      split
      · next heq => rw [hsettled.1, h b (hextras.2 b hb) a hextras.1 heq]
      · rfl
    have hrest := ih (h.read a) hextras.2 fun b hb => by rw [hsame b hb, hsettled.2 b hb]
    rw [readLength, hrest, List.map_cons, List.sum_cons]
    congr 2
    apply List.map_congr_left
    intro b hb
    rw [hsame b hb]

/-- **A second reading** of the same attributes gives the same length only if their texts were
stable. -/
theorem stable_of_readLength_eq (h : Addressed attrs texts) (hextras : ∀ a ∈ extras, a ∈ attrs)
    {texts' : Texts} (hagain : ∀ a ∈ extras, texts' a = settled (texts a))
    (haddressed : Addressed attrs texts')
    (heq : readLength extras texts' = readLength extras texts) : ∀ a ∈ extras, Stable (texts a) := by
  have hsettled : ∀ a ∈ extras, settled (texts' a) = texts' a := by
    intro a ha
    rw [hagain a ha, settled_settled]
  have hsum : (extras.map fun a => textLength (texts' a)) =
      extras.map fun a => textLength (settled (texts a)) := by
    apply List.map_congr_left
    intro a ha
    rw [hagain a ha]
  rw [readLength_settled haddressed hextras hsettled, hsum] at heq
  exact (readLength_ge h hextras).2 heq.symm

theorem Addressed.readAll (h : Addressed attrs texts) (extras : List XmlAttr) :
    Addressed attrs (readAll extras texts) := by
  induction extras generalizing texts with
  | nil => exact h
  | cons a extras ih => exact ih (h.read a)

end Readings

/-! ### A url element -/

section Element

variable {files : Files} {attrs attr : List XmlAttr} {u : Url} {values : Values}

theorem parseUrlAttr_settling (files : Files) (u : Url) (hparsed : Parsed attrs)
    (h : Settling attrs (textsOf values)) {a : XmlAttr} (ha : a ∈ attrs) :
    Settling attrs (textsOf (parseUrlAttr files a u values).2.2) := by
  cases hextra : isExtra a with
  | true =>
    obtain ⟨values', hrun, htexts⟩ := parseUrlAttr_extra files hextra u values
    rw [hrun, htexts]
    exact h.read hparsed ha
  | false =>
    rw [parseUrlAttr_other files hextra u values values]
    exact h

theorem parseUrlAttrs_settling (hparsed : Parsed attrs) (h : Settling attrs (textsOf values))
    (hattr : ∀ a ∈ attr, a ∈ attrs) :
    Settling attrs (textsOf (parseUrlAttrs files attr u values).2.2) := by
  induction attr generalizing u values with
  | nil => exact h
  | cons a attr ih =>
    rw [List.forall_mem_cons] at hattr
    have hone := parseUrlAttr_settling files u hparsed h hattr.1
    unfold parseUrlAttrs
    cases hrun : parseUrlAttr files a u values with
    | mk stat rest =>
      rw [hrun] at hone
      cases stat with
      | some stat => exact hone
      | none => exact ih hone hattr.2

/-- **A url element** leaves texts that are as they were parsed, or settled. -/
theorem parseXmlUrlInfo_settling (files : Files) (u : Url) (hparsed : Parsed attrs)
    (h : Settling attrs (textsOf values)) (hattr : ∀ a ∈ attr, a ∈ attrs) (cdata : List Bytes) :
    Settling attrs (textsOf (parseXmlUrlInfo files cdata attr u values).2.2) := by
  unfold parseXmlUrlInfo
  dsimp only
  split
  · exact h
  · exact parseUrlAttrs_settling hparsed h hattr

/-- What one attribute adds to the headers and does to the texts. -/
theorem parseUrlAttr_reads (files : Files) (a : XmlAttr) (u : Url) (values : Values) :
    textsOf (parseUrlAttr files a u values).2.2 =
        readAll ([a].filter isExtra) (textsOf values) ∧
      (parseUrlAttr files a u values).2.1.extraHeaders =
        addHeaders u.extraHeaders (readTokens ([a].filter isExtra) (textsOf values)) := by
  cases hextra : isExtra a with
  | true =>
    obtain ⟨values', hrun, htexts⟩ := parseUrlAttr_extra files hextra u values
    rw [hrun, List.filter_cons_of_pos hextra]
    refine ⟨htexts, ?_⟩
    show _ = addHeaders u.extraHeaders (headerTokens (textsOf values a) ++ [])
    rw [List.append_nil]
  | false =>
    rw [(parseUrlAttr_spec files _ _ _).headers hextra, parseUrlAttr_other files hextra u values values,
      List.filter_cons_of_neg (by rw [hextra]; exact Bool.false_ne_true)]
    exact ⟨rfl, rfl⟩

theorem parseUrlAttrs_reads (h : (parseUrlAttrs files attr u values).1 = .success) :
    textsOf (parseUrlAttrs files attr u values).2.2 =
        readAll (attr.filter isExtra) (textsOf values) ∧
      (parseUrlAttrs files attr u values).2.1.extraHeaders =
        addHeaders u.extraHeaders (readTokens (attr.filter isExtra) (textsOf values)) := by
  induction attr generalizing u values with
  | nil => exact ⟨rfl, rfl⟩
  | cons a attr ih =>
    obtain ⟨u₁, values₁, hrun, hrest⟩ := parseUrlAttrs_cons h
    obtain ⟨htexts, hheaders⟩ := parseUrlAttr_reads files a u values
    rw [hrun] at htexts hheaders
    rw [hrest] at h ⊢
    obtain ⟨hmoretexts, hmoreheaders⟩ := ih h
    dsimp only at htexts hheaders
    rw [hmoretexts, hmoreheaders, htexts, hheaders]
    cases hextra : isExtra a with
    | true =>
      rw [List.filter_cons_of_pos hextra, List.filter_cons_of_pos hextra]
      refine ⟨rfl, ?_⟩
      simp only [List.filter_nil, readTokens, readAll, List.foldl_cons, List.foldl_nil,
        List.append_nil]
      exact List.foldl_append.symm
    | false =>
      have hneg : ¬ isExtra a = true := by rw [hextra]; exact Bool.false_ne_true
      rw [List.filter_cons_of_neg hneg, List.filter_cons_of_neg hneg]
      exact ⟨rfl, rfl⟩

/-- **A url element** adds the headers of its extra headers, read one behind the other. -/
theorem parseXmlUrlInfo_headers {cdata : List Bytes}
    (h : (parseXmlUrlInfo files cdata attr {} values).1 = .success) :
    textsOf (parseXmlUrlInfo files cdata attr {} values).2.2 =
        readAll (attr.filter isExtra) (textsOf values) ∧
      (parseXmlUrlInfo files cdata attr {} values).2.1.extraHeaders =
        addHeaders none (readTokens (attr.filter isExtra) (textsOf values)) := by
  have hstart : (if cdata ≠ [] then { ({} : Url) with url := some (cdata.map cstr).flatten }
      else {}).extraHeaders = none := by
    split
    · rfl
    · rfl
  unfold parseXmlUrlInfo at h ⊢
  dsimp only at h ⊢
  split at h
  · next hnil =>
    rw [if_pos hnil, hnil]
    exact ⟨rfl, hstart⟩
  · next hne =>
    obtain ⟨htexts, hheaders⟩ := parseUrlAttrs_reads h
    rw [hstart] at hheaders
    rw [if_neg hne, htexts, hheaders]
    exact ⟨rfl, rfl⟩

theorem parseXmlUrlInfo_reads {cdata : List Bytes}
    (h : (parseXmlUrlInfo files cdata attr {} values).1 = .success) :
    textsOf (parseXmlUrlInfo files cdata attr {} values).2.2 =
        readAll (attr.filter isExtra) (textsOf values) ∧
      ((parseXmlUrlInfo files cdata attr {} values).2.1.extraHeaders.getD []).length =
        readLength (attr.filter isExtra) (textsOf values) := by
  obtain ⟨htexts, hheaders⟩ := parseXmlUrlInfo_headers h
  refine ⟨htexts, ?_⟩
  rw [hheaders, addHeaders_length, headersLength_readTokens]
  exact Nat.zero_add _

/-- The extra headers of an element are stable. -/
def StableExtras (attr : List XmlAttr) : Prop := ∀ a ∈ attr, isExtra a → Stable (cstr a.value)

/-- A stable text gives the same headers as it was parsed and settled. -/
theorem addHeaders_settling {texts : Texts} (h : Settling attrs texts) {a : XmlAttr}
    (ha : a ∈ attrs) (hstable : Stable (cstr a.value)) (extra : Option Bytes) :
    addHeaders extra (headerTokens (texts a)) = addHeaders extra (headerTokens (cstr a.value)) := by
  rcases h a ha with htext | htext
  · rw [htext]
  · rw [htext, addHeaders_settled hstable]

theorem parseUrlAttrs_again {values' : Values} (hparsed : Parsed attrs)
    (h : Settling attrs (textsOf values)) (h' : Settling attrs (textsOf values'))
    (hattr : ∀ a ∈ attr, a ∈ attrs) (hstable : StableExtras attr) :
    (parseUrlAttrs files attr u values').1 = (parseUrlAttrs files attr u values).1 ∧
      (parseUrlAttrs files attr u values').2.1 = (parseUrlAttrs files attr u values).2.1 := by
  induction attr generalizing u values values' with
  | nil => exact ⟨rfl, rfl⟩
  | cons a attr ih =>
    rw [List.forall_mem_cons] at hattr
    have hhere := hstable a List.mem_cons_self
    have hrest : StableExtras attr := fun b hb => hstable b (List.mem_cons_of_mem a hb)
    have hone := parseUrlAttr_settling files u hparsed h hattr.1
    have hone' := parseUrlAttr_settling files u hparsed h' hattr.1
    unfold parseUrlAttrs
    cases hextra : isExtra a with
    | true =>
      obtain ⟨_, hrun, -⟩ := parseUrlAttr_extra files hextra u values
      obtain ⟨_, hrun', -⟩ := parseUrlAttr_extra files hextra u values'
      rw [hrun] at hone
      rw [hrun'] at hone'
      rw [hrun, hrun', addHeaders_settling h hattr.1 (hhere hextra),
        addHeaders_settling h' hattr.1 (hhere hextra)]
      exact ih hone hone' hattr.2 hrest
    | false =>
      rw [parseUrlAttr_other files hextra u values values] at hone ⊢
      rw [parseUrlAttr_other files hextra u values' values] at hone' ⊢
      cases (parseUrlAttr files a u values).1 with
      | some stat => exact ⟨rfl, rfl⟩
      | none => exact ih hone hone' hattr.2 hrest

/-- **A url element with stable headers** gives the same slot in every reading. -/
theorem parseXmlUrlInfo_again (files : Files) (u : Url) {values' : Values} (hparsed : Parsed attrs)
    (h : Settling attrs (textsOf values)) (h' : Settling attrs (textsOf values'))
    (hattr : ∀ a ∈ attr, a ∈ attrs) (hstable : StableExtras attr) (cdata : List Bytes) :
    (parseXmlUrlInfo files cdata attr u values').1 =
        (parseXmlUrlInfo files cdata attr u values).1 ∧
      (parseXmlUrlInfo files cdata attr u values').2.1 =
        (parseXmlUrlInfo files cdata attr u values).2.1 := by
  unfold parseXmlUrlInfo
  dsimp only
  split
  · exact ⟨rfl, rfl⟩
  · exact parseUrlAttrs_again hparsed h h' hattr hstable

end Element

end Flood.HeaderMemory
