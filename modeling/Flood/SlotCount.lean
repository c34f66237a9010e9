import Flood.UrllistSteps

/-!
# The number of slots

`count_xml_seq_child` and `count_xml_elem_child` say how many slots a urllist needs, before anything
is parsed; the traversal then fills them.

* `urlCount_eq` — what the counters arrive at.
* `fills_urllistSteps` — how many slots the traversal fills.
* `slots_counted` — the two numbers are the same, and no slot is written behind the last one counted.
-/

namespace Flood.SlotCount

open Flood.CString Flood.Net Flood.Template Flood.RoundRobin Flood.Config
open Flood.UrlElement Flood.InTurn Flood.ProfileInit Flood.UrllistSteps

/-- Every sequence has one name and one list, at any depth. -/
def Complete : XmlElem → Prop
  | .null => True
  | .elem name _ attr firstChild next =>
    (sameName name XML_URLLIST_SEQUENCE → OneEach attr ∧ Complete firstChild) ∧ Complete next

/-- The number of slots for an element and its siblings: one for each url, and for a sequence the
number of its items times the slots of its children. -/
def slotTotal : XmlElem → ℕ
  | .null => 0
  | .elem name _ attr firstChild next =>
    (if sameName name XML_URLLIST_SEQUENCE then
      (((lastNamed XML_URLLIST_SEQUENCE_LIST attr).map seqItems).getD []).length *
        slotTotal firstChild
    else if sameName name XML_URLLIST_URL then 1
    else 0) + slotTotal next

/-! ### The counters -/

/-- What the slots of an element and its siblings that come from sequences add up to. -/
def seqTotal : XmlElem → ℕ
  | .null => 0
  | .elem name _ attr firstChild next =>
    (if sameName name XML_URLLIST_SEQUENCE then
      (((lastNamed XML_URLLIST_SEQUENCE_LIST attr).map seqItems).getD []).length *
        slotTotal firstChild
    else 0) + seqTotal next

instance decidableComplete : (e : XmlElem) → Decidable (Complete e)
  | .null => isTrue trivial
  | .elem _ _ _ firstChild next =>
    have := decidableComplete firstChild
    have := decidableComplete next
    inferInstanceAs (Decidable ((_ → _ ∧ _) ∧ _))

theorem slotTotal_eq (e : XmlElem) : slotTotal e = seqTotal e + countNamed XML_URLLIST_URL e := by
  induction e with
  | null => rfl
  | elem name cdata attr firstChild next _ ih =>
    rw [slotTotal, seqTotal, countNamed, ih]
    by_cases hseq : sameName name XML_URLLIST_SEQUENCE = true
    · rw [if_pos hseq, if_pos hseq, not_url_of_sequence hseq]
      simp only [Bool.false_eq_true, if_false]
      omega
    · rw [if_neg hseq, if_neg hseq]
      omega

/-- **`list_count`** is the number of items in the lists of a sequence. -/
theorem seqListCount_sum (attr : List XmlAttr) (count : ℕ) :
    seqListCount attr count =
      count + ((attr.filter fun a => sameName a.name XML_URLLIST_SEQUENCE_LIST).map fun a =>
        (seqItems a.value).length).sum := by
  induction attr generalizing count with
  | nil => rfl
  | cons a attr ih =>
    rw [List.filter_cons]
    split
    · next hlist => rw [seqListCount_cons hlist, ih, List.map_cons, List.sum_cons, Nat.add_assoc]
    · next hlist => rw [seqListCount, if_neg hlist, ih]

/-- For a sequence with one list these are its items. -/
theorem seqListCount_eq {attr : List XmlAttr} {a : XmlAttr}
    (h : (attr.filter fun a => sameName a.name XML_URLLIST_SEQUENCE_LIST) = [a]) :
    seqListCount attr 0 = (seqItems a.value).length := by
  rw [seqListCount_sum, h]
  simp

/-- A sequence with a list counts for the slots of its children, once for each item. -/
theorem countSeqs_sequence {name : Bytes} {cdata : List Bytes} {attr : List XmlAttr}
    {firstChild next : XmlElem} (hseq : sameName name XML_URLLIST_SEQUENCE = true)
    (hlist : seqListCount attr 0 ≠ 0) {c : ℤ} (hchild : countSeqs firstChild 0 = wrapInt 32 c)
    (x : ℤ) :
    countSeqs (.elem name cdata attr firstChild next) (wrapInt 32 x) =
      countSeqs next (wrapInt 32
        (x + seqListCount attr 0 * (c + countNamed XML_URLLIST_URL firstChild))) := by
  have hinner : wrapInt 32 (countSeqs firstChild 0 +
      wrapInt 32 (countNamed XML_URLLIST_URL firstChild)) =
      wrapInt 32 (c + countNamed XML_URLLIST_URL firstChild) := by
    rw [hchild, wrapInt_add_wrapInt, wrapInt_add_right]
  rw [countSeqs, if_pos hseq, if_neg hlist, hinner]
  dsimp only
  rw [wrapInt_add_wrapInt, ← wrapInt_add_right, wrapInt_mul_right, wrapInt_add_right]

/-- The loop of `count_xml_seq_child`, in the arithmetic of an `int`. -/
theorem countSeqs_eq {e : XmlElem} (h : Complete e) (x : ℤ) :
    countSeqs e (wrapInt 32 x) = wrapInt 32 (x + seqTotal e) := by
  induction e generalizing x with
  | null => simp [countSeqs, seqTotal]
  | elem name cdata attr firstChild next ihchild ihnext =>
    rw [seqTotal]
    by_cases hseq : sameName name XML_URLLIST_SEQUENCE = true
    · obtain ⟨hone, hchild⟩ := h.1 hseq
      obtain ⟨a, ha, hlast⟩ := lastNamed_of_one hone.list
      have hcount := seqListCount_eq ha
      have hne : seqListCount attr 0 ≠ 0 := by
        rw [hcount]
        exact fun hzero => seqItems_ne_nil a.value (List.length_eq_zero_iff.mp hzero)
      have hzero := ihchild hchild 0
      rw [show wrapInt 32 0 = 0 from rfl, Int.zero_add] at hzero
      rw [countSeqs_sequence hseq hne hzero, ihnext h.2, if_pos hseq, hcount, hlast,
        Option.map_some, Option.getD_some, slotTotal_eq]
      push_cast
      rw [Int.add_assoc]
    · rw [countSeqs, if_neg hseq, if_neg hseq, ihnext h.2, Nat.zero_add]

/-- **`p->urls`** is the number of slots, in the arithmetic of an `int`. -/
theorem urlCount_eq {urllistElem : XmlElem} (h : Complete urllistElem.firstChild) :
    urlCount urllistElem = wrapInt 32 (slotTotal urllistElem.firstChild) := by
  have hzero := countSeqs_eq h 0
  rw [show wrapInt 32 0 = 0 from rfl, Int.zero_add] at hzero
  rw [urlCount, countXmlSeqChild, hzero, countXmlElemChild, wrapInt_add_wrapInt,
    wrapInt_add_right, slotTotal_eq]
  push_cast
  rfl

/-! ### The traversal -/

theorem fills_flatMap (seqname : Bytes) (children : List ParseStep) (items : List Bytes) :
    fills (items.flatMap fun item => .bind seqname item :: children) =
      items.length * fills children := by
  induction items with
  | nil => simp [fills]
  | cons item items ih =>
    have hbind : fills (.bind seqname item :: children) = fills children := rfl
    rw [List.flatMap_cons, fills_append, ih, hbind, List.length_cons, Nat.succ_mul, Nat.add_comm]

theorem fills_sequenceSteps {attr : List XmlAttr} (h : OneEach attr) (children : List ParseStep) :
    fills (sequenceSteps attr children) =
      (((lastNamed XML_URLLIST_SEQUENCE_LIST attr).map seqItems).getD []).length *
        fills children := by
  obtain ⟨a, -, hname⟩ := lastNamed_of_one h.name
  obtain ⟨b, -, hlist⟩ := lastNamed_of_one h.list
  rw [sequenceSteps_eq hname hlist, fills_flatMap, hlist]
  rfl

theorem fills_childSteps {e : XmlElem} (h : Complete e) : fills (childSteps e) = slotTotal e := by
  induction e with
  | null => rfl
  | elem name cdata attr firstChild next ihchild ihnext =>
    rw [childSteps, slotTotal, fills_append, ihnext h.2]
    congr 1
    by_cases hseq : sameName name XML_URLLIST_SEQUENCE = true
    · obtain ⟨hone, hchild⟩ := h.1 hseq
      rw [if_pos hseq, if_pos hseq, fills_sequenceSteps hone, ihchild hchild]
    · rw [if_neg hseq, if_neg hseq]
      split
      · rfl
      · rfl

/-- **The traversal** fills as many slots as the urllist has. -/
theorem fills_urllistSteps {e : XmlElem} (h : Complete e) :
    fills (urllistSteps e) = slotTotal e := by
  induction e with
  | null => rfl
  | elem name cdata attr firstChild next _ ihnext =>
    rw [urllistSteps, slotTotal, fills_append, ihnext h.2]
    congr 1
    by_cases hseq : sameName name XML_URLLIST_SEQUENCE = true
    · obtain ⟨hone, hchild⟩ := h.1 hseq
      rw [if_pos hseq, if_pos hseq, fills_sequenceSteps hone, fills_childSteps hchild]
    · rw [if_neg hseq, if_neg hseq]
      split
      · rfl
      · rfl

/-- Where the slots are allocated and the traversal starts. -/
theorem parseUrls_cases (files : Files) (urllistElem : XmlElem) (st : ParseState) :
    (∃ r, parseUrls files urllistElem st = (some r, st)) ∨
    0 < urlCount urllistElem ∧ urlCount urllistElem + 1 < 2 ^ 31 ∧
      parseUrls files urllistElem st = runSteps files (urlCount urllistElem)
        (urllistSteps urllistElem.firstChild) st := by
  unfold parseUrls
  split
  · exact .inl ⟨_, rfl⟩
  · next hpos =>
    split
    · exact .inl ⟨_, rfl⟩
    · next hroom =>
      have hlt : urlCount urllistElem < 2 ^ 31 := wrapInt_lt 31 _
      refine .inr ⟨by omega, ?_, by rw [parseUrllist_eq]⟩
      by_contra hge
      have hmax : urlCount urllistElem = 2147483647 := by omega
      rw [hmax] at hroom
      exact hroom (by decide)

theorem numbered_start {urls : ℤ} (h : 0 < urls) (values : Values) (draws : Draws) :
    Numbered urls (ParseState.start values draws) :=
  ⟨rfl, rfl, by show (0 : ℤ) ≤ urls + 1; omega⟩

/-- The slots of a urllist whose sequences have one name and one list each. -/
theorem parseUrls_counted (files : Files) {urllistElem : XmlElem} (values : Values)
    (draws : Draws) (hcomplete : Complete urllistElem.firstChild)
    (htotal : slotTotal urllistElem.firstChild < 2 ^ 31) :
    let r := parseUrls files urllistElem (ParseState.start values draws)
    Indexed r.2 ∧ (r.2.slots.length : ℤ) ≤ urlCount urllistElem ∧
      (r.1 = none → (r.2.slots.length : ℤ) = urlCount urllistElem) := by
  have hurls : urlCount urllistElem = slotTotal urllistElem.firstChild := by
    rw [urlCount_eq hcomplete]
    exact wrapInt_of_lt (Int.natCast_nonneg _) (by exact_mod_cast htotal)
  have hzero : (ParseState.start values draws).slots.length = 0 := rfl
  dsimp only
  rcases parseUrls_cases files urllistElem (ParseState.start values draws) with
    ⟨r, hstop⟩ | ⟨hpos, hroom, hrun⟩
  · rw [hstop, hurls]
    exact ⟨rfl, Int.natCast_nonneg _, fun h => by cases h⟩
  · have hprogress := runSteps_progress files hroom
      (urllistSteps urllistElem.firstChild) (numbered_start hpos values draws)
    rw [fills_urllistSteps hcomplete] at hprogress
    rw [hrun]
    have hle := hprogress.le
    refine ⟨hprogress.indexed, by omega, fun hnone => ?_⟩
    obtain ⟨-, hlen⟩ := hprogress.done hnone
    omega

/-- Slots that are filled from the first one on, and not more than counted, are counted. -/
theorem counted_of_indexed {st : ParseState} {urls : ℤ} (hindexed : Indexed st)
    (hle : (st.slots.length : ℤ) ≤ urls) : ∀ slot ∈ st.slots, 0 ≤ slot.1 ∧ slot.1 < urls := by
  intro slot hslot
  have hmem : slot.1 ∈ _ := List.mem_map_of_mem hslot
  rw [show _ = _ from hindexed, List.mem_map] at hmem
  obtain ⟨k, hk, hslot⟩ := hmem
  have hk' := List.mem_range.mp hk
  omega

/-- **The slots are counted right**: in every initialisation of a profile whose urllist has one name
and one list in each of its sequences, the slots are filled from the first one on, and none is
written behind the last one counted.  All of them have been filled where the traversal succeeds, and
so where a profile is handed over. -/
theorem slots_counted (uriParse : Bytes → Uri) (files : Files) (profileName : Bytes)
    (rootElem urllistElem : XmlElem) (rounds : ℤ) (values : Values) (draws : Draws)
    (hfound : findUrllist profileName rootElem = .ok (.success, rounds, urllistElem))
    (hcomplete : Complete urllistElem.firstChild)
    (htotal : slotTotal urllistElem.firstChild < 2 ^ 31) :
    let t := parseUrls files urllistElem (ParseState.start values draws)
    let r := roundRobinProfileInit uriParse files profileName rootElem values draws
    (Indexed t.2 ∧ (∀ slot ∈ t.2.slots, 0 ≤ slot.1 ∧ slot.1 < urlCount urllistElem) ∧
      (t.1 = none → (t.2.slots.length : ℤ) = urlCount urllistElem)) ∧
    Indexed r.2 ∧ (∀ slot ∈ r.2.slots, 0 ≤ slot.1 ∧ slot.1 < urlCount urllistElem) ∧
      ∀ profile, r.1 = .ok (.success, some profile) →
        profile.urls = urlCount urllistElem ∧ (r.2.slots.length : ℤ) = profile.urls := by
  dsimp only
  obtain ⟨hindexed, hle, hdone⟩ := parseUrls_counted files values draws hcomplete htotal
  have hcounted := counted_of_indexed hindexed hle
  refine ⟨⟨hindexed, hcounted, hdone⟩, ?_⟩
  rcases roundRobinProfileInit_slots uriParse files values draws hfound with
    ⟨hstart, hnone⟩ | ⟨hslots, hprofile⟩
  · rw [hstart]
    exact ⟨rfl, fun slot hslot => absurd hslot List.not_mem_nil,
      fun profile h => absurd h (hnone profile)⟩
  · rw [hslots]
    refine ⟨hindexed, hcounted, ?_⟩
    intro profile h
    obtain ⟨hdone', hurls, -⟩ := hprofile profile h
    exact ⟨hurls, by rw [hurls, hdone hdone']⟩

/-- A urllist with a sequence of two items. -/
def twoItemsUrllist : XmlElem :=
  .elem XML_URLLIST [] []
    (.elem XML_URLLIST_NAME [bytes "u"] [] .null
      (.elem XML_URLLIST_SEQUENCE []
        [⟨0, XML_URLLIST_SEQUENCE_NAME, bytes "x"⟩, ⟨1, XML_URLLIST_SEQUENCE_LIST, bytes "a, b"⟩]
        (.elem XML_URLLIST_URL [] [⟨2, XML_URLLIST_REQUEST_TEMPLATE, bytes "/$\x7bx\x7d"⟩]
          .null .null)
        .null))
    .null

/-- A configuration with that urllist. -/
def twoItemsConfig : XmlElem :=
  .elem (bytes "flood") [] []
    (.elem XML_PROFILE [] []
      (.elem (bytes "name") [bytes "p"] [] .null
        (.elem XML_PROFILE_USEURLLIST [bytes "u"] [] .null .null))
      twoItemsUrllist)
    .null

theorem twoItems_found :
    findUrllist (bytes "p") twoItemsConfig = .ok (.success, 1, twoItemsUrllist) := by
  decide +kernel

/-- No file can be read. -/
def noFiles : Files where
  stat _ := (.errno 2, 0)
  fileOpen _ := .errno 2
  content _ := []
  readFull _ _ := (.errno 2, [])
  readFull_short _ _ _ := by decide

theorem twoItems_total : slotTotal twoItemsUrllist.firstChild = 2 := by decide +kernel

theorem slots_counted_twoItems :
    let t := parseUrls noFiles twoItemsUrllist (ParseState.start (fun _ => none) fun _ => 0)
    let r := roundRobinProfileInit (fun _ => ⟨none, none, 0, none, none, none, none, none⟩) noFiles
      (bytes "p") twoItemsConfig (fun _ => none) (fun _ => 0)
    t.2.slots.length = 2 ∧
    Indexed r.2 ∧ (∀ slot ∈ r.2.slots, 0 ≤ slot.1 ∧ slot.1 < 2) ∧
      ∀ profile, r.1 = .ok (.success, some profile) →
        profile.urls = 2 ∧ (r.2.slots.length : ℤ) = profile.urls := by
  have hurls : urlCount twoItemsUrllist = 2 := by decide +kernel
  obtain ⟨⟨-, -, hdone⟩, hinit⟩ :=
    slots_counted (fun _ => ⟨none, none, 0, none, none, none, none, none⟩) noFiles (bytes "p")
      twoItemsConfig twoItemsUrllist 1 (fun _ => none) (fun _ => 0) twoItems_found
      (by decide +kernel) (by rw [twoItems_total]; omega)
  rw [hurls] at hdone hinit
  exact ⟨by exact_mod_cast hdone (by decide +kernel), hinit⟩

end Flood.SlotCount
