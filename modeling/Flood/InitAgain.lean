import Flood.HeaderMemory
import Flood.UrllistExpansion

/-!
# Initialising again

The document stays in memory for all the initialisations of a run, and an initialisation settles the
extra headers of the url elements that it comes to.

* `runSteps_again` — with stable headers the traversal fills the same slots whatever the memory is.
* `runSteps_reads` — how long the headers of the slots are, and what the texts are afterwards.
* `initialised_again_iff` — every later initialisation fills the slots as the first one did if and
  only if the headers are stable.
-/

namespace Flood.InitAgain

open Flood.CString Flood.Net Flood.Template Flood.TemplateSubstitution Flood.RoundRobin
open Flood.Config Flood.ExtraHeaders Flood.UrlElement Flood.InTurn Flood.ProfileInit
open Flood.UrllistSteps Flood.SlotCount Flood.UrllistExpansion Flood.HeaderMemory

/-! ### Templates without random numbers -/

/-- No placeholder of the template is a random number. -/
def Drawless (template : Bytes) : Prop :=
  ∀ part ∈ (readTemplate (cstr template)).1, part.2.head? ≠ some 61

instance (template : Bytes) : Decidable (Drawless template) :=
  inferInstanceAs (Decidable (∀ part ∈ _, _))

/-- The loop draws nothing, and leaves the draws alone. -/
theorem expandLoop_drawless {n : ℕ} {cur : Bytes}
    (h : ∀ part ∈ (readParts n cur).1, part.2.head? ≠ some 61) (set : ExpandParam)
    (returnValue : Option Bytes) (state : Vars) (draws draws' : Draws) :
    expandLoop none set n ⟨cur, returnValue, state, draws⟩ =
      (expandLoop none set n ⟨cur, returnValue, state, draws'⟩).map
        fun s => { s with draws := draws } := by
  induction n generalizing cur returnValue with
  | zero => rfl
  | succ n ih =>
    unfold readParts at h
    unfold expandLoop
    cases hre : regexec cur with
    | none => rfl
    | some found =>
      obtain ⟨cpy, name, rest⟩ := found
      rw [hre] at h
      rw [List.forall_mem_cons] at h
      have hname : ∀ var, name ≠ 61 :: var := by
        intro var heq
        exact h.1 (by rw [heq]; rfl)
      unfold placeholderData
      dsimp only
      rw [boundData_name hname, boundData_name hname]
      cases state name with
      | none => rfl
      | some value => exact ih h.2 _

/-- A template without random numbers. -/
theorem expandTemplate_drawless {template : Option Bytes}
    (h : ∀ t ∈ template.toList, Drawless t) (state : Vars) (draws draws' : Draws) :
    expandTemplate template state draws =
      (expandTemplate template state draws').map fun r => (r.1, r.2.1, draws) := by
  cases template with
  | none => rfl
  | some t =>
    have hloop := expandLoop_drawless (h t (by simp)) .passthrough none state draws draws'
    unfold expandTemplate handleParamString
    dsimp only
    rw [hloop]
    cases expandLoop none .passthrough (cstr t).length ⟨cstr t, none, state, draws'⟩ with
    | error a => rfl
    | ok s => rfl

/-- A slot whose templates have no random numbers. -/
theorem expandUrl_drawless {u : Url} (h : ∀ t ∈ (slotTemplates u).toList, Drawless t) (state : Vars)
    (draws draws' : Draws) :
    expandUrl u state draws = (expandUrl u state draws').map fun r => (r.1, r.2.1, draws) := by
  have hpayload : ∀ t ∈ u.payloadtemplate.toList, Drawless t := fun t ht =>
    h t (List.mem_append_left _ (List.mem_append_left _ ht))
  have hrequest : ∀ t ∈ u.requesttemplate.toList, Drawless t := fun t ht =>
    h t (List.mem_append_left _ (List.mem_append_right _ ht))
  have hresponse : ∀ t ∈ u.responsetemplate.toList, Drawless t := fun t ht =>
    h t (List.mem_append_right _ ht)
  unfold expandUrl
  rw [expandTemplate_drawless hpayload state draws draws']
  cases expandTemplate u.payloadtemplate state draws' with
  | error a => rfl
  | ok r =>
    obtain ⟨payloadtemplate, state, draws₁⟩ := r
    dsimp only [Except.map]
    rw [expandTemplate_drawless hrequest state draws draws₁]
    cases expandTemplate u.requesttemplate state draws₁ with
    | error a => rfl
    | ok r =>
      obtain ⟨requesttemplate, state, draws₂⟩ := r
      dsimp only [Except.map]
      rw [expandTemplate_drawless hresponse state draws draws₂]
      cases expandTemplate u.responsetemplate state draws₂ with
      | error a => rfl
      | ok r => rfl

/-! ### The same slots in every reading -/

/-- A url element as a step of the traversal has it: its text and its attributes. -/
abbrev UrlNode := List Bytes × List XmlAttr

/-- The url element that a step fills a slot from. -/
def node : ParseStep → Option UrlNode
  | .fill _ cdata attr => some (cdata, attr)
  | _ => none

/-- The url elements that the slots are filled from, one for each slot. -/
def nodes (steps : List ParseStep) : List UrlNode := steps.filterMap node

/-- No template that a step expands has a random number. -/
def drawless : ParseStep → Prop
  | .fill true _ attr => ∀ t ∈ (urlTemplates attr).toList, Drawless t
  | _ => True

/-- Two states of the traversal with the same slots and the same hash; the random numbers are the same
too, unless none are drawn, and in both memories the texts are as they were parsed, or settled. -/
structure Same (attrs : List XmlAttr) (undrawn : Prop) (st st' : ParseState) : Prop where
  slots : st'.slots = st.slots
  currentUrl : st'.currentUrl = st.currentUrl
  state : st'.state = st.state
  draws : st'.draws = st.draws ∨ undrawn
  texts : Settling attrs (textsOf st.values)
  texts' : Settling attrs (textsOf st'.values)

section Steps

variable {files : Files} {urls : ℤ} {attrs : List XmlAttr} {undrawn : Prop}
  {st st' : ParseState}

/-- **A url element with stable headers** fills the same slot in both. -/
theorem fillSlot_again (hparsed : Parsed attrs) {inSequence : Bool} {cdata : List Bytes}
    {attr : List XmlAttr} (hattr : ∀ a ∈ attr, a ∈ attrs) (hstable : StableExtras attr)
    (hundrawn : undrawn → drawless (.fill inSequence cdata attr)) (h : Same attrs undrawn st st') :
    (fillSlot files urls inSequence cdata attr st').1 =
        (fillSlot files urls inSequence cdata attr st).1 ∧
      Same attrs undrawn (fillSlot files urls inSequence cdata attr st).2
        (fillSlot files urls inSequence cdata attr st').2 := by
  obtain ⟨hstat, hslot⟩ :=
    parseXmlUrlInfo_again files {} hparsed h.texts h.texts' hattr hstable cdata
  have htexts := parseXmlUrlInfo_settling files {} hparsed h.texts hattr cdata
  have htexts' := parseXmlUrlInfo_settling files {} hparsed h.texts' hattr cdata
  have htemplates : (parseXmlUrlInfo files cdata attr {} st.values).1 = .success →
      slotTemplates (parseXmlUrlInfo files cdata attr {} st.values).2.1 = urlTemplates attr :=
    parseXmlUrlInfo_templates
  unfold fillSlot
  dsimp only
  rw [h.currentUrl, h.slots]
  split
  · exact ⟨rfl, rfl, rfl, h.state, h.draws, h.texts, h.texts'⟩
  · generalize parseXmlUrlInfo files cdata attr {} st.values = r at *
    generalize parseXmlUrlInfo files cdata attr {} st'.values = r' at *
    obtain ⟨stat, u, values⟩ := r
    obtain ⟨stat', u', values'⟩ := r'
    dsimp only at hstat hslot htexts htexts' htemplates ⊢
    subst hstat hslot
    split
    · exact ⟨rfl, rfl, rfl, h.state, h.draws, htexts, htexts'⟩
    · next hsuccess =>
      cases inSequence with
      | false => exact ⟨rfl, rfl, rfl, h.state, h.draws, htexts, htexts'⟩
      | true =>
        rw [if_pos rfl, if_pos rfl, h.state]
        rcases h.draws with hdraws | hfree
        · rw [hdraws]
          cases expandUrl u' st.state st.draws with
          | error a => exact ⟨rfl, rfl, rfl, rfl, .inl rfl, htexts, htexts'⟩
          | ok r => exact ⟨rfl, rfl, rfl, rfl, .inl rfl, htexts, htexts'⟩
        · have hdrawless := hundrawn hfree
          rw [drawless, ← htemplates (not_not.mp hsuccess)] at hdrawless
          rw [expandUrl_drawless hdrawless st.state st'.draws st.draws]
          cases expandUrl u' st.state st.draws with
          | error a => exact ⟨rfl, rfl, rfl, rfl, .inr hfree, htexts, htexts'⟩
          | ok r => exact ⟨rfl, rfl, rfl, rfl, .inr hfree, htexts, htexts'⟩

/-- **The traversal with stable headers** fills the same slots from both states. -/
theorem runSteps_again (files : Files) (urls : ℤ) (hparsed : Parsed attrs) {steps : List ParseStep}
    (hattr : ∀ n ∈ nodes steps, (∀ a ∈ n.2, a ∈ attrs) ∧ StableExtras n.2)
    (hundrawn : undrawn → ∀ step ∈ steps, drawless step) (h : Same attrs undrawn st st') :
    (runSteps files urls steps st').1 = (runSteps files urls steps st).1 ∧
      Same attrs undrawn (runSteps files urls steps st).2 (runSteps files urls steps st').2 := by
  refine inTurn_related (fun f hf st st' h => ?_) h
  obtain ⟨step, hstep, rfl⟩ := List.mem_map.mp hf
  cases step with
  | bind seqname item =>
    have hstate : Function.update st'.state seqname (some item) =
        Function.update st.state seqname (some item) := by rw [h.state]
    exact ⟨rfl, h.slots, h.currentUrl, hstate, h.draws, h.texts, h.texts'⟩
  | fill inSequence cdata attr =>
    obtain ⟨hin, hstable⟩ := hattr (cdata, attr) (List.mem_filterMap.mpr ⟨_, hstep, rfl⟩)
    exact fillSlot_again hparsed hin hstable (fun hfree => hundrawn hfree _ hstep) h
  | stop r => exact ⟨rfl, h⟩

/-- The traversal leaves texts that are as they were parsed, or settled, wherever it stops. -/
theorem runSteps_settling (hparsed : Parsed attrs) {steps : List ParseStep}
    (hattr : ∀ n ∈ nodes steps, ∀ a ∈ n.2, a ∈ attrs) (h : Settling attrs (textsOf st.values)) :
    Settling attrs (textsOf (runSteps files urls steps st).2.values) := by
  refine inTurn_preserves (P := fun st : ParseState => Settling attrs (textsOf st.values))
    (fun f hf st h => ?_) h
  obtain ⟨step, hstep, rfl⟩ := List.mem_map.mp hf
  cases step with
  | bind seqname item => exact h
  | stop r => exact h
  | fill inSequence cdata attr =>
    have hin := hattr (cdata, attr) (List.mem_filterMap.mpr ⟨_, hstep, rfl⟩)
    have hkeeps := parseXmlUrlInfo_settling files {} hparsed h hin cdata
    show Settling attrs (textsOf (fillSlot files urls inSequence cdata attr st).2.values)
    unfold fillSlot
    dsimp only
    split
    · exact h
    · split
      · exact hkeeps
      · split
        · split
          · exact hkeeps
          · exact hkeeps
        · exact hkeeps

/-! ### The headers of the slots -/

theorem expandUrl_headers {u u' : Url} {state state' : Vars} {draws draws' : Draws}
    (h : expandUrl u state draws = .ok (u', state', draws')) : u'.extraHeaders = u.extraHeaders := by
  unfold expandUrl at h
  split at h
  · cases h
  · split at h
    · cases h
    · split at h
      · cases h
      · cases h
        rfl

/-- A url element that the traversal goes on behind. -/
theorem fillSlot_done {inSequence : Bool} {cdata : List Bytes} {attr : List XmlAttr}
    (h : fillSlot files urls inSequence cdata attr st = (none, st')) :
    (parseXmlUrlInfo files cdata attr {} st.values).1 = .success ∧
      st'.values = (parseXmlUrlInfo files cdata attr {} st.values).2.2 ∧
      ∃ u, st'.slots = st.slots ++ [(st.currentUrl, u)] ∧
        u.extraHeaders = (parseXmlUrlInfo files cdata attr {} st.values).2.1.extraHeaders := by
  unfold fillSlot at h
  dsimp only at h
  split at h
  · cases h
  · split at h
    · cases h
    · next hstat =>
      refine ⟨not_not.mp hstat, ?_⟩
      split at h
      · split at h
        · cases h
        · next hexpand =>
          cases h
          exact ⟨rfl, _, rfl, expandUrl_headers hexpand⟩
      · cases h
        exact ⟨rfl, _, rfl, rfl⟩

/-- The extra headers of url elements, in the order in which they are read. -/
def extras (elements : List UrlNode) : List XmlAttr := elements.flatMap fun n => n.2.filter isExtra

/-- The length of the headers of all slots. -/
def headersTotal (slots : List (ℤ × Url)) : ℕ :=
  (slots.map fun slot => (slot.2.extraHeaders.getD []).length).sum

theorem readAll_append (a b : List XmlAttr) (texts : Texts) :
    readAll (a ++ b) texts = readAll b (readAll a texts) := List.foldl_append ..

theorem readLength_append (a b : List XmlAttr) (texts : Texts) :
    readLength (a ++ b) texts = readLength a texts + readLength b (readAll a texts) := by
  induction a generalizing texts with
  | nil => exact (Nat.zero_add _).symm
  | cons x a ih =>
    show _ + readLength (a ++ b) _ = _ + readLength a _ + _
    rw [ih, Nat.add_assoc]
    rfl

theorem nodes_cons (step : ParseStep) (steps : List ParseStep) :
    nodes (step :: steps) = (node step).toList ++ nodes steps := by
  unfold nodes
  rw [List.filterMap_cons]
  cases node step with
  | none => rfl
  | some n => rfl

/-- **The headers of all slots** are as long as a reading of the extra headers makes them. -/
theorem runSteps_reads {steps : List ParseStep} (h : runSteps files urls steps st = (none, st')) :
    textsOf st'.values = readAll (extras (nodes steps)) (textsOf st.values) ∧
      headersTotal st'.slots =
        headersTotal st.slots + readLength (extras (nodes steps)) (textsOf st.values) := by
  induction steps generalizing st with
  | nil =>
    cases h
    exact ⟨rfl, rfl⟩
  | cons step steps ih =>
    obtain ⟨st₁, hone, hmore⟩ := andThen_none.mp h
    obtain ⟨htexts, htotal⟩ := ih hmore
    have hfirst : textsOf st₁.values = readAll (extras (node step).toList) (textsOf st.values) ∧
        headersTotal st₁.slots =
          headersTotal st.slots + readLength (extras (node step).toList) (textsOf st.values) := by
      cases step with
      | bind seqname item =>
        cases hone
        exact ⟨rfl, rfl⟩
      | stop r => cases hone
      | fill inSequence cdata attr =>
        obtain ⟨hstat, hvalues, u, hslots, hheaders⟩ := fillSlot_done hone
        obtain ⟨hread, hlen⟩ := parseXmlUrlInfo_reads hstat
        have hextras : extras (node (.fill inSequence cdata attr)).toList = attr.filter isExtra :=
          List.append_nil _
        rw [hextras, hvalues, hslots, headersTotal, List.map_append, List.sum_append]
        refine ⟨hread, ?_⟩
        congr 1
        show (u.extraHeaders.getD []).length + 0 = _
        rw [hheaders, hlen, Nat.add_zero]
    rw [nodes_cons, extras, List.flatMap_append]
    show textsOf st'.values = readAll (extras _ ++ extras _) _ ∧
      _ = _ + readLength (extras _ ++ extras _) _
    rw [readAll_append, readLength_append, htexts, htotal, hfirst.1, hfirst.2, Nat.add_assoc]
    exact ⟨rfl, rfl⟩

/-- **Slots of one url element** have the same extra headers, if those are stable. -/
theorem runSteps_headers (hparsed : Parsed attrs) {steps : List ParseStep}
    (hattr : ∀ n ∈ nodes steps, (∀ a ∈ n.2, a ∈ attrs) ∧ StableExtras n.2)
    (htexts : Settling attrs (textsOf st.values))
    (h : runSteps files urls steps st = (none, st')) :
    st'.slots.map (fun slot => slot.2.extraHeaders) =
      st.slots.map (fun slot => slot.2.extraHeaders) ++ (nodes steps).map fun n =>
        (parseXmlUrlInfo files n.1 n.2 {} fun _ => none).2.1.extraHeaders := by
  induction steps generalizing st with
  | nil =>
    cases h
    exact (List.append_nil _).symm
  | cons step steps ih =>
    obtain ⟨st₁, hone, hmore⟩ := andThen_none.mp h
    rw [nodes_cons] at hattr ⊢
    rw [List.forall_mem_append] at hattr
    have hkept : Settling attrs (textsOf st₁.values) := by
      have hin : ∀ n ∈ nodes [step], ∀ a ∈ n.2, a ∈ attrs := by
        intro n hn
        rw [nodes_cons] at hn
        exact (hattr.1 n ((List.mem_append.mp hn).resolve_right List.not_mem_nil)).1
      have hkeeps : Settling attrs (textsOf (runSteps files urls [step] st).2.values) :=
        runSteps_settling hparsed hin htexts
      rw [runSteps_singleton, hone] at hkeeps
      exact hkeeps
    rw [ih hattr.2 hkept hmore, List.map_append, ← List.append_assoc]
    congr 1
    cases step with
    | bind seqname item =>
      cases hone
      exact (List.append_nil _).symm
    | stop r => cases hone
    | fill inSequence cdata attr =>
      obtain ⟨-, -, u, hslots, hheaders⟩ := fillSlot_done hone
      obtain ⟨hin, hstable⟩ := hattr.1 (cdata, attr) (by simp [node])
      have hfresh : Settling attrs (textsOf fun _ => none) := fun a _ => .inl rfl
      have hagain := (parseXmlUrlInfo_again files {} hparsed hfresh htexts hin hstable cdata).2
      rw [hslots, List.map_append]
      congr 1
      show [u.extraHeaders] = _
      rw [hheaders, hagain]
      rfl

end Steps

/-! ### The url elements of a document -/

theorem mem_nodes_append {n : UrlNode} {steps more : List ParseStep} :
    n ∈ nodes (steps ++ more) ↔ n ∈ nodes steps ∨ n ∈ nodes more := by
  rw [nodes, List.filterMap_append, List.mem_append]
  rfl

theorem mem_nodes_sequenceSteps {n : UrlNode} {attr : List XmlAttr} {children : List ParseStep}
    (h : n ∈ nodes (sequenceSteps attr children)) : n ∈ nodes children := by
  unfold sequenceSteps at h
  split at h
  · cases h
  · obtain ⟨step, hstep, hnode⟩ := List.mem_filterMap.mp h
    obtain ⟨item, -, hitem⟩ := List.mem_flatMap.mp hstep
    rcases List.mem_cons.mp hitem with rfl | hitem
    · cases hnode
    · exact List.mem_filterMap.mpr ⟨step, hitem, hnode⟩
  · cases h

/-- The attributes of the url elements, in a sequence, are among those of the document. -/
theorem mem_attrs_childSteps {e : XmlElem} {n : UrlNode} (hn : n ∈ nodes (childSteps e))
    {a : XmlAttr} (ha : a ∈ n.2) : a ∈ e.attrs := by
  induction e with
  | null => cases hn
  | elem name cdata attr firstChild next ihchild ihnext =>
    rw [mem_attrs_elem]
    rw [childSteps, mem_nodes_append] at hn
    rcases hn with hn | hn
    · split at hn
      · exact .inr (.inl (ihchild (mem_nodes_sequenceSteps hn)))
      · split at hn
        · obtain rfl : n = (cdata, attr) := List.mem_singleton.mp hn
          exact .inl ha
        · cases hn
    · exact .inr (.inr (ihnext hn))

theorem mem_attrs_urllistSteps {e : XmlElem} {n : UrlNode} (hn : n ∈ nodes (urllistSteps e))
    {a : XmlAttr} (ha : a ∈ n.2) : a ∈ e.attrs := by
  induction e with
  | null => cases hn
  | elem name cdata attr firstChild next _ ihnext =>
    rw [mem_attrs_elem]
    rw [urllistSteps, mem_nodes_append] at hn
    rcases hn with hn | hn
    · split at hn
      · exact .inr (.inl (mem_attrs_childSteps (mem_nodes_sequenceSteps hn) ha))
      · split at hn
        · obtain rfl : n = (cdata, attr) := List.mem_singleton.mp hn
          exact .inl ha
        · cases hn
    · exact .inr (.inr (ihnext hn))

theorem mem_attrs_findUrllist {profileName : Bytes} {rootElem urllistElem : XmlElem} {rounds : ℤ}
    (hfound : findUrllist profileName rootElem = .ok (.success, rounds, urllistElem)) {a : XmlAttr}
    (ha : a ∈ urllistElem.attrs) : a ∈ rootElem.attrs := by
  obtain ⟨profileElem, urllistName, -, -, hmatch⟩ := findUrllist_success hfound
  exact mem_attrs_childmatch hmatch ha

/-- A parsed document: at one address there is one text. -/
structure XmlDoc where
  rootElem : XmlElem
  parsed : Parsed rootElem.attrs

/-- The url elements of a urllist, one for each slot that they fill. -/
def slotNodes (urllistElem : XmlElem) : List UrlNode := nodes (urllistSteps urllistElem.firstChild)

theorem mem_attrs_slotNodes {profileName : Bytes} {rootElem urllistElem : XmlElem} {rounds : ℤ}
    (hfound : findUrllist profileName rootElem = .ok (.success, rounds, urllistElem)) :
    ∀ n ∈ slotNodes urllistElem, ∀ a ∈ n.2, a ∈ rootElem.attrs := fun _ hn _ ha =>
  mem_attrs_findUrllist hfound (mem_attrs_firstChild (mem_attrs_urllistSteps hn ha))

/-! ### Any number of initialisations -/

/-- An initialisation of some profile. -/
structure Init where
  uriParse : Bytes → Uri
  files : Files
  profileName : Bytes
  draws : Draws

/-- An initialisation of a profile of the document, from the memory that is there. -/
def Init.run (doc : XmlDoc) (i : Init) (values : Values) :
    Except Abort (Status × Option RoundRobinProfile) × ParseState :=
  roundRobinProfileInit i.uriParse i.files i.profileName doc.rootElem values i.draws

/-- The memory behind a number of initialisations. -/
def memoryAfter (doc : XmlDoc) (inits : List Init) : Values :=
  inits.foldl (fun values i => (i.run doc values).2.values) fun _ => none

theorem run_not_found {doc : XmlDoc} {i : Init} {values : Values}
    (h : ∀ rounds urllistElem,
      findUrllist i.profileName doc.rootElem ≠ .ok (.success, rounds, urllistElem)) :
    (i.run doc values).2.values = values := by
  unfold Init.run roundRobinProfileInit
  dsimp only
  split
  · rfl
  · next stat rounds urllistElem hfound =>
    have hstat : stat ≠ .success := by
      rintro rfl
      exact h rounds urllistElem hfound
    rw [if_pos hstat]
    rfl

/-- **An initialisation** leaves texts that are as they were parsed, or settled. -/
theorem run_settling {doc : XmlDoc} (i : Init) {values : Values}
    (h : Settling doc.rootElem.attrs (textsOf values)) :
    Settling doc.rootElem.attrs (textsOf (i.run doc values).2.values) := by
  by_cases hfound : ∃ rounds urllistElem,
      findUrllist i.profileName doc.rootElem = .ok (.success, rounds, urllistElem)
  · obtain ⟨rounds, urllistElem, hfound⟩ := hfound
    have hattrs := mem_attrs_slotNodes hfound
    rcases roundRobinProfileInit_slots i.uriParse i.files values i.draws hfound with
      ⟨hst, -⟩ | ⟨hst, -⟩
    · rw [Init.run, hst]
      exact h
    · rw [Init.run, hst]
      rcases parseUrls_cases i.files urllistElem (ParseState.start values i.draws) with
        ⟨r, hstop⟩ | ⟨-, -, hrun⟩
      · rw [hstop]
        exact h
      · rw [hrun]
        exact runSteps_settling doc.parsed hattrs h
  · rw [run_not_found fun rounds urllistElem heq => hfound ⟨rounds, urllistElem, heq⟩]
    exact h

/-- **Any number of initialisations** leave texts that are as they were parsed, or settled. -/
theorem memoryAfter_settling (doc : XmlDoc) (inits : List Init) :
    Settling doc.rootElem.attrs (textsOf (memoryAfter doc inits)) := by
  have hfold : ∀ values, Settling doc.rootElem.attrs (textsOf values) →
      Settling doc.rootElem.attrs
        (textsOf (inits.foldl (fun values i => (i.run doc values).2.values) values)) := by
    induction inits with
    | nil => exact fun values h => h
    | cons i inits ih => exact fun values h => ih _ (run_settling i h)
  exact hfold _ fun a _ => .inl rfl

/-- Whether the slots are parsed does not depend on the memory or the draws. -/
theorem parseUrls_again {files : Files} {urllistElem : XmlElem} {values : Values} {draws : Draws}
    {st : ParseState} (h : parseUrls files urllistElem (ParseState.start values draws) = (none, st))
    (st' : ParseState) :
    parseUrls files urllistElem st' = runSteps files (urlCount urllistElem)
      (urllistSteps urllistElem.firstChild) st' := by
  unfold parseUrls at h ⊢
  split at h
  · cases h
  · next hpos =>
    split at h
    · cases h
    · next hroom => rw [if_neg hpos, if_neg hroom, parseUrllist_eq]

/-- Where the same slots are filled again, the same profile is handed over, up to its hash. -/
theorem run_again {doc : XmlDoc} {i : Init} {values values' : Values} {draws' : Draws}
    {urllistElem : XmlElem} {rounds : ℤ} {profile : RoundRobinProfile} {st st' : ParseState}
    (hfound : findUrllist i.profileName doc.rootElem = .ok (.success, rounds, urllistElem))
    (hfirst : (i.run doc values).1 = .ok (.success, some profile))
    (hst : parseUrls i.files urllistElem (ParseState.start values i.draws) = (none, st))
    (hst' : parseUrls i.files urllistElem (ParseState.start values' draws') = (none, st'))
    (hslots : st'.slots = st.slots) :
    ∃ profile', (Init.run doc { i with draws := draws' } values').1 =
        .ok (.success, some profile') ∧
      profile'.urls = profile.urls ∧ profile'.url = profile.url := by
  unfold Init.run roundRobinProfileInit at hfirst ⊢
  rw [hfound] at hfirst ⊢
  dsimp only at hfirst ⊢
  rw [hst] at hfirst
  rw [hst']
  rw [if_neg (not_not.mpr rfl)] at hfirst ⊢
  cases hbase : optionalText urllistElem XML_URLLIST_BASE_URL with
  | error a =>
    rw [hbase] at hfirst
    cases hfirst
  | ok baseurl =>
    rw [hbase] at hfirst
    cases hproxy : optionalText urllistElem XML_URLLIST_PROXY_URL with
    | error a =>
      rw [hproxy] at hfirst
      cases hfirst
    | ok proxyurl =>
      rw [hproxy] at hfirst
      cases hsubst : parseSubstList i.files doc.rootElem with
      | error a =>
        rw [hsubst] at hfirst
        cases hfirst
      | ok found =>
        obtain ⟨stat, substList⟩ := found
        rw [hsubst] at hfirst
        dsimp only at hfirst ⊢
        split at hfirst
        · cases hfirst
        · next hstat =>
          rw [if_neg hstat, hslots]
          simp only [Except.ok.injEq, Prod.mk.injEq, Option.some.injEq, true_and] at hfirst
          subst hfirst
          exact ⟨_, rfl, rfl, rfl⟩

/-! ### When a second initialisation gives the same slots -/

/-- No template that is expanded while the urllist is parsed has a random number. -/
def Undrawn (urllistElem : XmlElem) : Prop :=
  ∀ step ∈ urllistSteps urllistElem.firstChild, drawless step

/-- The slots of a profile that was handed over. -/
theorem slots_of_run {doc : XmlDoc} {i : Init} {values : Values} {urllistElem : XmlElem}
    {rounds : ℤ} {profile : RoundRobinProfile}
    (hfound : findUrllist i.profileName doc.rootElem = .ok (.success, rounds, urllistElem))
    (hrun : (i.run doc values).1 = .ok (.success, some profile)) :
    ∃ st, parseUrls i.files urllistElem (ParseState.start values i.draws) = (none, st) ∧
      (i.run doc values).2 = st ∧
      profile.url.take (fills (urllistSteps urllistElem.firstChild)) = st.slots.map Prod.snd := by
  rcases roundRobinProfileInit_slots i.uriParse i.files values i.draws hfound with
    ⟨-, hnone⟩ | ⟨hst, hprofile⟩
  · exact absurd hrun (hnone profile)
  · obtain ⟨hdone, -, hurl⟩ := hprofile profile hrun
    cases hparse : parseUrls i.files urllistElem (ParseState.start values i.draws) with
    | mk r st =>
      rw [hparse] at hdone hurl hst
      dsimp only at hdone hurl hst
      subst hdone
      obtain ⟨hindexed, hlen, hle, -, -⟩ := parseUrls_filled hparse
      exact ⟨st, rfl, hst, by rw [hurl, ← hlen, slotArray_take hindexed hle]⟩

theorem headersTotal_eq (slots : List (ℤ × Url)) :
    headersTotal slots = ((slots.map Prod.snd).map fun u => (u.extraHeaders.getD []).length).sum := by
  rw [List.map_map]
  rfl

/-- The same slots in a second initialisation mean stable headers. -/
theorem stable_of_again {doc : XmlDoc} {i : Init} {urllistElem : XmlElem} {rounds : ℤ}
    {profile profile' : RoundRobinProfile}
    (hfound : findUrllist i.profileName doc.rootElem = .ok (.success, rounds, urllistElem))
    (hfirst : (i.run doc fun _ => none).1 = .ok (.success, some profile))
    (hagain : (i.run doc (i.run doc fun _ => none).2.values).1 = .ok (.success, some profile'))
    (hurl : profile'.url = profile.url) : ∀ n ∈ slotNodes urllistElem, StableExtras n.2 := by
  obtain ⟨st, hparse, hst, hslots⟩ := slots_of_run hfound hfirst
  obtain ⟨st', hparse', -, hslots'⟩ := slots_of_run hfound hagain
  rw [hst] at hparse'
  obtain ⟨htexts, htotal⟩ := runSteps_reads (parseUrls_filled hparse).2.2.2.2
  obtain ⟨-, htotal'⟩ := runSteps_reads (parseUrls_filled hparse').2.2.2.2
  have hsame : headersTotal st'.slots = headersTotal st.slots := by
    rw [headersTotal_eq, headersTotal_eq, ← hslots, ← hslots', hurl]
  have hlength : readLength (extras (slotNodes urllistElem)) (textsOf st.values) =
      readLength (extras (slotNodes urllistElem)) fun a => cstr a.value := by
    rw [htotal, htotal'] at hsame
    exact Nat.add_left_cancel hsame
  have hextras : ∀ a ∈ extras (slotNodes urllistElem), a ∈ doc.rootElem.attrs := by
    intro a ha
    obtain ⟨n, hn, hmem⟩ := List.mem_flatMap.mp ha
    exact mem_attrs_slotNodes hfound n hn a (List.mem_filter.mp hmem).1
  have hread : ∀ a ∈ extras (slotNodes urllistElem),
      textsOf st.values a = settled (cstr a.value) := by
    intro a ha
    rw [htexts]
    exact readAll_of_mem doc.parsed hextras ha
  have haddressed : Addressed doc.rootElem.attrs (textsOf st.values) := by
    rw [htexts]
    exact Addressed.readAll doc.parsed _
  have hstable := stable_of_readLength_eq doc.parsed hextras hread haddressed hlength
  intro n hn a ha hextra
  exact hstable a (List.mem_flatMap.mpr ⟨n, hn, List.mem_filter.mpr ⟨ha, hextra⟩⟩)

/-- **Initialising again**: after any initialisations of any profiles of the document, in any order,
an initialisation hands over the slots of the first one, and the slots of one url element have the
same extra headers, if and only if every extra header is stable.  The random numbers are the same as
in the first one, unless no template that is expanded has any. -/
theorem initialised_again_iff (doc : XmlDoc) (i : Init) (urllistElem : XmlElem) (rounds : ℤ)
    (profile : RoundRobinProfile)
    (hfound : findUrllist i.profileName doc.rootElem = .ok (.success, rounds, urllistElem))
    (hfirst : (i.run doc (memoryAfter doc [])).1 = .ok (.success, some profile)) :
    ((∀ (inits : List Init) (draws : Draws), draws = i.draws ∨ Undrawn urllistElem →
        ∃ profile', (Init.run doc { i with draws := draws } (memoryAfter doc inits)).1 =
            .ok (.success, some profile') ∧
          profile'.urls = profile.urls ∧ profile'.url = profile.url) ∧
      ∀ (j k : ℕ) (n : UrlNode), (slotNodes urllistElem)[j]? = some n →
        (slotNodes urllistElem)[k]? = some n →
        profile.url[j]?.map Url.extraHeaders = profile.url[k]?.map Url.extraHeaders) ↔
    ∀ n ∈ slotNodes urllistElem, StableExtras n.2 := by
  obtain ⟨st, hparse, hst, hslots⟩ := slots_of_run hfound hfirst
  have hattrs := mem_attrs_slotNodes hfound
  constructor
  · rintro ⟨hsame, -⟩
    obtain ⟨profile', hagain, -, hurl⟩ := hsame [i] i.draws (.inl rfl)
    exact stable_of_again hfound hfirst hagain hurl
  · intro hstable
    have hnodes : ∀ n ∈ slotNodes urllistElem,
        (∀ a ∈ n.2, a ∈ doc.rootElem.attrs) ∧ StableExtras n.2 :=
      fun n hn => ⟨hattrs n hn, hstable n hn⟩
    obtain ⟨-, -, -, -, hsteps⟩ := parseUrls_filled hparse
    refine ⟨fun inits draws hdraws => ?_, fun j k n hj hk => ?_⟩
    · have hstart : Same doc.rootElem.attrs (Undrawn urllistElem)
          (ParseState.start (memoryAfter doc []) i.draws)
          (ParseState.start (memoryAfter doc inits) draws) :=
        ⟨rfl, rfl, rfl, hdraws, memoryAfter_settling doc [], memoryAfter_settling doc inits⟩
      have hagain := runSteps_again i.files (urlCount urllistElem) doc.parsed hnodes (fun h => h)
        hstart
      rw [hsteps] at hagain
      obtain ⟨hresult, hstates⟩ := hagain
      cases hparse' : parseUrls i.files urllistElem
        (ParseState.start (memoryAfter doc inits) draws) with
      | mk r st' =>
        rw [parseUrls_again hparse] at hparse'
        rw [hparse'] at hresult hstates
        dsimp only at hresult hstates
        subst hresult
        exact run_again hfound hfirst hparse (by rw [parseUrls_again hparse, hparse'])
          hstates.slots
    · have hheaders := runSteps_headers doc.parsed hnodes (memoryAfter_settling doc []) hsteps
      have htake : (profile.url.take (fills (urllistSteps urllistElem.firstChild))).map
          Url.extraHeaders = (slotNodes urllistElem).map fun n =>
            (parseXmlUrlInfo i.files n.1 n.2 {} fun _ => none).2.1.extraHeaders := by
        rw [hslots, List.map_map]
        exact hheaders
      have hslot : ∀ j : ℕ, (slotNodes urllistElem)[j]? = some n →
          profile.url[j]?.map Url.extraHeaders =
            some (parseXmlUrlInfo i.files n.1 n.2 {} fun _ => none).2.1.extraHeaders := by
        intro j hj
        have hat := congrArg (fun l => l[j]?) htake
        rw [List.getElem?_map, List.getElem?_map, hj, List.getElem?_take] at hat
        split at hat
        · exact hat
        · cases hat
      rw [hslot j hj, hslot k hk]

/-- A urllist with one url that has this extra header. -/
def headerUrllist (value : Bytes) : XmlElem :=
  .elem XML_URLLIST [] []
    (.elem XML_URLLIST_NAME [bytes "u"] [] .null
      (.elem XML_URLLIST_URL [bytes "/"] [⟨0, XML_URLLIST_EXTRA_HEADERS, value⟩] .null .null))
    .null

/-- A document with that urllist. -/
def headerDoc (value : Bytes) : XmlDoc where
  rootElem := .elem (bytes "flood") [] []
    (.elem XML_PROFILE [] []
      (.elem (bytes "name") [bytes "p"] [] .null
        (.elem XML_PROFILE_USEURLLIST [bytes "u"] [] .null .null))
      (headerUrllist value))
    .null
  parsed := by
    intro a ha b hb _
    have hone : ∀ c ∈ (headerUrllist value).attrs, c = ⟨0, XML_URLLIST_EXTRA_HEADERS, value⟩ :=
      fun c hc => List.mem_singleton.mp hc
    rw [hone a ha, hone b hb]

/-- An initialisation of its profile. -/
def headerInit : Init where
  uriParse _ := ⟨none, none, 0, none, none, none, none, none⟩
  files := noFiles
  profileName := bytes "p"
  draws _ := 0

theorem eq_of_handedOver_map {β : Type} {g : RoundRobinProfile → β} {y : β}
    {r : Except Abort (Status × Option RoundRobinProfile)} (h : (handedOver r).map g = some y) :
    ∃ profile, r = .ok (.success, some profile) ∧ g profile = y := by
  obtain ⟨profile, hprofile, hy⟩ := Option.map_eq_some_iff.mp h
  unfold handedOver at hprofile
  split at hprofile
  · cases hprofile
    exact ⟨_, rfl, hy⟩
  · cases hprofile

theorem initialised_again_stable : ∃ profile,
    (headerInit.run (headerDoc (bytes "A: 1")) (memoryAfter (headerDoc (bytes "A: 1")) [])).1 =
        .ok (.success, some profile) ∧
      ∀ inits : List Init, ∃ profile', (headerInit.run (headerDoc (bytes "A: 1"))
          (memoryAfter (headerDoc (bytes "A: 1")) inits)).1 = .ok (.success, some profile') ∧
        profile'.urls = profile.urls ∧ profile'.url = profile.url := by
  have hfound : findUrllist headerInit.profileName (headerDoc (bytes "A: 1")).rootElem =
      .ok (.success, 1, headerUrllist (bytes "A: 1")) := by decide +kernel
  obtain ⟨profile, hfirst⟩ := eq_of_handedOver (r := (headerInit.run (headerDoc (bytes "A: 1"))
    (memoryAfter (headerDoc (bytes "A: 1")) [])).1) (by decide +kernel)
  have hstable : ∀ n ∈ slotNodes (headerUrllist (bytes "A: 1")), StableExtras n.2 := by
    intro n hn
    obtain rfl : n = ([bytes "/"], [⟨0, XML_URLLIST_EXTRA_HEADERS, bytes "A: 1"⟩]) :=
      List.mem_singleton.mp hn
    intro a ha _
    rw [List.mem_singleton.mp ha]
    decide
  have hagain := (initialised_again_iff (headerDoc (bytes "A: 1")) headerInit
    (headerUrllist (bytes "A: 1")) 1 profile hfound hfirst).mpr hstable
  exact ⟨profile, hfirst, fun inits => hagain.1 inits headerInit.draws (.inl rfl)⟩

theorem twoHeaders_lost : ∃ profile profile',
    (headerInit.run (headerDoc (bytes "A: 1;B: 2")) fun _ => none).1 =
        .ok (.success, some profile) ∧
      (headerInit.run (headerDoc (bytes "A: 1;B: 2"))
        (headerInit.run (headerDoc (bytes "A: 1;B: 2")) fun _ => none).2.values).1 =
          .ok (.success, some profile') ∧
      profile.url.map Url.extraHeaders = [some (bytes "A:1\r\nB:2\r\n"), none] ∧
      profile'.url.map Url.extraHeaders = [some (bytes "A:1\r\n"), none] := by
  obtain ⟨profile, hfirst, hurl⟩ := eq_of_handedOver_map
    (g := fun profile => profile.url.map Url.extraHeaders)
    (y := [some (bytes "A:1\r\nB:2\r\n"), none])
    (r := (headerInit.run (headerDoc (bytes "A: 1;B: 2")) fun _ => none).1) (by decide +kernel)
  obtain ⟨profile', hagain, hurl'⟩ := eq_of_handedOver_map
    (g := fun profile => profile.url.map Url.extraHeaders)
    (y := [some (bytes "A:1\r\n"), none])
    (r := (headerInit.run (headerDoc (bytes "A: 1;B: 2"))
      (headerInit.run (headerDoc (bytes "A: 1;B: 2")) fun _ => none).2.values).1)
    (by decide +kernel)
  exact ⟨profile, profile', hfirst, hagain, hurl, hurl'⟩

end Flood.InitAgain
