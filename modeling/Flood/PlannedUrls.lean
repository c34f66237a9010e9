import Flood.RoundRobinRun
import Flood.SessionVars
import Flood.TemplateText
import Flood.UrllistExpansion

/-!
# The URIs that a configuration asks for

`round_robin_profile_init` makes the slots of a urllist, and `round_robin_get_next_url` makes requests
of them.  Where the templates have placeholders of the enclosing sequences only, the configuration alone
says what is requested.

* `runSteps_texts` — the traversal fills the slots with the texts of their elements.
* `initialised_targets` — the slots of a profile that is handed over request what the urllist says.
* `getNextUrl_target` — a request has the URI of the plan.
-/

namespace Flood.PlannedUrls

open Flood.CString Flood.Net Flood.Subst Flood.Template Flood.Config Flood.InTurn Flood.RoundRobin
open Flood.UrlElement Flood.ProfileInit Flood.UrllistSteps Flood.SlotCount Flood.UrllistExpansion
open Flood.TemplateSubstitution Flood.TemplateText Flood.RoundRobinRun

/-! ### The plan -/

/-- The text of a `url` element. -/
def urlText (cdata : List Bytes) : Option Bytes :=
  if cdata ≠ [] then some (cdata.map cstr).flatten else none

/-- The texts of an element and its siblings, those of a sequence once for every item. -/
def urlTexts : XmlElem → List (Option Bytes)
  | .null => []
  | .elem name cdata attr firstChild next =>
    (if sameName name XML_URLLIST_SEQUENCE then
      (sequenceItems attr).flatMap fun _ => urlTexts firstChild
    else if sameName name XML_URLLIST_URL then [urlText cdata]
    else []) ++ urlTexts next

/-- What is requested from a slot: its request template, or else the text of its element. -/
def target (text : Option Bytes) (templates : Templates) : Bytes :=
  (templates.request.or text).getD []

/-- What is requested from the slots of a urllist. -/
def urllistTargets (urllistElem : XmlElem) : List Bytes :=
  List.zipWith target (urlTexts urllistElem.firstChild)
    (expansion (fun _ => none) urllistElem.firstChild)

/-- The URI of the request number `i`. -/
def uriAt (baseurl : Option Bytes) (targets : List Bytes) (i : ℕ) : Bytes :=
  baseurl.getD [] ++ targets.getD (i % targets.length) []

/-- The URIs of a run, as they are printed. -/
def plannedUris (baseurl : Option Bytes) (targets : List Bytes) (rounds : ℤ) : List Bytes :=
  (List.range (requestCount targets.length rounds)).map fun i => cstr (uriAt baseurl targets i)

/-- A urllist that says what is requested: its templates have placeholders of the enclosing sequences
only, and no item brings a new one into a request template. -/
structure Determined (urllistElem : XmlElem) : Prop where
  inScope : Scoped [] urllistElem.firstChild
  closed : ∀ templates ∈ expansion (fun _ => none) urllistElem.firstChild,
    ∀ t ∈ templates.request.toList, InScope [] t

instance (urllistElem : XmlElem) : Decidable (Determined urllistElem) :=
  decidable_of_iff (_ ∧ _) ⟨fun h => ⟨h.1, h.2⟩, fun h => ⟨h.1, h.2⟩⟩

/-! ### The texts of the slots -/

theorem url_reads : SlotPart.Reads [] Url.url := by
  intro part _ v u
  cases part
  all_goals rfl

theorem parseUrlAttrs_url (files : Files) (attr : List XmlAttr) (u : Url) (values : Values) :
    (parseUrlAttrs files attr u values).2.1.url = u.url := by
  induction attr generalizing u values with
  | nil => rfl
  | cons a attr ih =>
    have hkeeps := parseUrlAttr_keeps url_reads (a := a) (fun _ hpart => absurd hpart List.not_mem_nil)
      files u values
    unfold parseUrlAttrs
    split
    · next hrun => rwa [hrun] at hkeeps
    · next hrun =>
      rw [hrun] at hkeeps
      exact (ih _ _).trans hkeeps

/-- A slot has the text of its element. -/
theorem parseXmlUrlInfo_url (files : Files) (cdata : List Bytes) (attr : List XmlAttr)
    (values : Values) :
    (parseXmlUrlInfo files cdata attr {} values).2.1.url = urlText cdata := by
  have htext : (if cdata ≠ [] then { ({} : Url) with url := some (cdata.map cstr).flatten }
      else {}).url = urlText cdata := by
    unfold urlText
    split
    · rfl
    · rfl
  unfold parseXmlUrlInfo
  dsimp only
  split
  · exact htext
  · rw [parseUrlAttrs_url]
    exact htext

/-- The expansion of the templates of a slot leaves its text. -/
theorem expandUrl_url {u u' : Url} {state state' : Vars} {draws draws' : Draws}
    (h : expandUrl u state draws = .ok (u', state', draws')) : u'.url = u.url := by
  unfold expandUrl at h
  split at h
  · cases h
  · split at h
    · cases h
    · split at h
      · cases h
      · cases h
        rfl

/-- The text of a step that fills a slot. -/
def stepText : ParseStep → Option (Option Bytes)
  | .fill _ cdata _ => some (urlText cdata)
  | _ => none

def stepTexts (steps : List ParseStep) : List (Option Bytes) := steps.filterMap stepText

theorem stepTexts_append (steps more : List ParseStep) :
    stepTexts (steps ++ more) = stepTexts steps ++ stepTexts more := List.filterMap_append

/-- **One step**, where it goes on. -/
theorem runStep_texts {files : Files} {urls : ℤ} {step : ParseStep} {st st' : ParseState}
    (h : runStep files urls step st = (none, st')) :
    st'.slots.map (fun slot => slot.2.url) =
      st.slots.map (fun slot => slot.2.url) ++ (stepText step).toList := by
  cases step with
  | bind seqname item =>
    cases h
    exact (List.append_nil _).symm
  | stop r => cases h
  | fill inSequence cdata attr =>
    have htext := parseXmlUrlInfo_url files cdata attr st.values
    have hfill : fillSlot files urls inSequence cdata attr st = (none, st') := h
    unfold fillSlot at hfill
    dsimp only at hfill
    split at hfill
    · cases hfill
    · split at hfill
      · cases hfill
      · cases inSequence with
        | true =>
          rw [if_pos rfl] at hfill
          split at hfill
          · cases hfill
          · next hexpand =>
            cases hfill
            rw [List.map_append, List.map_singleton, expandUrl_url hexpand, htext]
            rfl
        | false =>
          rw [if_neg Bool.false_ne_true] at hfill
          cases hfill
          rw [List.map_append, List.map_singleton, htext]
          rfl

/-- **The traversal** fills slots with the texts of its steps. -/
theorem runSteps_texts {files : Files} {urls : ℤ} {steps : List ParseStep} {st st' : ParseState}
    (h : runSteps files urls steps st = (none, st')) :
    st'.slots.map (fun slot => slot.2.url) =
      st.slots.map (fun slot => slot.2.url) ++ stepTexts steps := by
  induction steps generalizing st with
  | nil =>
    cases h
    exact (List.append_nil _).symm
  | cons step steps ih =>
    obtain ⟨st₁, hone, hrest⟩ := andThen_none.mp h
    rw [ih hrest, runStep_texts hone, List.append_assoc]
    congr 1
    unfold stepTexts
    rw [List.filterMap_cons]
    cases stepText step with
    | none => rfl
    | some text => rfl

theorem stepTexts_sequence {attr : List XmlAttr} (h : OneEach attr) (children : List ParseStep) :
    stepTexts (sequenceSteps attr children) =
      (sequenceItems attr).flatMap fun _ => stepTexts children := by
  obtain ⟨a, -, hname⟩ := lastNamed_of_one h.name
  obtain ⟨b, -, hlist⟩ := lastNamed_of_one h.list
  rw [sequenceSteps_eq hname hlist, sequenceItems, hlist]
  show stepTexts ((seqItems b.value).flatMap _) = (seqItems b.value).flatMap _
  induction seqItems b.value with
  | nil => rfl
  | cons item items ih =>
    rw [List.flatMap_cons, List.flatMap_cons, stepTexts_append, ih]
    rfl

theorem stepTexts_childSteps {e : XmlElem} (h : SlotCount.Complete e) :
    stepTexts (childSteps e) = urlTexts e := by
  induction e with
  | null => rfl
  | elem name cdata attr firstChild next ihchild ihnext =>
    rw [childSteps, urlTexts, stepTexts_append, ihnext h.2]
    congr 1
    by_cases hseq : sameName name XML_URLLIST_SEQUENCE = true
    · obtain ⟨hone, hchild⟩ := h.1 hseq
      rw [if_pos hseq, if_pos hseq, stepTexts_sequence hone, ihchild hchild]
    · rw [if_neg hseq, if_neg hseq]
      split
      · rfl
      · rfl

/-- The steps of a urllist have the texts of its elements. -/
theorem stepTexts_urllistSteps {e : XmlElem} (h : SlotCount.Complete e) :
    stepTexts (urllistSteps e) = urlTexts e := by
  induction e with
  | null => rfl
  | elem name cdata attr firstChild next _ ihnext =>
    rw [urllistSteps, urlTexts, stepTexts_append, ihnext h.2]
    congr 1
    by_cases hseq : sameName name XML_URLLIST_SEQUENCE = true
    · obtain ⟨hone, hchild⟩ := h.1 hseq
      rw [if_pos hseq, if_pos hseq, stepTexts_sequence hone, stepTexts_childSteps hchild]
    · rw [if_neg hseq, if_neg hseq]
      split
      · rfl
      · rfl

/-! ### The slots of a profile -/

/-- What is requested from a slot. -/
def slotTarget (u : Url) : Bytes := target u.url (slotTexts u)

/-- A profile whose slots request these targets. -/
structure Ready (baseurl : Option Bytes) (targets : List Bytes) (rp : RoundRobinProfile) : Prop where
  urls : rp.urls = targets.length
  base : rp.baseurl = baseurl
  slots : (rp.url.take targets.length).map slotTarget = targets
  closed : ∀ u ∈ rp.url.take targets.length, ∀ t ∈ (slotTexts u).request.toList, InScope [] t

/-- The base url of a profile is that of its urllist. -/
theorem roundRobinProfileInit_base {uriParse : Bytes → Uri} {files : Files} {profileName : Bytes}
    {rootElem urllistElem : XmlElem} {rounds : ℤ} {values : Values} {draws : Draws}
    {profile : RoundRobinProfile} {stat : Status} {st : ParseState}
    (hfound : findUrllist profileName rootElem = .ok (.success, rounds, urllistElem))
    (h : roundRobinProfileInit uriParse files profileName rootElem values draws =
      (.ok (stat, some profile), st)) :
    optionalText urllistElem XML_URLLIST_BASE_URL = .ok profile.baseurl := by
  unfold roundRobinProfileInit at h
  rw [hfound] at h
  dsimp only at h
  rw [if_neg (not_not.mpr rfl)] at h
  split at h
  · cases h
  · next hbase =>
    rw [hbase]
    split at h
    · cases h
    · split at h
      · cases h
      · cases h
      · split at h
        · cases h
        · split at h
          · cases h
          · cases h
            rfl

/-- **The slots of a profile that is handed over** request the targets of its urllist. -/
theorem initialised_targets {uriParse : Bytes → Uri} {files : Files} {profileName : Bytes}
    {rootElem urllistElem : XmlElem} {rounds : ℤ} {values : Values} {draws : Draws}
    {profile : RoundRobinProfile} {st : ParseState} {baseurl : Option Bytes}
    (hfound : findUrllist profileName rootElem = .ok (.success, rounds, urllistElem))
    (hbase : optionalText urllistElem XML_URLLIST_BASE_URL = .ok baseurl)
    (hdetermined : Determined urllistElem)
    (hinit : roundRobinProfileInit uriParse files profileName rootElem values draws =
      (.ok (.success, some profile), st)) :
    Ready baseurl (urllistTargets urllistElem) profile := by
  have hprofileBase := roundRobinProfileInit_base hfound hinit
  rw [hbase, Except.ok.injEq] at hprofileBase
  rcases roundRobinProfileInit_slots uriParse files values draws hfound with
    ⟨-, hnone⟩ | ⟨-, hprofile⟩
  · exact absurd (by rw [hinit]) (hnone profile)
  · obtain ⟨hdone, hurls, hurl⟩ := hprofile profile (by rw [hinit])
    cases hrun : parseUrls files urllistElem (ParseState.start values draws) with
    | mk r filled =>
      rw [hrun] at hdone hurl
      dsimp only at hdone hurl
      subst hdone
      obtain ⟨hindexed, hlen, hlist⟩ := parseUrls_done hdetermined.inScope.complete hrun
      obtain ⟨-, -, -, -, hsteps⟩ := parseUrls_filled hrun
      have htexts := runSteps_texts hsteps
      rw [stepTexts_urllistSteps hdetermined.inScope.complete] at htexts
      have htemplates := (parseUrllist_expands hdetermined.inScope (fun _ => none) hlist).slots
      have htargets : urllistTargets urllistElem =
          filled.slots.map fun slot => slotTarget slot.2 := by
        have hzip : (filled.slots.map fun slot => slotTarget slot.2) =
            List.zipWith target (filled.slots.map fun slot => slot.2.url)
              (filled.slots.map fun slot => slotTexts slot.2) := by
          rw [List.zipWith_map, List.zipWith_self]
          rfl
        rw [hzip, htexts, htemplates]
        rfl
      have hcount : (urllistTargets urllistElem).length = filled.slots.length := by
        rw [htargets, List.length_map]
      have htake : profile.url.take (urllistTargets urllistElem).length = filled.slots.map Prod.snd := by
        rw [hcount, hurl]
        exact slotArray_take hindexed (by omega)
      refine ⟨by rw [hurls, hcount, hlen], hprofileBase.symm, ?_, ?_⟩
      · rw [htake, List.map_map, htargets]
        rfl
      · rw [htake]
        intro u hu t ht
        obtain ⟨slot, hslot, rfl⟩ := List.mem_map.mp hu
        refine hdetermined.closed (slotTexts slot.2) ?_ t ht
        have hmem : slotTexts slot.2 ∈ filled.slots.map fun slot => slotTexts slot.2 :=
          List.mem_map.mpr ⟨slot, hslot, rfl⟩
        rw [htemplates] at hmem
        exact hmem

/-! ### The requests -/

/-- Nothing is left to be replaced in a template that is in scope of no sequence. -/
theorem literal_of_closed {t : Bytes} (h : InScope [] t) : Literal (cstr t) := by
  have hparse := readTemplate_parse h.plain
  have hnil : (readTemplate (cstr t)).1 = [] := by
    rw [List.eq_nil_iff_forall_not_mem]
    exact fun part hpart => List.not_mem_nil (h.names part hpart)
  rw [hnil] at hparse
  generalize (readTemplate (cstr t)).2 = tail at hparse
  cases hparse with
  | tail hliteral => exact hliteral

/-- A template without placeholders is requested as it stands. -/
theorem requestUri_closed {rp : RoundRobinProfile} {u : Url} {draws d : Draws} {state : Vars}
    {uri : Option Bytes} (hclosed : ∀ t ∈ (slotTexts u).request.toList, InScope [] t)
    (h : requestUri rp u draws = .ok (uri, state, d)) : uri.getD [] = slotTarget u := by
  have hrequest : (slotTexts u).request = u.requesttemplate.map cstr := rfl
  unfold slotTarget target
  unfold requestUri at h
  rw [hrequest] at hclosed ⊢
  split at h
  · next hnone =>
    cases h
    rw [hnone]
    rfl
  · next t hsome =>
    rw [hsome] at hclosed ⊢
    have hscope : InScope [] (cstr t) := hclosed (cstr t) (by simp)
    have hsame : cstr (cstr t) = cstr t := cstr_of_not_mem (cstr_noNUL t)
    have hliteral := regexec_literal (literal_of_closed hscope)
    have hplain := unescape_plain hscope.plain
    rw [hsame] at hliteral hplain
    rw [parseParamString, handleParamString_text hliteral, hplain] at h
    cases h
    rw [hsame]
    rfl

/-- A profile in front of the request number `i`. -/
structure Stands (baseurl : Option Bytes) (targets : List Bytes) (rounds : ℤ) (i : ℕ)
    (rp : RoundRobinProfile) : Prop where
  ready : Ready baseurl targets rp
  rounds : rp.executeRounds = rounds
  round : rp.currentRound = ((i / targets.length : ℕ) : ℤ)
  slot : rp.currentUrl = ((i % targets.length : ℕ) : ℤ)

variable {baseurl : Option Bytes} {targets : List Bytes} {rounds : ℤ} {i : ℕ}

/-- **A request** has the URI of the plan. -/
theorem getNextUrl_target {env : Env} {rp rp' : RoundRobinProfile} {draws d : Draws} {r : Request}
    (hn : 0 < targets.length) (hstands : Stands baseurl targets rounds i rp)
    (h : roundRobinGetNextUrl env rp draws = .ok (r, rp', d)) : r.uri = uriAt baseurl targets i := by
  obtain ⟨u, uri, state₁, draws₁, -, -, -, hslot, huri, -, -, hr, -⟩ := getNextUrl_steps h
  have hlt : i % targets.length < targets.length := Nat.mod_lt i hn
  have hat : (rp.url.take targets.length)[i % targets.length]? = some u := by
    rw [hstands.slot, urlSlot, if_pos (Int.natCast_nonneg _), Int.toNat_natCast] at hslot
    rw [List.getElem?_take_of_lt hlt, hslot]
  have htarget : targets.getD (i % targets.length) [] = slotTarget u := by
    have hmap := congrArg (·[i % targets.length]?) hstands.ready.slots
    rw [List.getElem?_map, hat] at hmap
    rw [List.getD_eq_getElem?_getD, ← hmap]
    rfl
  have hclosed := requestUri_closed (hstands.ready.closed u (List.mem_of_getElem? hat)) huri
  rw [hr, uriAt, hstands.ready.base, hclosed, htarget]

/-- Cookies and bindings do not matter to what is requested. -/
theorem Stands.keeps {rp rp' : RoundRobinProfile} (h : Stands baseurl targets rounds i rp)
    (hsame : ∃ cookie state, rp' = { rp with cookie := cookie, state := state }) :
    Stands baseurl targets rounds i rp' := by
  obtain ⟨cookie, state, rfl⟩ := hsame
  obtain ⟨⟨hurls, hbase, hslots, hclosed⟩, hrounds, hround, hslot⟩ := h
  exact ⟨⟨hurls, hbase, hslots, hclosed⟩, hrounds, hround, hslot⟩

/-- The next slot belongs to the next request. -/
theorem Stands.advance {rp : RoundRobinProfile} (hn : 0 < targets.length)
    (h : Stands baseurl targets rounds i rp) :
    Stands baseurl targets rounds (i + 1) (RoundRobin.advance rp) := by
  obtain ⟨hround, hslot⟩ := advance_counters hn h.ready.urls h.round h.slot
  refine ⟨⟨?_, ?_, ?_, ?_⟩, ?_, hround, hslot⟩
  · rw [advance_urls, h.ready.urls]
  · rw [advance_baseurl, h.ready.base]
  · rw [advance_url, h.ready.slots]
  · rw [advance_url]
    exact h.ready.closed
  · rw [advance_executeRounds, h.rounds]

end Flood.PlannedUrls
