import Flood.CookieRun
import Flood.LatestCookies
import Flood.UrllistExpansion

/-!
# Variables over a run

A `responsetemplate` captures a piece of a response and binds it to a name; the templates of the later
requests of the run stand for it by that name.  The run of a round-robin profile records what
`round_robin_postprocess` captures.  The other handlers are arbitrary.

* `handleParamString_keeps` — a template changes no variable but those that it draws.
* `behind_remembers` — wherever the run stands, a variable that no template draws has the value captured
  last, or the one from the start where none was captured.
* `captured_sent` — the texts of a request are their templates with these values in them.
-/

namespace Flood.SessionVars

open Flood.CString Flood.Loop Flood.Net Flood.Subst Flood.Template Flood.TemplateSubstitution
open Flood.Profile Flood.RoundRobin Flood.RoundRobinRun Flood.Postprocess
open Flood.LatestCookies (latest)
open Flood.UrllistExpansion (fillParts fillParts_avoids fillParts_congr replaced expandLoop_bound)

/-! ### What a template changes -/

/-- `${=v}` stands somewhere in the text. -/
def DrawnIn (v t : Bytes) : Prop := placeholder (61 :: v) <:+: t

instance (v t : Bytes) : Decidable (DrawnIn v t) := inferInstanceAs (Decidable (_ <:+: _))

theorem boundData_keeps {set : ExpandParam} {name v : Bytes} {state : Vars} {draws : Draws}
    (h : set.val = 0 ∨ name ≠ 61 :: v) : (boundData set name state draws).2.1 v = state v := by
  rcases boundData_vars set name state draws with hsame | ⟨var, data, hname, hset, hupdate⟩
  · rw [hsame]
  · rw [hupdate]
    refine Function.update_of_ne (fun heq => ?_) _ _
    rcases h with hzero | hother
    · exact hset hzero
    · exact hother (by rw [hname, heq])

/-- **A template changes no variable that it does not draw**, also where it reads substitution
files. -/
theorem handleParamString_keeps {substList : Option (List SubstRec)} {set : ExpandParam}
    {template v out : Bytes} {state state' : Vars} {draws draws' : Draws}
    (hv : set.val = 0 ∨ ¬ DrawnIn v template)
    (h : handleParamString substList set template state draws = .ok (out, state', draws')) :
    state' v = state v := by
  refine handleParamString_state (P := fun st => st v = state v) ?_ h rfl
  intro lit name rest htext st d hst
  refine (boundData_keeps (hv.imp_right fun hnot heq => hnot ?_)).trans hst
  subst heq
  exact ⟨lit, rest, htext⟩

/-! ### What a request and a response change -/

/-- The templates of a slot that are parsed for a request. -/
def requestTemplates (u : Url) : List Bytes :=
  u.requesttemplate.toList ++ u.payloadtemplate.toList ++ u.contenttype.toList

theorem urlSlot_mem {url : List Url} {i : ℤ} {u : Url} (h : urlSlot url i = some u) : u ∈ url := by
  unfold urlSlot at h
  split at h
  · exact List.mem_of_getElem? h
  · cases h

/-- No request draws the variable. -/
def Undrawn (url : List Url) (v : Bytes) : Prop :=
  ∀ u ∈ url, ∀ t ∈ requestTemplates u, ¬ DrawnIn v (cstr t)

instance (url : List Url) (v : Bytes) : Decidable (Undrawn url v) :=
  inferInstanceAs (Decidable (∀ u ∈ url, ∀ t ∈ requestTemplates u, ¬ DrawnIn v (cstr t)))

section Slot

variable {env : Env} {rp : RoundRobinProfile} {u : Url} {draws d : Draws} {text : Option Bytes}
  {state : Vars} {v : Bytes}

theorem requestUri_keeps (hv : ∀ t ∈ requestTemplates u, ¬ DrawnIn v (cstr t))
    (h : requestUri rp u draws = .ok (text, state, d)) : state v = rp.state v := by
  unfold requestUri at h
  split at h
  · cases h
    rfl
  · next t ht =>
    split at h
    · cases h
    · next hparse =>
      cases h
      exact handleParamString_keeps (.inr (hv t (by simp [requestTemplates, ht]))) hparse

theorem requestPayload_keeps (hv : ∀ t ∈ requestTemplates u, ¬ DrawnIn v (cstr t))
    (h : requestPayload env rp u draws = .ok (text, state, d)) : state v = rp.state v := by
  unfold requestPayload at h
  split at h
  · cases h
    rfl
  · cases h
    rfl
  · next t _ ht =>
    split at h
    · cases h
    · next hparse =>
      cases h
      exact handleParamString_keeps (.inr (hv t (by simp [requestTemplates, ht]))) hparse
  · cases h
    rfl

theorem requestContenttype_keeps (hv : ∀ t ∈ requestTemplates u, ¬ DrawnIn v (cstr t))
    (h : requestContenttype rp u draws = .ok (text, state, d)) : state v = rp.state v := by
  unfold requestContenttype at h
  split at h
  · cases h
    rfl
  · next t ht =>
    split at h
    · cases h
    · next hparse =>
      cases h
      exact handleParamString_keeps (.inr (hv t (by simp [requestTemplates, ht]))) hparse

end Slot

/-- **A request changes no variable that is not drawn.** -/
theorem getNextUrl_keeps {env : Env} {rp rp' : RoundRobinProfile} {draws d : Draws} {r : Request}
    {v : Bytes} (hv : Undrawn rp.url v) (h : roundRobinGetNextUrl env rp draws = .ok (r, rp', d)) :
    rp'.state v = rp.state v := by
  obtain ⟨u, uri, state₁, draws₁, state₂, draws₂, draws₃, hu, huri, hpayload, hcontenttype, -⟩ :=
    getNextUrl_steps h
  have hnot := hv u (urlSlot_mem hu)
  calc rp'.state v = state₂ v := requestContenttype_keeps hnot hcontenttype
    _ = state₁ v := requestPayload_keeps hnot hpayload
    _ = rp.state v := requestUri_keeps hnot huri

/-- What a response binds: the name of its slot, to the piece that the template matches. -/
def capture (out : Outside) (rp : RoundRobinProfile) (resp : Response) (draws : Draws) :
    Option (Bytes × Bytes) :=
  match urlSlot rp.url rp.currentUrl with
  | none => none
  | some u =>
    match u.responsetemplate with
    | none => none
    | some responsetemplate =>
      match responsePattern rp responsetemplate draws with
      | .error _ => none
      | .ok (expanded, _, _) =>
        (out.regexec expanded (cstr resp.rbuf)).map fun (so, eo) =>
          ((u.responsename.getD []).take u.responselen.toNat,
            cpystrn (resp.rbuf.drop so.toNat) (eo - so).toNat)

/-- The variables, with those captured on top of those from the start. -/
def current (start : Vars) (captured : List (Bytes × Bytes)) : Vars := fun v =>
  (latest captured v).or (start v)

theorem latest_append (sent more : List (Bytes × Bytes)) (v : Bytes) :
    latest (sent ++ more) v = (latest more v).or (latest sent v) := by
  unfold latest
  rw [List.reverse_append, List.find?_append]
  cases more.reverse.find? fun c => c.1 = v with
  | none => rfl
  | some c => rfl

theorem current_append (start : Vars) (captured more : List (Bytes × Bytes)) (v : Bytes) :
    current start (captured ++ more) v = current (current start captured) more v := by
  unfold current
  rw [latest_append, Option.or_assoc]

theorem current_singleton (start : Vars) (name value : Bytes) :
    current start [(name, value)] = Function.update start name (some value) := by
  funext v
  by_cases hv : v = name
  · subst hv
    simp [current, latest]
  · simp [current, latest, hv, Ne.symm hv]

theorem responsePattern_keeps {rp : RoundRobinProfile} {responsetemplate out : Bytes}
    {draws draws' : Draws} {state : Vars}
    (h : responsePattern rp responsetemplate draws = .ok (out, state, draws')) :
    state = rp.state := by
  unfold responsePattern at h
  split at h
  · cases h
  · next hexpand =>
    cases h
    funext v
    exact handleParamString_keeps (.inl rfl) hexpand

/-- The match of a template binds what it captures. -/
theorem matchResponse_state {out : Outside} {rp : RoundRobinProfile} {u : Url} {resp : Response}
    {draws d : Draws} {stat : Status} {state : Vars} (hslot : urlSlot rp.url rp.currentUrl = some u)
    (h : matchResponse out rp u resp draws = .ok (stat, state, d)) :
    state = current rp.state (capture out rp resp draws).toList := by
  unfold capture
  rw [hslot]
  unfold matchResponse at h
  dsimp only
  cases ht : u.responsetemplate with
  | none =>
    rw [ht] at h
    cases h
    rfl
  | some t =>
    rw [ht] at h
    dsimp only at h ⊢
    cases hpattern : responsePattern rp t draws with
    | error a =>
      rw [hpattern] at h
      cases h
    | ok pattern =>
      obtain ⟨expanded, state', draws'⟩ := pattern
      have hstate := responsePattern_keeps hpattern
      rw [hpattern] at h
      dsimp only at h ⊢
      cases hexec : out.regexec expanded (cstr resp.rbuf) with
      | none =>
        rw [hexec] at h
        cases h
        exact hstate
      | some found =>
        obtain ⟨so, eo⟩ := found
        rw [hexec] at h
        cases h
        rw [hstate]
        exact (current_singleton _ _ _).symm

/-- **A response binds what its template captures**, and nothing else. -/
theorem postprocess_state {out : Outside} {rp : RoundRobinProfile} {resp : Response}
    {draws d : Draws} {stat : Status} {cookie : List Cookie} {state : Vars}
    (h : roundRobinPostprocess out rp resp draws = .ok (stat, (cookie, state), d)) :
    state = current rp.state (capture out rp resp draws).toList := by
  unfold roundRobinPostprocess at h
  split at h
  · cases h
  · dsimp only at h
    split at h
    · cases h
    · next u hu =>
      split at h
      · cases h
      · next hmatch =>
        have hstate := matchResponse_state hu hmatch
        split at h
        · cases h
          exact hstate
        · split at h
          · cases h
            exact hstate
          · cases h
            exact hstate

/-! ### The run -/

variable {β : Type}

/-- What the other handlers work on, with the record of what was captured. -/
structure Recorded (β : Type) where
  inner : β
  captured : List (Bytes × Bytes)

def ofInner (h : Handler β) : Handler (Recorded β) :=
  ofPart Recorded.inner (fun inner st => { st with inner := inner }) h

/-- The handlers of a run that captures; `o` gives those of the other events, which keep the response
where `response` finds it. -/
def captureEvents (out : Outside) (response : β → Option Response) (o : OtherEvents β) :
    OtherEvents (Recorded β) where
  beginConn := ofInner o.beginConn
  createReq := ofInner o.createReq
  sendReq := ofInner o.sendReq
  recvResp := ofInner o.recvResp
  postprocess := fun rp _ draws st =>
    match response st.inner with
    | none => .error .fault
    | some resp =>
      match roundRobinPostprocess out rp resp draws with
      | .error a => .error a
      | .ok (stat, vars, draws') => .ok (stat, vars, draws',
          { st with captured := st.captured ++ (capture out rp resp draws).toList })
  verifyResp := ofInner o.verifyResp
  endConn := ofInner o.endConn
  processStats := ofInner o.processStats
  requestDestroy := ofInner o.requestDestroy
  responseDestroy := ofInner o.responseDestroy
  socketDestroy := ofInner o.socketDestroy
  profileInit := ofInner o.profileInit
  reportInit := ofInner o.reportInit
  socketInit := ofInner o.socketInit
  reportStats := ofInner o.reportStats
  destroyReport := ofInner o.destroyReport
  profileDestroy := ofInner o.profileDestroy

/-- A variable that no request draws has the value captured last, and that from the start where none
was captured. -/
structure Remembers (url : List Url) (start : Vars) (s : RobinRun (Recorded β)) : Prop where
  slots : s.rp.url = url
  value : ∀ v, Undrawn url v → s.rp.state v = current start s.rest.captured v

section Run

variable {url : List Url} {start : Vars} {env : Env} {out : Outside}
  {response : β → Option Response} {o : OtherEvents β}

theorem ofInner_remembers (h : Handler β) (s : RobinRun (Recorded β)) (stat : Status)
    (s' : RobinRun (Recorded β)) (hs : Remembers url start s)
    (he : ofHandler (ofInner h) s = .ok (stat, s')) : Remembers url start s' := by
  obtain ⟨draws, inner, -, rfl⟩ := ofHandler_ofPart he
  exact ⟨hs.slots, hs.value⟩

theorem getNextUrl_remembers (s : RobinRun (Recorded β)) (stat : Status)
    (s' : RobinRun (Recorded β)) (hs : Remembers url start s)
    (he : getNextUrl env s = .ok (stat, s')) : Remembers url start s' := by
  simp only [getNextUrl] at he
  split at he
  · cases he
  · next req rp draws hget =>
    cases he
    have hprofile := roundRobinGetNextUrl_profile hget
    refine ⟨?_, fun v hv => ?_⟩
    · show rp.url = url
      rw [hprofile]
      exact hs.slots
    · rw [← hs.value v hv]
      exact getNextUrl_keeps (hs.slots ▸ hv) hget

theorem postprocess_remembers (s : RobinRun (Recorded β)) (stat : Status)
    (s' : RobinRun (Recorded β)) (hs : Remembers url start s)
    (he : postprocess (captureEvents out response o) s = .ok (stat, s')) :
    Remembers url start s' := by
  simp only [postprocess, captureEvents] at he
  cases hresp : response s.rest.inner with
  | none => rw [hresp] at he; cases he
  | some resp =>
    simp only [hresp] at he
    cases hrun : roundRobinPostprocess out s.rp resp s.draws with
    | error a => rw [hrun] at he; cases he
    | ok p =>
      obtain ⟨stat', ⟨cookie, state⟩, draws⟩ := p
      rw [hrun] at he
      cases he
      refine ⟨hs.slots, fun v hv => ?_⟩
      show state v = current start (s.rest.captured ++ _) v
      rw [postprocess_state hrun, current_append, current, current, hs.value v hv]

theorem loopCondition_remembers (s : RobinRun (Recorded β)) (again : Bool)
    (s' : RobinRun (Recorded β)) (hs : Remembers url start s)
    (h : loopCondition env s = .ok (again, s')) : Remembers url start s' := by
  have hrest : s'.rest = s.rest := by
    simp only [loopCondition] at h
    split at h
    · cases h
    · cases h
      rfl
  have hrp : s'.rp = advance s.rp := by
    rcases loopCondition_cases h with ⟨-, -, hrp, -⟩ | ⟨u, -, -, hrp, -⟩
    · exact hrp
    · exact hrp
  refine ⟨by rw [hrp, advance_url, hs.slots], fun v hv => ?_⟩
  rw [hrest, ← hs.value v hv, hrp]
  unfold advance
  split
  · rfl
  · rfl

/-- **Wherever the run stands**, a variable that no request draws has the value captured last. -/
theorem behind_remembers {s₀ s : RobinRun (Recorded β)} (hs₀ : Remembers url start s₀)
    {pre : List (Event (RobinRun (Recorded β)))} {stat : Status}
    (hpre : pre <+: (robinEvents env (captureEvents out response o)).transaction)
    (h : Behind (robinEvents env (captureEvents out response o)) pre s₀ stat s) :
    Remembers url start s := by
  refine behind_preserves ?_ loopCondition_remembers hs₀ hpre h
  intro e he
  simp only [ProfileEvents.transaction, List.mem_cons, List.not_mem_nil, or_false] at he
  rcases he with rfl | rfl | rfl | rfl | rfl | rfl | rfl | rfl | rfl | rfl | rfl | rfl
  · exact getNextUrl_remembers
  · exact ofInner_remembers _
  · exact ofInner_remembers _
  · exact ofInner_remembers _
  · exact ofInner_remembers _
  · exact postprocess_remembers
  all_goals exact ofInner_remembers _

end Run

/-! ### The texts of a request -/

/-- A template of the request has no backslash, and its placeholders are of variables that have a value
and that no request draws. -/
structure Settled (url : List Url) (vars : Vars) (t : Bytes) : Prop where
  plain : 92 ∉ cstr t
  names : ∀ part ∈ (readTemplate (cstr t)).1,
    (∀ var, part.2 ≠ 61 :: var) ∧ Undrawn url part.2 ∧ vars part.2 ≠ none

/-- The template with the values of the variables in place of the placeholders, and the escapes of all
of that decoded. -/
def filled (vars : Vars) (t : Bytes) : Bytes :=
  cstr (substFileEntryUnescape
    (fillParts vars (readTemplate (cstr t)).1 (readTemplate (cstr t)).2))

/-- The values that stand in the template have no backslash. -/
def PlainValues (vars : Vars) (t : Bytes) : Prop :=
  ∀ part ∈ (readTemplate (cstr t)).1, 92 ∉ (vars part.2).getD []

/-- **Values without a backslash** stand in the text as they are. -/
theorem filled_plain {url : List Url} {vars : Vars} {t : Bytes} (ht : Settled url vars t)
    (hvalues : PlainValues vars t) : filled vars t = cstr (replaced vars t) := by
  have hnone := fillParts_avoids (readTemplate_parse ht.plain) ht.plain hvalues
  rw [filled, unescape_plain hnone]
  rfl

/-- **A settled template** is replaced by its text, whatever the variables that are drawn. -/
theorem parseParamString_settled {url : List Url} {vars state : Vars} {t : Bytes}
    (ht : Settled url vars t) (hstate : ∀ v, Undrawn url v → state v = vars v)
    (substList : Option (List SubstRec)) (draws : Draws) :
    ∃ memory, parseParamString substList (cstr t) state draws = .ok (memory, state, draws) ∧
      cstr memory = filled vars t := by
  have hparse := readTemplate_parse ht.plain
  have hsame : ∀ part ∈ (readTemplate (cstr t)).1, state part.2 = vars part.2 :=
    fun part hpart => hstate _ (ht.names part hpart).2.1
  have hbound : ∀ part ∈ (readTemplate (cstr t)).1,
      (∀ var, part.2 ≠ 61 :: var) ∧ ∃ value, state part.2 = some value := by
    intro part hpart
    obtain ⟨hname, -, hvalue⟩ := ht.names part hpart
    rw [hsame part hpart]
    exact ⟨hname, Option.ne_none_iff_exists'.mp hvalue⟩
  obtain ⟨r, cur, hloop, hcur⟩ := expandLoop_bound hparse ht.plain substList .expandSet none draws
    hbound hparse.length_le
  rw [Option.getD_none, List.nil_append, fillParts_congr hsame] at hcur
  refine ⟨substFileEntryUnescape (r.getD [] ++ cur), ?_, by rw [hcur, filled]⟩
  unfold parseParamString handleParamString
  rw [hloop]

/-- **The texts of a request**: each that has a settled template is that template with the values of the
variables. -/
theorem getNextUrl_texts {env : Env} {rp rp' : RoundRobinProfile} {draws d : Draws} {r : Request}
    {u : Url} {vars : Vars} (hvars : ∀ v, Undrawn rp.url v → rp.state v = vars v)
    (hslot : urlSlot rp.url rp.currentUrl = some u)
    (h : roundRobinGetNextUrl env rp draws = .ok (r, rp', d)) :
    (∀ t, u.requesttemplate = some t → Settled rp.url vars t →
      r.uri = rp.baseurl.getD [] ++ filled vars t) ∧
    (∀ t, u.payload = none → u.payloadtemplate = some t → Settled rp.url vars t →
      r.payload = some (filled vars t)) ∧
    ∀ t, u.contenttype = some t → Settled rp.url vars t →
      r.contenttype = some (filled vars t) := by
  obtain ⟨u', uri, state₁, draws₁, state₂, draws₂, draws₃, hu, huri, hpayload, hcontenttype, htext,
    -⟩ := getNextUrl_steps h
  rw [hslot, Option.some.injEq] at hu
  subst hu
  have hvars₁ : ∀ v, Undrawn rp.url v → state₁ v = vars v := fun v hv =>
    (requestUri_keeps (hv u (urlSlot_mem hslot)) huri).trans (hvars v hv)
  have hvars₂ : ∀ v, Undrawn rp.url v → state₂ v = vars v := fun v hv =>
    (requestPayload_keeps (hv u (urlSlot_mem hslot)) hpayload).trans (hvars₁ v hv)
  refine ⟨fun t ht hsettled => ?_, fun t hnone ht hsettled => ?_, fun t ht hsettled => ?_⟩
  · obtain ⟨memory, hparse, hfilled⟩ := parseParamString_settled hsettled hvars rp.substList draws
    simp only [requestUri, ht, hparse, Except.ok.injEq, Prod.mk.injEq] at huri
    rw [htext, ← huri.1, ← hfilled]
    rfl
  · obtain ⟨memory, hparse, hfilled⟩ :=
      parseParamString_settled hsettled hvars₁ rp.substList draws₁
    simp only [requestPayload, hnone, ht, hparse, Except.ok.injEq, Prod.mk.injEq] at hpayload
    rw [← hpayload.1, ← hfilled]
  · obtain ⟨memory, hparse, hfilled⟩ :=
      parseParamString_settled hsettled hvars₂ rp.substList draws₂
    simp only [requestContenttype, ht, hparse, Except.ok.injEq, Prod.mk.injEq] at hcontenttype
    rw [← hcontenttype.1, ← hfilled]

/-- In the run from `s₀`, `round_robin_get_next_url` has just made a request, leaving `s`. -/
def Requested (env : Env) (out : Outside) (response : β → Option Response) (o : OtherEvents β)
    (s₀ s : RobinRun (Recorded β)) : Prop :=
  let ev := robinEvents env (captureEvents out response o)
  Behind ev [ev.getNextUrl] s₀ .success s

/-- **What was captured is sent**: wherever a run makes a request, each of its texts whose template has
only variables that no request draws is that template with the values captured last in it, or those from
the start for what was not captured yet: as they are, where they have no backslash. -/
theorem captured_sent {env : Env} {out : Outside} {response : β → Option Response}
    {o : OtherEvents β} {s₀ s : RobinRun (Recorded β)} (hnone : s₀.rest.captured = [])
    (h : Requested env out response o s₀ s) :
    ∃ u r, urlSlot s.rp.url s.rp.currentUrl = some u ∧ s.req = some r ∧
      let vars := current s₀.rp.state s.rest.captured
      (∀ t, u.requesttemplate = some t → Settled s₀.rp.url vars t →
        r.uri = s.rp.baseurl.getD [] ++ filled vars t) ∧
      (∀ t, u.payload = none → u.payloadtemplate = some t → Settled s₀.rp.url vars t →
        r.payload = some (filled vars t)) ∧
      (∀ t, u.contenttype = some t → Settled s₀.rp.url vars t →
        r.contenttype = some (filled vars t)) ∧
      ∀ t, Settled s₀.rp.url vars t → PlainValues vars t →
        filled vars t = cstr (replaced vars t) := by
  have hs₀ : Remembers s₀.rp.url s₀.rp.state s₀ := by
    refine ⟨rfl, fun v _ => ?_⟩
    rw [hnone]
    rfl
  obtain ⟨s₁, hsteps, hrun⟩ := h
  have hs₁ : Remembers s₀.rp.url s₀.rp.state s₁ :=
    behind_remembers hs₀ List.nil_prefix ⟨s₁, hsteps, rfl⟩
  obtain ⟨s₂, hget, hrun⟩ := runEvents_cons_success hrun
  cases hrun
  simp only [robinEvents, getNextUrl] at hget
  split at hget
  · cases hget
  · next r rp draws hnext =>
    cases hget
    obtain ⟨u, -, -, -, -, -, -, hslot, -⟩ := getNextUrl_steps hnext
    have hprofile := roundRobinGetNextUrl_profile hnext
    have hvars : ∀ v, Undrawn s₁.rp.url v →
        s₁.rp.state v = current s₀.rp.state s₁.rest.captured v := fun v hv =>
      hs₁.value v (hs₁.slots ▸ hv)
    have htexts := getNextUrl_texts hvars hslot hnext
    rw [hs₁.slots] at htexts
    rw [hprofile]
    obtain ⟨huri, hpayload, hcontenttype⟩ := htexts
    exact ⟨u, r, hslot, rfl, huri, hpayload, hcontenttype, fun t => filled_plain⟩

/-! ### A run that captures a piece of its first response -/

/-- Every match is of the fourth character, as that of `id=(.)` with `id=7` is. -/
def fourthCharacter : Outside := ⟨fun _ _ => some (3, 4), fun _ _ => .success⟩

/-- The urls of the run: the first captures `id`, and the second asks for it. -/
def capturingUrls : List Url :=
  [{ url := some (bytes "http://a/"), responsetemplate := some (bytes "id=(.)")
     responsename := some (bytes "id"), responselen := 2 },
    { requesttemplate := some (bytes "http://a/$\x7bid\x7d") }]

/-- Before these two requests, each answered by `id=7`. -/
def capturing : RobinRun (Recorded Response) where
  rp :=
    { executeRounds := 1, urls := 2, url := capturingUrls, baseurl := none, proxyUrl := none
      cookie := [], state := fun _ => none, substList := none, currentRound := 0, currentUrl := 0 }
  draws := fun _ => 0
  rest := ⟨CookieRun.textResponse (bytes "id=7"), []⟩
  req := none
  trace := []

theorem capturing_settled :
    Settled capturingUrls (current (fun _ => none) [(bytes "id", bytes "7")])
      (bytes "http://a/$\x7bid\x7d") := by
  have hnames : (readTemplate (cstr (bytes "http://a/$\x7bid\x7d"))).1 =
      [(bytes "http://a/", bytes "id")] := by decide +kernel
  refine ⟨by decide +kernel, ?_⟩
  rw [hnames]
  intro part hpart
  rw [List.mem_singleton.mp hpart]
  have hhead : (bytes "id").head? ≠ some 61 := by decide +kernel
  exact ⟨fun var heq => hhead (congrArg List.head? heq), by decide +kernel, by decide +kernel⟩

theorem captured_sent_second : ∃ s r,
    Requested oneHost fourthCharacter some CookieRun.quietEvents capturing s ∧ s.req = some r ∧
      r.uri = bytes "http://a/7" := by
  obtain ⟨s, hs, hcaptured, hslot⟩ : ∃ s, Requested oneHost fourthCharacter some
      CookieRun.quietEvents capturing s ∧
      s.rest.captured = [(bytes "id", bytes "7")] ∧
      urlSlot s.rp.url s.rp.currentUrl = capturingUrls[1]? ∧ s.rp.baseurl = none :=
    ⟨_, ⟨_, Steps.single rfl, rfl⟩, rfl, rfl, rfl⟩
  obtain ⟨u, r, hu, hreq, huri, -⟩ := captured_sent rfl hs
  rw [hslot.1] at hu
  cases hu
  refine ⟨s, r, hs, hreq, ?_⟩
  rw [huri _ rfl (hcaptured ▸ capturing_settled), hcaptured, hslot.2]
  decide +kernel

end Flood.SessionVars
