import Flood.FarmerLoad
import Flood.PlannedUrls
import Flood.ReportLines

/-!
# The report that a configuration asks for

The whole way from a configuration to the report of a run: the profile has the slots of its urllist, the
run requests them in turn, and `process_stats` prints a line for each request.

* `transaction_told`, `loopCondition_told` — a transaction reports its request, and the loop condition
  ends the loop behind the last one of the plan.
* `robinRun_told`, `robinRun_halts` — a run ends, and has reported the requests of the plan, or the
  first of them where it fails.
* `report_planned` — the report can be read back, and its rows name the URIs of the plan in order.
-/

namespace Flood.PlannedReport

open Flood.CString Flood.Loop Flood.Net Flood.Template Flood.Config Flood.Profile Flood.RoundRobin
open Flood.UrlElement Flood.ProfileInit Flood.SlotCount Flood.RoundRobinRun Flood.FarmerLoad
open Flood.Timers Flood.DecimalText Flood.ReportLines Flood.PlannedUrls

variable {baseurl : Option Bytes} {targets : List Bytes} {rounds : ℤ} {i : ℕ}

/-- The state of a round-robin run with a timer and a report. -/
abbrev ReportedRun (γ : Type) := Timed (Printed (RobinRun γ))

/-! ### What the handlers of a run do -/

section Handlers

variable {γ : Type}

/-- What `process_stats` is passed beside the timer: the URI of the current request, and the verdict
of `verify_resp`. -/
def passing (verified : RobinRun γ → ℤ) : Passing (RobinRun γ) where
  uri s := s.req.map Request.uri
  verified := verified

/-- The clock; to look at it changes nothing that the profile owns. -/
def robinClock (clock : γ → ℤ × γ) (s : Printed (RobinRun γ)) : ℤ × Printed (RobinRun γ) :=
  let (now, rest) := clock s.inner.rest
  (now, { s with inner := { s.inner with rest := rest } })

/-- What a handler leaves alone that neither asks for a url nor reports. -/
structure Unchanged (s s' : ReportedRun γ) : Prop where
  profile : ∃ cookie state,
    s'.run.inner.rp = { s.run.inner.rp with cookie := cookie, state := state }
  req : s'.run.inner.req = s.run.inner.req
  calls : s'.run.calls = s.run.calls

theorem Unchanged.refl (s : ReportedRun γ) : Unchanged s s := ⟨⟨_, _, rfl⟩, rfl, rfl⟩

theorem Unchanged.trans {s s₁ s' : ReportedRun γ} (h : Unchanged s s₁)
    (h' : Unchanged s₁ s') : Unchanged s s' := by
  obtain ⟨cookie, state, hprofile⟩ := h.profile
  obtain ⟨cookie', state', hprofile'⟩ := h'.profile
  refine ⟨⟨cookie', state', ?_⟩, h'.req.trans h.req, h'.calls.trans h.calls⟩
  rw [hprofile', hprofile]

/-- A handler of the profile that leaves the counters and the current request alone. -/
def Quiet (e : Event (RobinRun γ)) : Prop := ∀ s stat s', e s = .ok (stat, s') →
  (∃ cookie state, s'.rp = { s.rp with cookie := cookie, state := state }) ∧ s'.req = s.req

theorem ofHandler_quiet (h : Handler γ) : Quiet (ofHandler h) := by
  intro s stat s' he
  unfold ofHandler at he
  split at he
  · cases he
  · cases he
    exact ⟨⟨_, _, rfl⟩, rfl⟩

theorem postprocess_quiet (o : OtherEvents γ) : Quiet (RoundRobinRun.postprocess o) := by
  intro s stat s' he
  unfold RoundRobinRun.postprocess at he
  split at he
  · cases he
  · cases he
    exact ⟨⟨_, _, rfl⟩, rfl⟩

/-- A handler of the run that does. -/
def Steady (e : Event (ReportedRun γ)) : Prop :=
  ∀ s stat s', e s = .ok (stat, s') → Unchanged s s'

theorem silent_unchanged {e : Event (RobinRun γ)} (he : Quiet e) {s : Printed (RobinRun γ)}
    {stat : Status} {run : Printed (RobinRun γ)} (h : silent e s = .ok (stat, run))
    (timer timer' : Timer) (passed passed' : List Timer) :
    Unchanged ⟨s, timer, passed⟩ ⟨run, timer', passed'⟩ := by
  unfold silent at h
  split at h
  · cases h
  · next hrun =>
    cases h
    obtain ⟨hprofile, hreq⟩ := he _ _ _ hrun
    exact ⟨hprofile, hreq, rfl⟩

theorem untimed_steady {e : Event (RobinRun γ)} (he : Quiet e) : Steady (untimed (silent e)) := by
  intro s stat s' h
  unfold untimed at h
  split at h
  · cases h
  · next hrun =>
    cases h
    exact silent_unchanged he hrun _ _ _ _

theorem sampledBehind_steady (clock : γ → ℤ × γ) (set : Timer → ℤ → Timer)
    {e : Event (RobinRun γ)} (he : Quiet e) :
    Steady (sampledBehind (robinClock clock) set (silent e)) := by
  intro s stat s' h
  unfold sampledBehind at h
  split at h
  · cases h
  · next hrun =>
    split at h
    · cases h
      exact silent_unchanged he hrun _ _ _ _
    · cases h
      obtain ⟨hprofile, hreq, hcalls⟩ := silent_unchanged he hrun s.timer s.timer s.passed s.passed
      exact ⟨hprofile, hreq, hcalls⟩

theorem orEgeneral_steady {e : Event (ReportedRun γ)} (he : Steady e) :
    Steady (orEgeneral e) := by
  intro s stat s' h
  unfold orEgeneral at h
  split at h
  · cases h
  · next hrun =>
    cases h
    exact he _ _ _ hrun

/-- Steady handlers in sequence. -/
theorem runEvents_steady {es : List (Event (ReportedRun γ))}
    (h : ∀ e ∈ es, Steady e) : Steady (runEvents es) := by
  intro s stat s' hrun
  refine runEvents_preserves (P := Unchanged s) ?_ (Unchanged.refl s) hrun
  intro e he s₁ stat₁ s₂ hs hstep
  exact hs.trans (h e he s₁ stat₁ s₂ hstep)

/-- A steady handler keeps what is said of what it leaves alone. -/
theorem Steady.ensures {e : Event (ReportedRun γ)} (he : Steady e)
    {P R : ReportedRun γ → Prop} (hP : ∀ s s', P s → Unchanged s s' → P s')
    (hR : ∀ s, P s → R s) : Ensures P e P R := by
  intro s stat s' hs hrun
  have hs' := hP s s' hs (he s stat s' hrun)
  split
  · exact hs'
  · exact hR s' hs'

end Handlers

/-! ### What a run has reported -/

section Told

variable {γ : Type}

/-- `process_stats` was called for the first `k` requests of the plan. -/
def Told (baseurl : Option Bytes) (targets : List Bytes) (k : ℕ)
    (s : ReportedRun γ) : Prop :=
  s.run.calls.map Call.uri = (List.range k).map (uriAt baseurl targets)

/-- The profile stands at the request number `i`, and `k` requests were reported. -/
structure Before (baseurl : Option Bytes) (targets : List Bytes) (rounds : ℤ) (i k : ℕ)
    (s : ReportedRun γ) : Prop where
  stands : Stands baseurl targets rounds i s.run.inner.rp
  told : Told baseurl targets k s

/-- The request number `i` is under way. -/
structure Asked (baseurl : Option Bytes) (targets : List Bytes) (rounds : ℤ) (i : ℕ)
    (s : ReportedRun γ) : Prop where
  before : Before baseurl targets rounds i i s
  req : s.run.inner.req.map Request.uri = some (uriAt baseurl targets i)

/-- What a transaction leaves behind that fails. -/
def Failed (baseurl : Option Bytes) (targets : List Bytes) (i : ℕ)
    (s : ReportedRun γ) : Prop := ∃ k ≤ i + 1, Told baseurl targets k s

variable {k : ℕ} {s s' : ReportedRun γ}

theorem Told.keeps (h : Told baseurl targets k s) (hcalls : s'.run.calls = s.run.calls) :
    Told baseurl targets k s' := by
  unfold Told
  rw [hcalls]
  exact h

theorem Told.length (h : Told baseurl targets k s) : s.run.calls.length = k := by
  have hlen := congrArg List.length h
  rwa [List.length_map, List.length_map, List.length_range] at hlen

theorem Before.keeps (h : Before baseurl targets rounds i k s) (hsame : Unchanged s s') :
    Before baseurl targets rounds i k s' :=
  ⟨h.stands.keeps hsame.profile, h.told.keeps hsame.calls⟩

theorem Asked.keeps (h : Asked baseurl targets rounds i s) (hsame : Unchanged s s') :
    Asked baseurl targets rounds i s' :=
  ⟨h.before.keeps hsame, by rw [hsame.req, h.req]⟩

theorem Before.failed (h : Before baseurl targets rounds i k s) (hk : k ≤ i + 1) :
    Failed baseurl targets i s := ⟨k, hk, h.told⟩

variable {clock : γ → ℤ × γ} {verified : RobinRun γ → ℤ} {line : Samples → ℤ → Bytes → Bytes}
  {env : Env}

/-- **`get_next_url`** asks for the URI of the plan. -/
theorem getNextUrl_asked (hn : 0 < targets.length) (set : Timer → ℤ → Timer) :
    Ensures (Before (γ := γ) baseurl targets rounds i i)
      (sampledBehind (robinClock clock) set (silent (RoundRobinRun.getNextUrl env)))
      (Asked baseurl targets rounds i) (Failed baseurl targets i) := by
  intro s stat s' hs hrun
  unfold sampledBehind at hrun
  split at hrun
  · cases hrun
  · next hsilent =>
    unfold silent at hsilent
    split at hsilent
    · cases hsilent
    · next hget =>
      cases hsilent
      unfold RoundRobinRun.getNextUrl at hget
      split at hget
      · cases hget
      · next req rp draws hnext =>
        cases hget
        cases hrun
        have hprofile := roundRobinGetNextUrl_profile hnext
        refine ⟨⟨hs.stands.keeps ⟨_, _, hprofile⟩, hs.told⟩, ?_⟩
        show some req.uri = _
        rw [getNextUrl_target hn hs.stands hnext]

/-- **`process_stats`** reports the request under way. -/
theorem printStats_told :
    Ensures (Asked (γ := γ) baseurl targets rounds i)
      (passTimer (printStats line (passing verified))) (Before baseurl targets rounds i (i + 1))
      (Failed baseurl targets i) := by
  intro s stat s' hs hrun
  unfold passTimer at hrun
  split at hrun
  · cases hrun
  · next hstats =>
    unfold printStats at hstats
    split at hstats
    · cases hstats
    · cases hstats
    · next uri samples huri hsamples =>
      cases hstats
      cases hrun
      refine ⟨hs.before.stands, ?_⟩
      have hsame : some uri = some (uriAt baseurl targets i) := huri.symm.trans hs.req
      rw [Option.some.injEq] at hsame
      unfold Told
      rw [List.map_append, hs.before.told, List.range_succ, List.map_append, hsame]
      rfl

end Told

/-! ### The run -/

section Run

variable {β : Type} {clock : Values × β → ℤ × (Values × β)}
  {verified : RobinRun (Values × β) → ℤ} {line : Samples → ℤ → Bytes → Bytes} {env : Env}
  {files : Files} {rootElem : XmlElem} {o : OtherEvents (Values × β)} {name : Bytes}

/-- The handlers of a run of a round-robin profile with a report. -/
def reportedRobin (clock : Values × β → ℤ × (Values × β)) (verified : RobinRun (Values × β) → ℤ)
    (line : Samples → ℤ → Bytes → Bytes) (env : Env) (files : Files) (rootElem : XmlElem)
    (o : OtherEvents (Values × β)) (name : Bytes) :
    ProfileEvents (ReportedRun (Values × β)) :=
  reportEvents (robinClock clock) line (passing verified) (robinProfile env files rootElem o name)

/-- **A transaction** reports its request, unless it fails before. -/
theorem transaction_told (hn : 0 < targets.length) :
    Ensures (Before baseurl targets rounds i i)
      (runEvents (reportedRobin clock verified line env files rootElem o name).transaction)
      (Before baseurl targets rounds i (i + 1)) (Failed baseurl targets i) := by
  have hasked : ∀ {e : Event (ReportedRun (Values × β))}, Steady e →
      Ensures (Asked baseurl targets rounds i) e (Asked baseurl targets rounds i)
        (Failed baseurl targets i) := fun he =>
    he.ensures (fun _ _ => Asked.keeps) fun _ h => h.before.failed (Nat.le_succ i)
  have htold : ∀ {e : Event (ReportedRun (Values × β))}, Steady e →
      Ensures (Before baseurl targets rounds i (i + 1)) e (Before baseurl targets rounds i (i + 1))
        (Failed baseurl targets i) := fun he =>
    he.ensures (fun _ _ => Before.keeps) fun _ h => h.failed le_rfl
  have hhandler := fun h : Handler (Values × β) => ofHandler_quiet h
  simp only [ProfileEvents.transaction, reportedRobin, reportEvents, withTimer, silentEvents,
    robinProfile, robinEvents]
  refine ensures_cons (getNextUrl_asked hn _) ?_
  refine ensures_cons (hasked (sampledBehind_steady clock _ (hhandler _))) ?_
  refine ensures_cons (hasked (untimed_steady (hhandler _))) ?_
  refine ensures_cons (hasked (sampledBehind_steady clock _ (hhandler _))) ?_
  refine ensures_cons (hasked (sampledBehind_steady clock _ (hhandler _))) ?_
  refine ensures_cons (hasked (untimed_steady (postprocess_quiet o))) ?_
  refine ensures_cons (hasked (untimed_steady (hhandler _))) ?_
  refine ensures_cons (hasked (sampledBehind_steady clock _ (hhandler _))) ?_
  refine ensures_cons printStats_told ?_
  refine ensures_cons (htold (untimed_steady (hhandler _))) ?_
  refine ensures_cons (htold (untimed_steady (hhandler _))) ?_
  exact ensures_cons (htold (untimed_steady (hhandler _))) ensures_nil

/-- **The loop condition** ends the loop behind the last request of the plan. -/
theorem loopCondition_told {s s' : ReportedRun (Values × β)} {again : Bool}
    (hn : 0 < targets.length) (hmore : i < requestCount targets.length rounds)
    (hs : Before baseurl targets rounds i (i + 1) s)
    (h : (reportedRobin clock verified line env files rootElem o name).loopCondition s =
      .ok (again, s')) :
    Before baseurl targets rounds (i + 1) (i + 1) s' ∧
      (again = false ↔ i + 1 = requestCount targets.length rounds) := by
  have hnext := hs.stands.advance hn
  have hdone : (RoundRobin.advance s.run.inner.rp).currentRound ≥ s.run.inner.rp.executeRounds ↔
      i + 1 = requestCount targets.length rounds := by
    rw [hnext.round, hs.stands.rounds]
    exact rounds_done_iff hn hmore
  simp only [reportedRobin, reportEvents, withTimer, silentEvents, robinProfile, robinEvents] at h
  cases hloop : RoundRobinRun.loopCondition env s.run.inner with
  | error a =>
    simp only [hloop] at h
    cases h
  | ok result =>
    simp only [hloop] at h
    cases h
    rcases loopCondition_cases hloop with ⟨hagain, hover, hrp, -⟩ | ⟨u, hagain, hover, hrp, -⟩
    · exact ⟨⟨hrp ▸ hnext, hs.told⟩, iff_of_true hagain (hdone.mp hover)⟩
    · refine ⟨⟨hrp ▸ hnext, hs.told⟩, iff_of_false ?_ fun heq => hover (hdone.mpr heq)⟩
      intro hfalse
      rw [hagain] at hfalse
      cases hfalse

/-- What a run leaves behind that ends: the first requests of the plan were reported, and all of them if
it succeeds. -/
def Ended (baseurl : Option Bytes) (targets : List Bytes) (rounds : ℤ) {γ : Type}
    (r : Except Abort (Status × ReportedRun γ)) : Prop :=
  ∀ stat s', r = .ok (stat, s') → ∃ k ≤ requestCount targets.length rounds,
    Told baseurl targets k s' ∧ (stat = .success → k = requestCount targets.length rounds)

/-- **One round** ends the run, or leads to the next request. -/
theorem robinRound_told {s : ReportedRun (Values × β)} (hn : 0 < targets.length)
    (hmore : i < requestCount targets.length rounds) (hs : Before baseurl targets rounds i i s) :
    (∃ r, runProfileRound (reportedRobin clock verified line env files rootElem o name) s = .inl r ∧
      Ended baseurl targets rounds r) ∨
    ∃ s', runProfileRound (reportedRobin clock verified line env files rootElem o name) s =
        .inr s' ∧ i + 1 < requestCount targets.length rounds ∧
      Before baseurl targets rounds (i + 1) (i + 1) s' := by
  have htold : ∀ s₁, runEvents
      (reportedRobin clock verified line env files rootElem o name).transaction s =
        .ok (.success, s₁) → Before baseurl targets rounds i (i + 1) s₁ := fun s₁ ht => by
    simpa using transaction_told hn s .success s₁ hs ht
  rcases runProfileRound_cases (reportedRobin clock verified line env files rootElem o name) s with
    ⟨a, hr⟩ | ⟨stat, s₁, hstat, ht, hr⟩ | ⟨s₁, s₂, ht, hl, hr⟩ | ⟨s₁, s₂, ht, hl, hr⟩
  · exact .inl ⟨_, hr, fun stat s' heq => by cases heq⟩
  · refine .inl ⟨_, hr, fun stat' s' heq => ?_⟩
    cases heq
    have hfailed := transaction_told hn s stat s₁ hs ht
    rw [if_neg hstat] at hfailed
    obtain ⟨k, hk, htold⟩ := hfailed
    exact ⟨k, hk.trans hmore, htold, fun h => absurd h hstat⟩
  · refine .inl ⟨_, hr, fun stat' s' heq => ?_⟩
    cases heq
    obtain ⟨hnext, hend⟩ := loopCondition_told hn hmore (htold s₁ ht) hl
    exact ⟨i + 1, hmore, hnext.told, fun _ => hend.mp rfl⟩
  · obtain ⟨hnext, hend⟩ := loopCondition_told hn hmore (htold s₁ ht) hl
    refine .inr ⟨s₂, hr, Nat.lt_of_le_of_ne hmore fun heq => ?_, hnext⟩
    cases hend.mpr heq

/-- **The loop** ends, since every round reports a request. -/
theorem robinLoop_told {s : ReportedRun (Values × β)} (hn : 0 < targets.length)
    (hs : Before baseurl targets rounds 0 0 s) :
    ∃ r, Halts (runProfileLoop (reportedRobin clock verified line env files rootElem o name) s) r ∧
      Ended baseurl targets rounds r := by
  have hpos : 0 < requestCount targets.length rounds := by
    unfold requestCount
    split
    · exact Nat.zero_lt_one
    · exact Nat.mul_pos hn (by omega)
  refine halts_of_measure
    (fun s => ∃ i < requestCount targets.length rounds, Before baseurl targets rounds i i s) _
    (fun s => requestCount targets.length rounds - s.run.calls.length) ?_ ⟨0, hpos, hs⟩
  rintro s ⟨i, hmore, hi⟩
  refine Or.imp id (fun hgoesOn => ?_) (robinRound_told hn hmore hi)
  obtain ⟨s', hround, hmore', hnext⟩ := hgoesOn
  refine ⟨s', hround, ⟨i + 1, hmore', hnext⟩, ?_⟩
  rw [hi.told.length, hnext.told.length]
  omega

/-- A profile that is handed over stands at its first request. -/
theorem robinInit_stands {urllistElem : XmlElem} {s s' : RobinRun (Values × β)}
    (hfound : findUrllist name rootElem = .ok (.success, rounds, urllistElem))
    (hbase : optionalText urllistElem XML_URLLIST_BASE_URL = .ok baseurl)
    (hdetermined : Determined urllistElem)
    (h : robinInit env files rootElem name s = .ok (.success, s')) :
    0 < (urllistTargets urllistElem).length ∧
      Stands baseurl (urllistTargets urllistElem) rounds 0 s'.rp := by
  unfold robinInit at h
  split at h
  · cases h
  · next rp st hinit =>
    cases h
    obtain ⟨elem, hfound', hpos, hurls, hround, hslot⟩ := roundRobinProfileInit_start hinit
    have hready := initialised_targets hfound hbase hdetermined hinit
    rw [hfound, Except.ok.injEq, Prod.mk.injEq, Prod.mk.injEq] at hfound'
    have hlen : 0 < (urllistTargets urllistElem).length := by
      have hcount := hready.urls
      rw [hurls] at hcount
      omega
    exact ⟨hlen, hready, hfound'.2.1.symm, by simpa using hround, by simpa using hslot⟩
  · split at h
    · cases h
    · next hstat =>
      cases h
      exact absurd rfl hstat

/-- The state of a run that is to begin. -/
def startRun (w : World β) (timer : Timer) : ReportedRun (Values × β) :=
  ⟨⟨RobinRun.start w, [], []⟩, timer, []⟩

/-- **The handlers before the loop** report nothing, and where they succeed the profile stands at its
first request. -/
theorem setup_told {urllistElem : XmlElem} {w : World β} {timer : Timer} {stat : Status}
    {s : ReportedRun (Values × β)}
    (hfound : findUrllist name rootElem = .ok (.success, rounds, urllistElem))
    (hbase : optionalText urllistElem XML_URLLIST_BASE_URL = .ok baseurl)
    (hdetermined : Determined urllistElem)
    (h : runEvents (reportedRobin clock verified line env files rootElem o name).setup
      (startRun w timer) = .ok (stat, s)) :
    Told baseurl (urllistTargets urllistElem) 0 s ∧ (stat = .success →
      0 < (urllistTargets urllistElem).length ∧
        Before baseurl (urllistTargets urllistElem) rounds 0 0 s) := by
  have hinit : ∀ stat s, (reportedRobin clock verified line env files rootElem o name).profileInit
      (startRun w timer) = .ok (stat, s) → s.run.calls = [] ∧ ∃ inner,
        robinInit env files rootElem name (RobinRun.start w) = .ok (stat, inner) ∧
        s.run.inner = inner := by
    intro stat s hrun
    simp only [reportedRobin, reportEvents, withTimer, silentEvents, robinProfile, startRun,
      untimed, silent] at hrun
    split at hrun
    · cases hrun
    · next hsilent =>
      cases hrun
      split at hsilent
      · cases hsilent
      · next hone =>
        cases hsilent
        exact ⟨rfl, _, hone, rfl⟩
  rcases runEvents_cons_cases h with ⟨hstat, hone⟩ | ⟨s₁, hone, hrest⟩
  · obtain ⟨hcalls, -⟩ := hinit _ _ hone
    refine ⟨?_, fun h => absurd h hstat⟩
    unfold Told
    rw [hcalls]
    rfl
  · obtain ⟨hcalls, inner, hrobin, hinner⟩ := hinit _ _ hone
    have hsame : Unchanged s₁ s := by
      refine runEvents_steady ?_ s₁ stat s hrest
      simp only [reportedRobin, reportEvents, withTimer, silentEvents, robinProfile, robinEvents,
        List.forall_mem_cons]
      exact ⟨untimed_steady (ofHandler_quiet _), untimed_steady (ofHandler_quiet _),
        List.forall_mem_nil _⟩
    have htold : Told baseurl (urllistTargets urllistElem) 0 s₁ := by
      unfold Told
      rw [hcalls]
      rfl
    obtain ⟨hn, hstands⟩ := robinInit_stands hfound hbase hdetermined hrobin
    exact ⟨htold.keeps hsame.calls, fun _ => ⟨hn, Before.keeps ⟨hinner ▸ hstands, htold⟩ hsame⟩⟩

/-- **A run** reports the requests of the plan, or the first of them where it fails. -/
theorem robinRun_told {urllistElem : XmlElem} {w : World β} {timer : Timer} {fuel : ℕ}
    {stat : Status} {s' : ReportedRun (Values × β)}
    (hfound : findUrllist name rootElem = .ok (.success, rounds, urllistElem))
    (hbase : optionalText urllistElem XML_URLLIST_BASE_URL = .ok baseurl)
    (hdetermined : Determined urllistElem)
    (h : runProfile (reportedRobin clock verified line env files rootElem o name)
      (startRun w timer) fuel = some (.ok (stat, s'))) :
    ∃ k ≤ requestCount (urllistTargets urllistElem).length rounds,
      Told baseurl (urllistTargets urllistElem) k s' ∧
      (stat = .success → k = requestCount (urllistTargets urllistElem).length rounds) := by
  rcases runProfile_cases h with ⟨hstat, hsetup⟩ | ⟨s₁, hsetup, hbehind⟩
  · exact ⟨0, Nat.zero_le _, (setup_told hfound hbase hdetermined hsetup).1,
      fun h => absurd h hstat⟩
  · obtain ⟨hn, hbefore⟩ := (setup_told hfound hbase hdetermined hsetup).2 rfl
    have hended : ∀ stat s₂, runProfileLoop
        (reportedRobin clock verified line env files rootElem o name) s₁ fuel =
          some (.ok (stat, s₂)) → Ended baseurl (urllistTargets urllistElem) rounds
            (.ok (stat, s₂)) := by
      intro stat s₂ hloop
      obtain ⟨r, hhalts, hended⟩ := robinLoop_told hn hbefore
      rwa [← hhalts.unique (halts_of_runLoop hloop)]
    rcases hbehind with ⟨-, hloop⟩ | ⟨s₂, hloop, hfinish⟩
    · exact hended stat s' hloop stat s' rfl
    · obtain ⟨k, hk, htold, hall⟩ := hended .success s₂ hloop .success s₂ rfl
      have hsame : Unchanged s₂ s' := by
        refine runEvents_steady ?_ s₂ stat s' hfinish
        simp only [ProfileEvents.finish, reportedRobin, reportEvents, withTimer, silentEvents,
          robinProfile, robinEvents, List.forall_mem_cons]
        exact ⟨untimed_steady (ofHandler_quiet _),
          orEgeneral_steady (untimed_steady (ofHandler_quiet _)),
          orEgeneral_steady (untimed_steady (ofHandler_quiet _)), List.forall_mem_nil _⟩
      exact ⟨k, hk, htold.keeps hsame.calls, fun _ => hall rfl⟩

end Run

/-! ### What is printed -/

section Fitting

variable {γ : Type}

/-- Every sample and every verdict that was reported is a value of its type. -/
structure Fitting (s : Timed (Printed γ)) : Prop where
  timer : ∀ x, some x ∈ s.timer.fields → Fits 63 x
  calls : ∀ c ∈ s.run.calls, (∀ x ∈ c.samples.fields, Fits 63 x) ∧ Fits 31 c.verified

variable {timeNow : Printed γ → ℤ × Printed γ} {line : Samples → ℤ → Bytes → Bytes}
  {look : Passing γ} {ev : ProfileEvents γ}

theorem Fitting.congr {s s' : Timed (Printed γ)} (h : Fitting s) (htimer : s'.timer = s.timer)
    (hcalls : s'.run.calls = s.run.calls) : Fitting s' where
  timer := by rw [htimer]; exact h.timer
  calls := by rw [hcalls]; exact h.calls

theorem untimed_fitting (e : Event γ) (s : Timed (Printed γ)) (stat : Status)
    (s' : Timed (Printed γ)) (hs : Fitting s) (h : untimed (silent e) s = .ok (stat, s')) :
    Fitting s' := by
  unfold untimed at h
  split at h
  · cases h
  · next hrun =>
    cases h
    exact hs.congr rfl (silent_same hrun).2

theorem sampledBehind_fitting (hclock : ClockSilent timeNow) (hfits : ∀ s, Fits 63 (timeNow s).1)
    {set : Timer → ℤ → Timer} (hset : OwnField set) (e : Event γ) (s : Timed (Printed γ))
    (stat : Status) (s' : Timed (Printed γ)) (hs : Fitting s)
    (h : sampledBehind timeNow set (silent e) s = .ok (stat, s')) : Fitting s' := by
  unfold sampledBehind at h
  split at h
  · cases h
  · next stat₁ run hrun =>
    have hcalls := (silent_same hrun).2
    split at h
    · cases h
      exact hs.congr rfl hcalls
    · cases h
      refine ⟨fun x hx => ?_, ?_⟩
      · rcases hset _ _ x hx with rfl | hold
        · exact hfits run
        · exact hs.timer x hold
      · rw [(hclock run).2, hcalls]
        exact hs.calls

theorem passTimer_fitting (hverified : ∀ s, Fits 31 (look.verified s)) (s : Timed (Printed γ))
    (stat : Status) (s' : Timed (Printed γ)) (hs : Fitting s)
    (h : passTimer (printStats line look) s = .ok (stat, s')) : Fitting s' := by
  unfold passTimer at h
  split at h
  · cases h
  · next hrun =>
    cases h
    unfold printStats at hrun
    split at hrun
    · cases hrun
    · cases hrun
    · next uri samples huri hsamples =>
      cases hrun
      refine ⟨hs.timer, fun c hc => ?_⟩
      rcases List.mem_append.mp hc with hold | hnew
      · exact hs.calls c hold
      · rw [List.mem_singleton.mp hnew]
        refine ⟨fun x hx => hs.timer x ?_, hverified _⟩
        rw [samplesOf_fields hsamples]
        exact List.mem_map_of_mem hx

/-- **What a run reports** are values of the clock and of `verify_resp`. -/
theorem run_fitting (hclock : ClockSilent timeNow) (hfits : ∀ s, Fits 63 (timeNow s).1)
    (hverified : ∀ s, Fits 31 (look.verified s)) {s s' : Timed (Printed γ)} {fuel : ℕ}
    {stat : Status} (hs : Fitting s)
    (h : runProfile (reportEvents timeNow line look ev) s fuel = some (.ok (stat, s'))) :
    Fitting s' :=
  report_preserves untimed_fitting (fun _ hset => sampledBehind_fitting hclock hfits hset)
    (passTimer_fitting hverified) (fun _ _ hs => hs.congr rfl rfl) hs h

end Fitting

/-! ### The report -/

/-- A report whose lines can be read back: `text` is the line without its line feed. -/
structure Printer where
  line : Samples → ℤ → Bytes → Bytes
  readLine : Bytes → Option Row
  thread : Bytes
  text : Samples → ℤ → Bytes → Bytes
  reads : ∀ t verified uri, Printable t verified uri →
    line t verified uri = text t verified uri ++ [LF] ∧
      readLine (text t verified uri) = some ⟨t, verified, thread, cstr uri⟩ ∧
      LF ∉ text t verified uri

/-- The easy report in the thread number `thread`. -/
def easyPrinter (thread : ℤ) : Printer where
  line := easyProcessStats thread
  readLine := readEasy
  thread := fmtInt thread
  text := easyLine thread
  reads t verified uri h := ⟨easyProcessStats_line thread t verified uri, readEasy_line thread h⟩

/-- The report of relative times in a thread with this name. -/
def relativePrinter (thread : Bytes) (hthread : 32 ∉ thread ∧ LF ∉ thread) : Printer where
  line := relativeTimesProcessStats thread
  readLine := readRelative
  thread := thread
  text := relativeLine thread
  reads _ _ _ h := ⟨relativeTimesProcessStats_line thread h, readRelative_line hthread h⟩

/-- What the report of a run should be: it can be read back, its rows name the planned URIs in order,
all of them if the run succeeds, and the samples never go back in time. -/
def Reports (p : Printer) (planned : List Bytes) (stat : Status) (out : Bytes) : Prop :=
  ∃ rows, readReport p.readLine out = some rows ∧ (∀ r ∈ rows, r.thread = p.thread) ∧
    (rows.flatMap fun r => r.samples.fields).Pairwise (· ≤ ·) ∧
    rows.map Row.uri <+: planned ∧ (stat = .success → rows.map Row.uri = planned)

section Report

variable {β : Type} {clock : Values × β → ℤ × (Values × β)}
  {verified : RobinRun (Values × β) → ℤ} {env : Env} {files : Files} {rootElem : XmlElem}
  {o : OtherEvents (Values × β)} {name : Bytes}

theorem robinClock_silent {γ : Type} (clock : γ → ℤ × γ) : ClockSilent (robinClock clock) :=
  fun _ => ⟨rfl, rfl⟩

/-- What a run has printed that returns. -/
theorem report_of_run (p : Printer) {urllistElem : XmlElem} {w : World β} {timer : Timer}
    {time : Printed (RobinRun (Values × β)) → ℤ} {fuel : ℕ} {stat : Status}
    {s' : ReportedRun (Values × β)}
    (hfound : findUrllist name rootElem = .ok (.success, rounds, urllistElem))
    (hbase : optionalText urllistElem XML_URLLIST_BASE_URL = .ok baseurl)
    (hdetermined : Determined urllistElem)
    (hline : ∀ uri ∈ plannedUris baseurl (urllistTargets urllistElem) rounds, LF ∉ uri)
    (htimer : ∀ x, some x ∈ timer.fields → Fits 63 x) (hfits : ∀ rest, Fits 63 (clock rest).1)
    (hverified : ∀ s, Fits 31 (verified s))
    (hmono : Monotone time (robinClock clock) (printStats p.line (passing verified))
      (silentEvents (robinProfile env files rootElem o name)))
    (h : runProfile (reportedRobin clock verified p.line env files rootElem o name)
      (startRun w timer) fuel = some (.ok (stat, s'))) :
    Reports p (plannedUris baseurl (urllistTargets urllistElem) rounds) stat s'.run.out := by
  obtain ⟨k, hk, htold, hall⟩ := robinRun_told hfound hbase hdetermined h
  have huris : (rowsOf p.thread s'.run.calls).map Row.uri =
      ((List.range k).map (uriAt baseurl (urllistTargets urllistElem))).map cstr := by
    have htold : s'.run.calls.map Call.uri = _ := htold
    rw [rowsOf, List.map_map, ← htold, List.map_map]
    rfl
  have hfirst : (rowsOf p.thread s'.run.calls).map Row.uri <+:
      plannedUris baseurl (urllistTargets urllistElem) rounds := by
    obtain ⟨more, hmore⟩ := Nat.exists_eq_add_of_le hk
    rw [huris, plannedUris, hmore, List.range_add, List.map_append, List.map_map]
    exact List.prefix_append _ _
  have hfitting : Fitting s' :=
    run_fitting (robinClock_silent clock) (fun s => hfits s.inner.rest) hverified
      (s := startRun w timer) ⟨htimer, fun _ hc => absurd hc List.not_mem_nil⟩ h
  have hprintable : ∀ c ∈ s'.run.calls, Printable c.samples c.verified c.uri := by
    intro c hc
    obtain ⟨hsamples, hverdict⟩ := hfitting.calls c hc
    refine ⟨hsamples, hverdict, hline _ (hfirst.subset ?_)⟩
    exact List.mem_map.mpr ⟨_, List.mem_map.mpr ⟨c, hc, rfl⟩, rfl⟩
  have htext : ∀ c ∈ s'.run.calls,
      p.line c.samples c.verified c.uri = p.text c.samples c.verified c.uri ++ [LF] ∧
        p.readLine (p.text c.samples c.verified c.uri) =
          some ⟨c.samples, c.verified, p.thread, cstr c.uri⟩ ∧
        LF ∉ p.text c.samples c.verified c.uri := fun c hc => p.reads _ _ _ (hprintable c hc)
  have hreads := reads_back (robinClock_silent clock) hmono h htext
  refine ⟨_, hreads.rows, ?_, hreads.ordered, hfirst, fun hstat => ?_⟩
  · intro r hr
    obtain ⟨c, -, rfl⟩ := List.mem_map.mp hr
    rfl
  · rw [huris, hall hstat, plannedUris, List.map_map]
    rfl

/-- The easy report of the thread number `thread`. -/
theorem easyReport_planned (thread : ℤ) {urllistElem : XmlElem} {w : World β} {timer : Timer}
    {time : Printed (RobinRun (Values × β)) → ℤ} {fuel : ℕ} {stat : Status}
    {s' : ReportedRun (Values × β)}
    (hfound : findUrllist name rootElem = .ok (.success, rounds, urllistElem))
    (hbase : optionalText urllistElem XML_URLLIST_BASE_URL = .ok baseurl)
    (hdetermined : Determined urllistElem)
    (hline : ∀ uri ∈ plannedUris baseurl (urllistTargets urllistElem) rounds, LF ∉ uri)
    (htimer : ∀ x, some x ∈ timer.fields → Fits 63 x) (hfits : ∀ rest, Fits 63 (clock rest).1)
    (hverified : ∀ s, Fits 31 (verified s))
    (hmono : Monotone time (robinClock clock) (printStats (easyProcessStats thread) (passing verified))
      (silentEvents (robinProfile env files rootElem o name)))
    (h : runProfile (reportedRobin clock verified (easyProcessStats thread) env files rootElem o name)
      (startRun w timer) fuel = some (.ok (stat, s'))) :
    ∃ rows, readReport readEasy s'.run.out = some rows ∧ (∀ r ∈ rows, r.thread = fmtInt thread) ∧
      (rows.flatMap fun r => r.samples.fields).Pairwise (· ≤ ·) ∧
      rows.map Row.uri <+: plannedUris baseurl (urllistTargets urllistElem) rounds ∧
      (stat = .success →
        rows.map Row.uri = plannedUris baseurl (urllistTargets urllistElem) rounds) :=
  report_of_run (easyPrinter thread) hfound hbase hdetermined hline htimer hfits hverified hmono h

/-- The report of relative times of a thread with this name. -/
theorem relativeReport_planned {thread : Bytes} (hthread : 32 ∉ thread ∧ LF ∉ thread)
    {urllistElem : XmlElem} {w : World β} {timer : Timer}
    {time : Printed (RobinRun (Values × β)) → ℤ} {fuel : ℕ} {stat : Status}
    {s' : ReportedRun (Values × β)}
    (hfound : findUrllist name rootElem = .ok (.success, rounds, urllistElem))
    (hbase : optionalText urllistElem XML_URLLIST_BASE_URL = .ok baseurl)
    (hdetermined : Determined urllistElem)
    (hline : ∀ uri ∈ plannedUris baseurl (urllistTargets urllistElem) rounds, LF ∉ uri)
    (htimer : ∀ x, some x ∈ timer.fields → Fits 63 x) (hfits : ∀ rest, Fits 63 (clock rest).1)
    (hverified : ∀ s, Fits 31 (verified s))
    (hmono : Monotone time (robinClock clock)
      (printStats (relativeTimesProcessStats thread) (passing verified))
      (silentEvents (robinProfile env files rootElem o name)))
    (h : runProfile
      (reportedRobin clock verified (relativeTimesProcessStats thread) env files rootElem o name)
      (startRun w timer) fuel = some (.ok (stat, s'))) :
    ∃ rows, readReport readRelative s'.run.out = some rows ∧ (∀ r ∈ rows, r.thread = thread) ∧
      (rows.flatMap fun r => r.samples.fields).Pairwise (· ≤ ·) ∧
      rows.map Row.uri <+: plannedUris baseurl (urllistTargets urllistElem) rounds ∧
      (stat = .success →
        rows.map Row.uri = plannedUris baseurl (urllistTargets urllistElem) rounds) :=
  report_of_run (relativePrinter thread hthread) hfound hbase hdetermined hline htimer hfits hverified
    hmono h

end Report

/-! ### A run over a sequence of two items -/

/-- What a run has printed. -/
def printed {γ : Type} : Option (Except Abort (Status × Timed (Printed γ))) → Option (Status × Bytes)
  | some (.ok (stat, s)) => some (stat, s.run.out)
  | _ => none

end Flood.PlannedReport
