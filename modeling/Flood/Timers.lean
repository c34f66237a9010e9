import Flood.Profile

/-!
# The timer of a run

`run_profile` samples the clock five times in each transaction, behind `get_next_url`, `begin_conn`,
`send_req`, `recv_resp` and `end_conn`, into one timer that it passes to `process_stats`.  The clock
belongs to what the handlers work on, so that time can pass in every one of them.

* `sampledBehind_timing`, `passTimer_timing` — what a sample adds to the timer, and what
  `process_stats` is passed.
* `transaction_timing` — a transaction fills the timer, passes it on and leaves it to the next one.
* `timers_ordered` — over a whole run the samples passed to `process_stats` are complete, and none is
  earlier than one before it, within a transaction and from one transaction to the next.
-/

namespace Flood.Timers

open Flood.Loop Flood.Net Flood.Profile

/-- `flood_timer_t`; a field that was never sampled is `none`. -/
structure Timer where
  begin : Option ℤ
  connect : Option ℤ
  write : Option ℤ
  read : Option ℤ
  close : Option ℤ
  deriving DecidableEq

/-- The fields in the order in which they are sampled. -/
def Timer.fields (t : Timer) : List (Option ℤ) := [t.begin, t.connect, t.write, t.read, t.close]

/-- The state of a run with its timer, and the timers that `process_stats` was called with. -/
structure Timed (α : Type) where
  run : α
  timer : Timer
  passed : List Timer

variable {α : Type}

/-- A handler that has no access to the timer. -/
def untimed (e : Event α) : Event (Timed α) := fun s =>
  match e s.run with
  | .error a => .error a
  | .ok (stat, run) => .ok (stat, { s with run := run })

/-- A handler, and a sample of the clock where it succeeds. -/
def sampledBehind (timeNow : α → ℤ × α) (set : Timer → ℤ → Timer) (e : Event α) :
    Event (Timed α) := fun s =>
  match e s.run with
  | .error a => .error a
  | .ok (stat, run) =>
    if stat ≠ .success then .ok (stat, { s with run := run })
    else
      let (now, run) := timeNow run
      .ok (.success, { s with run := run, timer := set s.timer now })

/-- The call of `process_stats`, the only event that the timer is passed to. -/
def passTimer (processStats : Timer → Event α) : Event (Timed α) := fun s =>
  match processStats s.timer s.run with
  | .error a => .error a
  | .ok (stat, run) => .ok (stat, { s with run := run, passed := s.passed ++ [s.timer] })

/-- The handlers `ev` as `run_profile` calls them with its timer, `processStats` in place of their
own. -/
def withTimer (timeNow : α → ℤ × α) (processStats : Timer → Event α) (ev : ProfileEvents α) :
    ProfileEvents (Timed α) where
  profileInit := untimed ev.profileInit
  reportInit := untimed ev.reportInit
  socketInit := untimed ev.socketInit
  getNextUrl := sampledBehind timeNow (fun t now => { t with begin := some now }) ev.getNextUrl
  beginConn := sampledBehind timeNow (fun t now => { t with connect := some now }) ev.beginConn
  createReq := untimed ev.createReq
  sendReq := sampledBehind timeNow (fun t now => { t with write := some now }) ev.sendReq
  recvResp := sampledBehind timeNow (fun t now => { t with read := some now }) ev.recvResp
  postprocess := untimed ev.postprocess
  verifyResp := untimed ev.verifyResp
  endConn := sampledBehind timeNow (fun t now => { t with close := some now }) ev.endConn
  processStats := passTimer processStats
  requestDestroy := untimed ev.requestDestroy
  responseDestroy := untimed ev.responseDestroy
  socketDestroy := untimed ev.socketDestroy
  loopCondition := fun s =>
    match ev.loopCondition s.run with
    | .error a => .error a
    | .ok (again, run) => .ok (again, { s with run := run })
  reportStats := untimed ev.reportStats
  destroyReport := untimed ev.destroyReport
  profileDestroy := untimed ev.profileDestroy

/-! ### A clock that is not set back -/

/-- A handler that does not turn the clock back. -/
def Advances (clock : α → ℤ) (e : Event α) : Prop :=
  ∀ s stat s', e s = .ok (stat, s') → clock s ≤ clock s'

/-- The time passes, or stands still, while a transaction is made and while the clock is read, and what
is read lies between the time before and the time behind. -/
structure Monotone (clock : α → ℤ) (timeNow : α → ℤ × α) (processStats : Timer → Event α)
    (ev : ProfileEvents α) : Prop where
  now : ∀ s, clock s ≤ (timeNow s).1 ∧ (timeNow s).1 ≤ clock (timeNow s).2
  handlers : ∀ e ∈ ev.transaction, Advances clock e
  stats : ∀ t, Advances clock (processStats t)
  loop : ∀ s again s', ev.loopCondition s = .ok (again, s') → clock s ≤ clock s'

/-- The samples passed to `process_stats` so far, one transaction behind the other, are complete and in
the order of time. -/
def InOrder (s : Timed α) : Prop :=
  ∃ times : List ℤ, s.passed.flatMap Timer.fields = times.map some ∧ times.Pairwise (· ≤ ·)

/-- So are these samples with the first `k` of the transaction under way, and none lies in the
future. -/
def Timing (clock : α → ℤ) (k : ℕ) (s : Timed α) : Prop :=
  ∃ times : List ℤ, s.passed.flatMap Timer.fields ++ s.timer.fields.take k = times.map some ∧
    times.Pairwise (· ≤ ·) ∧ ∀ t ∈ times, t ≤ clock s.run

variable {clock : α → ℤ} {timeNow : α → ℤ × α} {processStats : Timer → Event α}
  {ev : ProfileEvents α} {k : ℕ}

theorem Timing.inOrder {s : Timed α} (h : Timing clock k s) : InOrder s := by
  obtain ⟨times, htimes, hsorted, -⟩ := h
  obtain ⟨front, back, rfl, hfront, -⟩ := List.append_eq_map_iff.mp htimes
  exact ⟨front, hfront.symm, (List.pairwise_append.mp hsorted).1⟩

/-- Time passes. -/
theorem Timing.later {s : Timed α} {run : α} (h : Timing clock k s)
    (hlater : clock s.run ≤ clock run) : Timing clock k { s with run := run } := by
  obtain ⟨times, htimes, hsorted, hpast⟩ := h
  exact ⟨times, htimes, hsorted, fun t ht => le_trans (hpast t ht) hlater⟩

theorem untimed_timing {e : Event α} (he : Advances clock e) :
    Ensures (Timing clock k) (untimed e) (Timing clock k) InOrder := by
  intro s stat s' hs hrun
  unfold untimed at hrun
  split at hrun
  · cases hrun
  · next stat₁ run hstep =>
    cases hrun
    have hlater := hs.later (he s.run stat run hstep)
    split
    · exact hlater
    · exact hlater.inOrder

/-- **A sample** adds the next field to the timer. -/
theorem sampledBehind_timing {set : Timer → ℤ → Timer} {e : Event α} (he : Advances clock e)
    (hnow : ∀ s, clock s ≤ (timeNow s).1 ∧ (timeNow s).1 ≤ clock (timeNow s).2)
    (hset : ∀ t x, (set t x).fields.take (k + 1) = t.fields.take k ++ [some x]) :
    Ensures (Timing clock k) (sampledBehind timeNow set e) (Timing clock (k + 1)) InOrder := by
  intro s stat s' hs hrun
  unfold sampledBehind at hrun
  split at hrun
  · cases hrun
  · next stat₁ run hstep =>
    have hlater := hs.later (he s.run stat₁ run hstep)
    split at hrun
    · next hne =>
      cases hrun
      rw [if_neg hne]
      exact hlater.inOrder
    · cases hrun
      rw [if_pos rfl]
      obtain ⟨times, htimes, hsorted, hpast⟩ := hlater
      obtain ⟨hfrom, hto⟩ := hnow run
      refine ⟨times ++ [(timeNow run).1], ?_, ?_, ?_⟩
      · rw [hset, ← List.append_assoc]
        rw [List.map_append, ← htimes]
        rfl
      · refine List.pairwise_append.mpr ⟨hsorted, List.pairwise_singleton _ _, ?_⟩
        intro t ht t' ht'
        rw [List.mem_singleton.mp ht']
        exact le_trans (hpast t ht) hfrom
      · intro t ht
        rcases List.mem_append.mp ht with hold | hnew
        · exact le_trans (le_trans (hpast t hold) hfrom) hto
        · rw [List.mem_singleton.mp hnew]
          exact hto

/-- **`process_stats`** is passed a full timer. -/
theorem passTimer_timing (hstats : ∀ t, Advances clock (processStats t)) :
    Ensures (Timing clock 5) (passTimer processStats) (Timing clock 0) InOrder := by
  intro s stat s' hs hrun
  unfold passTimer at hrun
  split at hrun
  · cases hrun
  · next stat₁ run hstep =>
    cases hrun
    have hpassed : Timing clock 0 { s with run := run, passed := s.passed ++ [s.timer] } := by
      obtain ⟨times, htimes, hsorted, hpast⟩ := hs.later (hstats s.timer s.run stat run hstep)
      refine ⟨times, ?_, hsorted, hpast⟩
      rw [List.take_zero, List.append_nil, List.flatMap_append, List.flatMap_singleton]
      exact htimes
    split
    · exact hpassed
    · exact hpassed.inOrder

/-- **A transaction** fills the timer and passes it on. -/
theorem transaction_timing (hmono : Monotone clock timeNow processStats ev) :
    Ensures (Timing clock 0) (runEvents (withTimer timeNow processStats ev).transaction)
      (Timing clock 0) InOrder := by
  have hhandlers := hmono.handlers
  simp only [ProfileEvents.transaction, List.forall_mem_cons] at hhandlers
  obtain ⟨hget, hbegin, hcreate, hsend, hrecv, hpost, hverify, hend, -, hreq, hresp, hsock, -⟩ :=
    hhandlers
  simp only [ProfileEvents.transaction, withTimer]
  refine ensures_cons (sampledBehind_timing hget hmono.now fun _ _ => rfl) ?_
  refine ensures_cons (sampledBehind_timing hbegin hmono.now fun _ _ => rfl) ?_
  refine ensures_cons (untimed_timing hcreate) ?_
  refine ensures_cons (sampledBehind_timing hsend hmono.now fun _ _ => rfl) ?_
  refine ensures_cons (sampledBehind_timing hrecv hmono.now fun _ _ => rfl) ?_
  refine ensures_cons (untimed_timing hpost) ?_
  refine ensures_cons (untimed_timing hverify) ?_
  refine ensures_cons (sampledBehind_timing hend hmono.now fun _ _ => rfl) ?_
  refine ensures_cons (passTimer_timing hmono.stats) ?_
  refine ensures_cons (untimed_timing hreq) ?_
  refine ensures_cons (untimed_timing hresp) ?_
  exact ensures_cons (untimed_timing hsock) ensures_nil

/-! ### The samples of a run -/

theorem untimed_passed {e : Event α} {passed : List Timer} (s : Timed α) (stat : Status)
    (s' : Timed α) (hs : s.passed = passed) (h : untimed e s = .ok (stat, s')) :
    s'.passed = passed := by
  unfold untimed at h
  split at h
  · cases h
  · cases h
    exact hs

theorem setup_passed {s s' : Timed α} {stat : Status}
    (h : runEvents (withTimer timeNow processStats ev).setup s = .ok (stat, s')) :
    s'.passed = s.passed := by
  refine runEvents_preserves (P := fun t => t.passed = s.passed) ?_ rfl h
  simp only [ProfileEvents.setup, withTimer, List.forall_mem_cons]
  exact ⟨untimed_passed, untimed_passed, untimed_passed, List.forall_mem_nil _⟩

theorem finish_passed {s s' : Timed α} {stat : Status}
    (h : runEvents (withTimer timeNow processStats ev).finish s = .ok (stat, s')) :
    s'.passed = s.passed := by
  refine runEvents_preserves (P := fun t => t.passed = s.passed) ?_ rfl h
  simp only [ProfileEvents.finish, withTimer, List.forall_mem_cons]
  exact ⟨untimed_passed, orEgeneral_preserves untimed_passed, orEgeneral_preserves untimed_passed,
    List.forall_mem_nil _⟩

theorem loopCondition_timing (hmono : Monotone clock timeNow processStats ev) (s : Timed α)
    (again : Bool) (s' : Timed α) (hs : Timing clock 0 s)
    (h : (withTimer timeNow processStats ev).loopCondition s = .ok (again, s')) :
    Timing clock 0 s' := by
  simp only [withTimer] at h
  split at h
  · cases h
  · next _ run hstep =>
    cases h
    exact hs.later (hmono.loop s.run again run hstep)

/-- **The samples of a run are in order**: all that `process_stats` is passed over the run, in the
order of the calls and of the fields, is complete and never goes back in time. -/
theorem timers_ordered (hmono : Monotone clock timeNow processStats ev) {s : α} {timer : Timer}
    {s' : Timed α} {fuel : ℕ} {stat : Status}
    (h : runProfile (withTimer timeNow processStats ev) ⟨s, timer, []⟩ fuel =
      some (.ok (stat, s'))) : InOrder s' := by
  have hstart : ∀ t : Timed α, t.passed = [] → Timing clock 0 t := fun t ht =>
    ⟨[], by simp [ht], List.Pairwise.nil, fun _ hmem => absurd hmem List.not_mem_nil⟩
  rcases runProfile_cases h with ⟨-, hsetup⟩ | ⟨s₁, hsetup, hbehind⟩
  · exact (hstart s' (setup_passed hsetup)).inOrder
  · have hloopRule := (runProfileLoop_ensures (transaction_timing hmono)
      (loopCondition_timing hmono) (hstart s₁ (setup_passed hsetup))).2 fuel
    rcases hbehind with ⟨hne, hloop⟩ | ⟨s₂, hloop, hfinish⟩
    · have hfailed := hloopRule stat s' hloop
      rwa [if_neg hne] at hfailed
    · have hended := hloopRule .success s₂ hloop
      rw [if_pos rfl] at hended
      obtain ⟨times, htimes, hsorted⟩ := hended.inOrder
      exact ⟨times, (finish_passed hfinish).symm ▸ htimes, hsorted⟩

/-- Handlers that take one unit of time each; the state is the time. -/
def ticking : ProfileEvents ℤ :=
  let tick : Event ℤ := fun now => .ok (.success, now + 1)
  { profileInit := tick, reportInit := tick, socketInit := tick, getNextUrl := tick
    beginConn := tick, createReq := tick, sendReq := tick, recvResp := tick
    postprocess := tick, verifyResp := tick, endConn := tick, processStats := tick
    requestDestroy := tick, responseDestroy := tick, socketDestroy := tick
    loopCondition := fun now => .ok (false, now + 1)
    reportStats := tick, destroyReport := tick, profileDestroy := tick }

theorem ticking_monotone : Monotone id (fun now => (now, now))
    (fun _ now => .ok (.success, now + 1)) ticking where
  now _ := ⟨le_rfl, le_rfl⟩
  handlers e he now stat now' h := by
    simp only [ProfileEvents.transaction, ticking, List.mem_cons, List.not_mem_nil, or_false,
      or_self] at he
    subst he
    cases h
    exact Int.le_add_one (Int.le_refl _)
  stats _ now stat now' h := by
    cases h
    exact Int.le_add_one (Int.le_refl _)
  loop now again now' h := by
    cases h
    exact Int.le_add_one (Int.le_refl _)

/-- The timer of the transaction of such a run. -/
def tickingTimer : Timer := ⟨some 4, some 5, some 7, some 8, some 11⟩

theorem ticking_run : runProfile (withTimer (fun now => (now, now))
      (fun _ now => .ok (.success, now + 1)) ticking) ⟨0, ⟨none, none, none, none, none⟩, []⟩ 1 =
    some (.ok (.success, ⟨19, tickingTimer, [tickingTimer]⟩)) := rfl

theorem timers_ordered_ticking : InOrder (⟨19, tickingTimer, [tickingTimer]⟩ : Timed ℤ) :=
  timers_ordered ticking_monotone ticking_run

end Flood.Timers
