import Flood.Alternation
import Flood.Profile
import Flood.ProfileTables

/-!
# The events of a run

`flood_profile.h` says when `run_profile` calls which event: what is called once, what is called at
the end of every pass through the loop, what only after the test has completed.  Here the handlers are
any functions, and a run keeps a log of the calls it makes, each with the status it returned, and of
the answers of the loop condition.

* `runProfile_projects` — a run whose handlers act on more than another's does the same to what they
  share; so the log changes nothing (`withLog_projects`).
* `runEvents_log` — handlers in sequence are called in their order up to the first that fails.
* `runProfile_log` — the log of every run is a complete session, or one that is cut off behind the
  first call that fails.
* `calls_alternate` — two events of a transaction are called in turn, whatever the run does.
-/

namespace Flood.EventLog

open Flood.Alternation Flood.Loop Flood.Net Flood.Profile
open Flood.ProfileTables (EventName)

/-! ### Handlers that act on more -/

section Project

variable {α β : Type}

/-- What a handler returns, as seen through `π`. -/
def seen (π : β → α) (r : Except Abort (Status × β)) : Except Abort (Status × α) :=
  r.map fun p => (p.1, π p.2)

/-- `e'` does to the part `π` of its state what `e` does. -/
def Lifts (π : β → α) (e' : Event β) (e : Event α) : Prop := ∀ s, seen π (e' s) = e (π s)

/-- Every handler of `ev'` does to the part `π` of its state what the one of `ev` does. -/
structure Projects (π : β → α) (ev' : ProfileEvents β) (ev : ProfileEvents α) : Prop where
  setup : List.Forall₂ (Lifts π) ev'.setup ev.setup
  transaction : List.Forall₂ (Lifts π) ev'.transaction ev.transaction
  loopCondition : ∀ s, (ev'.loopCondition s).map (fun p => (p.1, π p.2)) = ev.loopCondition (π s)
  finish : List.Forall₂ (Lifts π) ev'.finish ev.finish

variable {π : β → α}

/-- What the lower handler does, in the three ways the upper one can end. -/
theorem Lifts.cases {e' : Event β} {e : Event α} (h : Lifts π e' e) (s : β) :
    (∃ a, e' s = .error a ∧ e (π s) = .error a) ∨
    ∃ stat s', e' s = .ok (stat, s') ∧ e (π s) = .ok (stat, π s') := by
  have hs := h s
  cases hrun : e' s with
  | error a => exact .inl ⟨a, rfl, by rw [← hs, hrun]; rfl⟩
  | ok p => exact .inr ⟨p.1, p.2, rfl, by rw [← hs, hrun]; rfl⟩

theorem runEvents_lifts {es' : List (Event β)} {es : List (Event α)}
    (h : List.Forall₂ (Lifts π) es' es) : Lifts π (runEvents es') (runEvents es) := by
  induction h with
  | nil => exact fun s => rfl
  | cons he _ ih =>
    intro s
    rcases he.cases s with ⟨a, hup, hdown⟩ | ⟨stat, s', hup, hdown⟩
    · simp only [runEvents, hup, hdown]
      rfl
    · simp only [runEvents, hup, hdown]
      split
      · rfl
      · exact ih s'

theorem orEgeneral_lifts {e' : Event β} {e : Event α} (h : Lifts π e' e) :
    Lifts π (orEgeneral e') (orEgeneral e) := by
  intro s
  rcases h.cases s with ⟨a, hup, hdown⟩ | ⟨stat, s', hup, hdown⟩
  · simp only [orEgeneral, hup, hdown]
    rfl
  · simp only [orEgeneral, hup, hdown]
    rfl

variable {ev' : ProfileEvents β} {ev : ProfileEvents α}

/-- The two rounds go on together, or leave their loops with the same result. -/
theorem runProfileRound_projects (h : Projects π ev' ev) (s : β) :
    (∃ out, runProfileRound ev' s = .inl out ∧ runProfileRound ev (π s) = .inl (seen π out)) ∨
    ∃ s', runProfileRound ev' s = .inr s' ∧ runProfileRound ev (π s) = .inr (π s') := by
  rcases (runEvents_lifts h.transaction).cases s with ⟨a, hup, hdown⟩ | ⟨stat, s₁, hup, hdown⟩
  · exact .inl ⟨.error a, by simp only [runProfileRound, hup], by
      simp only [runProfileRound, hdown]; rfl⟩
  · by_cases hstat : stat = .success
    · subst hstat
      have hloop := h.loopCondition s₁
      cases hl : ev'.loopCondition s₁ with
      | error a =>
        rw [hl] at hloop
        exact .inl ⟨.error a, by simp [runProfileRound, hup, hl], by
          simp [runProfileRound, hdown, ← hloop, Except.map, seen]⟩
      | ok q =>
        obtain ⟨again, s'⟩ := q
        rw [hl] at hloop
        cases again with
        | false =>
          exact .inl ⟨.ok (.success, s'), by simp [runProfileRound, hup, hl], by
            simp [runProfileRound, hdown, ← hloop, Except.map, seen]⟩
        | true =>
          exact .inr ⟨s', by simp [runProfileRound, hup, hl], by
            simp [runProfileRound, hdown, ← hloop, Except.map]⟩
    · exact .inl ⟨.ok (stat, s₁), by simp [runProfileRound, hup, hstat], by
        simp [runProfileRound, hdown, hstat, seen, Except.map]⟩

theorem runProfileLoop_projects (h : Projects π ev' ev) (s : β) (fuel : ℕ) :
    (runProfileLoop ev' s fuel).map (seen π) = runProfileLoop ev (π s) fuel := by
  unfold runProfileLoop
  induction fuel generalizing s with
  | zero => rfl
  | succ fuel ih =>
    rcases runProfileRound_projects h s with ⟨out, hup, hdown⟩ | ⟨s', hup, hdown⟩
    · rw [runLoop_inl hup, runLoop_inl hdown]
      rfl
    · rw [runLoop_inr hup, runLoop_inr hdown]
      exact ih s'

/-- **Two runs in step**: what the upper handlers do to the part `π`, the lower ones do. -/
theorem runProfile_projects (h : Projects π ev' ev) (s : β) (fuel : ℕ) :
    (runProfile ev' s fuel).map (seen π) = runProfile ev (π s) fuel := by
  rcases (runEvents_lifts h.setup).cases s with ⟨a, hup, hdown⟩ | ⟨stat, s₁, hup, hdown⟩
  · simp only [runProfile, hup, hdown]
    rfl
  · by_cases hstat : stat = .success
    · subst hstat
      have hloop := runProfileLoop_projects h s₁ fuel
      simp only [runProfile, hup, hdown, ne_eq, not_true_eq_false, if_false, ← hloop]
      cases runProfileLoop ev' s₁ fuel with
      | none => rfl
      | some out =>
        cases out with
        | error a => rfl
        | ok p =>
          obtain ⟨stat, s₂⟩ := p
          by_cases hstat : stat = .success
          · subst hstat
            exact congrArg some (runEvents_lifts h.finish s₂)
          · simp [seen, Except.map, hstat]
    · simp [runProfile, hup, hdown, hstat, seen, Except.map]

end Project

/-! ### The log -/

/-- A call with the status it returned, or an answer of the loop condition. -/
inductive Entry where
  | call (ev : EventName) (stat : Status)
  | again (yes : Bool)
  deriving DecidableEq

/-- The event that an entry is about. -/
def Entry.event : Entry → EventName
  | .call ev _ => ev
  | .again _ => .loopCondition

/-- The state of a run, with the log of its calls. -/
structure Logged (α : Type) where
  run : α
  log : List Entry

variable {α : Type}

/-- A handler whose calls are logged. -/
def logged (ev : EventName) (e : Event α) : Event (Logged α) := fun s =>
  match e s.run with
  | .error a => .error a
  | .ok (stat, run) => .ok (stat, ⟨run, s.log ++ [.call ev stat]⟩)

def loggedCondition (loop : α → Except Abort (Bool × α)) (s : Logged α) :
    Except Abort (Bool × Logged α) :=
  match loop s.run with
  | .error a => .error a
  | .ok (again, run) => .ok (again, ⟨run, s.log ++ [.again again]⟩)

/-- The handlers of a run that keeps a log. -/
def withLog (ev : ProfileEvents α) : ProfileEvents (Logged α) where
  profileInit := logged .profileInit ev.profileInit
  reportInit := logged .reportInit ev.reportInit
  socketInit := logged .socketInit ev.socketInit
  getNextUrl := logged .getNextUrl ev.getNextUrl
  beginConn := logged .beginConn ev.beginConn
  createReq := logged .createReq ev.createReq
  sendReq := logged .sendReq ev.sendReq
  recvResp := logged .recvResp ev.recvResp
  postprocess := logged .postprocess ev.postprocess
  verifyResp := logged .verifyResp ev.verifyResp
  endConn := logged .endConn ev.endConn
  processStats := logged .processStats ev.processStats
  requestDestroy := logged .requestDestroy ev.requestDestroy
  responseDestroy := logged .responseDestroy ev.responseDestroy
  socketDestroy := logged .socketDestroy ev.socketDestroy
  loopCondition := loggedCondition ev.loopCondition
  reportStats := logged .reportStats ev.reportStats
  destroyReport := logged .destroyReport ev.destroyReport
  profileDestroy := logged .profileDestroy ev.profileDestroy

theorem logged_lifts (ev : EventName) (e : Event α) : Lifts Logged.run (logged ev e) e := by
  intro s
  unfold logged seen
  cases e s.run with
  | error a => rfl
  | ok p => rfl

/-- **The log changes nothing.** -/
theorem withLog_projects (ev : ProfileEvents α) : Projects Logged.run (withLog ev) ev where
  setup := .cons (logged_lifts _ _) (.cons (logged_lifts _ _) (.cons (logged_lifts _ _) .nil))
  transaction := by
    unfold ProfileEvents.transaction withLog
    repeat' first | exact .nil | refine .cons (logged_lifts _ _) ?_
  loopCondition := by
    intro s
    show (loggedCondition ev.loopCondition s).map _ = _
    unfold loggedCondition
    cases ev.loopCondition s.run with
    | error a => rfl
    | ok p => rfl
  finish := .cons (logged_lifts _ _) (.cons (orEgeneral_lifts (logged_lifts _ _))
    (.cons (orEgeneral_lifts (logged_lifts _ _)) .nil))

/-! ### Sessions -/

def setupNames : List EventName := [.profileInit, .reportInit, .socketInit]

def transactionNames : List EventName :=
  [.getNextUrl, .beginConn, .createReq, .sendReq, .recvResp, .postprocess, .verifyResp, .endConn,
    .processStats, .requestDestroy, .responseDestroy, .socketDestroy]

def finishNames : List EventName := [.reportStats, .destroyReport, .profileDestroy]

/-- Calls that succeed. -/
def done (names : List EventName) : List Entry := names.map fun ev => .call ev .success

/-- The log before the transaction number `k`, counted from 0. -/
def opened (k : ℕ) : List Entry :=
  done setupNames ++ (List.replicate k (done transactionNames ++ [.again true])).flatten

/-- The log of a run that completes `k + 1` transactions. -/
def session (k : ℕ) : List Entry :=
  opened k ++ (done transactionNames ++ ([.again false] ++ done finishNames))

/-- The status that `run_profile` makes of the one that an event returned. -/
def reported (ev : EventName) (stat : Status) : Status :=
  if ev = .destroyReport ∨ ev = .profileDestroy then
    if stat ≠ .success then .egeneral else .success
  else stat

/-- A run that returns `stat` has made all calls of a session, or it has made them up to one that fails
with a status that is reported as `stat`. -/
inductive Sound (stat : Status) (log : List Entry) : Prop
  | complete (k : ℕ) (hstat : stat = .success) (hlog : log = session k)
  | cut (k : ℕ) (pre : List Entry) (ev : EventName) (st : Status) (hst : st ≠ .success)
    (hstat : stat = reported ev st) (hlog : log = pre ++ [.call ev st])
    (hpre : pre ++ [.call ev .success] <+: session k)

/-! ### What the handlers log -/

/-- Every call of `e` is logged under the name of `ev`. -/
def Logs (ev : EventName) (e : Event (Logged α)) : Prop :=
  ∀ s stat s', e s = .ok (stat, s') →
    ∃ st, stat = reported ev st ∧ s'.log = s.log ++ [.call ev st]

theorem reported_eq_success {ev : EventName} {st : Status} :
    reported ev st = .success ↔ st = .success := by
  unfold reported
  split
  · by_cases h : st = .success
    · simp [h]
    · simp [h]
  · rfl

theorem logged_log (ev : EventName) (e : Event α) (s : Logged α) (stat : Status) (s' : Logged α)
    (h : logged ev e s = .ok (stat, s')) : s'.log = s.log ++ [.call ev stat] := by
  unfold logged at h
  split at h
  · cases h
  · cases h
    rfl

theorem logged_logs {ev : EventName} (hev : ¬ (ev = .destroyReport ∨ ev = .profileDestroy))
    (e : Event α) : Logs ev (logged ev e) := by
  intro s stat s' h
  exact ⟨stat, by rw [reported, if_neg hev], logged_log ev e s stat s' h⟩

theorem orEgeneral_logs {ev : EventName} (hev : ev = .destroyReport ∨ ev = .profileDestroy)
    (e : Event α) : Logs ev (orEgeneral (logged ev e)) := by
  intro s stat s' h
  unfold orEgeneral at h
  split at h
  · cases h
  · next st s₁ he =>
    cases h
    exact ⟨st, by rw [reported, if_pos hev], logged_log ev e s st s' he⟩

/-- A list of handlers has stopped behind a call that fails. -/
def Stopped (names : List EventName) (base : List Entry) (stat : Status) (log : List Entry) : Prop :=
  ∃ pre ev post st, names = pre ++ ev :: post ∧ st ≠ .success ∧ stat = reported ev st ∧
    log = base ++ done pre ++ [.call ev st]

/-- **Handlers in sequence** are called in their order, up to the first that fails. -/
theorem runEvents_log {names : List EventName} {es : List (Event (Logged α))}
    (h : List.Forall₂ Logs names es) {s s' : Logged α} {stat : Status}
    (hrun : runEvents es s = .ok (stat, s')) :
    (stat = .success ∧ s'.log = s.log ++ done names) ∨
    (stat ≠ .success ∧ Stopped names s.log stat s'.log) := by
  induction h generalizing s with
  | nil =>
    cases hrun
    exact .inl ⟨rfl, by simp [done]⟩
  | @cons ev e names es he _ ih =>
    simp only [runEvents] at hrun
    split at hrun
    · cases hrun
    · next stat₁ s₁ hs₁ =>
      obtain ⟨st, hreported, hlog⟩ := he s stat₁ s₁ hs₁
      split at hrun
      · next hne =>
        cases hrun
        refine .inr ⟨hne, [], ev, names, st, rfl, ?_, hreported, by simp [hlog, done]⟩
        intro hst
        exact hne (hreported.trans (reported_eq_success.mpr hst))
      · next heq =>
        rw [not_not] at heq
        obtain rfl : st = .success := reported_eq_success.mp (hreported.symm.trans heq)
        rcases ih hrun with ⟨hstat, hdone⟩ | ⟨hstat, pre, ev', post, st', hnames, hst', hrep, hcut⟩
        · exact .inl ⟨hstat, by simp [hdone, hlog, done]⟩
        · exact .inr ⟨hstat, ev :: pre, ev', post, st', by rw [hnames]; rfl, hst', hrep, by
            simp [hcut, hlog, done]⟩

variable {ev : ProfileEvents α}

theorem setup_logs (ev : ProfileEvents α) : List.Forall₂ Logs setupNames (withLog ev).setup :=
  .cons (logged_logs (by decide) _) (.cons (logged_logs (by decide) _)
    (.cons (logged_logs (by decide) _) .nil))

theorem transaction_logs (ev : ProfileEvents α) :
    List.Forall₂ Logs transactionNames (withLog ev).transaction := by
  unfold transactionNames ProfileEvents.transaction withLog
  repeat' first | exact .nil | refine .cons (logged_logs (by decide) _) ?_

theorem finish_logs (ev : ProfileEvents α) : List.Forall₂ Logs finishNames (withLog ev).finish :=
  .cons (logged_logs (by decide) _) (.cons (orEgeneral_logs (by decide) _)
    (.cons (orEgeneral_logs (by decide) _) .nil))

/-! ### The log of a run -/

theorem opened_succ (k : ℕ) :
    opened (k + 1) = opened k ++ (done transactionNames ++ [.again true]) := by
  rw [opened, opened, List.replicate_succ', List.flatten_append, List.flatten_singleton,
    List.append_assoc]

/-- Calls that stop within what a session goes on with. -/
theorem Stopped.sound {names : List EventName} {base log : List Entry} {stat : Status} {k : ℕ}
    (h : Stopped names base stat log) (hsession : base ++ done names <+: session k) :
    Sound stat log := by
  obtain ⟨pre, ev, post, st, rfl, hst, hstat, rfl⟩ := h
  refine .cut k (base ++ done pre) ev st hst hstat rfl (List.IsPrefix.trans ?_ hsession)
  have hsplit : base ++ done (pre ++ ev :: post) =
      base ++ done pre ++ [.call ev .success] ++ done post := by
    simp [done]
  rw [hsplit]
  exact List.prefix_append _ _

/-- What the main loop leaves on the log. -/
theorem runProfileLoop_log {s s' : Logged α} {fuel : ℕ} {stat : Status}
    (hs : s.log = opened 0) (h : runProfileLoop (withLog ev) s fuel = some (.ok (stat, s'))) :
    ∃ k, (stat = .success ∧ s'.log = opened k ++ (done transactionNames ++ [.again false])) ∨
      (stat ≠ .success ∧ Stopped transactionNames (opened k) stat s'.log) := by
  refine runLoop_invariant (fun s : Logged α => ∃ k, s.log = opened k)
    (fun out => ∀ stat s', out = .ok (stat, s') → ∃ k,
      (stat = .success ∧ s'.log = opened k ++ (done transactionNames ++ [.again false])) ∨
      (stat ≠ .success ∧ Stopped transactionNames (opened k) stat s'.log)) ?_ ?_
    ⟨0, hs⟩ h stat s' rfl
  · -- a round that goes on has logged one transaction and the answer of the loop condition
    rintro s₁ s₂ ⟨k, hk⟩ hround
    rcases runProfileRound_cases (withLog ev) s₁ with
      ⟨a, hr⟩ | ⟨stat, s₃, -, -, hr⟩ | ⟨s₃, s₄, -, -, hr⟩ | ⟨s₃, s₄, ht, hl, hr⟩
    all_goals rw [hr] at hround; cases hround
    rcases runEvents_log (transaction_logs ev) ht with ⟨-, hlog⟩ | ⟨hne, -⟩
    · refine ⟨k + 1, ?_⟩
      have hanswer : s₂.log = s₃.log ++ [.again true] := by
        have hcond : loggedCondition ev.loopCondition s₃ = .ok (true, s₂) := hl
        unfold loggedCondition at hcond
        split at hcond
        · cases hcond
        · cases hcond
          rfl
      rw [hanswer, hlog, hk, opened_succ, List.append_assoc]
    · exact absurd rfl hne
  · rintro s₁ out ⟨k, hk⟩ hround stat s₂ rfl
    rcases runProfileRound_cases (withLog ev) s₁ with
      ⟨a, hr⟩ | ⟨stat, s₃, hstat, ht, hr⟩ | ⟨s₃, s₄, ht, hl, hr⟩ | ⟨s₃, s₄, -, -, hr⟩
    all_goals rw [hr] at hround; cases hround
    · rcases runEvents_log (transaction_logs ev) ht with ⟨hsuccess, -⟩ | ⟨hne, hstopped⟩
      · exact absurd hsuccess hstat
      · exact ⟨k, .inr ⟨hne, hk ▸ hstopped⟩⟩
    · rcases runEvents_log (transaction_logs ev) ht with ⟨-, hlog⟩ | ⟨hne, -⟩
      · have hanswer : s₂.log = s₃.log ++ [.again false] := by
          have hcond : loggedCondition ev.loopCondition s₃ = .ok (false, s₂) := hl
          unfold loggedCondition at hcond
          split at hcond
          · cases hcond
          · cases hcond
            rfl
        exact ⟨k, .inl ⟨rfl, by rw [hanswer, hlog, hk, List.append_assoc]⟩⟩
      · exact absurd rfl hne

/-- The log of a run that returns. -/
theorem runProfile_sound {s s' : Logged α} {fuel : ℕ} {stat : Status} (hs : s.log = [])
    (h : runProfile (withLog ev) s fuel = some (.ok (stat, s'))) : Sound stat s'.log := by
  rcases runProfile_cases h with ⟨hne, hsetup⟩ | ⟨s₁, hsetup, hbehind⟩
  · rcases runEvents_log (setup_logs ev) hsetup with ⟨hsuccess, -⟩ | ⟨-, hstopped⟩
    · exact absurd hsuccess hne
    · rw [hs] at hstopped
      refine hstopped.sound (k := 0) ?_
      simp only [session, opened, List.replicate_zero, List.flatten_nil, List.append_nil,
        List.nil_append]
      exact List.prefix_append _ _
  · have hopened : s₁.log = opened 0 := by
      rcases runEvents_log (setup_logs ev) hsetup with ⟨-, hlog⟩ | ⟨hne, -⟩
      · rw [hlog, hs, opened, List.replicate_zero, List.flatten_nil, List.append_nil,
          List.nil_append]
      · exact absurd rfl hne
    rcases hbehind with ⟨hne, hloop⟩ | ⟨s₂, hloop, hfinish⟩
    · obtain ⟨k, hk⟩ := runProfileLoop_log hopened hloop
      rcases hk with ⟨hsuccess, -⟩ | ⟨-, hstopped⟩
      · exact absurd hsuccess hne
      · refine hstopped.sound (k := k) ?_
        rw [session, ← List.append_assoc]
        exact List.prefix_append _ _
    · obtain ⟨k, hk⟩ := runProfileLoop_log hopened hloop
      rcases hk with ⟨-, hk⟩ | ⟨hne, -⟩
      · rcases runEvents_log (finish_logs ev) hfinish with ⟨hsuccess, hend⟩ | ⟨-, hstopped⟩
        · refine .complete k hsuccess ?_
          rw [hend, hk, session]
          simp only [List.append_assoc]
        · refine hstopped.sound (k := k) ?_
          rw [hk, session]
          simp only [List.append_assoc]
          exact List.prefix_rfl
      · exact absurd rfl hne

/-- A run is a run with a log. -/
theorem withLog_run {s s' : α} {fuel : ℕ} {stat : Status}
    (h : runProfile ev s fuel = some (.ok (stat, s'))) :
    ∃ log, runProfile (withLog ev) ⟨s, []⟩ fuel = some (.ok (stat, ⟨s', log⟩)) := by
  have hsame := runProfile_projects (withLog_projects ev) ⟨s, []⟩ fuel
  rw [h] at hsame
  obtain ⟨out, hout, hseen⟩ := Option.map_eq_some_iff.mp hsame
  cases out with
  | error a => cases hseen
  | ok p =>
    cases hseen
    exact ⟨p.2.log, hout⟩

/-- **The log of every run** is a complete session, or one that is cut off behind the first call that
fails, whose status the run reports. -/
theorem runProfile_log {s s' : α} {fuel : ℕ} {stat : Status}
    (h : runProfile ev s fuel = some (.ok (stat, s'))) :
    ∃ log, runProfile (withLog ev) ⟨s, []⟩ fuel = some (.ok (stat, ⟨s', log⟩)) ∧
      Sound stat log := by
  obtain ⟨log, hlog⟩ := withLog_run h
  exact ⟨log, hlog, runProfile_sound rfl hlog⟩

/-- Handlers that succeed, of a profile without a loop. -/
def quietHandlers : ProfileEvents Unit :=
  let quiet : Event Unit := fun s => .ok (.success, s)
  { profileInit := quiet, reportInit := quiet, socketInit := quiet, getNextUrl := quiet
    beginConn := quiet, createReq := quiet, sendReq := quiet, recvResp := quiet
    postprocess := quiet, verifyResp := quiet, endConn := quiet, processStats := quiet
    requestDestroy := quiet, responseDestroy := quiet, socketDestroy := quiet
    loopCondition := fun s => .ok (false, s)
    reportStats := quiet, destroyReport := quiet, profileDestroy := quiet }

theorem quiet_run : runProfile quietHandlers () 1 = some (.ok (.success, ())) := rfl

theorem runProfile_log_quiet :
    ∃ log, runProfile (withLog quietHandlers) ⟨(), []⟩ 1 = some (.ok (.success, ⟨(), log⟩)) ∧
      Sound .success log :=
  runProfile_log quiet_run

/-! ### Events in turn -/

/-- The names of the calls of a session. -/
def sessionNames (k : ℕ) : List EventName :=
  setupNames ++ ((List.replicate k (transactionNames ++ [.loopCondition])).flatten ++
    ((transactionNames ++ [.loopCondition]) ++ finishNames))

theorem done_event (names : List EventName) : (done names).map Entry.event = names := by
  simp [done, Function.comp_def, Entry.event]

theorem session_event (k : ℕ) : (session k).map Entry.event = sessionNames k := by
  simp [session, opened, sessionNames, done_event, Entry.event, List.map_flatten]

/-- Two events of a transaction, in its order, are called in turn, and the loop condition is called
where they have been called equally often. -/
theorem sessionNames_alternate {a b : EventName} (hab : [a, b].Sublist transactionNames) (k : ℕ) :
    Alternates a b .loopCondition (sessionNames k) := by
  have hothers : ∀ x ∈ transactionNames, x ∉ setupNames ∧ x ∉ finishNames ∧
      x ∉ [EventName.loopCondition] := by decide
  obtain ⟨hasetup, hafinish, haloop⟩ := hothers a (hab.subset List.mem_cons_self)
  obtain ⟨hbsetup, hbfinish, hbloop⟩ := hothers b (hab.subset (by simp))
  obtain ⟨honce, hclosed⟩ :=
    alternates_of_nodup (c := EventName.loopCondition) (by decide) hab (by decide)
  have hround : Alternates a b .loopCondition (transactionNames ++ [.loopCondition]) :=
    honce.append hclosed (alternates_of_absent haloop hbloop)
  have hroundClosed : (transactionNames ++ [EventName.loopCondition]).count a =
      (transactionNames ++ [EventName.loopCondition]).count b := by
    rw [List.count_append, List.count_append, hclosed, List.count_eq_zero.mpr haloop,
      List.count_eq_zero.mpr hbloop]
  obtain ⟨hrounds, hroundsClosed⟩ := hround.repeat hroundClosed k
  refine (alternates_of_absent hasetup hbsetup).append ?_ ?_
  · rw [List.count_eq_zero.mpr hasetup, List.count_eq_zero.mpr hbsetup]
  · exact hrounds.append hroundsClosed
      (hround.append hroundClosed (alternates_of_absent hafinish hbfinish))

/-- **Two events of a transaction are called in turn**: at every moment of every run the first of them
has been called as often as the second or once more, and as often where the loop condition is
called. -/
theorem calls_alternate {a b : EventName} (hab : [a, b].Sublist transactionNames) {s s' : α}
    {fuel : ℕ} {stat : Status} (h : runProfile ev s fuel = some (.ok (stat, s'))) :
    ∃ log, runProfile (withLog ev) ⟨s, []⟩ fuel = some (.ok (stat, ⟨s', log⟩)) ∧
      Alternates a b .loopCondition (log.map Entry.event) := by
  obtain ⟨log, hrun⟩ := withLog_run h
  refine ⟨log, hrun, ?_⟩
  cases runProfile_sound rfl hrun with
  | complete k hstat hlog =>
    have hlog' : log = session k := hlog
    rw [hlog', session_event]
    exact sessionNames_alternate hab k
  | cut k pre name st hst hstat hlog hpre =>
    have hlog' : log = pre ++ [.call name st] := hlog
    -- the call that fails has the name that the session has there
    have hnames : log.map Entry.event = (pre ++ [Entry.call name .success]).map Entry.event := by
      rw [hlog']
      simp [Entry.event]
    rw [hnames]
    refine (sessionNames_alternate hab k).part ?_
    rw [← session_event]
    exact hpre.map _

theorem calls_alternate_quiet :
    ∃ log, runProfile (withLog quietHandlers) ⟨(), []⟩ 1 = some (.ok (.success, ⟨(), log⟩)) ∧
      Alternates .beginConn .endConn .loopCondition (log.map Entry.event) :=
  calls_alternate (by decide) quiet_run

end Flood.EventLog
