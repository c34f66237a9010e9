import Flood.Loop
import Flood.Net

/-!
# The main loop of a profile

`run_profile` calls the event handlers of a profile in a fixed order and goes round while the
profile's loop condition holds.  A handler here is a function on everything the run owns (profile,
report, socket, current request and response, the network), and it may also end the process.  The
first handler that does not succeed ends the run with its status.

* `runEvents_preserves` — what every handler of a list preserves, the list preserves.
* `Ensures`, `ensures_cons` — what a handler leaves when it succeeds and when it fails, and the
  rule for handlers in sequence.
* `runProfileRound_cases` — what one round of the loop can do.
* `runProfileLoop_ensures` — an invariant that a transaction and the loop condition keep holds
  before every round, and what a failing transaction leaves holds where the loop ends.
* `runProfile_cases` — where a run can end.
* `Outline`, `passes_outline` — with an assertion between any two handlers, what all of them imply
  holds in every state the run passes through.
-/

namespace Flood.Profile

open Flood.CString Flood.Loop Flood.Net

/-- A handler, over the state `α` of the run. -/
abbrev Event (α : Type) := α → Except Abort (Status × α)

/-- `profile_events_t`. -/
structure ProfileEvents (α : Type) where
  profileInit : Event α
  reportInit : Event α
  socketInit : Event α
  getNextUrl : Event α
  beginConn : Event α
  createReq : Event α
  sendReq : Event α
  recvResp : Event α
  postprocess : Event α
  verifyResp : Event α
  endConn : Event α
  processStats : Event α
  requestDestroy : Event α
  responseDestroy : Event α
  socketDestroy : Event α
  loopCondition : α → Except Abort (Bool × α)
  reportStats : Event α
  destroyReport : Event α
  profileDestroy : Event α

variable {α : Type}

/-- Handlers in sequence, up to the first that does not return `APR_SUCCESS`. -/
def runEvents : List (Event α) → Event α
  | [], s => .ok (.success, s)
  | e :: es, s =>
    match e s with
    | .error a => .error a
    | .ok (stat, s) => if stat ≠ .success then .ok (stat, s) else runEvents es s

/-- The handlers called before the loop. -/
def ProfileEvents.setup (ev : ProfileEvents α) : List (Event α) :=
  [ev.profileInit, ev.reportInit, ev.socketInit]

/-- The handlers called for one request, in the order of the loop body. -/
def ProfileEvents.transaction (ev : ProfileEvents α) : List (Event α) :=
  [ev.getNextUrl, ev.beginConn, ev.createReq, ev.sendReq, ev.recvResp, ev.postprocess,
    ev.verifyResp, ev.endConn, ev.processStats, ev.requestDestroy, ev.responseDestroy,
    ev.socketDestroy]

/-- One round of the `do ... while (events->loop_condition(profile))`. -/
def runProfileRound (ev : ProfileEvents α) (s : α) : (Except Abort (Status × α)) ⊕ α :=
  match runEvents ev.transaction s with
  | .error a => .inl (.error a)
  | .ok (stat, s) =>
    if stat ≠ .success then .inl (.ok (stat, s))
    else
      match ev.loopCondition s with
      | .error a => .inl (.error a)
      | .ok (true, s) => .inr s
      | .ok (false, s) => .inl (.ok (.success, s))

/-- The loop of `run_profile`. -/
def runProfileLoop (ev : ProfileEvents α) (s : α) (fuel : ℕ) : Option (Except Abort (Status × α)) :=
  runLoop (runProfileRound ev) fuel s

/-- A handler whose failure `run_profile` reports as `APR_EGENERAL`. -/
def orEgeneral (e : Event α) : Event α := fun s =>
  match e s with
  | .error a => .error a
  | .ok (stat, s) => .ok (if stat ≠ .success then .egeneral else .success, s)

/-- The handlers called after the loop. -/
def ProfileEvents.finish (ev : ProfileEvents α) : List (Event α) :=
  [ev.reportStats, orEgeneral ev.destroyReport, orEgeneral ev.profileDestroy]

/-- `run_profile`, from the point where its handlers are known. -/
def runProfile (ev : ProfileEvents α) (s : α) (fuel : ℕ) : Option (Except Abort (Status × α)) :=
  match runEvents ev.setup s with
  | .error a => some (.error a)
  | .ok (stat, s) =>
    if stat ≠ .success then some (.ok (stat, s))
    else
      (runProfileLoop ev s fuel).bind fun
        | .error a => some (.error a)
        | .ok (stat, s) =>
          if stat ≠ .success then some (.ok (stat, s)) else some (runEvents ev.finish s)

/-! ### Rules for handlers and rounds -/

/-- A property that every handler of the list keeps is kept by the list, however it ends. -/
theorem runEvents_preserves {P : α → Prop} {es : List (Event α)}
    (h : ∀ e ∈ es, ∀ s stat s', P s → e s = .ok (stat, s') → P s') {s s' : α} {stat : Status}
    (hs : P s) (hrun : runEvents es s = .ok (stat, s')) : P s' := by
  induction es generalizing s with
  | nil =>
    simp only [runEvents, Except.ok.injEq, Prod.mk.injEq] at hrun
    exact hrun.2 ▸ hs
  | cons e es ih =>
    simp only [runEvents] at hrun
    split at hrun
    · cases hrun
    · next stat₁ s₁ he =>
      have hs₁ := h e (by simp) s stat₁ s₁ hs he
      split at hrun
      · simp only [Except.ok.injEq, Prod.mk.injEq] at hrun
        exact hrun.2 ▸ hs₁
      · exact ih (fun e' he' => h e' (List.mem_cons_of_mem _ he')) hs₁ hrun

/-- The first handler of a list succeeded if the list did, and the rest ran on what it left. -/
theorem runEvents_cons_success {e : Event α} {es : List (Event α)} {s s' : α}
    (h : runEvents (e :: es) s = .ok (.success, s')) :
    ∃ s₁, e s = .ok (.success, s₁) ∧ runEvents es s₁ = .ok (.success, s') := by
  simp only [runEvents] at h
  split at h
  · cases h
  · next stat s₁ he =>
    split at h
    · next hne =>
      simp only [Except.ok.injEq, Prod.mk.injEq] at h
      exact absurd h.1 hne
    · next heq =>
      rw [not_not] at heq
      exact ⟨s₁, heq ▸ he, h⟩

/-- From `P` a handler that succeeds leaves `Q`, and one that fails leaves `R`. -/
def Ensures (P : α → Prop) (e : Event α) (Q R : α → Prop) : Prop :=
  ∀ s stat s', P s → e s = .ok (stat, s') → if stat = .success then Q s' else R s'

theorem ensures_nil {P R : α → Prop} : Ensures P (runEvents []) P R := by
  intro s stat s' hs he
  simp only [runEvents, Except.ok.injEq, Prod.mk.injEq] at he
  obtain ⟨rfl, rfl⟩ := he
  rwa [if_pos rfl]

/-- The rule for handlers in sequence. -/
theorem ensures_cons {P Q S R : α → Prop} {e : Event α} {es : List (Event α)}
    (he : Ensures P e Q R) (hes : Ensures Q (runEvents es) S R) :
    Ensures P (runEvents (e :: es)) S R := by
  intro s stat s' hs hrun
  simp only [runEvents] at hrun
  split at hrun
  · cases hrun
  · next stat₁ s₁ hs₁ =>
    have h₁ := he s stat₁ s₁ hs hs₁
    split at hrun
    · next hne =>
      simp only [Except.ok.injEq, Prod.mk.injEq] at hrun
      obtain ⟨rfl, rfl⟩ := hrun
      rwa [if_neg hne] at h₁ ⊢
    · next heq =>
      rw [not_not] at heq
      rw [if_pos heq] at h₁
      exact hes s₁ stat s' h₁ hrun

/-- A proof outline: an assertion before and behind every handler of a list, each of which implies
`R`, which is also what a failing handler leaves. -/
inductive Outline (R : α → Prop) : (α → Prop) → List (Event α) → (α → Prop) → Prop
  | nil {P : α → Prop} (hP : ∀ s, P s → R s) : Outline R P [] P
  | cons {P Q S : α → Prop} {e : Event α} {es : List (Event α)} (hP : ∀ s, P s → R s)
    (he : Ensures P e Q R) (hes : Outline R Q es S) : Outline R P (e :: es) S

theorem Outline.ensures {P R S : α → Prop} {es : List (Event α)} (h : Outline R P es S) :
    Ensures P (runEvents es) S R := by
  induction h with
  | nil _ => exact ensures_nil
  | cons _ he _ ih => exact ensures_cons he ih

/-- Wherever a list of handlers is interrupted, it leaves `R`. -/
theorem Outline.interrupted {P R S : α → Prop} {es pre : List (Event α)} (h : Outline R P es S)
    (hpre : pre <+: es) {s s' : α} {stat : Status} (hs : P s)
    (hrun : runEvents pre s = .ok (stat, s')) : R s' := by
  induction h generalizing pre s with
  | nil hP =>
    rw [List.prefix_nil.mp hpre] at hrun
    cases hrun
    exact hP _ hs
  | @cons P Q S e es hP he _ ih =>
    cases pre with
    | nil =>
      cases hrun
      exact hP _ hs
    | cons e' pre =>
      obtain ⟨rfl, htail⟩ := List.cons_prefix_cons.mp hpre
      simp only [runEvents] at hrun
      split at hrun
      · cases hrun
      · next stat₁ s₁ hs₁ =>
        have h₁ := he s stat₁ s₁ hs hs₁
        split at hrun
        · next hne =>
          cases hrun
          rwa [if_neg hne] at h₁
        · next heq =>
          rw [not_not] at heq
          rw [if_pos heq] at h₁
          exact ih htail h₁ hrun

/-- **What one round can do**: the process ends, a handler fails, the loop condition ends the loop
after a complete transaction, or it goes on after one. -/
theorem runProfileRound_cases (ev : ProfileEvents α) (s : α) :
    (∃ a, runProfileRound ev s = .inl (.error a)) ∨
    (∃ stat s', stat ≠ .success ∧ runEvents ev.transaction s = .ok (stat, s') ∧
      runProfileRound ev s = .inl (.ok (stat, s'))) ∨
    (∃ s₁ s', runEvents ev.transaction s = .ok (.success, s₁) ∧
      ev.loopCondition s₁ = .ok (false, s') ∧
      runProfileRound ev s = .inl (.ok (.success, s'))) ∨
    ∃ s₁ s', runEvents ev.transaction s = .ok (.success, s₁) ∧
      ev.loopCondition s₁ = .ok (true, s') ∧ runProfileRound ev s = .inr s' := by
  cases ht : runEvents ev.transaction s with
  | error a => exact .inl ⟨a, by simp [runProfileRound, ht]⟩
  | ok p =>
    obtain ⟨stat, s₁⟩ := p
    by_cases hstat : stat = .success
    · subst hstat
      cases hl : ev.loopCondition s₁ with
      | error a => exact .inl ⟨a, by simp [runProfileRound, ht, hl]⟩
      | ok q =>
        obtain ⟨again, s'⟩ := q
        cases again with
        | false => exact .inr (.inr (.inl ⟨s₁, s', rfl, hl, by simp [runProfileRound, ht, hl]⟩))
        | true => exact .inr (.inr (.inr ⟨s₁, s', rfl, hl, by simp [runProfileRound, ht, hl]⟩))
    · exact .inr (.inl ⟨stat, s₁, hstat, rfl, by simp [runProfileRound, ht, hstat]⟩)

/-- In the run from `s₀` the handlers `pre`, the first of a transaction, leave the state `s`. -/
def Behind (ev : ProfileEvents α) (pre : List (Event α)) (s₀ : α) (stat : Status) (s : α) : Prop :=
  ∃ s₁, Steps (runProfileRound ev) s₀ s₁ ∧ runEvents pre s₁ = .ok (stat, s)

/-- In the run from `s₀` some handler of a transaction leaves the state `s`. -/
def Passes (ev : ProfileEvents α) (s₀ s : α) : Prop :=
  ∃ pre stat, pre <+: ev.transaction ∧ Behind ev pre s₀ stat s

/-- **The rule for the states between rounds**, with an assumption `C` on those states. -/
theorem steps_ensures {ev : ProfileEvents α} {P C R : α → Prop}
    (htrans : Ensures (fun s => P s ∧ C s) (runEvents ev.transaction) P R)
    (hloop : ∀ s again s', P s → ev.loopCondition s = .ok (again, s') → P s') {s : α} (hs : P s)
    (hC : ∀ s', Steps (runProfileRound ev) s s' → C s') :
    ∀ s', Steps (runProfileRound ev) s s' → P s' := by
  intro s' hsteps
  induction hsteps with
  | refl => exact hs
  | @tail s₁ s₂ hsteps hstep ih =>
    rcases runProfileRound_cases ev s₁ with
      ⟨a, hr⟩ | ⟨stat, s₃, -, -, hr⟩ | ⟨s₃, s₄, -, -, hr⟩ | ⟨s₃, s₄, ht, hl, hr⟩
    all_goals rw [hr] at hstep; cases hstep
    exact hloop s₃ true s₂ (by simpa using htrans s₁ .success s₃ ⟨ih, hC s₁ hsteps⟩ ht) hl

/-- **The outline rule of the main loop**: every state that the run passes through satisfies `R`. -/
theorem passes_outline {ev : ProfileEvents α} {P C R : α → Prop}
    (htrans : Outline R (fun s => P s ∧ C s) ev.transaction P)
    (hloop : ∀ s again s', P s → ev.loopCondition s = .ok (again, s') → P s') {s : α} (hs : P s)
    (hC : ∀ s', Steps (runProfileRound ev) s s' → C s') :
    ∀ s', Passes ev s s' → R s' := by
  rintro s' ⟨pre, stat, hpre, s₁, hsteps, hrun⟩
  exact htrans.interrupted hpre
    ⟨steps_ensures htrans.ensures hloop hs hC s₁ hsteps, hC s₁ hsteps⟩ hrun

/-- What every handler of a transaction and the loop condition keep, holds wherever the run stands. -/
theorem behind_preserves {ev : ProfileEvents α} {P : α → Prop}
    (hevent : ∀ e ∈ ev.transaction, ∀ s stat s', P s → e s = .ok (stat, s') → P s')
    (hloop : ∀ s again s', P s → ev.loopCondition s = .ok (again, s') → P s') {s₀ : α}
    (hs : P s₀) {pre : List (Event α)} (hpre : pre <+: ev.transaction) {stat : Status} {s : α}
    (h : Behind ev pre s₀ stat s) : P s := by
  obtain ⟨s₁, hsteps, hrun⟩ := h
  have htrans : Ensures (fun s => P s ∧ True) (runEvents ev.transaction) P fun _ => True := by
    intro s stat s' hs he
    split
    · exact runEvents_preserves hevent hs.1 he
    · trivial
  have hs₁ : P s₁ := steps_ensures htrans hloop hs (fun _ _ => trivial) s₁ hsteps
  exact runEvents_preserves (fun e he => hevent e (hpre.subset he)) hs₁ hrun

/-- **The invariant rule of the main loop.** -/
theorem runProfileLoop_ensures {ev : ProfileEvents α} {P R : α → Prop}
    (htrans : Ensures P (runEvents ev.transaction) P R)
    (hloop : ∀ s again s', P s → ev.loopCondition s = .ok (again, s') → P s') {s : α} (hs : P s) :
    (∀ s', Steps (runProfileRound ev) s s' → P s') ∧
    ∀ fuel stat s', runProfileLoop ev s fuel = some (.ok (stat, s')) →
      if stat = .success then P s' else R s' := by
  have hround : ∀ s s', P s → runProfileRound ev s = .inr s' → P s' := fun s s' hs h =>
    steps_ensures (C := fun _ => True) (fun s stat s' hs => htrans s stat s' hs.1) hloop hs
      (fun _ _ => trivial) s' (Steps.single h)
  have hleave : ∀ s r, P s → runProfileRound ev s = .inl r →
      ∀ stat s', r = .ok (stat, s') → if stat = .success then P s' else R s' := by
    rintro s r hs h stat s' rfl
    rcases runProfileRound_cases ev s with
      ⟨a, hr⟩ | ⟨stat, s₁, hstat, ht, hr⟩ | ⟨s₁, s₂, ht, hl, hr⟩ | ⟨s₁, s₂, -, -, hr⟩
    all_goals rw [hr] at h; cases h
    · exact htrans s stat s' hs ht
    · rw [if_pos rfl]
      exact hloop s₁ false s' (by simpa using htrans s .success s₁ hs ht) hl
  constructor
  · intro s' hsteps
    induction hsteps with
    | refl => exact hs
    | tail _ hstep ih => exact hround _ _ ih hstep
  · intro fuel stat s' hrun
    exact runLoop_invariant P
      (fun r => ∀ stat s', r = .ok (stat, s') → if stat = .success then P s' else R s')
      hround hleave hs hrun stat s' rfl

/-- **What a run can do**: it fails before the loop, it fails in the loop, or it comes to the handlers
behind the loop. -/
theorem runProfile_cases {ev : ProfileEvents α} {s s' : α} {fuel : ℕ} {stat : Status}
    (h : runProfile ev s fuel = some (.ok (stat, s'))) :
    (stat ≠ .success ∧ runEvents ev.setup s = .ok (stat, s')) ∨
    ∃ s₁, runEvents ev.setup s = .ok (.success, s₁) ∧
      ((stat ≠ .success ∧ runProfileLoop ev s₁ fuel = some (.ok (stat, s'))) ∨
        ∃ s₂, runProfileLoop ev s₁ fuel = some (.ok (.success, s₂)) ∧
          runEvents ev.finish s₂ = .ok (stat, s')) := by
  unfold runProfile at h
  split at h
  · cases h
  · next stat₁ s₁ hsetup =>
    split at h
    · next hne =>
      cases h
      exact .inl ⟨hne, hsetup⟩
    · next heq =>
      rw [not_not] at heq
      subst heq
      refine .inr ⟨s₁, hsetup, ?_⟩
      obtain ⟨out, hloop, hout⟩ := Option.bind_eq_some_iff.mp h
      split at hout
      · cases hout
      · next stat₂ s₂ =>
        split at hout
        · next hne =>
          cases hout
          exact .inl ⟨hne, hloop⟩
        · next heq =>
          rw [not_not] at heq
          subst heq
          rw [Option.some.injEq] at hout
          exact .inr ⟨s₂, hloop, hout⟩

/-- What every handler and the loop condition keep, a run keeps. -/
theorem runProfile_preserves {ev : ProfileEvents α} {P : α → Prop}
    (hsetup : ∀ e ∈ ev.setup, ∀ s stat s', P s → e s = .ok (stat, s') → P s')
    (htrans : ∀ e ∈ ev.transaction, ∀ s stat s', P s → e s = .ok (stat, s') → P s')
    (hloop : ∀ s again s', P s → ev.loopCondition s = .ok (again, s') → P s')
    (hfinish : ∀ e ∈ ev.finish, ∀ s stat s', P s → e s = .ok (stat, s') → P s') {s s' : α}
    {fuel : ℕ} {stat : Status} (hs : P s) (h : runProfile ev s fuel = some (.ok (stat, s'))) :
    P s' := by
  have htransaction : Ensures P (runEvents ev.transaction) P P := by
    intro s stat s' hs hrun
    have hs' := runEvents_preserves htrans hs hrun
    split
    · exact hs'
    · exact hs'
  have hbehind : ∀ s stat s', P s → runProfileLoop ev s fuel = some (.ok (stat, s')) → P s' := by
    intro s stat s' hs hrun
    have hs' := (runProfileLoop_ensures htransaction hloop hs).2 fuel stat s' hrun
    split at hs'
    · exact hs'
    · exact hs'
  rcases runProfile_cases h with ⟨-, hrun⟩ | ⟨s₁, hrun, ⟨-, hrun'⟩ | ⟨s₂, hrun', hend⟩⟩
  · exact runEvents_preserves hsetup hs hrun
  · exact hbehind s₁ stat s' (runEvents_preserves hsetup hs hrun) hrun'
  · exact runEvents_preserves hfinish
      (hbehind s₁ _ s₂ (runEvents_preserves hsetup hs hrun) hrun') hend

/-- A handler keeps what its caller's view of its status does not touch. -/
theorem orEgeneral_preserves {P : α → Prop} {e : Event α}
    (he : ∀ s stat s', P s → e s = .ok (stat, s') → P s') (s : α) (stat : Status) (s' : α)
    (hs : P s) (h : orEgeneral e s = .ok (stat, s')) : P s' := by
  unfold orEgeneral at h
  split at h
  · cases h
  · next stat₁ s₁ hrun =>
    cases h
    exact he s stat₁ s' hs hrun

end Flood.Profile
