import Flood.Farmer
import Flood.ProfileInit
import Flood.RoundRobinRun
import Flood.SlotCount

/-!
# The load of a farmer

A farmer runs the profiles that its element names, one behind the other, round after round.  Here each
profile is a round-robin profile: a run of it reads the configuration and makes the requests of its
urllist.  The log of a farmer has the requests that it made, each with the profile and the slot it came
from, and the times at which it looked at the clock.

* `countLoop_load`, `timeLoop_load` — what the two loops leave behind, for any kind of profile.
* `robin_emits` — a run of a round-robin profile makes the requests that the configuration asks for, or
  fails and has made the first of them.
* `countedFarmer_load` — a farmer with a count always comes to an end, and makes as many rounds of these
  requests as its count says.
* `timedFarmer_load` — a farmer with a time makes whole rounds of them, each begun before its time is
  over, and stops at the first look at the clock behind it.
-/

namespace Flood.FarmerLoad

open Flood.CString Flood.Loop Flood.Net Flood.Template Flood.Config Flood.Profile
open Flood.RoundRobin Flood.ProfileInit Flood.RoundRobinRun Flood.Farmer Flood.UrlElement
open Flood.SlotCount (noFiles)

/-! ### What the loops of a farmer leave behind -/

section Loops

variable {σ ε : Type} {env : FarmerEnv σ} {emit : σ → List ε}

/-- From `s` to `s'` all of `whole` is added, or a first part of it where the status is not
`APR_SUCCESS`. -/
def Adds (emit : σ → List ε) (whole : List ε) (s : σ) (stat : Status) (s' : σ) : Prop :=
  ∃ part, emit s' = emit s ++ part ∧ part <+: whole ∧ (stat = .success → part = whole)

/-- What a farmer does is observed by `emit`: a run of a profile adds its piece, a look at the clock
the time, and nothing else adds anything. -/
structure Emits (env : FarmerEnv σ) (emit : σ → List ε) (piece : Bytes → List ε) (tick : ℤ → ε) :
    Prop where
  pool : ∀ s, emit (env.poolCreate s).2 = emit s
  clock : ∀ s, emit (env.timeNow s).2 = emit s ++ [tick (env.timeNow s).1]
  profile : ∀ name s stat s', env.runProfile name s = some (.ok (stat, s')) →
    Adds emit (piece name) s stat s'

variable {piece : Bytes → List ε} {tick : ℤ → ε}

/-- One step adds all of its piece, and the rest what it adds. -/
theorem Adds.append {whole rest : List ε} {s s₁ s' : σ} {stat : Status}
    (h : Adds emit whole s .success s₁) (hrest : Adds emit rest s₁ stat s') :
    Adds emit (whole ++ rest) s stat s' := by
  obtain ⟨part, hpart, -, hall⟩ := h
  rw [hall rfl] at hpart
  obtain ⟨more, hmore, hprefix, hmoreAll⟩ := hrest
  refine ⟨whole ++ more, ?_, ?_, fun hstat => ?_⟩
  · rw [hmore, hpart, List.append_assoc]
  · exact (List.prefix_append_right_inj whole).mpr hprefix
  · rw [hmoreAll hstat]

/-- One step fails. -/
theorem Adds.failed {whole : List ε} (rest : List ε) {s s' : σ} {stat : Status}
    (hstat : stat ≠ .success) (h : Adds emit whole s stat s') :
    Adds emit (whole ++ rest) s stat s' := by
  obtain ⟨part, hpart, hprefix, -⟩ := h
  exact ⟨part, hpart, hprefix.trans (List.prefix_append _ _), fun h => absurd h hstat⟩

theorem runProfiles_adds (he : Emits env emit piece tick) {names : List Bytes} {s s' : σ}
    {stat : Status} (h : runProfiles env names s = some (.ok (stat, s'))) :
    Adds emit (names.flatMap piece) s stat s' := by
  induction names generalizing s with
  | nil =>
    cases h
    exact ⟨[], (List.append_nil _).symm, List.nil_prefix, fun _ => rfl⟩
  | cons name names ih =>
    rw [List.flatMap_cons]
    unfold runProfiles at h
    split at h
    · cases h
    · cases h
    · next stat₁ s₁ hrun =>
      have hadds := he.profile name s stat₁ s₁ hrun
      split at h
      · next hstat =>
        cases h
        exact hadds.failed _ hstat
      · next hstat =>
        rw [not_not] at hstat
        subst hstat
        exact hadds.append (ih h)

/-- **A round** adds the pieces of the profiles. -/
theorem farmerRound_adds (he : Emits env emit piece tick) {names : List Bytes} {s s' : σ}
    {stat : Status} (h : farmerRound env names s = some (.ok (stat, s'))) :
    Adds emit (names.flatMap piece) s stat s' := by
  have hpool := he.pool s
  unfold farmerRound at h
  split at h
  next stat₁ s₁ hcreate =>
  rw [hcreate] at hpool
  split at h
  · next hstat =>
    cases h
    exact ⟨[], by rw [hpool, List.append_nil], List.nil_prefix, fun h => absurd h hstat⟩
  · obtain ⟨part, hpart, hprefix, hall⟩ := runProfiles_adds he h
    exact ⟨part, by rw [hpart, hpool], hprefix, hall⟩

/-- What `n` rounds and, where the farmer failed, the begin of the next make. -/
def CountedLoad (round : List ε) (count : ℕ) (stat : Status) (n : ℕ) (made : List ε) : Prop :=
  if stat = .success then n = count ∧ made = (List.replicate n round).flatten
  else n < count ∧ ∃ part, part <+: round ∧ made = (List.replicate n round).flatten ++ part

theorem CountedLoad.succ {round made : List ε} {count n : ℕ} {stat : Status}
    (h : CountedLoad round count stat n made) :
    CountedLoad round (count + 1) stat (n + 1) (round ++ made) := by
  unfold CountedLoad at h ⊢
  split at h
  · next hstat =>
    rw [if_pos hstat, h.2, h.1, List.replicate_succ, List.flatten_cons]
    exact ⟨rfl, rfl⟩
  · next hstat =>
    obtain ⟨hlt, part, hprefix, hmade⟩ := h
    rw [if_neg hstat, hmade, List.replicate_succ, List.flatten_cons]
    exact ⟨Nat.succ_lt_succ hlt, part, hprefix, (List.append_assoc _ _ _).symm⟩

/-- **The counted loop**: `done` rounds, and the begin of another one where it failed. -/
theorem countLoop_load (he : Emits env emit piece tick) {names : List Bytes} {left rounds n : ℕ}
    {s s' : σ} {stat : Status} (h : countLoop env names left rounds s = some (.ok (stat, n, s'))) :
    ∃ done made, n = rounds + done ∧ emit s' = emit s ++ made ∧
      CountedLoad (names.flatMap piece) left stat done made := by
  induction left generalizing rounds s with
  | zero =>
    cases h
    exact ⟨0, [], rfl, (List.append_nil _).symm, rfl, rfl⟩
  | succ left ih =>
    unfold countLoop at h
    split at h
    · cases h
    · cases h
    · next stat₁ s₁ hround =>
      obtain ⟨part, hpart, hprefix, hall⟩ := farmerRound_adds he hround
      split at h
      · next hstat =>
        cases h
        refine ⟨0, part, rfl, hpart, ?_⟩
        unfold CountedLoad
        rw [if_neg hstat]
        exact ⟨Nat.succ_pos left, part, hprefix, rfl⟩
      · next hstat =>
        rw [not_not] at hstat
        obtain ⟨done, made, hn, hmade, hload⟩ := ih h
        refine ⟨done + 1, names.flatMap piece ++ made, by omega, ?_, hload.succ⟩
        rw [hmade, hpart, hall hstat, List.append_assoc]

/-- The rounds of a timed loop: each is made behind a look at the clock. -/
def timedRounds (tick : ℤ → ε) (round : List ε) (times : List ℤ) : List ε :=
  times.flatMap fun time => tick time :: round

/-- What a timed loop makes that stops at `stop`: every round is begun before, and the loop ends with
the first look at the clock behind it, or fails in a round. -/
def TimedRounds (tick : ℤ → ε) (round : List ε) (stop : ℤ) (stat : Status) (n : ℕ)
    (made : List ε) : Prop :=
  ∃ times last, times.length = n ∧ (∀ time ∈ times, time < stop) ∧
    if stat = .success then stop ≤ last ∧ made = timedRounds tick round times ++ [tick last]
    else last < stop ∧ ∃ part, part <+: round ∧
      made = timedRounds tick round times ++ tick last :: part

/-- What a farmer with a time makes: a look at the clock, from which the time counts, and rounds. -/
def TimedLoad (tick : ℤ → ε) (round : List ε) (stopTime : ℤ) (stat : Status) (n : ℕ)
    (made : List ε) : Prop :=
  ∃ start rest, made = tick start :: rest ∧
    TimedRounds tick round (wrapInt 64 (stopTime + start)) stat n rest

/-- **One round of the timed loop.** -/
theorem timeRound_cases (he : Emits env emit piece tick) (names : List Bytes) (stop : ℤ) (n : ℕ)
    (s : σ) :
    (∃ stat m s' made, timeRound env names stop (n, s) = .inl (some (.ok (stat, m, s'))) ∧ m = n ∧
        emit s' = emit s ++ made ∧ TimedRounds tick (names.flatMap piece) stop stat 0 made) ∨
    (∃ time s', timeRound env names stop (n, s) = .inr (n + 1, s') ∧ time < stop ∧
        emit s' = emit s ++ tick time :: names.flatMap piece) ∨
    timeRound env names stop (n, s) = .inl none ∨
    ∃ a, timeRound env names stop (n, s) = .inl (some (.error a)) := by
  have hclock := he.clock s
  obtain ⟨⟨time, s₁⟩, hnow⟩ : ∃ now, env.timeNow s = now := ⟨_, rfl⟩
  rw [hnow] at hclock
  simp only [timeRound, hnow]
  dsimp only at hclock
  by_cases hover : stop ≤ time ∨ time ≥ stop
  · rw [if_pos hover]
    refine .inl ⟨_, _, _, [tick time], rfl, rfl, hclock, [], time, rfl,
      fun _ h => absurd h List.not_mem_nil, ?_⟩
    rw [if_pos rfl]
    exact ⟨by omega, rfl⟩
  · rw [if_neg hover]
    have htime : time < stop := by omega
    cases hround : farmerRound env names s₁ with
    | none => exact .inr (.inr (.inl rfl))
    | some out =>
      cases out with
      | error a => exact .inr (.inr (.inr ⟨a, rfl⟩))
      | ok result =>
        obtain ⟨stat, s₂⟩ := result
        obtain ⟨part, hpart, hprefix, hall⟩ := farmerRound_adds he hround
        dsimp only
        by_cases hstat : stat = .success
        · rw [if_neg (not_not.mpr hstat)]
          refine .inr (.inl ⟨time, s₂, rfl, htime, ?_⟩)
          rw [hpart, hclock, hall hstat, List.append_assoc, List.singleton_append]
        · rw [if_pos hstat]
          refine .inl ⟨stat, n, s₂, tick time :: part, rfl, rfl, ?_, [], time, rfl,
            fun _ h => absurd h List.not_mem_nil, ?_⟩
          · rw [hpart, hclock, List.append_assoc, List.singleton_append]
          · rw [if_neg hstat]
            exact ⟨htime, part, hprefix, rfl⟩

theorem TimedRounds.succ {round made : List ε} {stop time : ℤ} {stat : Status} {n : ℕ}
    (htime : time < stop) (h : TimedRounds tick round stop stat n made) :
    TimedRounds tick round stop stat (n + 1) (tick time :: round ++ made) := by
  obtain ⟨times, last, hlen, hbefore, hmade⟩ := h
  have hcons : ∀ behind, tick time :: round ++ (timedRounds tick round times ++ behind) =
      timedRounds tick round (time :: times) ++ behind := fun behind => by
    rw [timedRounds, timedRounds, List.flatMap_cons, List.append_assoc]
  refine ⟨time :: times, last, by rw [List.length_cons, hlen],
    List.forall_mem_cons.mpr ⟨htime, hbefore⟩, ?_⟩
  split at hmade
  · next hstat =>
    rw [if_pos hstat, hmade.2, hcons]
    exact ⟨hmade.1, rfl⟩
  · next hstat =>
    obtain ⟨hlast, part, hprefix, hmade⟩ := hmade
    rw [if_neg hstat, hmade, hcons]
    exact ⟨hlast, part, hprefix, rfl⟩

theorem timeRounds_load (he : Emits env emit piece tick) {names : List Bytes} {stop : ℤ}
    {fuel rounds n : ℕ} {s s' : σ} {stat : Status}
    (h : runLoop (timeRound env names stop) fuel (rounds, s) = some (some (.ok (stat, n, s')))) :
    ∃ done made, n = rounds + done ∧ emit s' = emit s ++ made ∧
      TimedRounds tick (names.flatMap piece) stop stat done made := by
  induction fuel generalizing rounds s with
  | zero => cases h
  | succ fuel ih =>
    rcases timeRound_cases he names stop rounds s with
      ⟨stat₁, m, s₁, made, hround, rfl, hmade, hload⟩ | ⟨time, s₁, hround, htime, hmade⟩ |
      hround | ⟨a, hround⟩
    · rw [runLoop_inl hround] at h
      cases h
      exact ⟨0, made, rfl, hmade, hload⟩
    · rw [runLoop_inr hround] at h
      obtain ⟨done, more, hn, hmore, hload⟩ := ih h
      refine ⟨done + 1, _, by omega, ?_, hload.succ htime⟩
      rw [hmore, hmade, List.append_assoc]
    · rw [runLoop_inl hround] at h
      cases h
    · rw [runLoop_inl hround] at h
      cases h

/-- **The timed loop.** -/
theorem timeLoop_load (he : Emits env emit piece tick) {names : List Bytes} {stopTime : ℤ}
    {fuel n : ℕ} {s s' : σ} {stat : Status}
    (h : timeLoop env names stopTime fuel s = some (.ok (stat, n, s'))) :
    ∃ made, emit s' = emit s ++ made ∧
      TimedLoad tick (names.flatMap piece) stopTime stat n made := by
  have hclock := he.clock s
  unfold timeLoop at h
  split at h
  next time s₁ hnow =>
  rw [hnow] at hclock
  obtain ⟨done, made, hn, hmade, hload⟩ := timeRounds_load he (Option.join_eq_some_iff.mp h)
  rw [Nat.zero_add] at hn
  subst hn
  refine ⟨tick time :: made, ?_, time, made, rfl, hload⟩
  rw [hmade, hclock, List.append_assoc, List.singleton_append]

/-- The farmer that has been through its loop, however it ended. -/
theorem runFarmer_looped {rootElem : XmlElem} {farmerName : Bytes} {fuel : ℕ} {s : σ}
    {stat : Status} {run : FarmerRun σ}
    (h : runFarmer env rootElem farmerName fuel s = some (.ok (stat, some run))) :
    ∃ farmerElem names,
      retrieveXmlElemWithChildmatch rootElem XML_FARMER XML_FARMER_NAME farmerName =
        .ok farmerElem ∧
      farmerCount farmerElem = (.success, run.count) ∧
      farmerTime farmerElem = (.success, run.stopTime) ∧
      useprofileNames farmerElem.firstChild = .ok names ∧
      (if run.stopTime = -1 then countLoop env names run.count.toNat 0 s
        else timeLoop env names run.stopTime fuel s) =
          some (.ok (stat, run.rounds, run.world)) := by
  unfold runFarmer at h
  split at h
  · cases h
  · cases h
  · next farmerElem hfound =>
    split at h
    next countStat count hcount =>
    split at h
    · cases h
    · next hcountStat =>
      rw [not_not] at hcountStat
      subst hcountStat
      split at h
      next timeStat stopTime htime =>
      split at h
      · cases h
      · next htimeStat =>
        rw [not_not] at htimeStat
        subst htimeStat
        dsimp only at h
        split at h
        · cases h
        · split at h
          · cases h
          · split at h
            · cases h
            · next names hnames =>
              split at h
              · cases h
              · obtain ⟨result, hloop, hresult⟩ := Option.map_eq_some_iff.mp h
                split at hresult
                · cases hresult
                · cases hresult
                  exact ⟨_, names, hfound, hcount, htime, hnames, hloop⟩

end Loops

/-! ### Counted farmers come to an end -/

section Ends

variable {σ : Type} {envs : ℕ → FarmerEnv σ} {pool : σ → Status × σ}

theorem runProfiles_halts
    (hprofile : ∀ name s, ∃ out, Halts (fun fuel => (envs fuel).runProfile name s) out)
    (names : List Bytes) (s : σ) :
    ∃ out, Halts (fun fuel => runProfiles (envs fuel) names s) out := by
  induction names generalizing s with
  | nil => exact ⟨_, halts_const _⟩
  | cons name names ih =>
    obtain ⟨out, N, hN⟩ := hprofile name s
    cases out with
    | error a =>
      refine ⟨.error a, N, fun fuel hfuel => ?_⟩
      have hrun : (envs fuel).runProfile name s = _ := hN fuel hfuel
      simp only [runProfiles, hrun]
    | ok result =>
      obtain ⟨stat, s₁⟩ := result
      by_cases hstat : stat = .success
      · obtain ⟨out, M, hM⟩ := ih s₁
        refine ⟨out, max N M, fun fuel hfuel => ?_⟩
        have hrun : (envs fuel).runProfile name s = _ := hN fuel (le_trans (le_max_left _ _) hfuel)
        simp only [runProfiles, hrun]
        exact (if_neg (not_not.mpr hstat)).trans (hM fuel (le_trans (le_max_right _ _) hfuel))
      · refine ⟨.ok (stat, s₁), N, fun fuel hfuel => ?_⟩
        have hrun : (envs fuel).runProfile name s = _ := hN fuel hfuel
        simp only [runProfiles, hrun]
        exact if_pos hstat

/-- Where every profile comes to an end, every counted loop does. -/
theorem countLoop_halts (hpool : ∀ fuel, (envs fuel).poolCreate = pool)
    (hprofile : ∀ name s, ∃ out, Halts (fun fuel => (envs fuel).runProfile name s) out)
    (names : List Bytes) (left rounds : ℕ) (s : σ) :
    ∃ out, Halts (fun fuel => countLoop (envs fuel) names left rounds s) out := by
  have hround : ∀ s, ∃ out, Halts (fun fuel => farmerRound (envs fuel) names s) out := by
    intro s
    obtain ⟨out, hout⟩ := runProfiles_halts hprofile names (pool s).2
    by_cases hcreate : (pool s).1 = .success
    · refine ⟨out, hout.congr fun fuel => ?_⟩
      simp only [farmerRound, hpool]
      exact if_neg (not_not.mpr hcreate)
    · refine ⟨.ok (pool s), (halts_const _).congr fun fuel => ?_⟩
      simp only [farmerRound, hpool]
      exact if_pos hcreate
  induction left generalizing rounds s with
  | zero => exact ⟨_, halts_const _⟩
  | succ left ih =>
    obtain ⟨out, N, hN⟩ := hround s
    cases out with
    | error a =>
      refine ⟨.error a, N, fun fuel hfuel => ?_⟩
      have hrun : farmerRound (envs fuel) names s = _ := hN fuel hfuel
      simp only [countLoop, hrun]
    | ok result =>
      obtain ⟨stat, s₁⟩ := result
      by_cases hstat : stat = .success
      · obtain ⟨out, M, hM⟩ := ih (rounds + 1) s₁
        refine ⟨out, max N M, fun fuel hfuel => ?_⟩
        have hrun : farmerRound (envs fuel) names s = _ := hN fuel (le_trans (le_max_left _ _) hfuel)
        simp only [countLoop, hrun]
        exact (if_neg (not_not.mpr hstat)).trans (hM fuel (le_trans (le_max_right _ _) hfuel))
      · refine ⟨.ok (stat, rounds, s₁), N, fun fuel hfuel => ?_⟩
        have hrun : farmerRound (envs fuel) names s = _ := hN fuel hfuel
        simp only [countLoop, hrun]
        exact if_pos hstat

/-- **A farmer without a time comes to an end.** -/
theorem runFarmer_halts (envs : ℕ → FarmerEnv σ) (hpool : ∀ fuel, (envs fuel).poolCreate = pool)
    (hprofile : ∀ name s, ∃ out, Halts (fun fuel => (envs fuel).runProfile name s) out)
    (rootElem : XmlElem) (farmerName : Bytes)
    (htime : ∀ farmerElem,
      retrieveXmlElemWithChildmatch rootElem XML_FARMER XML_FARMER_NAME farmerName =
        .ok farmerElem → (farmerTime farmerElem).2 = -1) (s : σ) :
    ∃ out, Halts (fun fuel => runFarmer (envs fuel) rootElem farmerName fuel s) out := by
  unfold runFarmer
  cases hfound : retrieveXmlElemWithChildmatch rootElem XML_FARMER XML_FARMER_NAME farmerName with
  | error a => exact ⟨_, halts_const _⟩
  | ok farmerElem =>
    cases farmerElem with
    | null => exact ⟨_, halts_const _⟩
    | elem name cdata attr firstChild next =>
      obtain ⟨⟨countStat, count⟩, hcount⟩ :
        ∃ r, farmerCount (.elem name cdata attr firstChild next) = r := ⟨_, rfl⟩
      obtain ⟨⟨timeStat, stopTime⟩, hstop⟩ :
        ∃ r, farmerTime (.elem name cdata attr firstChild next) = r := ⟨_, rfl⟩
      have hnone : stopTime = -1 := by simpa only [hstop] using htime _ hfound
      subst hnone
      simp only [hcount, hstop]
      split
      · exact ⟨_, halts_const _⟩
      · split
        · exact ⟨_, halts_const _⟩
        · split
          · exact ⟨_, halts_const _⟩
          · split
            · exact ⟨_, halts_const _⟩
            · split
              · exact ⟨_, halts_const _⟩
              · next names hnames =>
                split
                · exact ⟨_, halts_const _⟩
                · obtain ⟨out, hout⟩ := countLoop_halts hpool hprofile names count.toNat 0 s
                  exact ⟨_, (hout.congr fun fuel => if_pos trivial).map _⟩

end Ends

/-! ### Runs of round-robin profiles -/

/-- What a farmer does: it looks at the clock, or makes a request of a profile, from a slot. -/
inductive Work where
  | looked (time : ℤ)
  | requested (profile : Bytes) (slot : ℤ)
  deriving DecidableEq

/-- The slot of an entry of the trace that is a request. -/
def requestOf : Trace → Option ℤ
  | .request slot _ => some slot
  | .postdelay _ _ => none

/-- The slots of the requests of a trace. -/
def requests (trace : List Trace) : List ℤ := trace.filterMap requestOf

/-- What the farmer and its profiles run in: what the farmer has done so far, the draws, the memory of
the attribute values of the document, and whatever else there is. -/
structure World (β : Type) where
  log : List Work
  draws : Draws
  values : Values
  rest : β

/-- The profile before `round_robin_profile_init` has made one, which no handler sees. -/
def noProfile : RoundRobinProfile where
  executeRounds := 0
  urls := 0
  url := []
  baseurl := none
  proxyUrl := none
  cookie := []
  state _ := none
  substList := none
  currentRound := 0
  currentUrl := 0

variable {β : Type}

/-- `round_robin_profile_init` as a handler; behind a success without a profile the next handler would
read a pointer that was never set. -/
def robinInit (env : Env) (files : Files) (rootElem : XmlElem) (name : Bytes) :
    Event (RobinRun (Values × β)) := fun s =>
  match roundRobinProfileInit env.uriParse files name rootElem s.rest.1 s.draws with
  | (.error a, _) => .error a
  | (.ok (stat, some rp), st) =>
    .ok (stat, { s with rp := rp, draws := st.draws, rest := (st.values, s.rest.2) })
  | (.ok (stat, none), st) =>
    if stat = .success then .error .unset
    else .ok (stat, { s with draws := st.draws, rest := (st.values, s.rest.2) })

/-- The handlers of a round-robin run, with those that `OtherEvents` leaves to others. -/
def robinProfile (env : Env) (files : Files) (rootElem : XmlElem) (o : OtherEvents (Values × β))
    (name : Bytes) : ProfileEvents (RobinRun (Values × β)) :=
  { robinEvents env o with profileInit := robinInit env files rootElem name }

/-- Where a run starts. -/
def RobinRun.start (w : World β) : RobinRun (Values × β) :=
  ⟨noProfile, w.draws, (w.values, w.rest), none, []⟩

/-- `run_profile` with a round-robin profile, as a farmer sees it. -/
def runRobin (env : Env) (files : Files) (rootElem : XmlElem) (o : OtherEvents (Values × β))
    (fuel : ℕ) (name : Bytes) (w : World β) : Option (Except Abort (Status × World β)) :=
  (runProfile (robinProfile env files rootElem o name) (RobinRun.start w) fuel).map fun
    | .error a => .error a
    | .ok (stat, s) => .ok (stat,
        ⟨w.log ++ (requests s.trace).map (.requested name), s.draws, s.rest.1, s.rest.2⟩)

/-- A farmer of round-robin profiles, with what creates a pool and what the clock says. -/
def robinFarmer (env : Env) (files : Files) (rootElem : XmlElem) (o : OtherEvents (Values × β))
    (pool : β → Status × β) (clock : β → ℤ × β) (fuel : ℕ) : FarmerEnv (World β) where
  poolCreate w := ((pool w.rest).1, { w with rest := (pool w.rest).2 })
  runProfile := runRobin env files rootElem o fuel
  timeNow w := ((clock w.rest).1,
    { w with log := w.log ++ [.looked (clock w.rest).1], rest := (clock w.rest).2 })

/-- The slots of the first `k` requests to `n` slots. -/
def firstSlots (n k : ℕ) : List ℤ := (List.range k).map fun i => ((i % n : ℕ) : ℤ)

/-- The requests that the configuration asks for in one run of a profile. -/
def plan (rootElem : XmlElem) (name : Bytes) : List Work :=
  match findUrllist name rootElem with
  | .ok (.success, rounds, urllistElem) =>
    (firstSlots (urlCount urllistElem).toNat
      (requestCount (urlCount urllistElem).toNat rounds)).map (.requested name)
  | _ => []

/-! ### The requests of one run -/

theorem firstSlots_succ (n k : ℕ) : firstSlots n (k + 1) = firstSlots n k ++ [((k % n : ℕ) : ℤ)] := by
  rw [firstSlots, List.range_succ, List.map_append]
  rfl

theorem firstSlots_part (n : ℕ) {k count : ℕ} (h : k ≤ count) :
    firstSlots n k <+: firstSlots n count := by
  obtain ⟨more, rfl⟩ := Nat.exists_eq_add_of_le h
  rw [firstSlots, firstSlots, List.range_add, List.map_append]
  exact List.prefix_append _ _

theorem requests_append (trace more : List Trace) :
    requests (trace ++ more) = requests trace ++ requests more := List.filterMap_append

/-- The slot of an entry, where it is that of a request. -/
def slotOf : Bool × ℤ → Option ℤ
  | (false, slot) => some slot
  | (true, _) => none

theorem requests_entries (trace : List Trace) :
    requests trace = (trace.map Trace.entry).filterMap slotOf := by
  rw [requests, List.filterMap_map]
  refine List.filterMap_congr fun t _ => ?_
  cases t with
  | request slot r => rfl
  | postdelay slot slept => rfl

theorem slots_before (n i : ℕ) : (entriesBefore n i).filterMap slotOf = firstSlots n i := by
  induction i with
  | zero => rfl
  | succ i ih =>
    rw [entriesBefore_succ, List.filterMap_append, ih, firstSlots_succ]
    rfl

theorem requests_before {env : Env} {s₀ s : RobinRun β} {n i : ℕ} (h : Before env s₀ n i s) :
    requests s.trace = firstSlots n i := by
  rw [requests_entries, h.entries, slots_before]

theorem requests_complete {env : Env} {s₀ s : RobinRun β} {n : ℕ} (hn : 0 < n)
    (h : RoundRobinRun.Complete env s₀ n s) :
    requests s.trace = firstSlots n (requestCount n s₀.rp.executeRounds) := by
  have hpos : 0 < requestCount n s₀.rp.executeRounds := by
    unfold requestCount
    split
    · exact Nat.zero_lt_one
    · exact Nat.mul_pos hn (by omega)
  obtain ⟨k, hk⟩ := Nat.exists_eq_add_of_lt hpos
  rw [requests_entries, h.entries, hk, Nat.zero_add, expectedEntries_succ, List.filterMap_append,
    slots_before, firstSlots_succ]
  rfl

/-- The first handler of a list failed and ended it, or succeeded, and the rest ran. -/
theorem runEvents_cons_cases {α : Type} {e : Event α} {es : List (Event α)} {s s' : α}
    {stat : Status} (h : runEvents (e :: es) s = .ok (stat, s')) :
    (stat ≠ .success ∧ e s = .ok (stat, s')) ∨
    ∃ s₁, e s = .ok (.success, s₁) ∧ runEvents es s₁ = .ok (stat, s') := by
  rw [runEvents] at h
  split at h
  · cases h
  · next stat₁ s₁ he =>
    split at h
    · next hne =>
      cases h
      exact .inl ⟨hne, he⟩
    · next heq =>
      rw [not_not] at heq
      exact .inr ⟨s₁, heq ▸ he, h⟩

/-- `round_robin_get_next_url` always succeeds. -/
theorem getNextUrl_status {env : Env} {s s' : RobinRun β} {stat : Status}
    (h : getNextUrl env s = .ok (stat, s')) : stat = .success := by
  unfold getNextUrl at h
  split at h
  · cases h
  · cases h
    rfl

/-- A transaction that does not abort has recorded its request, whether or not it succeeds. -/
theorem transaction_trace {env : Env} {o : OtherEvents β} {s s' : RobinRun β} {stat : Status}
    (h : runEvents (robinEvents env o).transaction s = .ok (stat, s')) :
    ∃ r, s'.trace = s.trace ++ [.request s.rp.currentUrl r] := by
  rcases runEvents_cons_cases h with ⟨hstat, hget⟩ | ⟨s₁, hget, hrest⟩
  · exact absurd (getNextUrl_status hget) hstat
  · obtain ⟨r, -, hcore⟩ := getNextUrl_core hget
    refine ⟨r, (runEvents_preserves (P := SameCore _) ?_ hcore hrest).trace⟩
    intro e he
    simp only [robinEvents, List.mem_cons, List.not_mem_nil, or_false] at he
    rcases he with rfl | rfl | rfl | rfl | rfl | rfl | rfl | rfl | rfl | rfl | rfl
    all_goals first | exact ofHandler_core _ | exact postprocess_core _

/-- What a loop that stands before the request number `i` has requested at its end. -/
theorem robinLoop_requests {env : Env} {o : OtherEvents β} {s₀ s s' : RobinRun β} {n i fuel : ℕ}
    {stat : Status} (hn : 0 < n) (hs : Before env s₀ n i s)
    (h : runProfileLoop (robinEvents env o) s fuel = some (.ok (stat, s'))) :
    ∃ k ≤ requestCount n s₀.rp.executeRounds, requests s'.trace = firstSlots n k ∧
      (stat = .success → k = requestCount n s₀.rp.executeRounds) := by
  refine runLoop_invariant (fun s => ∃ i, Before env s₀ n i s)
    (fun r => ∀ stat s', r = .ok (stat, s') →
      ∃ k ≤ requestCount n s₀.rp.executeRounds, requests s'.trace = firstSlots n k ∧
        (stat = .success → k = requestCount n s₀.rp.executeRounds))
    ?_ ?_ ⟨i, hs⟩ h stat s' rfl
  · rintro s s' ⟨i, hi⟩ hround
    rcases round_before (o := o) hn hi with ⟨out, hout, -⟩ | ⟨s₁, hs₁, hb⟩
    · rw [hout] at hround
      cases hround
    · rw [hs₁] at hround
      cases hround
      exact ⟨i + 1, hb⟩
  · rintro s r ⟨i, hi⟩ hround stat s' rfl
    rcases runProfileRound_cases (robinEvents env o) s with
      ⟨a, hr⟩ | ⟨stat₁, s₁, hstat, ht, hr⟩ | ⟨s₁, s₂, -, -, hr⟩ | ⟨s₁, s₂, -, -, hr⟩
    · rw [hr] at hround
      cases hround
    · rw [hr] at hround
      cases hround
      refine ⟨i + 1, hi.more, ?_, fun h => absurd h hstat⟩
      obtain ⟨r, htrace⟩ := transaction_trace ht
      rw [htrace, requests_append, requests_before hi, firstSlots_succ, hi.slot]
      rfl
    · rcases round_before (o := o) hn hi with ⟨out, hout, hcomplete⟩ | ⟨s₃, hs₃, -⟩
      · rw [hround, Sum.inl.injEq] at hout
        rw [hround] at hr
        cases hr
        exact ⟨_, le_rfl, requests_complete hn (hcomplete s' hout.symm), fun _ => rfl⟩
      · rw [hround] at hs₃
        cases hs₃
    · rw [hr] at hround
      cases hround

/-- **A profile that is handed over** has the slots of its urllist and stands at the first of them. -/
theorem roundRobinProfileInit_start {uriParse : Bytes → Uri} {files : Files} {name : Bytes}
    {rootElem : XmlElem} {values : Values} {draws : Draws} {profile : RoundRobinProfile}
    {stat : Status} {st : ParseState}
    (h : roundRobinProfileInit uriParse files name rootElem values draws =
      (.ok (stat, some profile), st)) :
    ∃ urllistElem, findUrllist name rootElem = .ok (.success, profile.executeRounds, urllistElem) ∧
      0 < urlCount urllistElem ∧ profile.urls = urlCount urllistElem ∧
      profile.currentRound = 0 ∧ profile.currentUrl = 0 := by
  unfold roundRobinProfileInit at h
  split at h
  · cases h
  · next stat₁ rounds urllistElem hfound =>
    split at h
    · cases h
    · next hstat =>
      rw [not_not] at hstat
      subst hstat
      split at h
      · cases h
      · split at h
        · cases h
        · cases hparse : parseUrls files urllistElem (ParseState.start values draws) with
          | mk r st₁ =>
            dsimp only at h
            rw [hparse] at h
            cases r with
            | some out =>
              cases out with
              | error a => cases h
              | ok stat => cases h
            | none =>
              dsimp only at h
              split at h
              · cases h
              · split at h
                · cases h
                · cases h
                  refine ⟨urllistElem, hfound, ?_, rfl, rfl, rfl⟩
                  by_contra hpos
                  unfold parseUrls at hparse
                  rw [if_pos (not_lt.mp hpos)] at hparse
                  cases hparse

variable {env : Env} {files : Files} {rootElem : XmlElem} {o : OtherEvents (Values × β)}

/-- A handler leaves the trace alone. -/
theorem ofHandler_trace {γ : Type} (h : Handler γ) (s : RobinRun γ) (stat : Status)
    (s' : RobinRun γ) (trace : List Trace) (hs : s.trace = trace)
    (he : ofHandler h s = .ok (stat, s')) : s'.trace = trace := by
  have hcore : SameCore s s := ⟨rfl, rfl, rfl, rfl, rfl, rfl, rfl, rfl⟩
  exact (ofHandler_core h s stat s' hcore he).trace.trans hs

theorem robinInit_cases {name : Bytes} {s s' : RobinRun (Values × β)} {stat : Status}
    (h : robinInit env files rootElem name s = .ok (stat, s')) :
    s'.trace = s.trace ∧ (stat = .success → ∃ urllistElem,
      findUrllist name rootElem = .ok (.success, s'.rp.executeRounds, urllistElem) ∧
      0 < urlCount urllistElem ∧ s'.rp.urls = urlCount urllistElem ∧
      s'.rp.currentRound = 0 ∧ s'.rp.currentUrl = 0) := by
  unfold robinInit at h
  split at h
  · cases h
  · next hinit =>
    cases h
    exact ⟨rfl, fun _ => roundRobinProfileInit_start hinit⟩
  · split at h
    · cases h
    · next hstat =>
      cases h
      exact ⟨rfl, fun h => absurd h hstat⟩

/-- **The handlers before the loop** leave no request, and where they succeed the loop stands before
its first. -/
theorem setup_cases {name : Bytes} {w : World β} {s : RobinRun (Values × β)} {stat : Status}
    (h : runEvents (robinProfile env files rootElem o name).setup (RobinRun.start w) =
      .ok (stat, s)) :
    s.trace = [] ∧ (stat = .success → ∃ urllistElem,
      findUrllist name rootElem = .ok (.success, s.rp.executeRounds, urllistElem) ∧
      0 < (urlCount urllistElem).toNat ∧ Before env s (urlCount urllistElem).toNat 0 s) := by
  rcases runEvents_cons_cases h with ⟨hstat, hinit⟩ | ⟨s₁, hinit, hrest⟩
  · exact ⟨(robinInit_cases hinit).1, fun h => absurd h hstat⟩
  · obtain ⟨htrace, hstart⟩ := robinInit_cases hinit
    have hcore : SameCore s₁ s := by
      refine runEvents_preserves (P := SameCore s₁) ?_ ⟨rfl, rfl, rfl, rfl, rfl, rfl, rfl, rfl⟩ hrest
      simp only [robinProfile, robinEvents, List.forall_mem_cons]
      exact ⟨ofHandler_core _, ofHandler_core _, List.forall_mem_nil _⟩
    have hnil : s.trace = [] := hcore.trace.trans htrace
    refine ⟨hnil, fun _ => ?_⟩
    obtain ⟨urllistElem, hfound, hpos, hurls, hround, hslot⟩ := hstart rfl
    have hn : 0 < (urlCount urllistElem).toNat := by omega
    refine ⟨urllistElem, by rw [hcore.rounds, hfound], hn, before_start hn ?_
      (hcore.round.trans hround) (hcore.slot.trans hslot) hnil⟩
    rw [hcore.urls, hurls, Int.toNat_of_nonneg hpos.le]

/-- The handlers behind the loop make no request. -/
theorem finish_trace {name : Bytes} {s s' : RobinRun (Values × β)} {stat : Status}
    (h : runEvents (robinProfile env files rootElem o name).finish s = .ok (stat, s')) :
    s'.trace = s.trace := by
  refine runEvents_preserves (P := fun t => t.trace = s.trace) ?_ rfl h
  have hkeeps : ∀ handler : Handler (Values × β), ∀ t stat t', t.trace = s.trace →
      ofHandler handler t = .ok (stat, t') → t'.trace = s.trace :=
    fun handler t stat t' ht he => ofHandler_trace handler t stat t' s.trace ht he
  simp only [ProfileEvents.finish, robinProfile, robinEvents, List.forall_mem_cons]
  exact ⟨hkeeps _, orEgeneral_preserves (hkeeps _), orEgeneral_preserves (hkeeps _),
    List.forall_mem_nil _⟩

/-- **A run of a round-robin profile** makes the requests of its plan, or fails and has made the first
of them. -/
theorem runRobin_adds {fuel : ℕ} {name : Bytes} {w w' : World β} {stat : Status}
    (h : runRobin env files rootElem o fuel name w = some (.ok (stat, w'))) :
    Adds World.log (plan rootElem name) w stat w' := by
  obtain ⟨out, hrun, hout⟩ := Option.map_eq_some_iff.mp h
  split at hout
  · cases hout
  · next stat₁ s =>
    cases hout
    refine ⟨(requests s.trace).map (.requested name), rfl, ?_⟩
    rcases runProfile_cases hrun with ⟨hstat, hsetup⟩ | ⟨s₁, hsetup, hloop⟩
    · rw [(setup_cases hsetup).1]
      exact ⟨List.nil_prefix, fun h => absurd h hstat⟩
    · obtain ⟨urllistElem, hfound, hn, hbefore⟩ := (setup_cases hsetup).2 rfl
      have hplan : plan rootElem name = (firstSlots (urlCount urllistElem).toNat
          (requestCount (urlCount urllistElem).toNat s₁.rp.executeRounds)).map
            (.requested name) := by
        unfold plan
        rw [hfound]
      rw [hplan]
      rcases hloop with ⟨hstat, hloop⟩ | ⟨s₂, hloop, hend⟩
      · obtain ⟨k, hk, hrequests, -⟩ := robinLoop_requests hn hbefore hloop
        rw [hrequests]
        exact ⟨(firstSlots_part _ hk).map _, fun h => absurd h hstat⟩
      · obtain ⟨k, hk, hrequests, hall⟩ := robinLoop_requests hn hbefore hloop
        rw [finish_trace hend, hrequests, hall rfl]
        exact ⟨List.prefix_rfl, fun _ => rfl⟩

/-- **Every run of a round-robin profile comes to an end.** -/
theorem runRobin_halts (env : Env) (files : Files) (rootElem : XmlElem)
    (o : OtherEvents (Values × β)) (name : Bytes) (w : World β) :
    ∃ out, Halts (fun fuel => runRobin env files rootElem o fuel name w) out := by
  have hrun : ∃ out, Halts (fun fuel =>
      runProfile (robinProfile env files rootElem o name) (RobinRun.start w) fuel) out := by
    unfold runProfile
    cases hsetup : runEvents (robinProfile env files rootElem o name).setup (RobinRun.start w) with
    | error a => exact ⟨_, halts_const _⟩
    | ok result =>
      obtain ⟨stat, s⟩ := result
      dsimp only
      split
      · exact ⟨_, halts_const _⟩
      · next hstat =>
        rw [not_not] at hstat
        subst hstat
        obtain ⟨urllistElem, -, hn, hbefore⟩ := (setup_cases hsetup).2 rfl
        obtain ⟨out, hloop, -⟩ := loop_halts (o := o) hn hbefore
        cases out with
        | error a => exact ⟨_, hloop.bind (halts_const (Except.error a))⟩
        | ok result =>
          obtain ⟨stat, s₁⟩ := result
          by_cases hstat : stat = .success
          · exact ⟨_, hloop.bind ((halts_const (runEvents
              (robinProfile env files rootElem o name).finish s₁)).congr
                fun fuel => if_neg (not_not.mpr hstat))⟩
          · exact ⟨_, hloop.bind ((halts_const (Except.ok (stat, s₁))).congr
              fun fuel => if_pos hstat)⟩
  obtain ⟨out, hout⟩ := hrun
  exact ⟨_, hout.map _⟩

/-- What a farmer of round-robin profiles does is observed in its log. -/
theorem robin_emits (env : Env) (files : Files) (rootElem : XmlElem) (o : OtherEvents (Values × β))
    (pool : β → Status × β) (clock : β → ℤ × β) (fuel : ℕ) :
    Emits (robinFarmer env files rootElem o pool clock fuel) World.log (plan rootElem) .looked where
  pool _ := rfl
  clock _ := rfl
  profile _ _ _ _ := runRobin_adds

/-! ### The load of a farmer -/

/-- What a farmer has read of its element, and the work of one round of it. -/
def Reads (rootElem : XmlElem) (farmerName : Bytes) (count stopTime : ℤ) (round : List Work) :
    Prop :=
  ∃ farmerElem names,
    retrieveXmlElemWithChildmatch rootElem XML_FARMER XML_FARMER_NAME farmerName =
      .ok farmerElem ∧
    farmerCount farmerElem = (.success, count) ∧ farmerTime farmerElem = (.success, stopTime) ∧
    useprofileNames farmerElem.firstChild = .ok names ∧ round = names.flatMap (plan rootElem)

/-- What a farmer makes that has read this count and this time. -/
def Load (round : List Work) (stat : Status) (run : FarmerRun (World β)) (made : List Work) : Prop :=
  if run.stopTime = -1 then CountedLoad round run.count.toNat stat run.rounds made
  else TimedLoad .looked round run.stopTime stat run.rounds made

/-- **The load of a farmer** that has been through its loop. -/
theorem runFarmer_load {env : Env} {files : Files} {rootElem : XmlElem}
    {o : OtherEvents (Values × β)} {pool : β → Status × β} {clock : β → ℤ × β} {farmerName : Bytes}
    {fuel : ℕ} {w : World β} {stat : Status} {run : FarmerRun (World β)}
    (h : runFarmer (robinFarmer env files rootElem o pool clock fuel) rootElem farmerName fuel w =
      some (.ok (stat, some run))) :
    ∃ round made, Reads rootElem farmerName run.count run.stopTime round ∧
      run.world.log = w.log ++ made ∧ Load round stat run made := by
  obtain ⟨farmerElem, names, hfound, hcount, hstop, hnames, hloop⟩ := runFarmer_looped h
  have hemits := robin_emits env files rootElem o pool clock fuel
  have hreads : Reads rootElem farmerName run.count run.stopTime (names.flatMap (plan rootElem)) :=
    ⟨farmerElem, names, hfound, hcount, hstop, hnames, rfl⟩
  by_cases htime : run.stopTime = -1
  · rw [if_pos htime] at hloop
    obtain ⟨done, made, hdone, hmade, hload⟩ := countLoop_load hemits hloop
    rw [Nat.zero_add] at hdone
    rw [← hdone] at hload
    exact ⟨_, made, hreads, hmade, (if_pos htime).mpr hload⟩
  · rw [if_neg htime] at hloop
    obtain ⟨made, hmade, hload⟩ := timeLoop_load hemits hloop
    exact ⟨_, made, hreads, hmade, (if_neg htime).mpr hload⟩

/-- **A farmer with a count** comes to an end, whatever the handlers do.  If it succeeds, it has made as
many rounds of the planned requests as its count says, and if it fails, fewer, and the begin of the
next. -/
theorem countedFarmer_load (env : Env) (files : Files) (rootElem : XmlElem)
    (o : OtherEvents (Values × β)) (pool : β → Status × β) (clock : β → ℤ × β) (farmerName : Bytes)
    (w : World β)
    (htime : ∀ farmerElem,
      retrieveXmlElemWithChildmatch rootElem XML_FARMER XML_FARMER_NAME farmerName =
        .ok farmerElem → (farmerTime farmerElem).2 = -1) :
    (∃ out, Halts (fun fuel => runFarmer (robinFarmer env files rootElem o pool clock fuel) rootElem
        farmerName fuel w) out) ∧
      ∀ fuel stat run, runFarmer (robinFarmer env files rootElem o pool clock fuel) rootElem
          farmerName fuel w = some (.ok (stat, some run)) →
        ∃ round made, Reads rootElem farmerName run.count (-1) round ∧
          run.world.log = w.log ++ made ∧ CountedLoad round run.count.toNat stat run.rounds made := by
  constructor
  · exact runFarmer_halts (robinFarmer env files rootElem o pool clock) (fun _ => rfl)
      (runRobin_halts env files rootElem o) rootElem farmerName htime w
  · intro fuel stat run h
    obtain ⟨round, made, hreads, hmade, hload⟩ := runFarmer_load h
    have hnone : run.stopTime = -1 := by
      obtain ⟨farmerElem, -, hfound, -, hstop, -⟩ := hreads
      rw [← htime farmerElem hfound, hstop]
    rw [Load, if_pos hnone] at hload
    exact ⟨round, made, hnone ▸ hreads, hmade, hload⟩

/-- **A farmer with a time** makes whole rounds of the planned requests, begins none when its time is
over, and ends with the first look at the clock behind it; if it fails, it has made the begin of a
round. -/
theorem timedFarmer_load (env : Env) (files : Files) (rootElem : XmlElem)
    (o : OtherEvents (Values × β)) (pool : β → Status × β) (clock : β → ℤ × β) (farmerName : Bytes)
    (w : World β) (fuel : ℕ) (stat : Status) (run : FarmerRun (World β)) (htime : run.stopTime ≠ -1)
    (h : runFarmer (robinFarmer env files rootElem o pool clock fuel) rootElem farmerName fuel w =
      some (.ok (stat, some run))) :
    ∃ round made, Reads rootElem farmerName run.count run.stopTime round ∧
      run.world.log = w.log ++ made ∧
      TimedLoad .looked round run.stopTime stat run.rounds made := by
  obtain ⟨round, made, hreads, hmade, hload⟩ := runFarmer_load h
  rw [Load, if_neg htime] at hload
  exact ⟨round, made, hreads, hmade, hload⟩

/-! ### A farmer with a count, and one with a time -/

/-- A configuration with a farmer, which has this child, and a profile of two urls. -/
def loadConfig (name text : Bytes) : XmlElem :=
  .elem (bytes "flood") [] []
    (.elem XML_FARMER [] []
      (.elem XML_FARMER_NAME [bytes "f"] [] .null
        (.elem name [text] [] .null
          (.elem XML_FARMER_USEPROFILE [bytes "p"] [] .null .null)))
      (.elem XML_PROFILE [] []
        (.elem (bytes "name") [bytes "p"] [] .null
          (.elem XML_PROFILE_USEURLLIST [bytes "u"] [] .null .null))
        (.elem XML_URLLIST [] []
          (.elem XML_URLLIST_NAME [bytes "u"] [] .null
            (.elem XML_URLLIST_URL [bytes "http://a/x"] [] .null
              (.elem XML_URLLIST_URL [bytes "http://a/y"] [] .null .null)))
          .null)))
    .null

/-- Handlers that do nothing and succeed. -/
def calmEvents : OtherEvents (Values × ℤ) :=
  let calm : Handler (Values × ℤ) := fun _ _ draws rest => .ok (.success, draws, rest)
  { beginConn := calm, createReq := calm, sendReq := calm, recvResp := calm
    postprocess := fun rp _ draws rest => .ok (.success, (rp.cookie, rp.state), draws, rest)
    verifyResp := calm, endConn := calm, processStats := calm, requestDestroy := calm
    responseDestroy := calm, socketDestroy := calm, profileInit := calm, reportInit := calm
    socketInit := calm, reportStats := calm, destroyReport := calm, profileDestroy := calm }

/-- Every look at the clock takes 400 milliseconds. -/
def slowClock (now : ℤ) : ℤ × ℤ := (now, now + 400000)

/-- The farmer of such a configuration. -/
def calmFarmer (name text : Bytes) (fuel : ℕ) : FarmerEnv (World ℤ) :=
  robinFarmer oneHost noFiles (loadConfig name text) calmEvents (fun s => (.success, s)) slowClock
    fuel

def calmWorld : World ℤ := ⟨[], fun _ => 0, fun _ => none, 0⟩

/-- The two requests of a round. -/
def twoRequests : List Work := [.requested (bytes "p") 0, .requested (bytes "p") 1]

/-- The rounds and the log of a farmer that has been through its loop. -/
def outcome : Option (Except Abort (Status × Option (FarmerRun (World ℤ)))) →
    Option (Status × ℤ × ℤ × ℕ × List Work)
  | some (.ok (stat, some run)) =>
    some (stat, run.count, run.stopTime, run.rounds, run.world.log)
  | _ => none

theorem outcome_some {r : Option (Except Abort (Status × Option (FarmerRun (World ℤ))))}
    {stat : Status} {count stopTime : ℤ} {rounds : ℕ} {log : List Work}
    (h : outcome r = some (stat, count, stopTime, rounds, log)) :
    ∃ run, r = some (.ok (stat, some run)) ∧ run.count = count ∧ run.stopTime = stopTime ∧
      run.rounds = rounds ∧ run.world.log = log := by
  unfold outcome at h
  split at h
  · cases h
    exact ⟨_, rfl, rfl, rfl, rfl, rfl⟩
  · cases h

theorem calmFarmer_counted :
    outcome (runFarmer (calmFarmer XML_FARMER_COUNT (bytes "2") 2)
      (loadConfig XML_FARMER_COUNT (bytes "2")) (bytes "f") 2 calmWorld) =
      some (.success, 2, -1, 2, twoRequests ++ twoRequests) := by decide +kernel

theorem calmFarmer_noTime (farmerElem : XmlElem)
    (h : retrieveXmlElemWithChildmatch (loadConfig XML_FARMER_COUNT (bytes "2")) XML_FARMER
      XML_FARMER_NAME (bytes "f") = .ok farmerElem) : (farmerTime farmerElem).2 = -1 := by
  have hfound : (retrieveXmlElemWithChildmatch (loadConfig XML_FARMER_COUNT (bytes "2")) XML_FARMER
      XML_FARMER_NAME (bytes "f")).map (fun e => (farmerTime e).2) = .ok (-1) := by decide +kernel
  rw [h] at hfound
  exact Except.ok.inj hfound

theorem countedFarmer_load_calm : ∃ run : FarmerRun (World ℤ),
    run.world.log = twoRequests ++ twoRequests ∧ ∃ round made,
      Reads (loadConfig XML_FARMER_COUNT (bytes "2")) (bytes "f") 2 (-1) round ∧
      run.world.log = [] ++ made ∧ CountedLoad round 2 .success 2 made := by
  obtain ⟨run, hrun, hcount, -, hrounds, hlog⟩ := outcome_some calmFarmer_counted
  obtain ⟨round, made, hreads, hmade, hcounted⟩ := (countedFarmer_load oneHost noFiles
    (loadConfig XML_FARMER_COUNT (bytes "2")) calmEvents (fun s => (.success, s)) slowClock
    (bytes "f") calmWorld calmFarmer_noTime).2 2 .success run hrun
  rw [hcount] at hreads hcounted
  rw [hrounds] at hcounted
  exact ⟨run, hlog, round, made, hreads, hmade, hcounted⟩

theorem calmFarmer_timed :
    outcome (runFarmer (calmFarmer XML_FARMER_TIME (bytes "1") 3)
      (loadConfig XML_FARMER_TIME (bytes "1")) (bytes "f") 3 calmWorld) =
      some (.success, 1, 1000000, 2, .looked 0 :: .looked 400000 :: twoRequests ++
        .looked 800000 :: twoRequests ++ [.looked 1200000]) := by decide +kernel

theorem timedFarmer_load_calm : ∃ run : FarmerRun (World ℤ),
    run.world.log = .looked 0 :: .looked 400000 :: twoRequests ++
      .looked 800000 :: twoRequests ++ [.looked 1200000] ∧ ∃ round made,
      Reads (loadConfig XML_FARMER_TIME (bytes "1")) (bytes "f") 1 1000000 round ∧
      run.world.log = [] ++ made ∧ TimedLoad .looked round 1000000 .success 2 made := by
  obtain ⟨run, hrun, hcount, hstop, hrounds, hlog⟩ := outcome_some calmFarmer_timed
  obtain ⟨round, made, hreads, hmade, htimed⟩ := timedFarmer_load oneHost noFiles
    (loadConfig XML_FARMER_TIME (bytes "1")) calmEvents (fun s => (.success, s)) slowClock
    (bytes "f") calmWorld 3 .success run (by rw [hstop]; decide) hrun
  rw [hcount, hstop] at hreads
  rw [hstop, hrounds] at htimed
  exact ⟨run, hlog, round, made, hreads, hmade, htimed⟩

end Flood.FarmerLoad
