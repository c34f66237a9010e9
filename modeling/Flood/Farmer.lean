import Flood.Config
import Flood.Loop

/-!
# Running a farmer

`run_farmer` reads the count, the time and the profiles of its farmer element, and runs the profiles
one behind the other: as often as the count says, or until the time is over.  What a run of a profile
does, the memory pools and the clock are parameters.

* `runFarmer_success` — what a farmer that succeeds has read, and the loop it has been through.
* `countLoop_rounds` — a counted loop that succeeds has made as many rounds as the count says.
-/

namespace Flood.Farmer

open Flood.CString Flood.Net Flood.Config Flood.Loop

def XML_FARMER : Bytes := bytes "farmer"
def XML_FARMER_NAME : Bytes := bytes "name"
def XML_FARMER_COUNT : Bytes := bytes "count"
def XML_FARMER_TIME : Bytes := bytes "time"
def XML_FARMER_USEPROFILE : Bytes := bytes "useprofile"
def ERANGE : ℕ := 34

/-! ### The element of a farmer -/

/-- `count`, an `int` that is compared with the limits of a `long`. -/
def farmerCount (farmerElem : XmlElem) : Status × ℤ :=
  match retrieveXmlElemChild farmerElem XML_FARMER_COUNT with
  | .null => (.success, 1)
  | .elem _ [] _ _ _ => (.success, 1)
  | .elem _ (text :: _) _ _ _ =>
    let count := wrapInt 32 (strtol 10 text).1
    if count = LONG_MAX ∨ count = LONG_MIN then (.errno ERANGE, count) else (.success, count)

/-- `stop_time`, -1 where the element has no time. -/
def farmerTime (farmerElem : XmlElem) : Status × ℤ :=
  match retrieveXmlElemChild farmerElem XML_FARMER_TIME with
  | .null => (.success, -1)
  | .elem _ [] _ _ _ => (.success, -1)
  | .elem _ (text :: _) _ _ _ =>
    let (stopTime, endptr) := strtol 10 text
    if endptr ≠ [] ∨ stopTime < 0 then (.egeneral, stopTime)
    else (.success, wrapInt 64 (stopTime * APR_USEC_PER_SEC))

/-- The names of the profiles, from an element and its siblings. -/
def useprofileNames : XmlElem → Except Abort (List Bytes)
  | .null => .ok []
  | .elem name cdata _ _ next =>
    if sameName name XML_FARMER_USEPROFILE then
      match cdata with
      | [] => .error .fault
      | text :: _ =>
        match useprofileNames next with
        | .error a => .error a
        | .ok names => .ok (cstr text :: names)
    else useprofileNames next

/-! ### The loops -/

/-- What a farmer runs in, over a state `σ` of everything outside: the creation of a memory pool, a
run of a profile, which may not come to an end, and the clock. -/
structure FarmerEnv (σ : Type) where
  poolCreate : σ → Status × σ
  runProfile : Bytes → σ → Option (Except Abort (Status × σ))
  timeNow : σ → ℤ × σ

/-- What a farmer has at its end: the count and the time it has read, the rounds it has completed, and
the state of everything outside. -/
structure FarmerRun (σ : Type) where
  count : ℤ
  stopTime : ℤ
  rounds : ℕ
  world : σ
  deriving DecidableEq

variable {σ : Type}

/-- The profiles of one round. -/
def runProfiles (env : FarmerEnv σ) : List Bytes → σ → Option (Except Abort (Status × σ))
  | [], s => some (.ok (.success, s))
  | name :: names, s =>
    match env.runProfile name s with
    | none => none
    | some (.error a) => some (.error a)
    | some (.ok (stat, s)) =>
      if stat ≠ .success then some (.ok (stat, s)) else runProfiles env names s

/-- One round: a pool, and the profiles. -/
def farmerRound (env : FarmerEnv σ) (names : List Bytes) (s : σ) :
    Option (Except Abort (Status × σ)) :=
  match env.poolCreate s with
  | (stat, s) => if stat ≠ .success then some (.ok (stat, s)) else runProfiles env names s

/-- `for (i = 0; i < count; i++)`, with the rounds left and the rounds completed. -/
def countLoop (env : FarmerEnv σ) (names : List Bytes) :
    ℕ → ℕ → σ → Option (Except Abort (Status × ℕ × σ))
  | 0, rounds, s => some (.ok (.success, rounds, s))
  | left + 1, rounds, s =>
    match farmerRound env names s with
    | none => none
    | some (.error a) => some (.error a)
    | some (.ok (stat, s)) =>
      if stat ≠ .success then some (.ok (stat, rounds, s))
      else countLoop env names left (rounds + 1) s

/-- One round of the `while (1)`. -/
def timeRound (env : FarmerEnv σ) (names : List Bytes) (stopTime : ℤ) (t : ℕ × σ) :
    Option (Except Abort (Status × ℕ × σ)) ⊕ (ℕ × σ) :=
  match env.timeNow t.2 with
  | (time, s) =>
    if stopTime ≤ time ∨ time ≥ stopTime then .inl (some (.ok (.success, t.1, s)))
    else
      match farmerRound env names s with
      | none => .inl none
      | some (.error a) => .inl (some (.error a))
      | some (.ok (stat, s)) =>
        if stat ≠ .success then .inl (some (.ok (stat, t.1, s))) else .inr (t.1 + 1, s)

/-- The loop of a farmer that has a time. -/
def timeLoop (env : FarmerEnv σ) (names : List Bytes) (stopTime : ℤ) (fuel : ℕ) (s : σ) :
    Option (Except Abort (Status × ℕ × σ)) :=
  match env.timeNow s with
  | (time, s) => (runLoop (timeRound env names (wrapInt 64 (stopTime + time))) fuel (0, s)).join

/-- `run_farmer`: the status, and what the farmer has at the end of its loop.  The array of names gets
one entry more than `useprofile_count`, a number computed as an `int`, and an entry for every
`useprofile`. -/
def runFarmer (env : FarmerEnv σ) (rootElem : XmlElem) (farmerName : Bytes) (fuel : ℕ) (s : σ) :
    Option (Except Abort (Status × Option (FarmerRun σ))) :=
  match retrieveXmlElemWithChildmatch rootElem XML_FARMER XML_FARMER_NAME farmerName with
  | .error a => some (.error a)
  | .ok .null => some (.ok (.egeneral, none))
  | .ok farmerElem =>
    match farmerCount farmerElem with
    | (countStat, count) =>
      if countStat ≠ .success then some (.ok (countStat, none))
      else
        match farmerTime farmerElem with
        | (timeStat, stopTime) =>
          if timeStat ≠ .success then some (.ok (timeStat, none))
          else
            let useprofileCount := countXmlElemChild farmerElem XML_FARMER_USEPROFILE
            if useprofileCount ≤ 0 then some (.ok (.egeneral, none))
            else if wrapInt 32 (useprofileCount + 1) ≤ 0 then some (.error .fault)
            else
              match useprofileNames farmerElem.firstChild with
              | .error a => some (.error a)
              | .ok names =>
                if (names.length : ℤ) ≠ useprofileCount then some (.error .fault)
                else
                  let loop := if stopTime = -1 then countLoop env names count.toNat 0 s
                    else timeLoop env names stopTime fuel s
                  loop.map fun
                    | .error a => .error a
                    | .ok (stat, rounds, s) => .ok (stat, some ⟨count, stopTime, rounds, s⟩)

/-! ### What the loops do -/

/-- **A counted loop that succeeds** has made all its rounds. -/
theorem countLoop_rounds {env : FarmerEnv σ} {names : List Bytes} {left rounds n : ℕ} {s s' : σ}
    (h : countLoop env names left rounds s = some (.ok (.success, n, s'))) : n = rounds + left := by
  induction left generalizing rounds s with
  | zero =>
    cases h
    rfl
  | succ left ih =>
    unfold countLoop at h
    split at h
    · cases h
    · cases h
    · split at h
      · next hstat =>
        cases h
        exact absurd rfl hstat
      · rw [ih h]
        omega

/-- Where every run of a profile succeeds, and every pool is created, the counted loop comes to its
end. -/
theorem countLoop_ends {env : FarmerEnv σ} (hpool : ∀ s, (env.poolCreate s).1 = .success)
    (hprofile : ∀ name s, ∃ s', env.runProfile name s = some (.ok (.success, s')))
    (names : List Bytes) (left rounds : ℕ) (s : σ) :
    ∃ s', countLoop env names left rounds s = some (.ok (.success, rounds + left, s')) := by
  have hnames : ∀ s, ∃ s', runProfiles env names s = some (.ok (.success, s')) := by
    induction names with
    | nil => exact fun s => ⟨s, rfl⟩
    | cons name names ih =>
      intro s
      obtain ⟨s₁, hs₁⟩ := hprofile name s
      obtain ⟨s₂, hs₂⟩ := ih s₁
      refine ⟨s₂, ?_⟩
      unfold runProfiles
      rw [hs₁]
      exact hs₂
  have hround : ∀ s, ∃ s', farmerRound env names s = some (.ok (.success, s')) := by
    intro s
    obtain ⟨s', hs'⟩ := hnames (env.poolCreate s).2
    refine ⟨s', ?_⟩
    show (if (env.poolCreate s).1 ≠ .success then some (.ok (env.poolCreate s))
      else runProfiles env names (env.poolCreate s).2) = _
    rw [if_neg (not_not.mpr (hpool s)), hs']
  induction left generalizing rounds s with
  | zero => exact ⟨s, rfl⟩
  | succ left ih =>
    obtain ⟨s₁, hs₁⟩ := hround s
    obtain ⟨s₂, hs₂⟩ := ih (rounds + 1) s₁
    refine ⟨s₂, ?_⟩
    unfold countLoop
    rw [hs₁]
    show countLoop env names left (rounds + 1) s₁ = _
    rw [hs₂, Nat.add_assoc, Nat.add_comm 1 left]

/-- **What a farmer that succeeds has done**: it has read a count and a time that it accepts, and has
been through the loop that goes with them. -/
theorem runFarmer_success {env : FarmerEnv σ} {rootElem farmerElem : XmlElem} {farmerName : Bytes}
    {fuel : ℕ} {s : σ} {run : FarmerRun σ}
    (hfound : retrieveXmlElemWithChildmatch rootElem XML_FARMER XML_FARMER_NAME farmerName =
      .ok farmerElem)
    (h : runFarmer env rootElem farmerName fuel s = some (.ok (.success, some run))) :
    farmerCount farmerElem = (.success, run.count) ∧
      farmerTime farmerElem = (.success, run.stopTime) ∧
      ∃ names, useprofileNames farmerElem.firstChild = .ok names ∧
        (if run.stopTime = -1 then countLoop env names run.count.toNat 0 s
          else timeLoop env names run.stopTime fuel s) =
            some (.ok (.success, run.rounds, run.world)) := by
  unfold runFarmer at h
  rw [hfound] at h
  split at h
  · next habort => cases habort
  · cases h
  · next elem helem =>
    cases helem
    split at h
    next countStat count hcount =>
    split at h
    · cases h
    · next hcountStat =>
      rw [not_not] at hcountStat
      subst hcountStat
      split at h
      next timeStat stopTime htime =>
      split at h
      · cases h
      · next htimeStat =>
        rw [not_not] at htimeStat
        subst htimeStat
        dsimp only at h
        split at h
        · cases h
        · split at h
          · cases h
          · split at h
            · cases h
            · next names hnames =>
              split at h
              · cases h
              · obtain ⟨result, hloop, hresult⟩ := Option.map_eq_some_iff.mp h
                split at hresult
                · cases hresult
                · next stat rounds s' =>
                  cases hresult
                  exact ⟨hcount, htime, names, hnames, hloop⟩

end Flood.Farmer
