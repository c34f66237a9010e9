import Flood.Farm

/-!
# The staggered start of a farm

With a start delay the loop of `run_farm` sleeps behind every farmer whose number is a multiple of the
start count.

* `startLoop_scheduled` — the loop starts its farmers in order, each behind the sleeps that are due.
* `staggered_iff` — farmer `i` starts behind `⌊i / startcount⌋` sleeps exactly where there is no delay,
  or the start count is positive, or it is negative and there is one farmer only.
-/

namespace Flood.StaggeredStart

open Flood.CString Flood.Net Flood.Config Flood.Farm

/-! ### The log of a start -/

/-- The sleeps in a log. -/
def sleeps : List FarmEvent → List ℤ
  | [] => []
  | .start _ _ :: log => sleeps log
  | .sleep delay :: log => delay :: sleeps log

/-- The farmers started, each with the sleeps in front of it; `slept` is in front of the log. -/
def startsBehind : List FarmEvent → List ℤ → List (ℤ × List ℤ)
  | [], _ => []
  | .start i _ :: log, slept => (i, slept) :: startsBehind log slept
  | .sleep delay :: log, slept => startsBehind log (slept ++ [delay])

theorem sleeps_append (log more : List FarmEvent) :
    sleeps (log ++ more) = sleeps log ++ sleeps more := by
  induction log with
  | nil => rfl
  | cons event log ih =>
    cases event with
    | start i name => exact ih
    | sleep delay => exact congrArg (delay :: ·) ih

theorem startsBehind_append (log more : List FarmEvent) (slept : List ℤ) :
    startsBehind (log ++ more) slept =
      startsBehind log slept ++ startsBehind more (slept ++ sleeps log) := by
  induction log generalizing slept with
  | nil =>
    show startsBehind more slept = startsBehind more (slept ++ [])
    rw [List.append_nil]
  | cons event log ih =>
    cases event with
    | start i name => exact congrArg ((i, slept) :: ·) (ih slept)
    | sleep delay =>
      show startsBehind (log ++ more) (slept ++ [delay]) = _
      rw [ih, List.append_assoc]
      rfl

/-- **A staggered start** of `farmers` farmers: they start in order, farmer `i` behind `⌊i / count⌋`
sleeps of the delay (a sleep of no time is none), and where every thread can be created all are
started. -/
structure Staggered (create : ℤ → Status) (delay count farmers : ℤ) (stat : Status)
    (log : List FarmEvent) : Prop where
  order : (startsBehind log []).map Prod.fst =
    (List.range (startsBehind log []).length).map fun i : ℕ => (i : ℤ)
  delays : ∀ start ∈ startsBehind log [], ∀ d ∈ start.2, d = delay
  floor : delay ≠ 0 → ∀ start ∈ startsBehind log [],
    (start.2.length : ℤ) = Int.fdiv start.1 count
  all : (∀ i, create i = .success) →
    stat = .success ∧ ((startsBehind log []).length : ℤ) = farmers

/-- The farm starts its farmers without a fault, as its schedule says. -/
def StartsStaggered (farmElem : XmlElem) (schedule : ℤ × ℤ) : Prop :=
  ∀ create, ∃ stat log, runFarm create farmElem = .ok (stat, log) ∧
    Staggered create schedule.1 schedule.2 (usefarmerCount farmElem) stat log

/-- There is no delay, or a start count that goes with the number of farmers. -/
def ScheduleSound (schedule : ℤ × ℤ) (farmers : ℤ) : Prop :=
  schedule.1 = 0 ∨ 0 < schedule.2 ∨ schedule.2 < 0 ∧ farmers = 1

/-! ### The start loop -/

/-- The sleeps that are due in front of a farmer. -/
def due (delay count : ℤ) (i : ℕ) : ℕ := if delay = 0 then 0 else i / count.natAbs

/-- A farmer behind the sleeps that are due. -/
def startDue (delay count : ℤ) (i : ℕ) : ℤ × List ℤ :=
  (i, List.replicate (due delay count i) delay)

/-- The log of a loop that has come to farmer `i`. -/
structure Scheduled (delay count : ℤ) (i : ℕ) (log : List FarmEvent) : Prop where
  starts : startsBehind log [] = (List.range i).map (startDue delay count)
  sleeps : sleeps log = List.replicate (due delay count i) delay

/-- Behind the start of farmer `i`. -/
theorem Scheduled.start {delay count : ℤ} {i : ℕ} {log : List FarmEvent}
    (h : Scheduled delay count i log) (name : Option Bytes) :
    startsBehind (log ++ [.start i name]) [] = (List.range (i + 1)).map (startDue delay count) ∧
      StaggeredStart.sleeps (log ++ [.start i name]) =
        List.replicate (due delay count i) delay := by
  constructor
  · rw [startsBehind_append, h.starts, List.nil_append, h.sleeps, List.range_succ, List.map_append]
    rfl
  · rw [sleeps_append, h.sleeps]
    exact List.append_nil _

theorem due_succ {delay : ℤ} (hdelay : delay ≠ 0) (count : ℤ) (i : ℕ) :
    due delay count (i + 1) = due delay count i + if (i + 1 : ℤ).tmod count = 0 then 1 else 0 := by
  have hdvd : (i + 1 : ℤ).tmod count = 0 ↔ count.natAbs ∣ i + 1 := by
    rw [← Int.dvd_iff_tmod_eq_zero, ← Int.natAbs_dvd_natAbs]
    rfl
  unfold due
  rw [if_neg hdelay, if_neg hdelay, Nat.succ_div]
  simp only [hdvd]

/-- **The start loop** starts its farmers in order, each behind the sleeps that are due. -/
theorem startLoop_scheduled (create : ℤ → Status) {n : Naming}
    (hdiv : n.farmerStartDelay = 0 ∨ n.farmerStartCount ≠ 0) (left i : ℕ) (log : List FarmEvent)
    (h : Scheduled n.farmerStartDelay n.farmerStartCount i log) :
    ∃ stat log' k, startLoop create n left i log = .ok (stat, log') ∧ k ≤ i + left ∧
      startsBehind log' [] =
        (List.range k).map (startDue n.farmerStartDelay n.farmerStartCount) ∧
      ((∀ j, create j = .success) → stat = .success ∧ k = i + left) := by
  induction left generalizing i log with
  | zero => exact ⟨.success, log, i, rfl, Nat.le_refl _, h.starts, fun _ => ⟨rfl, rfl⟩⟩
  | succ left ih =>
    obtain ⟨hstarts, hsleeps⟩ := h.start (nameAt n.writes i)
    -- what follows is the loop from the next farmer on
    have hnext : ∀ log₁, Scheduled n.farmerStartDelay n.farmerStartCount (i + 1) log₁ →
        ∃ stat log' k, startLoop create n left ((i : ℤ) + 1) log₁ = .ok (stat, log') ∧
          k ≤ i + (left + 1) ∧
          startsBehind log' [] =
            (List.range k).map (startDue n.farmerStartDelay n.farmerStartCount) ∧
          ((∀ j, create j = .success) → stat = .success ∧ k = i + (left + 1)) := by
      intro log₁ hlog₁
      obtain ⟨stat, log', k, hrun, hk, hlog', hall⟩ := ih (i + 1) log₁ hlog₁
      refine ⟨stat, log', k, hrun, by omega, hlog', fun hcreate => ?_⟩
      obtain ⟨hstat, hk⟩ := hall hcreate
      exact ⟨hstat, by omega⟩
    unfold startLoop
    dsimp only
    split
    · next hfail =>
      exact ⟨create i, _, i + 1, rfl, by omega, hstarts, fun hcreate => absurd (hcreate i) hfail⟩
    · split
      · next hdelay =>
        refine hnext _ ⟨hstarts, ?_⟩
        rw [hsleeps, due, due, if_pos hdelay, if_pos hdelay]
      · next hdelay =>
        rw [if_neg (hdiv.resolve_left hdelay)]
        have hdue := due_succ hdelay n.farmerStartCount i
        split
        · next hmod =>
          rw [if_pos hmod] at hdue
          refine hnext _ ⟨?_, ?_⟩
          · rw [startsBehind_append, hstarts]
            exact List.append_nil _
          · rw [sleeps_append, hsleeps, hdue, List.replicate_succ']
            rfl
        · next hmod =>
          rw [if_neg hmod] at hdue
          refine hnext _ ⟨hstarts, ?_⟩
          rw [hsleeps, hdue, Nat.add_zero]

/-! ### The farm -/

/-- A farm whose array of names has room has a farmer. -/
theorem usefarmerCount_pos {farmElem : XmlElem}
    (h : 0 < wrapInt 32 (usefarmerCount farmElem + 1)) : 0 < usefarmerCount farmElem := by
  have hlow : -2 ^ 31 ≤ usefarmerCount farmElem := by
    have hcount := countingPass_eq farmElem.firstChild 0
    have hbound := le_wrapInt 31 (0 + (farmCounts farmElem.firstChild).sum)
    rw [← hcount] at hbound
    unfold usefarmerCount
    dsimp only
    split
    · decide
    · exact hbound
  by_contra hneg
  have hne : usefarmerCount farmElem ≠ 0 := by
    unfold usefarmerCount
    dsimp only
    split
    · decide
    · next hcount => exact hcount
  rw [wrapInt_eq (w := 31) (by omega) (by omega)] at h
  omega

theorem runFarm_accepted {farmElem : XmlElem} {n : Naming}
    (hnames : nameFarmers farmElem = .ok (.success, n))
    (hroom : 0 < wrapInt 32 (usefarmerCount farmElem + 1)) (create : ℤ → Status) :
    runFarm create farmElem = startLoop create n (usefarmerCount farmElem).toNat 0 [] := by
  unfold runFarm
  rw [if_neg (by omega), hnames]
  rfl

/-- A start count that is not positive goes wrong with the second farmer, or with the first. -/
theorem sound_of_staggered {farmElem : XmlElem} {n : Naming}
    (hnames : nameFarmers farmElem = .ok (.success, n))
    (hroom : 0 < wrapInt 32 (usefarmerCount farmElem + 1))
    (h : StartsStaggered farmElem n.schedule) :
    ScheduleSound n.schedule (usefarmerCount farmElem) := by
  have hpos := usefarmerCount_pos hroom
  obtain ⟨stat, log, hrun, hlog⟩ := h fun _ => .success
  obtain ⟨hstat, hlength⟩ := hlog.all fun _ => rfl
  by_contra hbad
  unfold ScheduleSound at hbad
  rw [not_or, not_or] at hbad
  obtain ⟨hdelay, hcount, hone⟩ := hbad
  by_cases hzero : n.farmerStartCount = 0
  · -- the first farmer is started, and then comes the division
    rw [runFarm_accepted hnames hroom] at hrun
    obtain ⟨left, hleft⟩ : ∃ left, (usefarmerCount farmElem).toNat = left + 1 :=
      ⟨(usefarmerCount farmElem).toNat - 1, by omega⟩
    have hdelay' : n.farmerStartDelay ≠ 0 := hdelay
    rw [hleft, startLoop, if_neg (not_not.mpr rfl), if_neg hdelay', if_pos hzero] at hrun
    cases hrun
  · have hneg : n.schedule.2 < 0 := by
      have hle : n.farmerStartCount ≤ 0 := Int.not_lt.mp hcount
      show n.farmerStartCount < 0
      omega
    have htwo : 1 < (startsBehind log []).length := by
      have hne : usefarmerCount farmElem ≠ 1 := fun h => hone ⟨hneg, h⟩
      omega
    have hmem : (1 : ℤ) ∈ (startsBehind log []).map Prod.fst := by
      rw [hlog.order]
      exact List.mem_map.mpr ⟨1, List.mem_range.mpr htwo, rfl⟩
    obtain ⟨start, hstart, hfst⟩ := List.mem_map.mp hmem
    have hfloor := hlog.floor hdelay start hstart
    have hbelow : Int.fdiv 1 n.schedule.2 < 0 := by
      rw [← Int.neg_fdiv_neg, Int.fdiv_eq_ediv_of_nonneg _ (by omega)]
      exact Int.ediv_neg_of_neg_of_pos (by decide) (by omega)
    rw [hfst] at hfloor
    omega

/-- **The start is staggered** exactly where there is no delay, or the start count goes with the number
of farmers. -/
theorem staggered_iff {farmElem : XmlElem} {n : Naming}
    (hnames : nameFarmers farmElem = .ok (.success, n))
    (hroom : 0 < wrapInt 32 (usefarmerCount farmElem + 1)) :
    StartsStaggered farmElem (scheduleOf (usefarmerAttrs farmElem.firstChild) (0, 1)) ↔
      ScheduleSound (scheduleOf (usefarmerAttrs farmElem.firstChild) (0, 1))
        (usefarmerCount farmElem) := by
  rw [← nameFarmers_schedule hnames]
  constructor
  · exact sound_of_staggered hnames hroom
  · intro hsound create
    have hpos := usefarmerCount_pos hroom
    have hdiv : n.farmerStartDelay = 0 ∨ n.farmerStartCount ≠ 0 := by
      unfold ScheduleSound Naming.schedule at hsound
      omega
    obtain ⟨stat, log, k, hrun, hk, hlog, hall⟩ := startLoop_scheduled create hdiv
      (usefarmerCount farmElem).toNat 0 [] ⟨rfl, by
        unfold due
        rw [Nat.zero_div, ite_self]
        rfl⟩
    refine ⟨stat, log, (runFarm_accepted hnames hroom create).trans hrun, ?_, ?_, ?_, ?_⟩
    · rw [hlog, List.map_map, List.length_map, List.length_range]
      rfl
    · intro start hstart d hd
      rw [hlog] at hstart
      obtain ⟨i, -, rfl⟩ := List.mem_map.mp hstart
      exact List.eq_of_mem_replicate hd
    · intro hdelay start hstart
      rw [hlog] at hstart
      obtain ⟨i, hi, rfl⟩ := List.mem_map.mp hstart
      have hik : i < k := List.mem_range.mp hi
      have hdelay' : n.farmerStartDelay ≠ 0 := hdelay
      show ((List.replicate (due n.farmerStartDelay n.farmerStartCount i) n.farmerStartDelay).length : ℤ)
        = Int.fdiv i n.farmerStartCount
      rw [List.length_replicate, due, if_neg hdelay']
      obtain hnone | hcount | ⟨hneg, hone⟩ := hsound
      · exact absurd hnone hdelay
      · have hcount' : 0 < n.farmerStartCount := hcount
        have hcount₀ : 0 ≤ n.farmerStartCount := Int.le_of_lt hcount'
        rw [Int.fdiv_eq_ediv_of_nonneg _ hcount₀, Int.natCast_ediv, Int.natAbs_of_nonneg hcount₀]
      · -- the one farmer starts at once
        have hzero : i = 0 := by omega
        subst hzero
        rw [Nat.zero_div]
        exact (Int.zero_fdiv _).symm
    · intro hcreate
      obtain ⟨hstat, hkall⟩ := hall hcreate
      refine ⟨hstat, ?_⟩
      rw [hlog, List.length_map, List.length_range, hkall]
      omega

/-! ### Some farms -/

/-- A farm of farmers with a delay of a second. -/
def staggeredFarm (count startcount : Bytes) : XmlElem :=
  .elem (bytes "farm") [] []
    (.elem XML_FARM_USEFARMER [bytes "Joe"]
      [⟨0, XML_FARM_USEFARMER_COUNT, count⟩, ⟨1, XML_FARM_USEFARMER_DELAY, bytes "1"⟩,
        ⟨2, XML_FARM_USEFARMER_START, startcount⟩]
      .null .null)
    .null

theorem staggered_iff_pairs :
    StartsStaggered (staggeredFarm (bytes "3") (bytes "2"))
        (scheduleOf (usefarmerAttrs (staggeredFarm (bytes "3") (bytes "2")).firstChild) (0, 1)) ↔
      ScheduleSound
        (scheduleOf (usefarmerAttrs (staggeredFarm (bytes "3") (bytes "2")).firstChild) (0, 1))
        (usefarmerCount (staggeredFarm (bytes "3") (bytes "2"))) :=
  staggered_iff
    (n := ⟨3, [(0, bytes "Joe"), (1, bytes "Joe"), (2, bytes "Joe")], 1000000, 2⟩)
    (by decide +kernel) (by decide +kernel)

/-- With the start count that the manual gives as the default the loop divides by zero. -/
theorem zeroCount_divides :
    nameFarmers (staggeredFarm (bytes "2") (bytes "0")) =
      .ok (.success, ⟨2, [(0, bytes "Joe"), (1, bytes "Joe")], 1000000, 0⟩) ∧
    usefarmerCount (staggeredFarm (bytes "2") (bytes "0")) = 2 ∧
    runFarm (fun _ => .success) (staggeredFarm (bytes "2") (bytes "0")) = .error .fault ∧
    ¬ StartsStaggered (staggeredFarm (bytes "2") (bytes "0"))
      (scheduleOf (usefarmerAttrs (staggeredFarm (bytes "2") (bytes "0")).firstChild) (0, 1)) := by
  have hfault : runFarm (fun _ => .success) (staggeredFarm (bytes "2") (bytes "0")) =
      .error .fault := by decide +kernel
  refine ⟨by decide +kernel, by decide +kernel, hfault, ?_⟩
  intro h
  obtain ⟨stat, log, hrun, -⟩ := h fun _ => .success
  rw [hfault] at hrun
  cases hrun

end Flood.StaggeredStart
