import Mathlib.Logic.Function.Basic
import Mathlib.Logic.Relation
import Mathlib.Tactic.Common

/-!
# Threads that write under a mutex

Each thread has a list of jobs.  A job is written in pieces: the thread takes the mutex, writes the
pieces one by one to an output that all threads share, and gives the mutex back.  A step of the system
is a step of one thread, and any thread that can make one may be the next.

* `step_accounts` — what a step of any thread keeps.
* `reachable_accounts` — in every state that can be reached the output consists of whole jobs in the
  order in which the mutex was taken, and of a part of the job under way.
* `progress` — until all threads are done some thread can make a step.
-/

namespace Flood.Mutex

variable {ι J β : Type*}

/-- The threads and what they share: who holds the mutex, what a thread that is between taking and
giving back the mutex has still to write, the jobs not yet begun, and the output. -/
structure Threads (ι J β : Type*) where
  holder : Option ι
  writing : ι → Option (List β)
  todo : ι → List J
  out : List β

/-- The threads before their first step. -/
def start (jobs : ι → List J) : Threads ι J β := ⟨none, fun _ => none, jobs, []⟩

variable [DecidableEq ι]

/-- A step of one thread; `pieces` are the pieces in which a job is written. -/
inductive Step (pieces : J → List β) : Threads ι J β → Threads ι J β → Prop
  | lock {s : Threads ι J β} {i : ι} {job : J} {rest : List J}
    (hfree : s.holder = none) (hidle : s.writing i = none) (htodo : s.todo i = job :: rest) :
    Step pieces s { s with
      holder := some i
      writing := Function.update s.writing i (some (pieces job))
      todo := Function.update s.todo i rest }
  | write {s : Threads ι J β} {i : ι} {piece : β} {left : List β}
    (hwriting : s.writing i = some (piece :: left)) :
    Step pieces s { s with
      writing := Function.update s.writing i (some left)
      out := s.out ++ [piece] }
  | unlock {s : Threads ι J β} {i : ι} (hwriting : s.writing i = some []) :
    Step pieces s { s with
      holder := none
      writing := Function.update s.writing i none }

/-- The states that some schedule leads to. -/
def Reachable (pieces : J → List β) (jobs : ι → List J) : Threads ι J β → Prop :=
  Relation.ReflTransGen (Step pieces) (start jobs)

/-- No thread has anything left to do. -/
def Finished (s : Threads ι J β) : Prop := ∀ i, s.writing i = none ∧ s.todo i = []

/-- The jobs of a thread among those that have been begun. -/
def jobsOf (i : ι) (begun : List (ι × J)) : List J :=
  (begun.filter fun b => b.1 = i).map Prod.snd

/-- The pieces of some jobs, one job behind the other. -/
def piecesOf (pieces : J → List β) (begun : List (ι × J)) : List β :=
  begun.flatMap fun b => pieces b.2

/-- The jobs begun so far, in the order in which the mutex was taken for them, account for the state:
each thread has begun its own in their order, only the holder of the mutex writes, and the output is
whole jobs, with a part of the last one while its thread holds the mutex. -/
structure Accounts (pieces : J → List β) (jobs : ι → List J) (s : Threads ι J β)
    (begun : List (ι × J)) : Prop where
  program : ∀ i, jobsOf i begun ++ s.todo i = jobs i
  exclusion : ∀ i, s.writing i ≠ none ↔ s.holder = some i
  idle : s.holder = none → s.out = piecesOf pieces begun
  busy : ∀ i, s.holder = some i → ∃ done job written left,
    begun = done ++ [(i, job)] ∧ pieces job = written ++ left ∧ s.writing i = some left ∧
      s.out = piecesOf pieces done ++ written

variable {pieces : J → List β} {jobs : ι → List J} {s s' : Threads ι J β} {begun : List (ι × J)}

theorem start_accounts (pieces : J → List β) (jobs : ι → List J) :
    Accounts pieces jobs (start jobs) [] where
  program _ := rfl
  exclusion i := by simp [start]
  idle _ := rfl
  busy i h := by cases h

theorem jobsOf_append_self (i : ι) (begun : List (ι × J)) (job : J) :
    jobsOf i (begun ++ [(i, job)]) = jobsOf i begun ++ [job] := by
  simp [jobsOf]

theorem jobsOf_append_of_ne {i j : ι} (h : j ≠ i) (begun : List (ι × J)) (job : J) :
    jobsOf i (begun ++ [(j, job)]) = jobsOf i begun := by
  simp [jobsOf, h]

/-- A thread that writes holds the mutex, and no other does. -/
theorem Accounts.holder_of_writing (h : Accounts pieces jobs s begun) {i : ι} {left : List β}
    (hwriting : s.writing i = some left) : s.holder = some i :=
  (h.exclusion i).mp (by rw [hwriting]; exact Option.some_ne_none left)

theorem lock_accounts {i : ι} {job : J} {rest : List J} (h : Accounts pieces jobs s begun)
    (hfree : s.holder = none) (htodo : s.todo i = job :: rest) :
    Accounts pieces jobs { s with
      holder := some i
      writing := Function.update s.writing i (some (pieces job))
      todo := Function.update s.todo i rest } (begun ++ [(i, job)]) where
  program j := by
    have hprogram := h.program j
    by_cases hj : j = i
    · subst hj
      rw [htodo] at hprogram
      simpa [jobsOf_append_self] using hprogram
    · rw [jobsOf_append_of_ne (Ne.symm hj)]
      simpa [Function.update_of_ne hj] using hprogram
  exclusion j := by
    have hexclusion := h.exclusion j
    rw [hfree] at hexclusion
    by_cases hj : j = i
    · subst hj
      simp
    · simpa [Function.update_of_ne hj, Ne.symm hj] using hexclusion
  idle hnone := by cases hnone
  busy j hj := by
    cases hj
    exact ⟨begun, job, [], pieces job, rfl, rfl, Function.update_self _ _ _, by
      simp [h.idle hfree]⟩

theorem write_accounts {i : ι} {piece : β} {left : List β} (h : Accounts pieces jobs s begun)
    (hwriting : s.writing i = some (piece :: left)) :
    Accounts pieces jobs { s with
      writing := Function.update s.writing i (some left)
      out := s.out ++ [piece] } begun where
  program := h.program
  exclusion j := by
    have hholder := h.holder_of_writing hwriting
    have hexclusion := h.exclusion j
    by_cases hj : j = i
    · subst hj
      simp [hholder]
    · simpa [Function.update_of_ne hj] using hexclusion
  idle hnone := by
    rw [h.holder_of_writing hwriting] at hnone
    cases hnone
  busy j hj := by
    obtain ⟨done, job, written, left', hbegun, hjob, hleft, hout⟩ := h.busy j hj
    obtain rfl : i = j := by
      rw [h.holder_of_writing hwriting, Option.some.injEq] at hj
      exact hj
    rw [hwriting, Option.some.injEq] at hleft
    subst hleft
    exact ⟨done, job, written ++ [piece], left, hbegun, by simp [hjob],
      Function.update_self _ _ _, by simp [hout]⟩

theorem unlock_accounts {i : ι} (h : Accounts pieces jobs s begun) (hwriting : s.writing i = some []) :
    Accounts pieces jobs { s with
      holder := none
      writing := Function.update s.writing i none } begun where
  program := h.program
  exclusion j := by
    have hholder := h.holder_of_writing hwriting
    have hexclusion := h.exclusion j
    rw [hholder, Option.some.injEq] at hexclusion
    by_cases hj : j = i
    · subst hj
      simp
    · simpa [Function.update_of_ne hj, Ne.symm hj] using hexclusion
  idle _ := by
    obtain ⟨done, job, written, left, hbegun, hjob, hleft, hout⟩ :=
      h.busy i (h.holder_of_writing hwriting)
    rw [hwriting, Option.some.injEq] at hleft
    simp [hout, hbegun, piecesOf, hjob, ← hleft]
  busy j hj := by cases hj

/-- **What a step of any thread keeps.** -/
theorem step_accounts (h : Accounts pieces jobs s begun) (hstep : Step pieces s s') :
    ∃ begun', Accounts pieces jobs s' begun' := by
  cases hstep with
  | lock hfree _ htodo => exact ⟨_, lock_accounts h hfree htodo⟩
  | write hwriting => exact ⟨_, write_accounts h hwriting⟩
  | unlock hwriting => exact ⟨_, unlock_accounts h hwriting⟩

/-- **What holds under every schedule.** -/
theorem reachable_accounts (h : Reachable pieces jobs s) :
    ∃ begun, Accounts pieces jobs s begun := by
  induction h with
  | refl => exact ⟨[], start_accounts pieces jobs⟩
  | tail _ hstep ih =>
    obtain ⟨begun, hbegun⟩ := ih
    exact step_accounts hbegun hstep

/-- When all threads are done the mutex is free. -/
theorem Accounts.free (h : Accounts pieces jobs s begun) (hfinished : Finished s) :
    s.holder = none := by
  cases hholder : s.holder with
  | none => rfl
  | some i => exact absurd (hfinished i).1 ((h.exclusion i).mpr hholder)

/-- **No deadlock**: as long as a thread has something to do, some thread can make a step. -/
theorem progress (h : Reachable pieces jobs s) (hmore : ¬ Finished s) : ∃ s', Step pieces s s' := by
  obtain ⟨begun, hbegun⟩ := reachable_accounts h
  cases hholder : s.holder with
  | some i =>
    obtain ⟨done, job, written, left, -, -, hwriting, -⟩ := hbegun.busy i hholder
    cases left with
    | nil => exact ⟨_, .unlock hwriting⟩
    | cons piece left => exact ⟨_, .write hwriting⟩
  | none =>
    have hidle : ∀ i, s.writing i = none := by
      intro i
      by_contra hwriting
      have hheld := (hbegun.exclusion i).mp hwriting
      rw [hholder] at hheld
      cases hheld
    have htodo : ∃ i, s.todo i ≠ [] := by
      by_contra hnone
      simp only [not_exists, not_not] at hnone
      exact hmore fun i => ⟨hidle i, hnone i⟩
    obtain ⟨i, hi⟩ := htodo
    obtain ⟨job, rest, hjob⟩ := List.exists_cons_of_ne_nil hi
    exact ⟨_, .lock hholder (hidle i) hjob⟩

end Flood.Mutex
