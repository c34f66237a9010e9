import Mathlib.Logic.Relation
import Mathlib.Data.Nat.Init
import Mathlib.Order.MinMax
import Mathlib.Tactic.Common

/-!
# Fuelled loops

A C loop is a body that either leaves the loop with a result or goes round again with a new
state.  `runLoop body n s` goes round at most `n` times, so it is structural and runs inside the
kernel; `none` means only that the fuel was too small.

* `Halts f r` — from some amount of fuel on, `f` returns `r`; it is what "the loop ends and
  returns `r`" means here.
* `runLoop_mono`, `Halts.unique` — more fuel never changes a result, and a result is unique.
* `halts_of_steps` — a chain of rounds that ends in a state that halts, halts.
* `runLoop_invariant`, `halts_of_measure` — the partial and the total invariant rule.
* `Follows.halts`, `Follows.never` — a loop that goes on as the items of a stream say.
-/

namespace Flood.Loop

variable {σ ρ τ : Type*}

/-- Go round the loop at most `fuel` times.  The body returns `.inl r` to leave the loop with
`r` and `.inr s` to go round again from `s`. -/
def runLoop (body : σ → ρ ⊕ σ) : ℕ → σ → Option ρ
  | 0, _ => none
  | n + 1, s =>
    match body s with
    | .inl r => some r
    | .inr s' => runLoop body n s'

/-- `f` returns `r` for every large enough amount of fuel. -/
def Halts (f : ℕ → Option ρ) (r : ρ) : Prop := ∃ N, ∀ n, N ≤ n → f n = some r

/-- The states a loop passes through: `s'` is reached from `s` by zero or more rounds. -/
def Steps (body : σ → ρ ⊕ σ) : σ → σ → Prop :=
  Relation.ReflTransGen fun s s' => body s = .inr s'

theorem runLoop_inl {body : σ → ρ ⊕ σ} {s : σ} {r : ρ} (h : body s = .inl r) (n : ℕ) :
    runLoop body (n + 1) s = some r := by
  simp only [runLoop, h]

theorem runLoop_inr {body : σ → ρ ⊕ σ} {s s' : σ} (h : body s = .inr s') (n : ℕ) :
    runLoop body (n + 1) s = runLoop body n s' := by
  simp only [runLoop, h]

/-! ### More fuel changes nothing -/

theorem runLoop_mono {body : σ → ρ ⊕ σ} {n m : ℕ} {s : σ} {r : ρ} (hnm : n ≤ m)
    (h : runLoop body n s = some r) : runLoop body m s = some r := by
  induction n generalizing m s with
  | zero => simp [runLoop] at h
  | succ n ih =>
    obtain ⟨m, rfl⟩ : ∃ m', m = m' + 1 := ⟨m - 1, by omega⟩
    cases hb : body s with
    | inl r' => rw [runLoop_inl hb] at h ⊢; exact h
    | inr s' =>
      rw [runLoop_inr hb] at h ⊢
      exact ih (by omega) h

theorem Halts.unique {f : ℕ → Option ρ} {r r' : ρ} (h : Halts f r) (h' : Halts f r') : r = r' := by
  obtain ⟨N, hN⟩ := h
  obtain ⟨M, hM⟩ := h'
  have h1 := hN (max N M) (le_max_left _ _)
  have h2 := hM (max N M) (le_max_right _ _)
  exact Option.some.inj (h1.symm.trans h2)

theorem Halts.congr {f g : ℕ → Option ρ} {r : ρ} (h : ∀ n, f n = g n) (hg : Halts g r) :
    Halts f r := by
  obtain ⟨N, hN⟩ := hg
  exact ⟨N, fun n hn => (h n).trans (hN n hn)⟩

theorem halts_const (r : ρ) : Halts (fun _ => some r) r := ⟨0, fun _ _ => rfl⟩

/-- Two fuelled computations in sequence, on the same fuel. -/
theorem Halts.bind {f : ℕ → Option ρ} {g : ℕ → ρ → Option τ} {r : ρ} {t : τ} (hf : Halts f r)
    (hg : Halts (fun n => g n r) t) : Halts (fun n => (f n).bind (g n)) t := by
  obtain ⟨N, hN⟩ := hf
  obtain ⟨M, hM⟩ := hg
  refine ⟨max N M, fun n hn => ?_⟩
  show (f n).bind (g n) = some t
  rw [hN n (le_trans (le_max_left _ _) hn)]
  exact hM n (le_trans (le_max_right _ _) hn)

theorem Halts.map {f : ℕ → Option ρ} {r : ρ} (g : ρ → τ) (hf : Halts f r) :
    Halts (fun n => (f n).map g) (g r) := by
  obtain ⟨N, hN⟩ := hf
  exact ⟨N, fun n hn => congrArg (Option.map g) (hN n hn)⟩

/-- A loop that returns on some amount of fuel halts. -/
theorem halts_of_runLoop {body : σ → ρ ⊕ σ} {n : ℕ} {s : σ} {r : ρ}
    (h : runLoop body n s = some r) : Halts (fun m => runLoop body m s) r :=
  ⟨n, fun _ hm => runLoop_mono hm h⟩

/-! ### Chains of rounds -/

theorem halts_inl {body : σ → ρ ⊕ σ} {s : σ} {r : ρ} (h : body s = .inl r) :
    Halts (fun n => runLoop body n s) r :=
  halts_of_runLoop (runLoop_inl h 0)

theorem halts_inr {body : σ → ρ ⊕ σ} {s s' : σ} {r : ρ} (h : body s = .inr s')
    (hs : Halts (fun n => runLoop body n s') r) : Halts (fun n => runLoop body n s) r := by
  obtain ⟨N, hN⟩ := hs
  exact halts_of_runLoop (n := N + 1) (by rw [runLoop_inr h]; exact hN N le_rfl)

theorem Steps.single {body : σ → ρ ⊕ σ} {s s' : σ} (h : body s = .inr s') : Steps body s s' :=
  Relation.ReflTransGen.single h

/-- What holds before a round and of every state behind it holds of every state. -/
theorem forall_steps_inr {body : σ → ρ ⊕ σ} {P : σ → Prop} {s s' : σ} (h : body s = .inr s')
    (hs : P s) (hall : ∀ t, Steps body s' t → P t) : ∀ t, Steps body s t → P t := by
  intro t hsteps
  rcases hsteps.cases_head with rfl | ⟨s₁, hround, hsteps⟩
  · exact hs
  · rw [h, Sum.inr.injEq] at hround
    exact hall t (hround ▸ hsteps)

theorem forall_steps_inl {body : σ → ρ ⊕ σ} {P : σ → Prop} {s : σ} {r : ρ} (h : body s = .inl r)
    (hs : P s) : ∀ t, Steps body s t → P t := by
  intro t hsteps
  rcases hsteps.cases_head with rfl | ⟨s₁, hround, -⟩
  · exact hs
  · cases h.symm.trans hround

theorem halts_of_steps {body : σ → ρ ⊕ σ} {s s' : σ} {r : ρ} (h : Steps body s s')
    (hs : Halts (fun n => runLoop body n s') r) : Halts (fun n => runLoop body n s) r := by
  induction h using Relation.ReflTransGen.head_induction_on with
  | refl => exact hs
  | head hstep _ ih => exact halts_inr hstep ih

/-- The outcome of a round leads to `r`: the loop is left with it, or goes on and halts with it. -/
def LeadsTo (body : σ → ρ ⊕ σ) : ρ ⊕ σ → ρ → Prop
  | .inl r', r => r' = r
  | .inr s, r => Halts (fun n => runLoop body n s) r

theorem halts_of_leadsTo {body : σ → ρ ⊕ σ} {s : σ} {r : ρ} (h : LeadsTo body (body s) r) :
    Halts (fun n => runLoop body n s) r := by
  cases hb : body s with
  | inl r' =>
    rw [hb] at h
    obtain rfl : r' = r := h
    exact halts_inl hb
  | inr s' =>
    rw [hb] at h
    exact halts_inr hb h

/-! ### Invariants -/

/-- **Partial correctness.**  An invariant that every round keeps holds when the loop is left. -/
theorem runLoop_invariant {body : σ → ρ ⊕ σ} (Inv : σ → Prop) (Post : ρ → Prop)
    (hround : ∀ s s', Inv s → body s = .inr s' → Inv s')
    (hleave : ∀ s r, Inv s → body s = .inl r → Post r) {n : ℕ} {s : σ} {r : ρ} (hs : Inv s)
    (h : runLoop body n s = some r) : Post r := by
  induction n generalizing s with
  | zero => simp [runLoop] at h
  | succ n ih =>
    cases hb : body s with
    | inl r' =>
      rw [runLoop_inl hb, Option.some.injEq] at h
      exact h ▸ hleave s r' hs hb
    | inr s' =>
      rw [runLoop_inr hb] at h
      exact ih (hround s s' hs hb) h

/-- **Total correctness.**  If every round from an invariant state either leaves with `Post` or
keeps the invariant and lowers the measure, the loop ends with `Post`. -/
theorem halts_of_measure {body : σ → ρ ⊕ σ} (Inv : σ → Prop) (Post : ρ → Prop) (μ : σ → ℕ)
    (hround : ∀ s, Inv s → (∃ r, body s = .inl r ∧ Post r) ∨
      ∃ s', body s = .inr s' ∧ Inv s' ∧ μ s' < μ s) {s : σ} (hs : Inv s) :
    ∃ r, Halts (fun n => runLoop body n s) r ∧ Post r := by
  induction hm : μ s using Nat.strong_induction_on generalizing s with
  | _ m ih =>
    subst hm
    rcases hround s hs with ⟨r, hr, hp⟩ | ⟨s', hs', hi, hlt⟩
    · exact ⟨r, halts_inl hr, hp⟩
    · obtain ⟨r, hr, hp⟩ := ih (μ s') hlt hi rfl
      exact ⟨r, halts_inr hs' hr, hp⟩

/-! ### Loops that follow a stream -/

/-- From a state at the item `n` of a stream the round goes on to the next item, or leaves the loop, as
that item says. -/
def Follows (body : σ → ρ ⊕ σ) (goesOn : ℕ → Bool) (At : ℕ → σ → Prop) (Out : ℕ → ρ → Prop) : Prop :=
  ∀ n s, At n s →
    (goesOn n = true → ∃ s', body s = .inr s' ∧ At (n + 1) s') ∧
    (goesOn n = false → ∃ r, body s = .inl r ∧ Out n r)

section Stream

variable {body : σ → ρ ⊕ σ} {goesOn : ℕ → Bool} {At : ℕ → σ → Prop} {Out : ℕ → ρ → Prop} {s : σ}

/-- Behind items that let it go on, the loop is at the next one. -/
theorem Follows.steps (h : Follows body goesOn At Out) (hs : At 0 s) {n : ℕ}
    (hon : ∀ k < n, goesOn k = true) : ∃ s', Steps body s s' ∧ At n s' := by
  induction n with
  | zero => exact ⟨s, .refl, hs⟩
  | succ n ih =>
    obtain ⟨s₁, hsteps, h₁⟩ := ih fun k hk => hon k (by omega)
    obtain ⟨s₂, hround, h₂⟩ := (h n s₁ h₁).1 (hon n (by omega))
    exact ⟨s₂, hsteps.tail hround, h₂⟩

/-- **The loop ends** at the first item that does not let it go on. -/
theorem Follows.halts (h : Follows body goesOn At Out) (hs : At 0 s) {n : ℕ}
    (hon : ∀ k < n, goesOn k = true) (hstop : goesOn n = false) :
    ∃ r, Halts (fun m => runLoop body m s) r ∧ Out n r := by
  obtain ⟨s', hsteps, hat⟩ := h.steps hs hon
  obtain ⟨r, hround, hout⟩ := (h n s' hat).2 hstop
  exact ⟨r, halts_of_steps hsteps (halts_inl hround), hout⟩

/-- **The loop never ends** where every item lets it go on. -/
theorem Follows.never (h : Follows body goesOn At Out) (hs : At 0 s)
    (hon : ∀ k, goesOn k = true) (fuel : ℕ) : runLoop body fuel s = none := by
  cases hrun : runLoop body fuel s with
  | none => rfl
  | some r =>
    refine absurd hrun fun hrun => runLoop_invariant (fun s => ∃ n, At n s) (fun _ => False) ?_ ?_
      ⟨0, hs⟩ hrun
    · rintro s₁ s₂ ⟨n, hat⟩ hround
      obtain ⟨s', hround', hnext⟩ := (h n s₁ hat).1 (hon n)
      rw [hround] at hround'
      cases hround'
      exact ⟨n + 1, hnext⟩
    · rintro s₁ r' ⟨n, hat⟩ hleave
      obtain ⟨s', hround', -⟩ := (h n s₁ hat).1 (hon n)
      rw [hleave] at hround'
      cases hround'

end Stream

end Flood.Loop
