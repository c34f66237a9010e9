/-!
# Parts of a program in turn

A part of a program works on a state and either goes on or stops the whole with a result.  This file
puts such parts in sequence, independently of what they do.

* `andThen_assoc`, `inTurn_append` — sequences compose.
* `inTurn_preserves` — what every part keeps, the sequence keeps, wherever it stops.
* `inTurn_related` — two runs of a sequence from related states.
* `andThen_none` — a sequence that goes on has gone through its parts.
-/

namespace Flood.InTurn

variable {σ ρ : Type}

/-- A part of a program: it goes on (`none`) or stops with a result, and leaves a state. -/
abbrev Action (σ ρ : Type) := σ → Option ρ × σ

def skip : Action σ ρ := fun s => (none, s)

/-- One part behind another. -/
def andThen (f g : Action σ ρ) : Action σ ρ := fun s =>
  match f s with
  | (none, s) => g s
  | (some r, s) => (some r, s)

/-- Parts in turn. -/
def inTurn : List (Action σ ρ) → Action σ ρ
  | [] => skip
  | f :: fs => andThen f (inTurn fs)

@[simp] theorem andThen_skip (f : Action σ ρ) : andThen f skip = f := by
  funext s
  unfold andThen
  cases h : f s with
  | mk r s' =>
    cases r with
    | none => rfl
    | some r => rfl

theorem andThen_assoc (f g h : Action σ ρ) :
    andThen (andThen f g) h = andThen f (andThen g h) := by
  funext s
  unfold andThen
  cases f s with
  | mk r s' =>
    cases r with
    | none => rfl
    | some r => rfl

theorem inTurn_append (fs gs : List (Action σ ρ)) :
    inTurn (fs ++ gs) = andThen (inTurn fs) (inTurn gs) := by
  induction fs with
  | nil => rfl
  | cons f fs ih =>
    show andThen f (inTurn (fs ++ gs)) = andThen (andThen f (inTurn fs)) (inTurn gs)
    rw [ih, andThen_assoc]

/-- **What every part keeps**, the sequence keeps, wherever it stops. -/
theorem inTurn_preserves {P : σ → Prop} {fs : List (Action σ ρ)}
    (h : ∀ f ∈ fs, ∀ s, P s → P (f s).2) {s : σ} (hs : P s) : P (inTurn fs s).2 := by
  induction fs generalizing s with
  | nil => exact hs
  | cons f fs ih =>
    have hf := h f (List.mem_cons_self ..) s hs
    have hfs := fun s hs => ih (fun g hg => h g (List.mem_cons_of_mem _ hg)) (s := s) hs
    show P (andThen f (inTurn fs) s).2
    unfold andThen
    cases hrun : f s with
    | mk r s' =>
      rw [hrun] at hf
      cases r with
      | none => exact hfs s' hf
      | some r => exact hf

/-- **Two runs from related states**: where every part stops with the same result and keeps the
relation, the sequence does. -/
theorem inTurn_related {R : σ → σ → Prop} {fs : List (Action σ ρ)}
    (h : ∀ f ∈ fs, ∀ s s', R s s' → (f s').1 = (f s).1 ∧ R (f s).2 (f s').2) {s s' : σ}
    (hs : R s s') : (inTurn fs s').1 = (inTurn fs s).1 ∧ R (inTurn fs s).2 (inTurn fs s').2 := by
  induction fs generalizing s s' with
  | nil => exact ⟨rfl, hs⟩
  | cons f fs ih =>
    obtain ⟨hresult, hstates⟩ := h f (List.mem_cons_self ..) s s' hs
    show (andThen f (inTurn fs) s').1 = (andThen f (inTurn fs) s).1 ∧
      R (andThen f (inTurn fs) s).2 (andThen f (inTurn fs) s').2
    unfold andThen
    cases hrun : f s with
    | mk r t =>
      cases hrun' : f s' with
      | mk r' t' =>
        rw [hrun, hrun'] at hresult hstates
        dsimp only at hresult hstates
        subst hresult
        cases r' with
        | none => exact ih (fun g hg => h g (List.mem_cons_of_mem _ hg)) hstates
        | some r => exact ⟨rfl, hstates⟩

/-- Two parts that go on have both gone on. -/
theorem andThen_none {f g : Action σ ρ} {s s' : σ} :
    andThen f g s = (none, s') ↔ ∃ s₁, f s = (none, s₁) ∧ g s₁ = (none, s') := by
  unfold andThen
  cases f s with
  | mk r s₁ =>
    cases r with
    | none =>
      constructor
      · intro h
        exact ⟨s₁, rfl, h⟩
      · rintro ⟨s₂, hs₂, h⟩
        cases hs₂
        exact h
    | some r =>
      constructor
      · intro h
        cases h
      · rintro ⟨s₂, hs₂, -⟩
        cases hs₂

end Flood.InTurn
