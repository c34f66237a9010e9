import Mathlib.Data.List.Count
import Mathlib.Data.List.Nodup
import Mathlib.Tactic.Common

/-!
# Two letters in turn

Words in which the letters `a` and `b` come in turn, `a` first, and in which a third letter `c` comes
only where every `a` has had its `b`.  An `a` that opens something and a `b` that closes it are used in
this way when nothing is opened twice and nothing is left open at a `c`.

* `Alternates.append` — words in sequence, the first of which leaves nothing open.
* `Alternates.repeat` — a word that leaves nothing open, any number of times.
* `alternates_of_nodup` — a word that has each letter once, `a` before `b`.
-/

namespace Flood.Alternation

variable {δ : Type*} [DecidableEq δ]

/-- Wherever the word `l` is cut off, at most one `a` is open, and none is where it goes on with
`c`. -/
structure Alternates (a b c : δ) (l : List δ) : Prop where
  bounds : ∀ part, part <+: l → part.count b ≤ part.count a ∧ part.count a ≤ part.count b + 1
  settled : ∀ part, part ++ [c] <+: l → part.count a = part.count b

variable {a b c : δ}

omit [DecidableEq δ] in
/-- A part of two words in sequence ends in the first, or goes on into the second. -/
theorem part_of_append {part l₁ l₂ : List δ} (h : part <+: l₁ ++ l₂) :
    part <+: l₁ ∨ ∃ part₂, part = l₁ ++ part₂ ∧ part₂ <+: l₂ := by
  have hcompare := List.prefix_or_prefix_of_prefix h (List.prefix_append l₁ l₂)
  refine hcompare.imp id fun hbehind => ?_
  obtain ⟨part₂, rfl⟩ := hbehind
  exact ⟨part₂, rfl, (List.prefix_append_right_inj l₁).mp h⟩

theorem Alternates.part {l part : List δ} (h : Alternates a b c l) (hpart : part <+: l) :
    Alternates a b c part where
  bounds p hp := h.bounds p (hp.trans hpart)
  settled p hp := h.settled p (hp.trans hpart)

/-- A word that has neither letter. -/
theorem alternates_of_absent {l : List δ} (ha : a ∉ l) (hb : b ∉ l) : Alternates a b c l := by
  have hzero : ∀ part, part <+: l → part.count a = 0 ∧ part.count b = 0 := fun part hpart =>
    ⟨List.count_eq_zero.mpr fun hmem => ha (hpart.subset hmem),
      List.count_eq_zero.mpr fun hmem => hb (hpart.subset hmem)⟩
  constructor
  · intro part hpart
    obtain ⟨h₁, h₂⟩ := hzero part hpart
    omega
  · intro part hpart
    obtain ⟨h₁, h₂⟩ := hzero part ((List.prefix_append _ _).trans hpart)
    omega

/-- **Words in sequence.** -/
theorem Alternates.append {l₁ l₂ : List δ} (h₁ : Alternates a b c l₁)
    (hclosed : l₁.count a = l₁.count b) (h₂ : Alternates a b c l₂) : Alternates a b c (l₁ ++ l₂) := by
  constructor
  · intro part hpart
    rcases part_of_append hpart with hin | ⟨part₂, rfl, hpart₂⟩
    · exact h₁.bounds part hin
    · have hbounds := h₂.bounds part₂ hpart₂
      simp only [List.count_append]
      omega
  · intro part hpart
    rcases part_of_append hpart with hin | ⟨part₂, heq, hpart₂⟩
    · exact h₁.settled part hin
    · rcases List.eq_nil_or_concat part₂ with rfl | ⟨part₃, last, rfl⟩
      · rw [List.append_nil] at heq
        exact h₁.settled part (heq ▸ List.prefix_rfl)
      · -- the `c` that ends the part stands in the second word
        rw [List.concat_eq_append, ← List.append_assoc] at heq
        obtain ⟨rfl, hlast⟩ := List.append_inj' heq rfl
        cases hlast
        have hsettled := h₂.settled part₃ (List.concat_eq_append ▸ hpart₂)
        simp only [List.count_append]
        omega

/-- **A word any number of times.** -/
theorem Alternates.repeat {l : List δ} (h : Alternates a b c l) (hclosed : l.count a = l.count b)
    (k : ℕ) : Alternates a b c (List.replicate k l).flatten ∧
      (List.replicate k l).flatten.count a = (List.replicate k l).flatten.count b := by
  induction k with
  | zero => exact ⟨alternates_of_absent List.not_mem_nil List.not_mem_nil, rfl⟩
  | succ k ih =>
    rw [List.replicate_succ, List.flatten_cons]
    exact ⟨h.append hclosed ih.1, by rw [List.count_append, List.count_append, hclosed, ih.2]⟩

/-- **A word that has each letter at most once**, and `a` before `b`. -/
theorem alternates_of_nodup {l : List δ} (hnodup : l.Nodup) (hab : [a, b].Sublist l) (hc : c ∉ l) :
    Alternates a b c l ∧ l.count a = l.count b := by
  have ha : a ∈ l := hab.subset List.mem_cons_self
  have hb : b ∈ l := hab.subset (by simp)
  constructor
  · constructor
    · intro part hpart
      have hcount : ∀ x, part.count x ≤ 1 := fun x =>
        Nat.le_trans (hpart.sublist.count_le x) (List.nodup_iff_count_le_one.mp hnodup x)
      refine ⟨?_, Nat.le_trans (hcount a) (Nat.le_add_left _ _)⟩
      by_cases hmem : b ∈ part
      · -- `b` stands behind `a`, so a part that has `b` has `a`
        obtain ⟨front, rest, rfl, hfront, hrest⟩ := List.cons_sublist_iff.mp hab
        have hbrest : b ∈ rest := List.singleton_sublist.mp hrest
        have hapart : a ∈ part := by
          rcases part_of_append hpart with hin | ⟨part₂, rfl, -⟩
          · exact absurd hbrest ((List.nodup_append'.mp hnodup).2.2 (hin.subset hmem))
          · exact List.mem_append_left _ hfront
        exact Nat.le_trans (hcount b) (List.one_le_count_iff.mpr hapart)
      · rw [List.count_eq_zero.mpr hmem]
        exact Nat.zero_le _
    · intro part hpart
      exact absurd (hpart.subset (by simp)) hc
  · rw [List.count_eq_one_of_mem hnodup ha, List.count_eq_one_of_mem hnodup hb]

end Flood.Alternation
