import Mathlib.Data.List.Basic
import Mathlib.Data.Nat.Init

/-!
# The pieces of a list between separators

`l.splitOn c` are the pieces of a list between the places where `c` stands.

* `pieces_rec` — induction from one separator to the next.
* `length_splitOn` — there is one piece more than there are separators.
* `getElem?_splitOn` — piece number `k` is what stands behind `k` separators, up to the next one.
* `splitOn_filled` — splitting what was joined with a separator and some filling behind it.
* `splitOn_terminated` — splitting pieces that have a separator behind each.
-/

namespace Flood.Pieces

variable {α : Type*} [BEq α] [LawfulBEq α] {c : α} {k : ℕ} {l first rest piece : List α}

/-- `piece` is free of `c` and stands in `l` behind `k` places with a `c`: it begins at the start or
right behind a `c`, and goes on to the next or to the end. -/
def IsPiece (c : α) (l : List α) (k : ℕ) (piece : List α) : Prop :=
  ∃ before behind, l = before ++ piece ++ behind ∧ c ∉ piece ∧ before.count c = k ∧
    (before = [] ∨ ∃ b, before = b ++ [c]) ∧ (behind = [] ∨ ∃ b, behind = c :: b)

/-- **Induction along the separators**: a list without any, and a list with a first one. -/
@[elab_as_elim]
theorem pieces_rec (c : α) {motive : List α → Prop} (last : ∀ l, c ∉ l → motive l)
    (cut : ∀ first rest, c ∉ first → motive rest → motive (first ++ c :: rest)) (l : List α) :
    motive l := by
  induction hn : l.length using Nat.strong_induction_on generalizing l with
  | _ n ih =>
    by_cases hmem : c ∈ l
    · obtain ⟨first, rest, rfl, hfirst⟩ := List.eq_append_cons_of_mem hmem
      refine cut first rest hfirst (ih rest.length ?_ rest rfl)
      rw [← hn, List.length_append, List.length_cons]
      omega
    · exact last l hmem

theorem length_splitOn (c : α) (l : List α) : (l.splitOn c).length = l.count c + 1 := by
  induction l using pieces_rec c with
  | last l h => rw [List.splitOn_eq_singleton h, List.count_eq_zero.mpr h, List.length_singleton]
  | cut first rest h ih =>
    rw [List.splitOn_append_cons_self_of_not_mem h, List.length_cons, ih, List.count_append,
      List.count_cons_self, List.count_eq_zero.mpr h, Nat.zero_add]

/-- The elements of a piece are elements of the list. -/
theorem mem_of_mem_splitOn {x : α} (hpiece : piece ∈ l.splitOn c) (hx : x ∈ piece) : x ∈ l := by
  induction l using pieces_rec c with
  | last l h =>
    rw [List.splitOn_eq_singleton h, List.mem_singleton] at hpiece
    exact hpiece ▸ hx
  | cut first rest h ih =>
    rw [List.splitOn_append_cons_self_of_not_mem h, List.mem_cons] at hpiece
    obtain rfl | hpiece := hpiece
    · exact List.mem_append_left _ hx
    · exact List.mem_append_right _ (List.mem_cons_of_mem c (ih hpiece))

/-! ### The piece behind some separators -/

/-- The first separator is at one place only. -/
theorem append_cons_inj {first' rest' : List α} (h : c ∉ first) (h' : c ∉ first')
    (heq : first ++ c :: rest = first' ++ c :: rest') : first = first' ∧ rest = rest' := by
  have hsplit := congrArg (List.splitOn c) heq
  rw [List.splitOn_append_cons_self_of_not_mem h, List.splitOn_append_cons_self_of_not_mem h']
    at hsplit
  obtain ⟨rfl, -⟩ := List.cons.inj hsplit
  exact ⟨rfl, (List.cons.inj (List.append_cancel_left heq)).2⟩

omit [LawfulBEq α] in
theorem isPiece_last (h : c ∉ l) : IsPiece c l k piece ↔ k = 0 ∧ piece = l := by
  constructor
  · rintro ⟨before, behind, rfl, -, rfl, hbefore, hbehind⟩
    simp only [List.mem_append, not_or] at h
    obtain rfl | ⟨b, rfl⟩ := hbefore
    · obtain rfl | ⟨b, rfl⟩ := hbehind
      · simp
      · simp at h
    · simp at h
  · rintro ⟨rfl, rfl⟩
    exact ⟨[], [], by simp, h, rfl, .inl rfl, .inl rfl⟩

theorem isPiece_first (h : c ∉ first) : IsPiece c (first ++ c :: rest) 0 piece ↔ piece = first := by
  constructor
  · rintro ⟨before, behind, heq, hpiece, hzero, hbefore, hbehind⟩
    obtain rfl | ⟨b, rfl⟩ := hbefore
    · rw [List.nil_append] at heq
      obtain rfl | ⟨b, rfl⟩ := hbehind
      · rw [List.append_nil] at heq
        exact absurd (heq ▸ by simp) hpiece
      · exact (append_cons_inj h hpiece heq).1.symm
    · exact absurd (by simp) (List.count_eq_zero.mp hzero)
  · rintro rfl
    exact ⟨[], c :: rest, rfl, h, rfl, .inl rfl, .inr ⟨rest, rfl⟩⟩

theorem isPiece_next (h : c ∉ first) :
    IsPiece c (first ++ c :: rest) (k + 1) piece ↔ IsPiece c rest k piece := by
  constructor
  · rintro ⟨before, behind, heq, hpiece, hcount, hbefore, hbehind⟩
    have hmem : c ∈ before := List.count_pos_iff.mp (by omega)
    obtain ⟨b, b', rfl, hb⟩ := List.eq_append_cons_of_mem hmem
    simp only [List.append_assoc, List.cons_append] at heq
    obtain ⟨rfl, rfl⟩ := append_cons_inj h hb heq
    refine ⟨b', behind, by simp, hpiece, ?_, ?_, hbehind⟩
    · rw [List.count_append, List.count_cons_self, List.count_eq_zero.mpr hb] at hcount
      omega
    · obtain rfl | ⟨s, x, rfl⟩ := List.eq_nil_or_concat' b'
      · exact .inl rfl
      · obtain hnil | ⟨t, ht⟩ := hbefore
        · simp at hnil
        · rw [← List.cons_append, ← List.append_assoc] at ht
          obtain ⟨-, hx⟩ := List.append_inj' ht rfl
          exact .inr ⟨s, by rw [hx]⟩
  · rintro ⟨before, behind, rfl, hpiece, rfl, hbefore, hbehind⟩
    refine ⟨first ++ c :: before, behind, by simp, hpiece, ?_, ?_, hbehind⟩
    · rw [List.count_append, List.count_cons_self, List.count_eq_zero.mpr h, Nat.zero_add]
    · obtain rfl | ⟨b, rfl⟩ := hbefore
      · exact .inr ⟨first, rfl⟩
      · exact .inr ⟨first ++ c :: b, by simp⟩

/-- **The pieces of a list** are what stands between its separators, in this order. -/
theorem getElem?_splitOn : (l.splitOn c)[k]? = some piece ↔ IsPiece c l k piece := by
  induction l using pieces_rec c generalizing k with
  | last l h =>
    rw [List.splitOn_eq_singleton h, isPiece_last h]
    cases k with
    | zero => simp [eq_comm]
    | succ k => simp
  | cut first rest h ih =>
    rw [List.splitOn_append_cons_self_of_not_mem h]
    cases k with
    | zero => rw [isPiece_first h, List.getElem?_cons_zero, Option.some.injEq, eq_comm]
    | succ k => rw [isPiece_next h, List.getElem?_cons_succ, ih]

/-! ### Joined pieces -/

omit [BEq α] [LawfulBEq α] in
/-- What is neither in the pieces nor between them is not in the joined list. -/
theorem not_mem_intercalate {x : α} {sep : List α} {pieces : List (List α)} (hsep : x ∉ sep)
    (hpieces : ∀ piece ∈ pieces, x ∉ piece) : x ∉ sep.intercalate pieces := by
  induction pieces with
  | nil => simp
  | cons first pieces ih =>
    obtain ⟨hfirst, hrest⟩ := List.forall_mem_cons.mp hpieces
    cases pieces with
    | nil => simpa using hfirst
    | cons next pieces =>
      rw [List.intercalate_cons_cons, List.mem_append, List.mem_append]
      rintro ((hmem | hmem) | hmem)
      · exact hfirst hmem
      · exact hsep hmem
      · exact ih hrest hmem

omit [BEq α] [LawfulBEq α] in
/-- A filling behind the separators belongs to the pieces that follow. -/
theorem intercalate_filled (c : α) (filling : List α) (first : List α) (pieces : List (List α)) :
    (c :: filling).intercalate (first :: pieces) =
      [c].intercalate (first :: pieces.map (filling ++ ·)) := by
  induction pieces generalizing first with
  | nil => simp
  | cons next pieces ih =>
    rw [List.map_cons, List.intercalate_cons_cons, List.intercalate_cons_cons, ih]
    cases pieces with
    | nil => simp
    | cons _ _ => simp

/-- **Splitting a joined list** gives the pieces back, all but the first behind the filling. -/
theorem splitOn_filled {filling : List α} {pieces : List (List α)} (hfilling : c ∉ filling)
    (hfirst : c ∉ first) (hpieces : ∀ piece ∈ pieces, c ∉ piece) :
    ((c :: filling).intercalate (first :: pieces)).splitOn c =
      first :: pieces.map (filling ++ ·) := by
  rw [intercalate_filled]
  refine List.splitOn_intercalate c ?_ (List.cons_ne_nil _ _)
  rw [List.forall_mem_cons]
  refine ⟨hfirst, fun piece hmem => ?_⟩
  obtain ⟨p, hp, rfl⟩ := List.mem_map.mp hmem
  rw [List.mem_append, not_or]
  exact ⟨hfilling, hpieces p hp⟩

/-- Pieces, each with a separator behind it. -/
def terminated {β : Type*} (c : β) (pieces : List (List β)) : List β := pieces.flatMap (· ++ [c])

/-- **Splitting terminated pieces** gives them back, with the pieces of what stands behind them. -/
theorem splitOn_terminated {pieces : List (List α)} (hpieces : ∀ piece ∈ pieces, c ∉ piece)
    (rest : List α) : (terminated c pieces ++ rest).splitOn c = pieces ++ rest.splitOn c := by
  induction pieces with
  | nil => rfl
  | cons first pieces ih =>
    obtain ⟨hfirst, hothers⟩ := List.forall_mem_cons.mp hpieces
    rw [List.cons_append, ← ih hothers, ← List.splitOn_append_cons_self_of_not_mem hfirst]
    simp [terminated]

end Flood.Pieces
