import Flood.CString

/-!
# Lines and messages

A head of lines, each closed by CRLF, an empty line, and whatever follows it.

* `splitHead_message` — a head of non-empty lines is split off at the first empty line, whatever
  follows.
* `lines_joinWith` — the head falls apart into the lines it was made of.
-/

namespace Flood.HttpText

open Flood.CString

/-- A line holds neither CR nor LF. -/
def IsLine (l : Bytes) : Prop := CR ∉ l ∧ LF ∉ l

instance (l : Bytes) : Decidable (IsLine l) := inferInstanceAs (Decidable (_ ∧ _))

/-- The lines, each closed by CRLF. -/
def unlines (ls : List Bytes) : Bytes := ls.flatMap (· ++ CRLF)

/-- The pieces, with the separator between any two. -/
def joinWith (sep : Bytes) : List Bytes → Bytes
  | [] => []
  | [l] => l
  | l :: ls => l ++ sep ++ joinWith sep ls

/-- A head of lines, an empty line, and the body. -/
def message (ls : List Bytes) (body : Bytes) : Bytes := unlines ls ++ CRLF ++ body

/-- What stands before and behind the first CRLF CRLF. -/
def splitHead : Bytes → Option (Bytes × Bytes)
  | [] => none
  | c :: m =>
    if (CRLF ++ CRLF).isPrefixOf (c :: m) then some ([], m.drop 3)
    else (splitHead m).map fun (head, rest) => (c :: head, rest)

/-- The pieces between the CRLFs. -/
def lines : Bytes → List Bytes
  | [] => [[]]
  | [c] => [[c]]
  | c :: d :: m =>
    if c = CR ∧ d = LF then [] :: lines m
    else
      match lines (d :: m) with
      | [] => [[c]]
      | l :: ls => (c :: l) :: ls

theorem unlines_cons (l : Bytes) (ls : List Bytes) :
    unlines (l :: ls) = l ++ CRLF ++ unlines ls := by
  simp [unlines]

theorem unlines_append (ls ls' : List Bytes) : unlines (ls ++ ls') = unlines ls ++ unlines ls' := by
  simp [unlines]

theorem joinWith_cons (sep l : Bytes) {ls : List Bytes} (h : ls ≠ []) :
    joinWith sep (l :: ls) = l ++ sep ++ joinWith sep ls := by
  cases ls with
  | nil => exact absurd rfl h
  | cons => rfl

/-- A line is a line when its parts are. -/
theorem isLine_append {a b : Bytes} : IsLine (a ++ b) ↔ IsLine a ∧ IsLine b := by
  simp only [IsLine, List.mem_append, not_or]
  constructor
  · intro h
    exact ⟨⟨h.1.1, h.2.1⟩, h.1.2, h.2.2⟩
  · intro h
    exact ⟨⟨h.1.1, h.2.1⟩, h.1.2, h.2.2⟩

/-! ### Splitting off the head -/

theorem splitHead_cons {c : UInt8} (h : c ≠ CR) (m : Bytes) :
    splitHead (c :: m) = (splitHead m).map fun (head, rest) => (c :: head, rest) := by
  have hne : (CR == c) = false := by simpa using fun hc : CR = c => h hc.symm
  simp [splitHead, CRLF, List.isPrefixOf, hne]

/-- The search goes past what holds no CR. -/
theorem splitHead_append {l : Bytes} (h : CR ∉ l) (m : Bytes) :
    splitHead (l ++ m) = (splitHead m).map fun (head, rest) => (l ++ head, rest) := by
  induction l with
  | nil => simp
  | cons c l ih =>
    have hc : c ≠ CR := fun hc => h (hc ▸ List.mem_cons_self)
    rw [List.cons_append, splitHead_cons hc, ih fun hl => h (List.mem_cons_of_mem _ hl),
      Option.map_map]
    rfl

/-- The search goes past a CRLF that a line follows. -/
theorem splitHead_CRLF {c : UInt8} (h : c ≠ CR) (m : Bytes) :
    splitHead (CRLF ++ c :: m) =
      (splitHead (c :: m)).map fun (head, rest) => (CRLF ++ head, rest) := by
  have hne : (CR == c) = false := by simpa using fun hc : CR = c => h hc.symm
  have hlf : LF ≠ CR := by decide
  have hfirst : (CRLF ++ CRLF).isPrefixOf (CR :: LF :: c :: m) = false := by
    simp [CRLF, List.isPrefixOf, hne]
  show splitHead (CR :: LF :: c :: m) = _
  rw [splitHead, hfirst, if_neg Bool.false_ne_true, splitHead_cons hlf, Option.map_map]
  rfl

/-- The first CRLF CRLF ends the head. -/
theorem splitHead_end (body : Bytes) : splitHead (CRLF ++ (CRLF ++ body)) = some ([], body) := by
  simp [splitHead, CRLF, List.isPrefixOf]

/-- **The head of a message** is what its lines make, whatever the body holds. -/
theorem splitHead_message {ls : List Bytes} (hne : ls ≠ [])
    (hls : ∀ l ∈ ls, l ≠ [] ∧ IsLine l) (body : Bytes) :
    splitHead (message ls body) = some (joinWith CRLF ls, body) := by
  induction ls with
  | nil => exact absurd rfl hne
  | cons l ls ih =>
    have hl := hls l List.mem_cons_self
    have hsplit : message (l :: ls) body = l ++ (CRLF ++ message ls body) := by
      simp only [message, unlines_cons, List.append_assoc]
    rw [hsplit, splitHead_append hl.2.1]
    cases ls with
    | nil =>
      have hend : splitHead (CRLF ++ message [] body) = some ([], body) := splitHead_end body
      rw [hend]
      simp [joinWith]
    | cons l' ls =>
      have htail := ih (List.cons_ne_nil _ _) fun x hx => hls x (List.mem_cons_of_mem _ hx)
      obtain ⟨c, l'', rfl⟩ := List.exists_cons_of_ne_nil (hls l' (by simp)).1
      have hc : c ≠ CR := fun hc => (hls (c :: l'') (by simp)).2.1 (hc ▸ List.mem_cons_self)
      have hmessage : message ((c :: l'') :: ls) body =
          c :: (l'' ++ CRLF ++ unlines ls ++ CRLF ++ body) := by
        simp [message, unlines_cons]
      rw [hmessage] at htail ⊢
      rw [splitHead_CRLF hc, htail]
      simp [joinWith_cons CRLF l (List.cons_ne_nil _ _)]

/-! ### The lines of the head -/

theorem lines_ne_nil (m : Bytes) : lines m ≠ [] := by
  fun_induction lines m with
  | case1 => exact List.cons_ne_nil _ _
  | case2 c => exact List.cons_ne_nil _ _
  | case3 c d m h ih => exact List.cons_ne_nil _ _
  | case4 c d m h hnil ih => exact List.cons_ne_nil _ _
  | case5 c d m h l ls hcons ih => exact List.cons_ne_nil _ _

/-- A character other than CR belongs to the first piece. -/
theorem lines_cons {c : UInt8} (h : c ≠ CR) (m : Bytes) :
    ∃ l ls, lines m = l :: ls ∧ lines (c :: m) = (c :: l) :: ls := by
  obtain ⟨l, ls, hls⟩ := List.exists_cons_of_ne_nil (lines_ne_nil m)
  refine ⟨l, ls, hls, ?_⟩
  cases m with
  | nil =>
    cases hls
    rfl
  | cons d m =>
    have hno : ¬ (c = CR ∧ d = LF) := fun hc => h hc.1
    rw [lines, if_neg hno, hls]

/-- What holds no CR belongs to the first piece. -/
theorem lines_append {l : Bytes} (h : CR ∉ l) (m : Bytes) :
    ∃ l' ls, lines m = l' :: ls ∧ lines (l ++ m) = (l ++ l') :: ls := by
  induction l with
  | nil =>
    obtain ⟨l', ls, hls⟩ := List.exists_cons_of_ne_nil (lines_ne_nil m)
    exact ⟨l', ls, hls, hls⟩
  | cons c l ih =>
    have hc : c ≠ CR := fun hc => h (hc ▸ List.mem_cons_self)
    obtain ⟨l', ls, hm, hlm⟩ := ih fun hl => h (List.mem_cons_of_mem _ hl)
    obtain ⟨l'', ls', heq, hcons⟩ := lines_cons hc (l ++ m)
    rw [hlm, List.cons.injEq] at heq
    exact ⟨l', ls, hm, by rw [List.cons_append, hcons, ← heq.1, ← heq.2]; rfl⟩

/-- A line that CRLF closes is a piece. -/
theorem lines_append_CRLF {l : Bytes} (h : IsLine l) (m : Bytes) :
    lines (l ++ CRLF ++ m) = l :: lines m := by
  have hcrlf : lines (CRLF ++ m) = [] :: lines m := by
    show lines (CR :: LF :: m) = _
    rw [lines, if_pos ⟨rfl, rfl⟩]
  obtain ⟨l', ls, hrest, hlines⟩ := lines_append h.1 (CRLF ++ m)
  rw [hcrlf, List.cons.injEq] at hrest
  rw [List.append_assoc, hlines, ← hrest.1, ← hrest.2, List.append_nil]

/-- Behind the last of the closed lines there is an empty piece. -/
theorem lines_unlines {ls : List Bytes} (h : ∀ l ∈ ls, IsLine l) :
    lines (unlines ls) = ls ++ [[]] := by
  induction ls with
  | nil => rfl
  | cons l ls ih =>
    rw [List.forall_mem_cons] at h
    rw [unlines_cons, lines_append_CRLF h.1, ih h.2, List.cons_append]

/-- Closed lines determine the text, and the text the lines. -/
theorem unlines_injective {ls ls' : List Bytes} (h : ∀ l ∈ ls, IsLine l)
    (h' : ∀ l ∈ ls', IsLine l) (heq : unlines ls = unlines ls') : ls = ls' := by
  have hlines := congrArg lines heq
  rw [lines_unlines h, lines_unlines h'] at hlines
  exact List.append_cancel_right hlines

/-- **The pieces of joined lines** are the lines. -/
theorem lines_joinWith {ls : List Bytes} (hne : ls ≠ []) (hls : ∀ l ∈ ls, IsLine l) :
    lines (joinWith CRLF ls) = ls := by
  induction ls with
  | nil => exact absurd rfl hne
  | cons l ls ih =>
    have hl := hls l List.mem_cons_self
    cases ls with
    | nil =>
      obtain ⟨l', ls', hnil, hlines⟩ := lines_append hl.1 []
      cases hnil
      simpa [joinWith] using hlines
    | cons l₂ ls =>
      have htail := ih (List.cons_ne_nil _ _) fun x hx => hls x (List.mem_cons_of_mem _ hx)
      rw [joinWith_cons CRLF l (List.cons_ne_nil _ _), lines_append_CRLF hl, htail]

end Flood.HttpText
