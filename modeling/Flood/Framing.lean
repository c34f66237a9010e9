import Mathlib.Data.List.Basic

/-!
# Streams of frames

Items are written into a stream one behind the other, each as a frame.  A reader takes items off the
front of the stream as far as it holds whole frames.

* `readStream_frames` — the reader gets back the items, and what follows them stays behind, where it
  holds no frame.
* `read_cut` — a frame that was cut off in the middle is none.
* `readStream_cut` — so the items are read back also from a stream that ends within a frame.
-/

namespace Flood.Framing

variable {α β : Type}

/-- Takes one item off the front of a stream. -/
abbrev Reader (α β : Type) := List α → Option (β × List α)

/-- A reader does not look behind the frame that it takes, and takes something. -/
structure Sound (read : Reader α β) : Prop where
  extend : ∀ s x rest more, read s = some (x, rest) → read (s ++ more) = some (x, rest ++ more)
  consumes : ∀ s x rest, read s = some (x, rest) → rest.length < s.length

/-- The text is the frame of the item. -/
def Frames (read : Reader α β) (frame : List α) (x : β) : Prop := read frame = some (x, [])

/-- The items at the front of a stream, at most so many, and what is left of it. -/
def readItems (read : Reader α β) : ℕ → List α → List β × List α
  | 0, s => ([], s)
  | n + 1, s =>
    match read s with
    | none => ([], s)
    | some (x, rest) => (x :: (readItems read n rest).1, (readItems read n rest).2)

/-- All the items at the front of a stream, and what is left of it: no item is shorter than one
element. -/
def readStream (read : Reader α β) (s : List α) : List β × List α := readItems read s.length s

variable {read : Reader α β}

theorem Sound.read_nil (h : Sound read) : read [] = none := by
  cases hread : read [] with
  | none => rfl
  | some p => exact absurd (h.consumes [] p.1 p.2 hread) (Nat.not_lt_zero _)

theorem Frames.read_append (h : Sound read) {frame : List α} {x : β} (hframe : Frames read frame x)
    (more : List α) : read (frame ++ more) = some (x, more) := h.extend _ _ _ more hframe

theorem Frames.pos (h : Sound read) {frame : List α} {x : β} (hframe : Frames read frame x) :
    0 < frame.length := h.consumes _ _ _ hframe

/-- **A frame that is cut off** is none. -/
theorem read_cut (h : Sound read) {frame part : List α} {x : β} (hframe : Frames read frame x)
    (hpart : part <+: frame) (hne : part ≠ frame) : read part = none := by
  obtain ⟨more, rfl⟩ := hpart
  cases hread : read part with
  | none => rfl
  | some p =>
    obtain ⟨y, rest⟩ := p
    have hwhole := h.extend _ _ _ more hread
    rw [hframe, Option.some.injEq, Prod.mk.injEq] at hwhole
    have hmore : more = [] := (List.append_eq_nil_iff.mp hwhole.2.symm).2
    rw [hmore, List.append_nil] at hne
    exact absurd rfl hne

/-- **The items are read back** from their frames. -/
theorem readStream_frames (h : Sound read) {frames : List (List α)} {xs : List β}
    (hframes : List.Forall₂ (Frames read) frames xs) {left : List α} (hleft : read left = none) :
    readStream read (frames.flatten ++ left) = (xs, left) := by
  -- any number of rounds from the length of the stream on will do
  have hrounds : ∀ n, (frames.flatten ++ left).length ≤ n →
      readItems read n (frames.flatten ++ left) = (xs, left) := by
    induction hframes with
    | nil =>
      intro n _
      cases n with
      | zero => rfl
      | succ n =>
        show readItems read (n + 1) left = ([], left)
        rw [readItems, hleft]
    | @cons frame x frames xs hframe _ ih =>
      intro n hn
      have hpos := hframe.pos h
      rw [List.flatten_cons, List.append_assoc] at hn ⊢
      rw [List.length_append] at hn
      cases n with
      | zero => omega
      | succ n =>
        rw [readItems, hframe.read_append h]
        dsimp only
        rw [ih n (by omega)]
  exact hrounds _ (Nat.le_refl _)

/-- **A stream that ends within a frame** holds the items of the frames before. -/
theorem readStream_cut (h : Sound read) {frames : List (List α)} {xs : List β}
    (hframes : List.Forall₂ (Frames read) frames xs) {frame part : List α} {x : β}
    (hframe : Frames read frame x) (hpart : part <+: frame) (hne : part ≠ frame) :
    readStream read (frames.flatten ++ part) = (xs, part) :=
  readStream_frames h hframes (read_cut h hframe hpart hne)

end Flood.Framing
