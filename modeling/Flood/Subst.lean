import Flood.Net

/-!
# Substitution files

The records that bind a substitution variable to a file, the choice of a random line of that file
and the decoding of the escape sequences a line may contain.
-/

namespace Flood.Subst

open Flood.CString Flood.Net

def SUBST_FILE_ARR_MAX : ℕ := 10

/-- `subst_rec_t`; `file` is the content of the opened file. -/
structure SubstRec where
  substVar : Option Bytes
  substFileName : Option Bytes
  file : Bytes
  fsize : ℕ
  valid : Bool
  deriving DecidableEq

/-- The loop of `subst_file_get`: `strcmp` dereferences every `subst_var` it comes to, and the
array ends with an entry whose `subst_var` is NULL. -/
def substFileGetFrom (varname : Bytes) : ℕ → List SubstRec → Except Abort (Option SubstRec)
  | 0, _ => .ok none
  | _ + 1, [] => .error .fault
  | n + 1, r :: list =>
    match r.substVar with
    | none => .error .fault
    | some v => if v = varname ∧ r.valid then .ok (some r) else substFileGetFrom varname n list

/-- `subst_file_get`, on a list that may be NULL. -/
def substFileGet (varname : Bytes) : Option (List SubstRec) → Except Abort (Option SubstRec)
  | none => .error .fault
  | some list => substFileGetFrom varname SUBST_FILE_ARR_MAX list

/-- `apr_file_gets` with room for `n` bytes: the line read, with its newline, and the rest. -/
def aprFileGets : ℕ → Bytes → Bytes × Bytes
  | 0, s => ([], s)
  | _ + 1, [] => ([], [])
  | n + 1, c :: s =>
    if c = LF then ([c], s)
    else
      let (line, rest) := aprFileGets n s
      (c :: line, rest)

/-- `subst_file_entry_get`: seek to a random offset, drop what is left of that line and take the
next one, going back to the start at the end of the file. -/
def substFileEntryGet (r : SubstRec) (random lineSize : ℕ) : Except Abort Bytes :=
  if lineSize = 0 ∨ r.fsize = 0 then .error .assertion
  else
    let behind := (aprFileGets (lineSize - 1) (r.file.drop (random % r.fsize))).2
    let next := (aprFileGets (lineSize - 1) behind).1
    let line := cstr (if next = [] then (aprFileGets (lineSize - 1) r.file).1 else next)
    if line = [] then .error .fault else .ok line.dropLast

/-! ### Escape sequences -/

/-- The macro `IS_NUM`. -/
def isNum (c : UInt8) : Bool := 48 ≤ c ∧ c ≤ 57

def numVal (c : UInt8) : ℕ := c.toNat - 48

/-- What a numeric escape writes: the character with that number, `\0` for the number 0. -/
def putNum (num : ℕ) : Bytes := if num ≠ 0 then [num.toUInt8] else [92, 48]

/-- What an escaped character that is no digit stands for. -/
def escaped (c : UInt8) : UInt8 :=
  if c = 110 then LF else if c = 114 then CR else if c = 116 then 9 else c

/-- One `if (IS_NUM(*from))` behind the first digit of a numeric escape. -/
def moreNum : ℕ × Bytes → ℕ × Bytes
  | (num, []) => (num, [])
  | (num, c :: s) => if isNum c then (num * 10 + numVal c, s) else (num, c :: s)

/-- The body of the loop at the character `c`: the bytes written and the string left to read. -/
def unescapeRound (c : UInt8) (s : Bytes) : Bytes × Bytes :=
  if c ≠ 92 then ([c], s)
  else
    match s with
    | [] => ([], [])
    | d :: s =>
      if isNum d then
        let (num, rest) := moreNum (moreNum (numVal d, s))
        (putNum num, rest)
      else ([escaped d], s)

/-- The loop, at most `n` rounds of it. -/
def unescapeLoop : ℕ → Bytes → Bytes
  | 0, _ => []
  | _ + 1, [] => []
  | n + 1, c :: s =>
    let (out, rest) := unescapeRound c s
    out ++ unescapeLoop n rest

/-- `subst_file_entry_unescape` on a C string: the bytes the loop writes before the terminator.
The source decodes in place, its write pointer never passing its read pointer; a round reads at
least one character, so the length of the string bounds the rounds. -/
def substFileEntryUnescape (line : Bytes) : Bytes := unescapeLoop line.length line

/-! ### Reading a line -/

/-- A line that fits is read with its newline. -/
theorem aprFileGets_line {line : Bytes} (hlf : LF ∉ line) {n : ℕ} (hn : line.length < n)
    (rest : Bytes) : aprFileGets n (line ++ LF :: rest) = (line ++ [LF], rest) := by
  induction line generalizing n with
  | nil =>
    obtain ⟨m, rfl⟩ : ∃ m, n = m + 1 := ⟨n - 1, by omega⟩
    rfl
  | cons c line ih =>
    obtain ⟨m, rfl⟩ : ∃ m, n = m + 1 := ⟨n - 1, by omega⟩
    have hc : c ≠ LF := fun h => hlf (by simp [h])
    simp only [List.cons_append, aprFileGets, if_neg hc,
      ih (fun h => hlf (List.mem_cons_of_mem _ h)) (by simpa using hn)]

/-- What is left of a file without a newline is read as a whole. -/
theorem aprFileGets_rest {line : Bytes} (hlf : LF ∉ line) {n : ℕ} (hn : line.length ≤ n) :
    aprFileGets n line = (line, []) := by
  induction line generalizing n with
  | nil => cases n <;> rfl
  | cons c line ih =>
    obtain ⟨m, rfl⟩ : ∃ m, n = m + 1 := ⟨n - 1, by simp only [List.length_cons] at hn; omega⟩
    have hc : c ≠ LF := fun h => hlf (by simp [h])
    simp only [aprFileGets, if_neg hc,
      ih (fun h => hlf (List.mem_cons_of_mem _ h)) (by simpa using hn)]

/-! ### The unescape loop -/

theorem moreNum_length_le (p : ℕ × Bytes) : (moreNum p).2.length ≤ p.2.length := by
  rcases p with ⟨num, _ | ⟨c, s⟩⟩
  · rfl
  · simp only [moreNum]
    split <;> simp

theorem unescapeRound_length_le (c : UInt8) (s : Bytes) :
    (unescapeRound c s).2.length ≤ s.length := by
  unfold unescapeRound
  split
  · exact le_rfl
  · split
    · exact le_rfl
    · next d s =>
      split
      · exact Nat.le_succ_of_le ((moreNum_length_le _).trans (moreNum_length_le _))
      · simp

/-- Rounds beyond the length of the string change nothing. -/
theorem unescapeLoop_eq {n m : ℕ} {s : Bytes} (hn : s.length ≤ n) (hm : s.length ≤ m) :
    unescapeLoop n s = unescapeLoop m s := by
  induction n generalizing m s with
  | zero =>
    obtain rfl : s = [] := List.length_eq_zero_iff.mp (Nat.le_zero.mp hn)
    cases m <;> rfl
  | succ n ih =>
    cases s with
    | nil => cases m <;> rfl
    | cons c s =>
      simp only [List.length_cons] at hn hm
      obtain ⟨m, rfl⟩ : ∃ m', m = m' + 1 := ⟨m - 1, by omega⟩
      have hlen := unescapeRound_length_le c s
      simp only [unescapeLoop]
      rw [ih (m := m) (by omega) (by omega)]

@[simp] theorem unescape_nil : substFileEntryUnescape [] = [] := rfl

/-- One round of the loop. -/
theorem unescape_cons (c : UInt8) (s : Bytes) :
    substFileEntryUnescape (c :: s) =
      (unescapeRound c s).1 ++ substFileEntryUnescape (unescapeRound c s).2 := by
  have hlen := unescapeRound_length_le c s
  simp only [substFileEntryUnescape, List.length_cons, unescapeLoop]
  rw [unescapeLoop_eq hlen le_rfl]

/-- A character other than the backslash is copied. -/
theorem unescape_cons_plain {c : UInt8} (h : c ≠ 92) (s : Bytes) :
    substFileEntryUnescape (c :: s) = c :: substFileEntryUnescape s := by
  have hround : unescapeRound c s = ([c], s) := by
    unfold unescapeRound
    rw [if_pos h]
  rw [unescape_cons, hround, List.singleton_append]

/-- Text without a backslash is left alone, and what follows it is decoded as if it stood alone. -/
theorem unescape_append_plain {t : Bytes} (h : 92 ∉ t) (s : Bytes) :
    substFileEntryUnescape (t ++ s) = t ++ substFileEntryUnescape s := by
  induction t with
  | nil => rfl
  | cons c t ih =>
    have hc : c ≠ 92 := fun e => h (by simp [e])
    rw [List.cons_append, unescape_cons_plain hc, ih fun e => h (List.mem_cons_of_mem _ e),
      List.cons_append]

theorem unescape_plain {t : Bytes} (h : 92 ∉ t) : substFileEntryUnescape t = t := by
  simpa using unescape_append_plain h []

end Flood.Subst
