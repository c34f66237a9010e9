import Mathlib.Algebra.BigOperators.Group.List.Basic
import Mathlib.Algebra.Order.Ring.Int
import Mathlib.Data.List.Induction
import Mathlib.Data.List.TakeWhile
import Mathlib.Tactic.Common

/-!
# C strings over byte lists

A pointer into memory is the list of the bytes from that pointer on, as far as the memory is
known; reading past the list counts as reading a NUL.  A C string is what stands before the first
NUL.  The functions are those of `<string.h>`, `<strings.h>` and `<stdlib.h>` on this view, in the
C locale, together with the conversion of `int` and `long` results.

* `strstr_line` — on a line free of CR and NUL that is closed by CRLF, the search for CRLF stops
  exactly at the line's end, whatever bytes follow.
* `strtol_digits` — on a string of digits below the limit of a `long`, `strtol` returns the value
  and stops at the terminator.
-/

namespace Flood.CString

abbrev Bytes := List UInt8

instance : LawfulBEq Bytes := inferInstanceAs (LawfulBEq (List UInt8))

/-- The bytes of a source literal. -/
def bytes (s : String) : Bytes := s.toList.map fun c => c.toNat.toUInt8

/-- The C string at a pointer: everything before the first NUL. -/
def cstr (m : Bytes) : Bytes := m.takeWhile (· ≠ 0)

def strlen (m : Bytes) : ℕ := (cstr m).length

/-- The `n` bytes a `memcpy` from this pointer copies. -/
def fetch (m : Bytes) (n : ℕ) : Bytes := m.take n ++ List.replicate (n - m.length) 0

/-- Overwrite memory from offset `off` on; bytes stored past the end extend the known memory. -/
def store (m : Bytes) (off : ℕ) (bs : Bytes) : Bytes :=
  fetch m off ++ bs ++ m.drop (off + bs.length)

/-- The byte at an offset. -/
def byteAt (m : Bytes) (i : ℕ) : UInt8 := m.getD i 0

/-! ### Searching -/

/-- `strstr`: the offset of the first occurrence of a non-empty, NUL-free pattern. -/
def strstr (pat : Bytes) : Bytes → Option ℕ
  | [] => none
  | c :: m =>
    if pat.isPrefixOf (c :: m) then some 0
    else if c = 0 then none
    else (strstr pat m).map (· + 1)

/-- `memchr`: the offset of the first `c` among the first `n` bytes. -/
def memchr (c : UInt8) (n : ℕ) (m : Bytes) : Option ℕ := (m.take n).findIdx? (· = c)

/-- `strchr`: the offset of the first `c` before the terminator. -/
def strchr (c : UInt8) (m : Bytes) : Option ℕ := (cstr m).findIdx? (· = c)

def CR : UInt8 := 13
def LF : UInt8 := 10
def CRLF : Bytes := [CR, LF]

/-! ### Comparing -/

def toLower (c : UInt8) : UInt8 := if 65 ≤ c ∧ c ≤ 90 then c + 32 else c

/-- `strcasecmp(a, b) == 0`. -/
def eqIgnoreCase (a b : Bytes) : Bool := (cstr a).map toLower = (cstr b).map toLower

/-- `strncasecmp(a, b, n) == 0`. -/
def eqIgnoreCaseN (n : ℕ) (a b : Bytes) : Bool :=
  ((cstr a).take n).map toLower = ((cstr b).take n).map toLower

/-! ### Converting -/

/-- `isspace` in the C locale. -/
def isSpace (c : UInt8) : Bool := (9 ≤ c ∧ c ≤ 13) ∨ c = 32

/-- The value of an alphanumeric character as a digit, 36 for any other character. -/
def digitVal (c : UInt8) : ℕ :=
  if 48 ≤ c ∧ c ≤ 57 then c.toNat - 48
  else if 97 ≤ c ∧ c ≤ 122 then c.toNat - 87
  else if 65 ≤ c ∧ c ≤ 90 then c.toNat - 55
  else 36

/-- `c` is a digit of the base. -/
def isDigit (base : ℕ) (c : UInt8) : Bool := digitVal c < base

/-- The number a list of digits denotes, most significant digit first. -/
def digitsValue (base : ℕ) (ds : Bytes) : ℕ := ds.foldl (fun acc c => acc * base + digitVal c) 0

def LONG_MAX : ℤ := 2 ^ 63 - 1
def LONG_MIN : ℤ := -2 ^ 63

/-- Out of range conversions saturate. -/
def saturate (v : ℤ) : ℤ := max LONG_MIN (min LONG_MAX v)

/-- The optional sign: whether it is a minus, and what follows. -/
def strtolSign : Bytes → Bool × Bytes
  | [] => (false, [])
  | c :: u => if c = 45 then (true, u) else if c = 43 then (false, u) else (false, c :: u)

/-- Base 16 allows a `0x` before the first digit. -/
def strtolPrefix (base : ℕ) : Bytes → Bytes
  | z :: x :: d :: w =>
    if base = 16 ∧ z = 48 ∧ (x = 120 ∨ x = 88) ∧ isDigit 16 d then d :: w else z :: x :: d :: w
  | u => u

/-- `strtol` (and, the types being of one width here, `strtoll`): the value converted and the
string left at `*endptr`. -/
def strtol (base : ℕ) (s : Bytes) : ℤ × Bytes :=
  let (neg, u) := strtolSign ((cstr s).dropWhile isSpace)
  let v := strtolPrefix base u
  let ds := v.takeWhile (isDigit base)
  if ds = [] then (0, cstr s)
  else (saturate (if neg then -(digitsValue base ds : ℤ) else digitsValue base ds),
    v.dropWhile (isDigit base))

/-- Conversion of a value to a signed integer type of `w` bits. -/
def wrapInt (w : ℕ) (v : ℤ) : ℤ := Int.bmod v (2 ^ w)

/-- Conversion of a value to an unsigned integer type of `w` bits. -/
def wrapNat (w : ℕ) (v : ℤ) : ℕ := (v % 2 ^ w).toNat

/-! ### Facts about memory -/

@[simp] theorem fetch_length (m : Bytes) (n : ℕ) : (fetch m n).length = n := by
  simp only [fetch, List.length_append, List.length_take, List.length_replicate]
  omega

theorem fetch_of_le {m : Bytes} {n : ℕ} (h : n ≤ m.length) : fetch m n = m.take n := by
  simp only [fetch, Nat.sub_eq_zero_of_le h, List.replicate_zero, List.append_nil]

/-- A copy that ends within the first part of the memory. -/
theorem fetch_append {l : Bytes} {n : ℕ} (h : n ≤ l.length) (m : Bytes) :
    fetch (l ++ m) n = l.take n := by
  rw [fetch_of_le (by rw [List.length_append]; omega), List.take_append_of_le_length h]

/-- What was just stored at the start of a buffer is what a copy of that many bytes reads. -/
@[simp] theorem fetch_store (m bs : Bytes) : fetch (store m 0 bs) bs.length = bs := by
  simp [fetch, store]

/-- The byte at an offset, and the memory behind it. -/
theorem byteAt_drop {buf m : Bytes} {i : ℕ} {x : UInt8} (h : buf.drop i = x :: m) :
    byteAt buf i = x ∧ buf.drop (i + 1) = m := by
  constructor
  · have : buf[i]? = some x := by
      rw [← List.head?_drop, h]
      rfl
    simp [byteAt, List.getD_eq_getElem?_getD, this]
  · rw [← List.drop_drop, h]
    rfl

/-! ### Facts about searching -/

theorem isPrefixOf_CRLF_cons {c : UInt8} {m : Bytes} (h : c ≠ CR) :
    CRLF.isPrefixOf (c :: m) = false := by
  have : (CR == c) = false := by simpa using fun hc : CR = c => h hc.symm
  simp only [CRLF, List.isPrefixOf, this, Bool.false_and]

/-- **A CRLF search stops at the end of the line**, whatever follows the line. -/
theorem strstr_line (line rest : Bytes) (hcr : CR ∉ line) (hnul : 0 ∉ line) :
    strstr CRLF (line ++ CRLF ++ rest) = some line.length := by
  induction line with
  | nil => rfl
  | cons c line ih =>
    have hc : c ≠ CR := fun h => hcr (by simp [h])
    have h0 : c ≠ 0 := fun h => hnul (by simp [h])
    have ih' := ih (fun h => hcr (List.mem_cons_of_mem _ h))
      (fun h => hnul (List.mem_cons_of_mem _ h))
    simp only [List.cons_append, strstr, isPrefixOf_CRLF_cons hc, h0, if_false, ih',
      Bool.false_eq_true, Option.map_some, List.length_cons]

theorem findIdx?_of_not_mem (c : UInt8) (l : Bytes) (h : c ∉ l) : l.findIdx? (· = c) = none := by
  rw [List.findIdx?_eq_none_iff]
  intro x hx
  simpa using fun e : x = c => h (e ▸ hx)

theorem findIdx?_append_of_not_mem (c : UInt8) (pre rest : Bytes) (h : c ∉ pre) :
    (pre ++ c :: rest).findIdx? (· = c) = some pre.length := by
  simp [List.findIdx?_append, findIdx?_of_not_mem c pre h, List.findIdx?_cons]

/-- `memchr` over exactly the bytes of `l` does not look at what follows them. -/
theorem memchr_append (c : UInt8) (l rest : Bytes) :
    memchr c l.length (l ++ rest) = l.findIdx? (· = c) := by
  rw [memchr, List.take_left]

/-! ### Facts about comparing -/

theorem eqIgnoreCaseN_iff {n : ℕ} {a b : Bytes} : eqIgnoreCaseN n a b = true ↔
    ((cstr a).map toLower).take n = ((cstr b).map toLower).take n := by
  rw [← List.map_take, ← List.map_take]
  exact decide_eq_true_iff

/-- Strings that are equal are equal as far as one looks. -/
theorem eqIgnoreCaseN_of_eq {a b : Bytes} (h : eqIgnoreCase a b = true) (n : ℕ) :
    eqIgnoreCaseN n a b = true := by
  rw [eqIgnoreCaseN_iff, of_decide_eq_true h]

theorem eqIgnoreCaseN_le {m n : ℕ} (hle : m ≤ n) {a b : Bytes} (h : eqIgnoreCaseN n a b = true) :
    eqIgnoreCaseN m a b = true := by
  rw [eqIgnoreCaseN_iff] at h ⊢
  have htake := congrArg (List.take m) h
  rwa [List.take_take, List.take_take, Nat.min_eq_left hle] at htake

/-- Strings that are looked at as a whole. -/
theorem eqIgnoreCaseN_short {n : ℕ} {a b : Bytes} (ha : strlen a ≤ n) (hb : strlen b ≤ n) :
    eqIgnoreCaseN n a b = eqIgnoreCase a b := by
  unfold eqIgnoreCaseN eqIgnoreCase
  rw [List.take_of_length_le ha, List.take_of_length_le hb]

/-- A string agrees with two others only if they agree. -/
theorem eqIgnoreCaseN_agree {n : ℕ} {a b c : Bytes} (hb : eqIgnoreCaseN n a b = true)
    (hc : eqIgnoreCaseN n a c = true) : eqIgnoreCaseN n b c = true := by
  rw [eqIgnoreCaseN_iff] at hb hc ⊢
  exact hb.symm.trans hc

/-! ### Facts about conversion -/

/-- Digits stand at `'0'` or above, so they are neither NUL, white space, a sign nor CR. -/
theorem digit_ge {base : ℕ} {c : UInt8} (hb : base ≤ 36) (h : isDigit base c) : 48 ≤ c := by
  by_contra hc
  have h97 : ¬ 97 ≤ c := fun h => hc (UInt8.le_trans (by decide) h)
  have h65 : ¬ 65 ≤ c := fun h => hc (UInt8.le_trans (by decide) h)
  simp [isDigit, digitVal, hc, h97, h65] at h
  omega

theorem digit_ne {base : ℕ} {c d : UInt8} (hb : base ≤ 36) (h : isDigit base c)
    (hd : d < 48) : c ≠ d := by
  rintro rfl
  exact absurd (digit_ge hb h) (UInt8.not_le.mpr hd)

theorem isSpace_of_digit {base : ℕ} {c : UInt8} (hb : base ≤ 36) (h : isDigit base c) :
    isSpace c = false := by
  have h13 : ¬ c ≤ 13 := fun hc => absurd (UInt8.le_trans (digit_ge hb h) hc) (by decide)
  simp [isSpace, h13, digit_ne (d := 32) hb h (by decide)]

/-- The letter `x` is a digit of no base up to 16. -/
theorem isDigit_x {base : ℕ} (hb : base ≤ 16) {c : UInt8} (h : c = 120 ∨ c = 88) :
    isDigit base c = false := by
  have h120 : digitVal 120 = 33 := by decide
  have h88 : digitVal 88 = 33 := by decide
  rcases h with rfl | rfl
  · simp [isDigit, h120]; omega
  · simp [isDigit, h88]; omega

/-- `strstr` points at the pattern. -/
theorem strstr_pattern {pat : Bytes} {m : Bytes} {n : ℕ} (h : strstr pat m = some n) :
    pat <+: m.drop n := by
  induction m generalizing n with
  | nil => cases h
  | cons c m ih =>
    rw [strstr] at h
    split at h
    · next hfound =>
      cases h
      exact List.isPrefixOf_iff_prefix.mp hfound
    · split at h
      · cases h
      · obtain ⟨n, hn, rfl⟩ := Option.map_eq_some_iff.mp h
        exact ih hn

/-- A value that a signed type can hold is not changed by the conversion. -/
theorem wrapInt_eq {w : ℕ} {v : ℤ} (hlow : -2 ^ w ≤ v) (hhigh : v < 2 ^ w) :
    wrapInt (w + 1) v = v := by
  have hpow : (2 : ℤ) ^ (w + 1) = 2 * 2 ^ w := by rw [Int.pow_succ, Int.mul_comm]
  unfold wrapInt
  apply Int.bmod_eq_of_le
  · push_cast
    omega
  · push_cast
    omega

theorem wrapInt_of_lt {w : ℕ} {v : ℤ} (h0 : 0 ≤ v) (h : v < 2 ^ w) : wrapInt (w + 1) v = v := by
  have hpos : (0 : ℤ) < 2 ^ w := Int.pow_pos (by decide)
  exact wrapInt_eq (by omega) h

/-- A value of a signed type is below its limit. -/
theorem wrapInt_lt (w : ℕ) (v : ℤ) : wrapInt (w + 1) v < 2 ^ w := by
  have hpow : (2 : ℤ) ^ (w + 1) = 2 * 2 ^ w := by rw [Int.pow_succ, Int.mul_comm]
  have hlt : wrapInt (w + 1) v < ((2 ^ (w + 1) : ℕ) + 1) / 2 :=
    Int.bmod_lt (Nat.pow_pos (by decide))
  push_cast at hlt
  omega

theorem le_wrapInt (w : ℕ) (v : ℤ) : -2 ^ w ≤ wrapInt (w + 1) v := by
  have hpow : (2 : ℤ) ^ (w + 1) = 2 * 2 ^ w := by rw [Int.pow_succ, Int.mul_comm]
  have hle : -(((2 ^ (w + 1) : ℕ) : ℤ) / 2) ≤ wrapInt (w + 1) v :=
    Int.le_bmod (Nat.pow_pos (by decide))
  push_cast at hle
  omega

/-- Conversion to a signed type does not enlarge what is not negative. -/
theorem wrapInt_le (w : ℕ) {v : ℤ} (h : 0 ≤ v) : wrapInt w v ≤ v := by
  have hle : v % ((2 ^ w : ℕ) : ℤ) ≤ v := by
    obtain ⟨n, rfl⟩ := Int.eq_ofNat_of_zero_le h
    exact_mod_cast Nat.mod_le n (2 ^ w)
  have hpos : (0 : ℤ) ≤ ((2 ^ w : ℕ) : ℤ) := Int.natCast_nonneg _
  unfold wrapInt Int.bmod
  dsimp only
  split
  · exact hle
  · omega

theorem wrapInt_add_wrapInt (w : ℕ) (x y : ℤ) :
    wrapInt w (wrapInt w x + y) = wrapInt w (x + y) := Int.bmod_add_bmod

theorem wrapInt_add_right (w : ℕ) (x y : ℤ) : wrapInt w (x + wrapInt w y) = wrapInt w (x + y) :=
  Int.add_bmod_bmod

theorem wrapInt_mul_right (w : ℕ) (x y : ℤ) : wrapInt w (x * wrapInt w y) = wrapInt w (x * y) :=
  Int.mul_bmod_bmod

theorem wrapNat_of_lt {w : ℕ} {n : ℕ} (h : n < 2 ^ w) : wrapNat w n = n := by
  have hcast : (n : ℤ) < 2 ^ w := by exact_mod_cast h
  rw [wrapNat, Int.emod_eq_of_lt (Int.natCast_nonneg n) hcast, Int.toNat_natCast]

theorem digitsValue_append (base : ℕ) (ds : Bytes) (c : UInt8) :
    digitsValue base (ds ++ [c]) = digitsValue base ds * base + digitVal c := by
  simp [digitsValue, List.foldl_append]

/-- A string of `k` digits denotes a number below `base ^ k`. -/
theorem digitsValue_lt {base : ℕ} {ds : Bytes} (h : ∀ c ∈ ds, isDigit base c) :
    digitsValue base ds < base ^ ds.length := by
  induction ds using List.reverseRecOn with
  | nil => simp [digitsValue]
  | append_singleton ds c ih =>
    have hds := ih fun x hx => h x (by simp [hx])
    have hc : digitVal c < base := by simpa [isDigit] using h c (by simp)
    rw [digitsValue_append, List.length_append, List.length_singleton, Nat.pow_succ]
    calc digitsValue base ds * base + digitVal c
        < (digitsValue base ds + 1) * base := by rw [Nat.add_mul, Nat.one_mul]; omega
      _ ≤ base ^ ds.length * base := Nat.mul_le_mul_right _ hds

theorem cstr_of_not_mem {s : Bytes} (h : 0 ∉ s) : cstr s = s :=
  List.takeWhile_eq_self_iff.mpr fun x hx => by simpa using fun e : x = 0 => h (e ▸ hx)

theorem cstr_append_of_not_mem {s : Bytes} (h : 0 ∉ s) (m : Bytes) : cstr (s ++ m) = s ++ cstr m :=
  List.takeWhile_append_of_pos fun x hx => by simpa using fun e : x = 0 => h (e ▸ hx)

theorem cstr_noNUL (m : Bytes) : 0 ∉ cstr m := fun h => by
  have := List.mem_takeWhile_imp h
  simp at this

/-- There is no `0x` to skip where everything is a digit. -/
theorem strtolPrefix_digits {base : ℕ} {ds : Bytes} (hb : base ≤ 16)
    (h : ∀ c ∈ ds, isDigit base c) : strtolPrefix base ds = ds := by
  unfold strtolPrefix
  split
  · next z x d w =>
    rw [if_neg]
    rintro ⟨-, -, hx, -⟩
    have := h x (by simp)
    rw [isDigit_x hb hx] at this
    cases this
  · rfl

/-- **`strtol` reads back a string of digits** whose value fits a `long`. -/
theorem strtol_digits {base : ℕ} {ds : Bytes} (hb : base ≤ 16) (hne : ds ≠ [])
    (h : ∀ c ∈ ds, isDigit base c) (hv : (digitsValue base ds : ℤ) ≤ LONG_MAX) :
    strtol base ds = ((digitsValue base ds : ℤ), []) := by
  have hb' : base ≤ 36 := by omega
  have hnul : 0 ∉ ds := fun h0 => digit_ne hb' (h 0 h0) (d := 0) (by decide) rfl
  have hall : ds.takeWhile (isDigit base) = ds := List.takeWhile_eq_self_iff.mpr h
  have hdrop : ds.dropWhile (isDigit base) = [] := List.dropWhile_eq_nil_iff.mpr h
  have hsign : strtolSign (ds.dropWhile isSpace) = (false, ds) := by
    obtain ⟨c, es, rfl⟩ := List.exists_cons_of_ne_nil hne
    have hc := h c (by simp)
    simp [isSpace_of_digit hb' hc, strtolSign, digit_ne (d := 45) hb' hc (by decide),
      digit_ne (d := 43) hb' hc (by decide)]
  have hsat : saturate (digitsValue base ds) = digitsValue base ds := by
    have h0 : (0 : ℤ) ≤ digitsValue base ds := Int.natCast_nonneg _
    simp only [saturate, LONG_MIN, LONG_MAX] at hv ⊢
    omega
  simp only [strtol, cstr_of_not_mem hnul, hsign, strtolPrefix_digits hb h, hall, hdrop, hne,
    if_false, hsat, Bool.false_eq_true]

end Flood.CString
