import Flood.CString

/-!
# Decimal integers as text

A text of an optional sign and digits denotes an integer of any size.  `strtol` reads it, cuts the
number to the range of a `long`, and what is made of the result is cut again where it is stored.

* `strtol_text` — a whole text is read as its value, cut to the range of a `long`.
* `stored_iff` — a multiple of a number read from a part of the text is stored as the same multiple of
  the value exactly when the part has the whole value and the multiple fits.
-/

namespace Flood.DecimalText

open Flood.CString

/-- The number at the start of a string, before it is cut to the range of a `long`. -/
def leading (s : Bytes) : ℤ :=
  let (neg, u) := strtolSign ((cstr s).dropWhile isSpace)
  let ds := u.takeWhile (isDigit 10)
  if neg then -(digitsValue 10 ds : ℤ) else digitsValue 10 ds

/-- A decimal integer: an optional sign and digits. -/
structure IntText where
  sign : Bytes
  digits : Bytes
  sign_eq : sign = [] ∨ sign = bytes "+" ∨ sign = bytes "-"
  digits_ne : digits ≠ []
  digits_all : ∀ c ∈ digits, isDigit 10 c

/-- The number of some digits behind a sign. -/
def signed (sign ds : Bytes) : ℤ :=
  if sign = bytes "-" then -(digitsValue 10 ds : ℤ) else digitsValue 10 ds

def IntText.text (t : IntText) : Bytes := t.sign ++ t.digits

/-- The integer denoted. -/
def IntText.value (t : IntText) : ℤ := signed t.sign t.digits

/-! ### Reading -/

theorem cstr_cstr (s : Bytes) : cstr (cstr s) = cstr s := cstr_of_not_mem (cstr_noNUL s)

theorem strtol_cstr (base : ℕ) (s : Bytes) : strtol base (cstr s) = strtol base s := by
  unfold strtol
  rw [cstr_cstr]

theorem leading_cstr (s : Bytes) : leading (cstr s) = leading s := by
  unfold leading
  rw [cstr_cstr]

theorem strtolPrefix_ten (u : Bytes) : strtolPrefix 10 u = u := by
  unfold strtolPrefix
  split
  · rw [if_neg]
    rintro ⟨h, -⟩
    cases h
  · rfl

/-- **What `strtol` returns** is the number it reads, cut to the range of a `long`. -/
theorem strtol_leading (s : Bytes) : (strtol 10 s).1 = saturate (leading s) := by
  unfold strtol leading
  simp only [strtolPrefix_ten]
  split
  · next hnil =>
    rw [hnil]
    split
    · rfl
    · rfl
  · rfl

/-- The sign and the digits are told apart. -/
theorem strtolSign_signed {sign ds : Bytes}
    (hsign : sign = [] ∨ sign = bytes "+" ∨ sign = bytes "-") (hds : ∀ c ∈ ds, isDigit 10 c) :
    strtolSign ((cstr (sign ++ ds)).dropWhile isSpace) = (decide (sign = bytes "-"), ds) := by
  have hnul : 0 ∉ ds := fun h0 => digit_ne (by decide) (hds 0 h0) (d := 0) (by decide) rfl
  have hcstr : cstr ds = ds := cstr_of_not_mem hnul
  obtain rfl | rfl | rfl := hsign
  · rw [List.nil_append, hcstr]
    cases ds with
    | nil => rfl
    | cons c ds =>
      have hc := hds c List.mem_cons_self
      rw [List.dropWhile_cons, isSpace_of_digit (by decide) hc]
      show (if c = 45 then (true, ds) else if c = 43 then (false, ds) else (false, c :: ds)) = _
      rw [if_neg (digit_ne (by decide) hc (by decide)), if_neg (digit_ne (by decide) hc (by decide))]
      rfl
  · rw [cstr_append_of_not_mem (by decide), hcstr]
    rfl
  · rw [cstr_append_of_not_mem (by decide), hcstr]
    rfl

theorem leading_signed {sign ds : Bytes}
    (hsign : sign = [] ∨ sign = bytes "+" ∨ sign = bytes "-") (hds : ∀ c ∈ ds, isDigit 10 c) :
    leading (sign ++ ds) = signed sign ds := by
  unfold leading signed
  rw [strtolSign_signed hsign hds]
  dsimp only
  rw [List.takeWhile_eq_self_iff.mpr hds]
  simp only [decide_eq_true_eq]

/-- **A decimal integer is read as a whole.** -/
theorem strtol_text (t : IntText) : strtol 10 t.text = (saturate t.value, []) := by
  refine Prod.ext ?_ ?_
  · rw [strtol_leading, IntText.text, leading_signed t.sign_eq t.digits_all]
    rfl
  · unfold strtol IntText.text
    rw [strtolSign_signed t.sign_eq t.digits_all]
    dsimp only
    rw [strtolPrefix_ten, List.takeWhile_eq_self_iff.mpr t.digits_all, if_neg t.digits_ne]
    exact List.dropWhile_eq_nil_iff.mpr t.digits_all

/-! ### A part of the text -/

/-- The number lies between zero and the value. -/
def Toward (x v : ℤ) : Prop := (0 ≤ x ∧ x ≤ v) ∨ (v ≤ x ∧ x ≤ 0)

theorem digitsValue_le (base : ℕ) (ds es : Bytes) (hbase : 0 < base) :
    digitsValue base ds ≤ digitsValue base (ds ++ es) := by
  induction es using List.reverseRecOn with
  | nil => rw [List.append_nil]
  | append_singleton es c ih =>
    rw [← List.append_assoc, digitsValue_append]
    calc digitsValue base ds
        ≤ digitsValue base (ds ++ es) := ih
      _ ≤ digitsValue base (ds ++ es) * base := Nat.le_mul_of_pos_right _ hbase
      _ ≤ digitsValue base (ds ++ es) * base + digitVal c := Nat.le_add_right _ _

theorem signed_toward (sign ds es : Bytes) : Toward (signed sign ds) (signed sign (ds ++ es)) := by
  have hle : (digitsValue 10 ds : ℤ) ≤ digitsValue 10 (ds ++ es) := by
    exact_mod_cast digitsValue_le 10 ds es (by decide)
  unfold signed Toward
  split
  · omega
  · omega

/-- **The number in a part of the text** lies between zero and the value. -/
theorem leading_toward {t : IntText} {part : Bytes} (h : part <+: t.text) :
    Toward (leading part) t.value := by
  by_cases hlen : t.sign.length ≤ part.length
  · obtain ⟨ds, rfl⟩ := List.prefix_of_prefix_length_le (List.prefix_append _ _) h hlen
    obtain ⟨es, hes⟩ := (List.prefix_append_right_inj _).mp h
    have hds : ∀ c ∈ ds, isDigit 10 c := by
      intro c hc
      exact t.digits_all c (hes ▸ List.mem_append_left es hc)
    rw [leading_signed t.sign_eq hds, IntText.value, ← hes]
    exact signed_toward t.sign ds es
  · -- a sign has one character only
    have hnil : part = [] := by
      have hsign : t.sign.length ≤ 1 := by
        obtain h | h | h := t.sign_eq
        · rw [h]
          decide
        · rw [h]
          decide
        · rw [h]
          decide
      exact List.length_eq_zero_iff.mp (by omega)
    rw [hnil]
    show Toward 0 t.value
    unfold Toward
    omega

/-- The first of the pieces that a text comes in is a part of it. -/
theorem leading_first {t : IntText} {first : Bytes} {pieces : List Bytes}
    (h : ((first :: pieces).map cstr).flatten = t.text) : Toward (leading first) t.value := by
  rw [← leading_cstr]
  refine leading_toward ⟨(pieces.map cstr).flatten, ?_⟩
  rw [← h]
  rfl

/-! ### Storing -/

/-- A signed type of `w + 1` bits holds the number. -/
def Fits (w : ℕ) (v : ℤ) : Prop := -2 ^ w ≤ v ∧ v < 2 ^ w

instance (w : ℕ) (v : ℤ) : Decidable (Fits w v) := inferInstanceAs (Decidable (_ ∧ _))

theorem fits_wrapInt (w : ℕ) (v : ℤ) : Fits w (wrapInt (w + 1) v) :=
  ⟨le_wrapInt w v, wrapInt_lt w v⟩

theorem Fits.toward {w : ℕ} {x v : ℤ} (hv : Fits w v) (h : Toward x v) : Fits w x := by
  unfold Fits Toward at *
  have hpos : (0 : ℤ) < 2 ^ w := Int.pow_pos (by decide)
  omega

theorem Toward.mul {x v k : ℤ} (h : Toward x v) (hk : 0 < k) : Toward (x * k) (v * k) := by
  have hk' : 0 ≤ k := Int.le_of_lt hk
  obtain ⟨h0, hle⟩ | ⟨hle, h0⟩ := h
  · exact .inl ⟨Int.mul_nonneg h0 hk', Int.mul_le_mul_of_nonneg_right hle hk'⟩
  · exact .inr ⟨Int.mul_le_mul_of_nonneg_right hle hk', Int.mul_nonpos_of_nonpos_of_nonneg h0 hk'⟩

theorem toward_mul_self (v : ℤ) {k : ℤ} (hk : 0 < k) : Toward v (v * k) := by
  by_cases h0 : 0 ≤ v
  · have hle : v * 1 ≤ v * k := Int.mul_le_mul_of_nonneg_left hk h0
    exact .inl ⟨h0, by omega⟩
  · have hneg : v ≤ 0 := by omega
    have hle : v * k ≤ v * 1 := Int.mul_le_mul_of_nonpos_left hneg hk
    exact .inr ⟨by omega, hneg⟩

/-- **A multiple of what was read** is stored as that multiple of the value exactly when all of the
value was read and the multiple fits. -/
theorem stored_iff {w : ℕ} (hw : w ≤ 63) {x v k : ℤ} (hk : 0 < k) (h : Toward x v) :
    wrapInt (w + 1) (saturate x * k) = v * k ↔ x = v ∧ Fits w (v * k) := by
  have hexact : Fits w (v * k) → wrapInt (w + 1) (saturate x * k) = x * k := by
    intro hfits
    have hx : Fits w x := (hfits.toward (toward_mul_self v hk)).toward h
    have hlong : saturate x = x := by
      have hpow : (2 : ℤ) ^ w ≤ 2 ^ 63 := by exact_mod_cast Nat.pow_le_pow_right (by decide) hw
      unfold Fits at hx
      unfold saturate LONG_MIN LONG_MAX
      omega
    have hxk : Fits w (x * k) := hfits.toward (h.mul hk)
    rw [hlong, wrapInt_eq hxk.1 hxk.2]
  constructor
  · intro hstored
    have hfits : Fits w (v * k) := hstored ▸ fits_wrapInt w _
    refine ⟨?_, hfits⟩
    rw [hexact hfits] at hstored
    exact Int.eq_of_mul_eq_mul_right (by omega) hstored
  · rintro ⟨rfl, hfits⟩
    exact hexact hfits

end Flood.DecimalText
