import Mathlib.Data.List.Basic
import Mathlib.Data.List.GetD
import Flood.RoundRobin

/-!
# The two verifiers of a response

`verify_200` compares bytes at fixed places, `verify_status_code` takes the response apart at its spaces.
On a response that starts as one of HTTP does, with whatever text behind the status code, they agree.

* `aprStrtok_stops`, `aprStrtok_starts` — a token up to the separator behind it, and where a token starts.
* `verify200_eq`, `verifyStatusCode_eq` — what each of the two looks at.
* `verify_agree` — their verdict, in terms of the status code.
-/

namespace Flood.VerifyStatus

open Flood.CString Flood.Net Flood.RoundRobin

/-! ### The first tokens of a buffer -/

theorem byteAt_store_lt {m bs : Bytes} {off i : ℕ} (h : i < off) :
    byteAt (store m off bs) i = byteAt m i := by
  have hfirst : (store m off bs)[i]? = (fetch m off)[i]? := by
    rw [store, List.append_assoc, List.getElem?_append_left (by rwa [fetch_length])]
  unfold byteAt
  rw [List.getD_eq_getElem?_getD, List.getD_eq_getElem?_getD, hfirst, fetch]
  by_cases hi : i < m.length
  · rw [List.getElem?_append_left (by rw [List.length_take]; omega), List.getElem?_take_of_lt h]
  · rw [not_lt] at hi
    rw [List.take_of_length_le (by omega), List.getElem?_append_right hi,
      List.getElem?_eq_none (l := m) hi]
    exact List.getElem?_getD_replicate_default_eq 0 _ _

theorem drop_store {m bs : Bytes} {off : ℕ} :
    (store m off bs).drop (off + bs.length) = m.drop (off + bs.length) :=
  List.drop_left' (by rw [List.length_append, fetch_length])

/-- **A token ends at the separator behind it**, which is overwritten. -/
theorem aprStrtok_stops {sep word m : Bytes} (buf : Bytes) (pos : ℕ) {c : UInt8}
    (hbuf : buf.drop pos = word ++ c :: m) (hne : word ≠ [])
    (hword : ∀ x ∈ word, x ∉ sep ∧ x ≠ 0) (hc : c ∈ sep) (h0 : c ≠ 0) :
    aprStrtok sep buf pos =
      some ⟨pos, pos + word.length + 1, store buf (pos + word.length) [0]⟩ := by
  obtain ⟨x, w, rfl⟩ := List.exists_cons_of_ne_nil hne
  have hnul : 0 ∉ x :: w := fun h => (hword 0 h).2 rfl
  have hstr : cstr (buf.drop pos) = x :: w ++ c :: cstr m := by
    rw [hbuf, cstr_append_of_not_mem hnul]
    congr 1
    exact List.takeWhile_cons_of_pos (by simpa using h0)
  have hx : x ∉ sep := (hword x List.mem_cons_self).1
  have hskip : (x :: w ++ c :: cstr m).takeWhile (· ∈ sep) = [] :=
    List.takeWhile_cons_of_neg (by simpa using hx)
  have htoken : (x :: w ++ c :: cstr m).takeWhile (· ∉ sep) = x :: w := by
    rw [List.takeWhile_append_of_pos fun y hy => by simpa using (hword y hy).1,
      List.takeWhile_cons_of_neg (by simpa using hc), List.append_nil]
  unfold aprStrtok
  rw [hstr]
  dsimp only
  rw [hskip, List.length_nil, List.drop_zero, htoken, if_neg (List.cons_ne_nil x w), Nat.add_zero,
    if_pos (by simp)]

/-- **A token starts at once** where no separator stands, and its first byte stays. -/
theorem aprStrtok_starts {sep buf m : Bytes} {pos : ℕ} {c : UInt8} (hbuf : buf.drop pos = c :: m)
    (hc : c ∉ sep) (h0 : c ≠ 0) :
    ∃ t, aprStrtok sep buf pos = some t ∧ t.start = pos ∧ byteAt t.buf pos = c := by
  have hstr : cstr (buf.drop pos) = c :: cstr m := by
    rw [hbuf]
    exact List.takeWhile_cons_of_pos (by simpa using h0)
  have hskip : (c :: cstr m).takeWhile (· ∈ sep) = [] :=
    List.takeWhile_cons_of_neg (by simpa using hc)
  have htoken : (c :: cstr m).takeWhile (· ∉ sep) = c :: (cstr m).takeWhile (· ∉ sep) :=
    List.takeWhile_cons_of_pos (by simpa using hc)
  have hbyte := (byteAt_drop hbuf).1
  unfold aprStrtok
  rw [hstr]
  dsimp only
  rw [hskip, List.length_nil, List.drop_zero, htoken, if_neg (List.cons_ne_nil _ _), Nat.add_zero]
  split
  · refine ⟨_, rfl, rfl, ?_⟩
    rw [byteAt_store_lt (by rw [List.length_cons]; omega), hbyte]
  · exact ⟨_, rfl, rfl, hbyte⟩

/-! ### The start of a response -/

/-- The start of a response: the version, a space and three digits. -/
structure StatusStart where
  version : Bytes
  versionOk : version = bytes "HTTP/1.0" ∨ version = bytes "HTTP/1.1"
  digits : Bytes
  digitsOk : digits.length = 3 ∧ ∀ c ∈ digits, isDigit 10 c

namespace StatusStart

def text (l : StatusStart) : Bytes := l.version ++ 32 :: l.digits

/-- The status code. -/
def code (l : StatusStart) : ℕ := digitsValue 10 l.digits

/-- The digits one by one. -/
theorem digits_eq (l : StatusStart) :
    ∃ d e f, l.digits = [d, e, f] ∧ isDigit 10 d = true ∧ isDigit 10 e = true ∧
      isDigit 10 f = true := by
  obtain ⟨d, e, f, h⟩ := List.length_eq_three.mp l.digitsOk.1
  have hall := l.digitsOk.2
  rw [h] at hall
  exact ⟨d, e, f, h, hall d (by simp), hall e (by simp), hall f (by simp)⟩

/-- The class of the status code is its first digit. -/
theorem code_class {l : StatusStart} {d e f : UInt8} (h : l.digits = [d, e, f])
    (he : isDigit 10 e = true) (hf : isDigit 10 f = true) : l.code / 100 = digitVal d := by
  have he' : digitVal e < 10 := of_decide_eq_true he
  have hf' : digitVal f < 10 := of_decide_eq_true hf
  have hcode : l.code = ((0 * 10 + digitVal d) * 10 + digitVal e) * 10 + digitVal f := by
    rw [code, h]
    rfl
  omega

theorem text_cons (l : StatusStart) {d e f : UInt8} (h : l.digits = [d, e, f]) (rest : Bytes) :
    l.text ++ rest = l.version ++ 32 :: d :: e :: f :: rest := by
  rw [text, h]
  simp

end StatusStart

/-! ### What each verifier looks at -/

variable {d : UInt8} {m : Bytes} (resp : Response)

/-- **The fast verifier** takes a first digit of 2 or 3 at its place in the buffer. -/
theorem verify200_eq {version : Bytes}
    (hversion : version = bytes "HTTP/1.0" ∨ version = bytes "HTTP/1.1")
    (hbuf : resp.rbuf = version ++ 32 :: d :: m) :
    verify200 resp = if d = 50 ∨ d = 51 then FLOOD_VALID else FLOOD_INVALID := by
  have hliteral : ∀ (pre : Bytes) (c : UInt8), pre.length = version.length →
      startsWith resp.rbuf (pre ++ [32, c]) = (version = pre ∧ d = c : Bool) := by
    intro pre c hlen
    have hfetch : fetch resp.rbuf (pre ++ [32, c]).length = version ++ [32, d] := by
      rw [hbuf, show version ++ 32 :: d :: m = version ++ [32, d] ++ m by simp,
        fetch_append (by simp [hlen])]
      exact List.take_of_length_le (by simp [hlen])
    unfold startsWith
    rw [hfetch, decide_eq_decide]
    constructor
    · intro h
      obtain ⟨hpre, hc⟩ := List.append_inj h hlen.symm
      exact ⟨hpre, by simpa using hc⟩
    · rintro ⟨rfl, rfl⟩
      rfl
  have hthird : startsWith (resp.rbuf.drop 9) (bytes "3") = (d = 51 : Bool) := by
    have hdrop : resp.rbuf.drop 9 = d :: m := by
      rw [hbuf]
      rcases hversion with rfl | rfl
      · rfl
      · rfl
    rw [hdrop]
    simp [startsWith, fetch, bytes]
  have hlen : version.length = 8 := by
    rcases hversion with rfl | rfl
    · rfl
    · rfl
  have hfirst : startsWith resp.rbuf (bytes "HTTP/1.1 2") = _ :=
    hliteral (bytes "HTTP/1.1") 50 hlen.symm
  have hlast : startsWith resp.rbuf (bytes "HTTP/1.0 2") = _ :=
    hliteral (bytes "HTTP/1.0") 50 hlen.symm
  unfold verify200
  rw [hfirst, hthird, hlast]
  simp only [decide_eq_true_eq]
  by_cases htwo : d = 50
  · have hone : version = bytes "HTTP/1.1" ∧ d = 50 ∨ version = bytes "HTTP/1.0" ∧ d = 50 :=
      hversion.symm.imp (⟨·, htwo⟩) (⟨·, htwo⟩)
    rw [if_pos (c := d = 50 ∨ d = 51) (.inl htwo)]
    rcases hone with h | h
    · exact if_pos h
    · rw [if_pos h, ite_self, ite_self]
  · rw [if_neg fun h => htwo h.2, if_neg fun h : _ ∧ _ => htwo h.2]
    simp only [htwo, false_or]

/-- **The careful verifier** takes a first digit of 2 or 3 of its second token; here nothing stands
behind the space that is the separator. -/
theorem verifyStatusCode_eq {version : Bytes}
    (hversion : version = bytes "HTTP/1.0" ∨ version = bytes "HTTP/1.1") (hd : isDigit 10 d = true)
    (hbuf : resp.rbuf = version ++ 32 :: d :: m) (mem : Bytes) :
    ∃ resp', verifyStatusCode (0 :: mem) resp =
      .ok (if d = 50 ∨ d = 51 then FLOOD_VALID else FLOOD_INVALID, resp') := by
  have hword : version ≠ [] ∧ (∀ x ∈ version, x ∉ [32] ∧ x ≠ 0) ∧ version.length = 8 := by
    rcases hversion with rfl | rfl
    · decide +kernel
    · decide +kernel
  obtain ⟨hne, hchars, hlen⟩ := hword
  have hprotocol : aprStrtok [32] resp.rbuf 0 = some ⟨0, 9, store resp.rbuf 8 [0]⟩ := by
    have hstops := aprStrtok_stops resp.rbuf 0 hbuf hne hchars List.mem_cons_self (by decide)
    rwa [hlen] at hstops
  have hbehind : (store resp.rbuf 8 [0]).drop 9 = d :: m := by
    have hsplit : resp.rbuf = version ++ [32] ++ d :: m := by rw [hbuf, List.append_assoc]; rfl
    rw [show 9 = 8 + [(0 : UInt8)].length from rfl, drop_store, hsplit]
    exact List.drop_left' (by rw [List.length_append, hlen]; rfl)
  have hblank : d ∉ [32] := by
    rw [List.mem_singleton]
    exact digit_ne (by decide) hd (by decide)
  obtain ⟨scode, hscode, hstart, hbyte⟩ := aprStrtok_starts hbehind hblank
    (digit_ne (by decide) hd (by decide))
  refine ⟨{ resp with rbuf := scode.buf }, ?_⟩
  unfold verifyStatusCode
  dsimp only
  rw [show cstr (32 :: 0 :: mem) = [32] from rfl, hprotocol]
  dsimp only
  rw [hscode]
  dsimp only
  rw [hstart, hbyte]

/-! ### The verdict -/

/-- The character of a decimal digit. -/
theorem digitVal_eq_iff {c : UInt8} {k : ℕ} (hk : k < 10) : digitVal c = k ↔ c.toNat = 48 + k := by
  unfold digitVal
  simp only [UInt8.le_iff_toNat_le]
  have h48 : (48 : UInt8).toNat = 48 := rfl
  have h57 : (57 : UInt8).toNat = 57 := rfl
  have h97 : (97 : UInt8).toNat = 97 := rfl
  have h122 : (122 : UInt8).toNat = 122 := rfl
  have h65 : (65 : UInt8).toNat = 65 := rfl
  have h90 : (90 : UInt8).toNat = 90 := rfl
  rw [h48, h57, h97, h122, h65, h90]
  split
  · omega
  · split
    · omega
    · split
      · omega
      · omega

/-- **The verifiers agree** on every response that starts with a version of HTTP, a space and three
digits, and accept it exactly where the status code is 2xx or 3xx. -/
theorem verify_agree (l : StatusStart) (rest mem : Bytes) (resp : Response) :
    (∃ resp', verifyStatusCode (0 :: mem) { resp with rbuf := l.text ++ rest } =
      .ok (verify200 { resp with rbuf := l.text ++ rest }, resp')) ∧
      (verify200 { resp with rbuf := l.text ++ rest } = FLOOD_VALID ↔
        l.code / 100 = 2 ∨ l.code / 100 = 3) := by
  obtain ⟨d, e, f, hdigits, hd, he, hf⟩ := l.digits_eq
  have hbuf := l.text_cons hdigits rest
  have hfast := verify200_eq { resp with rbuf := l.text ++ rest } l.versionOk hbuf
  have htwo : digitVal d = 2 ↔ d = 50 := by
    rw [digitVal_eq_iff (by decide), ← UInt8.toNat_inj]
    rfl
  have hthree : digitVal d = 3 ↔ d = 51 := by
    rw [digitVal_eq_iff (by decide), ← UInt8.toNat_inj]
    rfl
  rw [hfast, StatusStart.code_class hdigits he hf, htwo, hthree]
  constructor
  · exact verifyStatusCode_eq { resp with rbuf := l.text ++ rest } l.versionOk hd hbuf mem
  · split
    · next h => exact iff_of_true rfl h
    · next h => exact iff_of_false (by decide) h

/-- A redirection. -/
def redirected : StatusStart where
  version := bytes "HTTP/1.1"
  versionOk := .inr rfl
  digits := bytes "302"
  digitsOk := by decide +kernel

theorem verify_agree_redirected :
    verify200 ⟨false, false, none, bytes "HTTP/1.1 302 Found", 18, []⟩ = FLOOD_VALID ∧
      ∃ resp', verifyStatusCode [0] ⟨false, false, none, bytes "HTTP/1.1 302 Found", 18, []⟩ =
        .ok (FLOOD_VALID, resp') := by
  obtain ⟨⟨resp', hagree⟩, hvalid⟩ :=
    verify_agree redirected (bytes " Found") [] ⟨false, false, none, [], 18, []⟩
  have htext : redirected.text ++ bytes " Found" = bytes "HTTP/1.1 302 Found" := by decide +kernel
  have hcode : redirected.code = 302 := by decide +kernel
  rw [htext, hcode] at hvalid
  rw [htext] at hagree
  have hok := hvalid.mpr (.inr rfl)
  exact ⟨hok, resp', by rw [hagree, hok]⟩

end Flood.VerifyStatus
