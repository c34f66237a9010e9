import Flood.HttpText
import Flood.Postprocess

/-!
# The bounds of the cookie step

The searches of the cookie step in `round_robin_postprocess` are bounded by the buffer, not by the
line they start in, and their results are subtracted unchecked.  Here the step runs with a record of
the lengths it hands to `memchr` and `apr_cpystrn`.

* `tracedCookie_snd` — the record changes nothing.
* `memchr_split`, `lines_head`, `lines_append_piece` — what a search has found, and the first line of
  a text.
* `cookieStep_safe_iff` — every length stays inside the buffer and the cookie, if one is stored,
  comes from its one line, exactly when the `=`, and the CR behind it, stand where they should.
-/

namespace Flood.CookieBounds

open Flood.CString Flood.Net Flood.RoundRobin Flood.Postprocess Flood.HttpText

/-! ### The step with its lengths -/

/-- A length handed to a function, as the difference that the source computes, and the offset from
which it counts. -/
inductive Access where
  | memchr (off : ℕ) (len : ℤ)
  | cpystrn (off : ℕ) (len : ℤ)
  deriving DecidableEq

def Access.off : Access → ℕ
  | memchr off _ => off
  | cpystrn off _ => off

def Access.len : Access → ℤ
  | memchr _ len => len
  | cpystrn _ len => len

/-- `resp->rbufsize - (int)(cookieheader - (int)(resp->rbuf))` -/
def sizeLeft (resp : Response) (off : ℕ) : ℤ := resp.rbufsize - wrapInt 32 off

/-- The search for a cookie with the lengths it hands on; `base` is the address of the buffer. -/
def traceCookie (left : ℕ → ℕ) (base : ℕ) (resp : Response) :
    List Access × Except Abort (Option Cookie) :=
  match strstr SET_COOKIE resp.rbuf with
  | none => ([], .ok none)
  | some i =>
    let cookieheader := i + 12
    let name := resp.rbuf.drop cookieheader
    let scan := .memchr cookieheader (sizeLeft resp cookieheader)
    match CString.memchr 61 (left cookieheader) name with
    | none => ([scan], .ok none)
    | some k =>
      let copy := .cpystrn cookieheader (k + 1)
      let cookieheader := cookieheader + k + 1
      let value := resp.rbuf.drop cookieheader
      let scanEnd := .memchr cookieheader (sizeLeft resp cookieheader)
      match CString.memchr CR (left cookieheader) value with
      | some cookieend =>
        let stop := (CString.memchr 59 cookieend value).getD cookieend
        ([scan, copy, scanEnd, .memchr cookieheader cookieend, .cpystrn cookieheader (stop + 1)],
          .ok (some ⟨cpystrn name k, cpystrn value stop⟩))
      | none =>
        -- `cookieend` is NULL
        let scanNull := .memchr cookieheader (0 - (base + cookieheader : ℕ))
        match CString.memchr 59 value.length value with
        | none => ([scan, copy, scanEnd, scanNull], .error .fault)
        | some stop =>
          ([scan, copy, scanEnd, scanNull, .cpystrn cookieheader (stop + 1)],
            .ok (some ⟨cpystrn name k, cpystrn value stop⟩))

/-- The cookie step with the lengths it hands on. -/
def tracedCookie (base : ℕ) (resp : Response) : List Access × Except Abort (Option Cookie) :=
  traceCookie (bytesLeft resp.rbufsize) base resp

section Trace

variable {left : ℕ → ℕ} (base : ℕ) {resp : Response} {i k e : ℕ}

theorem traceCookie_none (hi : strstr SET_COOKIE resp.rbuf = none) :
    traceCookie left base resp = ([], .ok none) := by
  simp only [traceCookie, hi]

theorem traceCookie_noName (hi : strstr SET_COOKIE resp.rbuf = some i)
    (hk : CString.memchr 61 (left (i + 12)) (resp.rbuf.drop (i + 12)) = none) :
    traceCookie left base resp = ([.memchr (i + 12) (sizeLeft resp (i + 12))], .ok none) := by
  simp only [traceCookie, hi, hk]

/-- Where a name ends in the buffer, the copy of the name and the scan for the CR are made. -/
theorem traceCookie_named (hi : strstr SET_COOKIE resp.rbuf = some i)
    (hk : CString.memchr 61 (left (i + 12)) (resp.rbuf.drop (i + 12)) = some k) :
    ∃ more, (traceCookie left base resp).1 = .memchr (i + 12) (sizeLeft resp (i + 12)) ::
      .cpystrn (i + 12) (k + 1) ::
      .memchr (i + 12 + k + 1) (sizeLeft resp (i + 12 + k + 1)) :: more := by
  simp only [traceCookie, hi, hk]
  split
  · exact ⟨_, rfl⟩
  · split
    · exact ⟨_, rfl⟩
    · exact ⟨_, rfl⟩

/-- Where there is no CR, the scan for the end of the value has no end. -/
theorem traceCookie_open (hi : strstr SET_COOKIE resp.rbuf = some i)
    (hk : CString.memchr 61 (left (i + 12)) (resp.rbuf.drop (i + 12)) = some k)
    (he : CString.memchr CR (left (i + 12 + k + 1)) (resp.rbuf.drop (i + 12 + k + 1)) = none) :
    .memchr (i + 12 + k + 1) (0 - (base + (i + 12 + k + 1) : ℕ)) ∈
      (traceCookie left base resp).1 := by
  simp only [traceCookie, hi, hk, he]
  split
  · simp
  · simp

/-- The step where the name and the value end. -/
theorem traceCookie_closed (hi : strstr SET_COOKIE resp.rbuf = some i)
    (hk : CString.memchr 61 (left (i + 12)) (resp.rbuf.drop (i + 12)) = some k)
    (he : CString.memchr CR (left (i + 12 + k + 1)) (resp.rbuf.drop (i + 12 + k + 1)) = some e) :
    traceCookie left base resp =
      ([.memchr (i + 12) (sizeLeft resp (i + 12)), .cpystrn (i + 12) (k + 1),
          .memchr (i + 12 + k + 1) (sizeLeft resp (i + 12 + k + 1)), .memchr (i + 12 + k + 1) e,
          .cpystrn (i + 12 + k + 1)
            (((CString.memchr 59 e (resp.rbuf.drop (i + 12 + k + 1))).getD e : ℕ) + 1)],
        .ok (some ⟨cpystrn (resp.rbuf.drop (i + 12)) k,
          cpystrn (resp.rbuf.drop (i + 12 + k + 1))
            ((CString.memchr 59 e (resp.rbuf.drop (i + 12 + k + 1))).getD e)⟩)) := by
  simp only [traceCookie, hi, hk, he]

theorem traceCookie_snd (left : ℕ → ℕ) (base : ℕ) (resp : Response) :
    (traceCookie left base resp).2 = takeCookie left resp.rbuf := by
  unfold traceCookie takeCookie
  cases strstr SET_COOKIE resp.rbuf with
  | none => rfl
  | some i =>
    dsimp only
    cases CString.memchr 61 (left (i + 12)) (resp.rbuf.drop (i + 12)) with
    | none => rfl
    | some k =>
      dsimp only
      cases CString.memchr CR (left (i + 12 + k + 1)) (resp.rbuf.drop (i + 12 + k + 1)) with
      | some e => rfl
      | none =>
        dsimp only
        cases CString.memchr 59 (resp.rbuf.drop (i + 12 + k + 1)).length
            (resp.rbuf.drop (i + 12 + k + 1)) with
        | none => rfl
        | some stop => rfl

end Trace

/-- **The record changes nothing.** -/
theorem tracedCookie_snd (base : ℕ) (resp : Response) :
    (tracedCookie base resp).2 = cookieStep resp :=
  traceCookie_snd (bytesLeft resp.rbufsize) base resp

/-! ### The property -/

/-- The length is not negative and stays inside the buffer. -/
def Access.Safe (resp : Response) (a : Access) : Prop :=
  0 ≤ a.len ∧ (a.off : ℤ) + a.len ≤ resp.rbufsize

@[simp] theorem safe_memchr (resp : Response) (off : ℕ) (len : ℤ) :
    (Access.memchr off len).Safe resp ↔ 0 ≤ len ∧ (off : ℤ) + len ≤ resp.rbufsize := Iff.rfl

@[simp] theorem safe_cpystrn (resp : Response) (off : ℕ) (len : ℤ) :
    (Access.cpystrn off len).Safe resp ↔ 0 ≤ len ∧ (off : ℤ) + len ≤ resp.rbufsize := Iff.rfl

/-- The header line that starts at an offset of the buffer. -/
def headerLine (resp : Response) (i : ℕ) : Bytes :=
  (lines ((resp.rbuf.take resp.rbufsize).drop i)).headD []

/-- What is copied comes from the header line at the first `Set-Cookie: `, and the cookie holds no CR
and no LF. -/
def FromLine (resp : Response) (accesses : List Access) (cookie : Cookie) : Prop :=
  ∃ i, strstr SET_COOKIE resp.rbuf = some i ∧
    (∀ off len, .cpystrn off len ∈ accesses →
      i ≤ off ∧ (off : ℤ) + (len - 1) ≤ i + (headerLine resp i).length) ∧
    IsLine cookie.name ∧ IsLine cookie.value

/-- Every length stays inside the buffer, and either no cookie is stored, or one that comes from its
header line. -/
def SafeTrace (left : ℕ → ℕ) (base : ℕ) (resp : Response) : Prop :=
  (∀ a ∈ (traceCookie left base resp).1, a.Safe resp) ∧
    (takeCookie left resp.rbuf = .ok none ∨ ∃ cookie, takeCookie left resp.rbuf = .ok (some cookie) ∧
      FromLine resp (traceCookie left base resp).1 cookie)

/-- The cookie step keeps to the buffer and to the line. -/
def SafeStep (base : ℕ) (resp : Response) : Prop :=
  (∀ a ∈ (tracedCookie base resp).1, a.Safe resp) ∧
    (cookieStep resp = .ok none ∨ ∃ cookie, cookieStep resp = .ok (some cookie) ∧
      FromLine resp (tracedCookie base resp).1 cookie)

/-- The offset lies in the buffer, and is an `int`. -/
def InBuffer (resp : Response) (off : ℕ) : Prop := off ≤ resp.rbufsize ∧ off < 2 ^ 31

/-- There is no `Set-Cookie: `, or the first one ends in the buffer; behind it there is no `=` in the
buffer, or the first `=` has no line end in front of it (and no CR or LF in front of a NUL there), and
a CR behind it in the buffer, with no LF in the value up to its end or a NUL. -/
def CookieInLine (resp : Response) : Prop :=
  ∀ i, strstr SET_COOKIE resp.rbuf = some i → InBuffer resp (i + 12) ∧
    let name := resp.rbuf.drop (i + 12)
    ∀ k, CString.memchr 61 (resp.rbufsize - (i + 12)) name = some k →
      InBuffer resp (i + 12 + k + 1) ∧ ¬ CRLF <:+: name.take k ∧ IsLine (cstr (name.take k)) ∧
      let value := resp.rbuf.drop (i + 12 + k + 1)
      ∃ e, CString.memchr CR (resp.rbufsize - (i + 12 + k + 1)) value = some e ∧
        LF ∉ cstr (value.take ((CString.memchr 59 e value).getD e))

/-! ### Searching -/

/-- `memchr` splits the memory at the byte it finds. -/
theorem memchr_split {c : UInt8} {n k : ℕ} {m : Bytes} (h : CString.memchr c n m = some k) :
    ∃ pre suf, m = pre ++ c :: suf ∧ pre.length = k ∧ c ∉ pre ∧ k < n := by
  induction m generalizing n k with
  | nil => simp [CString.memchr] at h
  | cons x m ih =>
    cases n with
    | zero => simp [CString.memchr] at h
    | succ n =>
      rw [CString.memchr, List.take_succ_cons, List.findIdx?_cons] at h
      by_cases hx : x = c
      · rw [if_pos (decide_eq_true hx), Option.some.injEq] at h
        exact ⟨[], m, by rw [hx, List.nil_append], h, List.not_mem_nil, by omega⟩
      · rw [if_neg (by simpa using hx)] at h
        obtain ⟨k, hk, rfl⟩ := Option.map_eq_some_iff.mp h
        obtain ⟨pre, suf, rfl, rfl, hpre, hlt⟩ := ih hk
        refine ⟨x :: pre, suf, rfl, rfl, ?_, by omega⟩
        exact List.not_mem_cons_of_ne_of_not_mem (Ne.symm hx) hpre

/-! ### The first line of a text -/

/-- **The first piece of a text** is its start, up to a line end. -/
theorem lines_head {m l : Bytes} {ls : List Bytes} (h : lines m = l :: ls) :
    l <+: m ∧ ¬ CRLF <:+: l := by
  have hshort : ∀ c : UInt8, ¬ CRLF <:+: [c] := by
    intro c hin
    have hlen := hin.length_le
    simp [CRLF] at hlen
  have hnil : ¬ CRLF <:+: [] := by
    intro hin
    have hlen := hin.length_le
    simp [CRLF] at hlen
  induction m using lines.induct generalizing l ls with
  | case1 =>
    rw [lines] at h
    cases h
    exact ⟨List.prefix_refl _, hnil⟩
  | case2 c =>
    rw [lines] at h
    cases h
    exact ⟨List.prefix_refl _, hshort c⟩
  | case3 c d m hend ih =>
    rw [lines, if_pos hend] at h
    cases h
    exact ⟨List.nil_prefix, hnil⟩
  | case4 c d m hend hno ih => exact absurd hno (lines_ne_nil _)
  | case5 c d m hend l' ls' hcons ih =>
    obtain ⟨hstart, hno⟩ := ih hcons
    rw [lines, if_neg hend, hcons] at h
    cases h
    refine ⟨List.cons_prefix_cons.mpr ⟨rfl, hstart⟩, fun hin => ?_⟩
    rcases List.infix_cons_iff.mp hin with hhere | hrest
    · -- a line end here would start the text
      obtain ⟨hc, hlf⟩ := List.cons_prefix_cons.mp hhere
      obtain ⟨t, ht⟩ := hlf
      obtain ⟨t', ht'⟩ := hstart
      rw [← ht] at ht'
      simp only [List.cons_append, List.nil_append, List.cons.injEq] at ht'
      exact hend ⟨hc.symm, ht'.1.symm⟩
    · exact hno hrest

/-- A stretch without line ends, with a character behind it that ends none, belongs to the first
piece. -/
theorem lines_append_piece {l : Bytes} (h : ¬ CRLF <:+: l) {c : UInt8} (hc : c ≠ LF) (m : Bytes) :
    ∃ l' ls, lines (c :: m) = l' :: ls ∧ lines (l ++ c :: m) = (l ++ l') :: ls := by
  induction l with
  | nil =>
    obtain ⟨l', ls, hls⟩ := List.exists_cons_of_ne_nil (lines_ne_nil (c :: m))
    exact ⟨l', ls, hls, hls⟩
  | cons x l ih =>
    obtain ⟨l', ls, hm, hlm⟩ := ih fun hin => h (List.infix_cons hin)
    refine ⟨l', ls, hm, ?_⟩
    cases l with
    | nil =>
      have hend : ¬ (x = CR ∧ c = LF) := fun hx => hc hx.2
      show lines (x :: c :: m) = _
      rw [lines, if_neg hend, hm]
      rfl
    | cons d l =>
      have hend : ¬ (x = CR ∧ d = LF) := by
        rintro ⟨rfl, rfl⟩
        exact h ⟨[], l, rfl⟩
      show lines (x :: d :: (l ++ c :: m)) = _
      rw [List.cons_append] at hlm
      rw [lines, if_neg hend, hlm]
      rfl

/-! ### Lengths and lines -/

/-- The offsets that an `int` holds. -/
theorem wrapInt_off {off : ℕ} (h : off < 2 ^ 31) : wrapInt 32 off = off :=
  wrapInt_of_lt (w := 31) (Int.natCast_nonneg off) (by exact_mod_cast h)

/-- A length up to the end of the buffer is safe where the offset does not wrap. -/
theorem safe_scan_iff (resp : Response) (off : ℕ) :
    (Access.memchr off (sizeLeft resp off)).Safe resp ↔ InBuffer resp off := by
  have hle : wrapInt 32 off ≤ off := wrapInt_le 32 (Int.natCast_nonneg off)
  have hlt : wrapInt 32 (off : ℤ) < 2 ^ 31 := by
    rw [show (32 : ℕ) = 31 + 1 from rfl]
    exact wrapInt_lt 31 _
  have hoff := @wrapInt_off off
  rw [safe_memchr, sizeLeft, InBuffer]
  generalize wrapInt 32 (off : ℤ) = w at hle hlt hoff ⊢
  constructor
  · rintro ⟨h0, hin⟩
    omega
  · rintro ⟨hin, hsmall⟩
    have hw := hoff hsmall
    omega

theorem bytesLeft_inBuffer {resp : Response} (hsize : resp.rbufsize < 2 ^ 64) {off : ℕ}
    (h : InBuffer resp off) : bytesLeft resp.rbufsize off = resp.rbufsize - off := by
  obtain ⟨hin, hsmall⟩ := h
  rw [bytesLeft, wrapInt_off hsmall,
    show ((resp.rbufsize : ℤ) - off) = (resp.rbufsize - off : ℕ) by omega]
  exact wrapNat_of_lt (by omega)

/-- The search for the end of the value goes no further than the CR. -/
theorem stop_le {e : ℕ} (value : Bytes) : (CString.memchr 59 e value).getD e ≤ e := by
  cases hs : CString.memchr 59 e value with
  | none => exact Nat.le_refl e
  | some s =>
    obtain ⟨-, -, -, -, -, hlt⟩ := memchr_split hs
    exact Nat.le_of_lt hlt

section Line

variable {resp : Response} {i k : ℕ}

/-- The buffer from the first `Set-Cookie: ` on, where an `=` stands behind it. -/
theorem buffer_named (hi : strstr SET_COOKIE resp.rbuf = some i)
    (hk : CString.memchr 61 (resp.rbufsize - (i + 12)) (resp.rbuf.drop (i + 12)) = some k) :
    ∃ name value, resp.rbuf.drop (i + 12) = name ++ 61 :: value ∧ name.length = k ∧
      resp.rbuf.drop (i + 12 + k + 1) = value ∧ i + 12 + k + 1 ≤ resp.rbufsize ∧
      (resp.rbuf.take resp.rbufsize).drop i =
        SET_COOKIE ++ (name ++ 61 :: value.take (resp.rbufsize - (i + 12 + k + 1))) := by
  obtain ⟨name, value, hname, rfl, -, hlt⟩ := memchr_split hk
  obtain ⟨behind, hbehind⟩ := strstr_pattern hi
  have hlen : SET_COOKIE.length = 12 := rfl
  have hdrop : resp.rbuf.drop (i + 12) = behind := by
    rw [← List.drop_drop, ← hbehind, ← hlen, List.drop_left]
  have hvalue : resp.rbuf.drop (i + 12 + name.length + 1) = value := by
    rw [Nat.add_assoc, ← List.drop_drop, hname, ← List.drop_drop, List.drop_left]
    rfl
  refine ⟨name, value, hname, rfl, hvalue, by omega, ?_⟩
  have hall : resp.rbuf.drop i = SET_COOKIE ++ name ++ [61] ++ value := by
    rw [← hbehind, ← hdrop, hname]
    simp
  have hcount : resp.rbufsize - i = (SET_COOKIE ++ name ++ [61]).length +
      (resp.rbufsize - (i + 12 + name.length + 1)) := by
    simp only [List.length_append, hlen, List.length_singleton]
    omega
  rw [List.drop_take, hall, hcount, List.take_length_add_append]
  simp

/-- A name on the header line holds no line end. -/
theorem noCRLF_of_line {name rest : Bytes}
    (hbuf : (resp.rbuf.take resp.rbufsize).drop i = SET_COOKIE ++ (name ++ rest))
    (hline : 12 + name.length ≤ (headerLine resp i).length) : ¬ CRLF <:+: name := by
  obtain ⟨l, ls, hlines⟩ :=
    List.exists_cons_of_ne_nil (lines_ne_nil ((resp.rbuf.take resp.rbufsize).drop i))
  obtain ⟨hstart, hno⟩ := lines_head hlines
  have hlen : SET_COOKIE.length = 12 := rfl
  have hfront : SET_COOKIE ++ name <+: l := by
    refine List.prefix_of_prefix_length_le ?_ hstart ?_
    · rw [hbuf, ← List.append_assoc]
      exact List.prefix_append _ _
    · rw [headerLine, hlines, List.headD_cons] at hline
      simpa only [List.length_append, hlen] using hline
  exact fun hin => hno ((hin.trans (List.suffix_append _ _).isInfix).trans hfront.isInfix)

/-- A name without line ends and a value without CR stand on the header line. -/
theorem line_of_noCRLF {name value : Bytes} (rest : Bytes)
    (hbuf : (resp.rbuf.take resp.rbufsize).drop i =
      SET_COOKIE ++ (name ++ 61 :: (value ++ rest)))
    (hname : ¬ CRLF <:+: name) (hvalue : CR ∉ value) :
    12 + name.length + 1 + value.length ≤ (headerLine resp i).length := by
  obtain ⟨l₁, ls₁, -, h₁⟩ := lines_append hvalue rest
  obtain ⟨l₂, ls₂, h₂, h₂'⟩ := lines_cons (show (61 : UInt8) ≠ CR by decide) (value ++ rest)
  obtain ⟨l₃, ls₃, h₃, h₃'⟩ :=
    lines_append_piece hname (show (61 : UInt8) ≠ LF by decide) (value ++ rest)
  obtain ⟨l₄, ls₄, h₄, h₄'⟩ :=
    lines_append (show CR ∉ SET_COOKIE by decide) (name ++ 61 :: (value ++ rest))
  rw [h₁, List.cons.injEq] at h₂
  rw [h₂', List.cons.injEq] at h₃
  rw [h₃', List.cons.injEq] at h₄
  rw [headerLine, hbuf, h₄', List.headD_cons, ← h₄.1, ← h₃.1, ← h₂.1]
  have hlen : SET_COOKIE.length = 12 := rfl
  simp only [List.length_append, List.length_cons, hlen]
  omega

end Line

/-! ### When the step is safe -/

section Safe

variable {left : ℕ → ℕ} {base : ℕ} {resp : Response}

/-- The first length handed on is that of the scan for the `=`. -/
theorem scan_mem {i : ℕ} (hi : strstr SET_COOKIE resp.rbuf = some i) :
    .memchr (i + 12) (sizeLeft resp (i + 12)) ∈ (traceCookie left base resp).1 := by
  cases hk : CString.memchr 61 (left (i + 12)) (resp.rbuf.drop (i + 12)) with
  | none =>
    rw [traceCookie_noName base hi hk]
    exact List.mem_singleton.mpr rfl
  | some k =>
    obtain ⟨more, hmore⟩ := traceCookie_named base hi hk
    rw [hmore]
    exact List.mem_cons_self

theorem inLine_of_safe (hleft : ∀ off, InBuffer resp off → left off = resp.rbufsize - off)
    (hbase : 0 < base) (h : SafeTrace left base resp) : CookieInLine resp := by
  obtain ⟨hsafe, hout⟩ := h
  intro i hi
  have hin : InBuffer resp (i + 12) := (safe_scan_iff resp _).mp (hsafe _ (scan_mem hi))
  refine ⟨hin, ?_⟩
  intro name k hk
  have hk' : CString.memchr 61 (left (i + 12)) name = some k := by rwa [hleft _ hin]
  obtain ⟨more, hmore⟩ := traceCookie_named base hi hk'
  have hin' : InBuffer resp (i + 12 + k + 1) :=
    (safe_scan_iff resp _).mp (hsafe _ (by rw [hmore]; simp))
  cases he : CString.memchr CR (left (i + 12 + k + 1)) (resp.rbuf.drop (i + 12 + k + 1)) with
  | none =>
    -- the length counted from NULL is negative
    have hneg := hsafe _ (traceCookie_open base hi hk' he)
    rw [safe_memchr] at hneg
    omega
  | some e =>
    have htrace := traceCookie_closed base hi hk' he
    have hcookie := traceCookie_snd left base resp
    rw [htrace] at hcookie
    rcases hout with hnone | ⟨cookie, hsome, hline⟩
    · rw [← hcookie] at hnone
      cases hnone
    · rw [← hcookie] at hsome
      cases hsome
      obtain ⟨i', hi', hcopies, hname, hvalue⟩ := hline
      obtain rfl : i = i' := Option.some.inj (hi.symm.trans hi')
      have hcopy := (hcopies (i + 12) (k + 1) (by rw [htrace]; simp)).2
      obtain ⟨name', value, hnm, rfl, -, -, hbuf⟩ := buffer_named hi hk
      refine ⟨hin', ?_, hname, e, by rwa [← hleft _ hin'], hvalue.2⟩
      show ¬ CRLF <:+: (resp.rbuf.drop (i + 12)).take name'.length
      rw [hnm, List.take_left]
      exact noCRLF_of_line hbuf (by omega)

theorem safe_of_inLine (hleft : ∀ off, InBuffer resp off → left off = resp.rbufsize - off)
    (h : CookieInLine resp) : SafeTrace left base resp := by
  have hcookie := traceCookie_snd left base resp
  cases hi : strstr SET_COOKIE resp.rbuf with
  | none =>
    rw [traceCookie_none base hi] at hcookie
    refine ⟨?_, .inl hcookie.symm⟩
    rw [traceCookie_none base hi]
    intro a ha
    cases ha
  | some i =>
    obtain ⟨hin, hrest⟩ := h i hi
    cases hk : CString.memchr 61 (resp.rbufsize - (i + 12)) (resp.rbuf.drop (i + 12)) with
    | none =>
      rw [← hleft _ hin] at hk
      rw [traceCookie_noName base hi hk] at hcookie
      refine ⟨?_, .inl hcookie.symm⟩
      rw [traceCookie_noName base hi hk]
      intro a ha
      rw [List.mem_singleton.mp ha]
      exact (safe_scan_iff resp _).mpr hin
    | some k =>
      obtain ⟨hin', hcrlf, hname, e, he, hlf⟩ := hrest k hk
      obtain ⟨name', value, hnm, rfl, hdrop, hend, hbuf⟩ := buffer_named hi hk
      rw [← hleft _ hin] at hk
      have he' : CString.memchr CR (left (i + 12 + name'.length + 1))
          (resp.rbuf.drop (i + 12 + name'.length + 1)) = some e := by rwa [hleft _ hin']
      have htrace := traceCookie_closed base hi hk he'
      rw [htrace] at hcookie
      have hstop := stop_le (e := e) (resp.rbuf.drop (i + 12 + name'.length + 1))
      obtain ⟨pre, suf, hvalue, hpre, hcr, hlt⟩ := memchr_split he
      generalize (CString.memchr 59 e (resp.rbuf.drop (i + 12 + name'.length + 1))).getD e = stop
        at hstop htrace hcookie hlf
      -- the value stands in front of the CR
      have hcr' : CR ∉ value.take stop := by
        rw [hdrop] at hvalue
        rw [hvalue, List.take_append_of_le_length (hpre ▸ hstop)]
        exact fun hmem => hcr ((List.take_prefix _ _).subset hmem)
      have hline : 12 + name'.length + 1 + (value.take stop).length ≤ (headerLine resp i).length := by
        refine line_of_noCRLF
          ((value.take (resp.rbufsize - (i + 12 + name'.length + 1))).drop stop) ?_ ?_ hcr'
        · have htake : value.take stop =
              (value.take (resp.rbufsize - (i + 12 + name'.length + 1))).take stop := by
            rw [List.take_take, Nat.min_eq_left (by omega)]
          rw [htake, List.take_append_drop]
          exact hbuf
        · rwa [hnm, List.take_left] at hcrlf
      have hlen : (value.take stop).length = stop := by
        rw [hdrop] at hvalue
        rw [List.length_take, hvalue, List.length_append]
        omega
      rw [hlen] at hline
      refine ⟨?_, .inr ⟨_, hcookie.symm, i, hi, ?_, hname, ?_, hlf⟩⟩
      · have hscan := (safe_scan_iff resp _).mpr hin
        have hscanEnd := (safe_scan_iff resp _).mpr hin'
        rw [safe_memchr] at hscan hscanEnd
        rw [htrace]
        simp only [List.forall_mem_cons, safe_memchr, safe_cpystrn]
        refine ⟨hscan, ⟨by omega, by omega⟩, hscanEnd, ⟨by omega, by omega⟩, ⟨by omega, by omega⟩,
          ?_⟩
        intro a ha
        cases ha
      · intro off len hmem
        rw [htrace] at hmem
        simp only [List.mem_cons, Access.cpystrn.injEq, List.not_mem_nil, or_false, reduceCtorEq,
          false_or] at hmem
        rcases hmem with ⟨rfl, rfl⟩ | ⟨rfl, rfl⟩
        · omega
        · omega
      · rw [cpystrn, hdrop]
        exact fun hmem => hcr' ((List.takeWhile_prefix _).subset hmem)

end Safe

/-- **The cookie step keeps to the buffer and to the line** if and only if the buffer holds the `=`
and the CR of its first `Set-Cookie: ` line, or no such line, or no `=` behind it. -/
theorem cookieStep_safe_iff {base : ℕ} (hbase : 0 < base) {resp : Response}
    (hsize : resp.rbufsize < 2 ^ 64) : SafeStep base resp ↔ CookieInLine resp :=
  ⟨inLine_of_safe (fun _ => bytesLeft_inBuffer hsize) hbase,
    safe_of_inLine fun _ => bytesLeft_inBuffer hsize⟩

/-- A response without a body. -/
def headOnly (text : Bytes) : Response := ⟨true, false, none, text, text.length, []⟩

theorem cookieStep_safe_plain :
    SafeStep 1 (headOnly (bytes "Set-Cookie: a=b" ++ CRLF ++ CRLF)) := by
  refine (cookieStep_safe_iff Nat.one_pos (by decide +kernel)).mpr ?_
  intro i hi
  have hfound : strstr SET_COOKIE (headOnly (bytes "Set-Cookie: a=b" ++ CRLF ++ CRLF)).rbuf =
      some 0 := by decide +kernel
  obtain rfl : 0 = i := Option.some.inj (hfound.symm.trans hi)
  refine ⟨⟨by decide +kernel, by omega⟩, ?_⟩
  intro name k hk
  have hname : CString.memchr 61
      ((headOnly (bytes "Set-Cookie: a=b" ++ CRLF ++ CRLF)).rbufsize - (0 + 12)) name = some 1 := by
    decide +kernel
  obtain rfl : 1 = k := Option.some.inj (hname.symm.trans hk)
  exact ⟨⟨by decide +kernel, by omega⟩, by decide +kernel, by decide +kernel, 1,
    by decide +kernel, by decide +kernel⟩

/-- A `Set-Cookie: ` line without `=`, in front of a line with one: the name runs over the line
end. -/
theorem namelessCookie_unsafe :
    ¬ ∀ (base : ℕ) (resp : Response), 0 < base → resp.rbufsize < 2 ^ 64 → SafeStep base resp := by
  intro h
  have hsize : (headOnly (bytes "Set-Cookie: a" ++ CRLF ++ bytes "X: b=c" ++ CRLF)).rbufsize <
      2 ^ 64 := by decide +kernel
  have hfits := inLine_of_safe (fun _ => bytesLeft_inBuffer hsize) Nat.one_pos
    (h 1 _ Nat.one_pos hsize)
  obtain ⟨-, hrest⟩ := hfits 0 (by decide +kernel)
  obtain ⟨-, hno, -⟩ := hrest 7 (by decide +kernel)
  exact hno (by decide +kernel)

end Flood.CookieBounds
