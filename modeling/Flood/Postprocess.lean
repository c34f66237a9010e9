import Flood.RoundRobin

/-!
# After a response

`round_robin_postprocess` takes a cookie from the response, matches the response against the
template of its url and runs the url's script.  The regular expression library and the script are
parameters.

* `strstr_first`, `strstr_none` — `strstr` finds the first occurrence, up to the terminator.
* `cookieStep_first` — where the response has a well-formed `Set-Cookie: ` line and nothing like it
  in front, the cookie step takes the name and the value exactly as they stand there.
-/

namespace Flood.Postprocess

open Flood.CString Flood.Net Flood.Template Flood.RoundRobin

def SET_COOKIE : Bytes := bytes "Set-Cookie: "

/-- What the handler takes from outside: `regexec` for a pattern and a string, with the bounds of
the first sub-expression, and the outcome of running a script on a response. -/
structure Outside where
  regexec : Bytes → Bytes → Option (ℤ × ℤ)
  runScript : Bytes → Bytes → Status

/-- The length that the source gives `memchr`, from an offset to the end of the buffer; the offset
passes through an `int`. -/
def bytesLeft (rbufsize off : ℕ) : ℕ := wrapNat 64 (rbufsize - wrapInt 32 off)

/-- The string that `apr_cpystrn` leaves in a buffer of `n + 1` bytes. -/
def cpystrn (src : Bytes) (n : ℕ) : Bytes := cstr (src.take n)

/-- The search for a cookie in a buffer, where `left` is the length given to `memchr` from an offset
on. -/
def takeCookie (left : ℕ → ℕ) (rbuf : Bytes) : Except Abort (Option Cookie) :=
  match strstr SET_COOKIE rbuf with
  | none => .ok none
  | some i =>
    let cookieheader := i + 12
    let name := rbuf.drop cookieheader
    match memchr 61 (left cookieheader) name with
    | none => .ok none
    | some k =>
      let cookieheader := cookieheader + k + 1
      let value := rbuf.drop cookieheader
      match memchr CR (left cookieheader) value with
      | some cookieend =>
        let stop := (memchr 59 cookieend value).getD cookieend
        .ok (some ⟨cpystrn name k, cpystrn value stop⟩)
      | none =>
        -- `cookieend` is NULL: the search runs through all memory, and behind NULL where it fails
        match memchr 59 value.length value with
        | none => .error .fault
        | some stop => .ok (some ⟨cpystrn name k, cpystrn value stop⟩)

/-- The cookie that `round_robin_postprocess` takes from the response, if any. -/
def cookieStep (resp : Response) : Except Abort (Option Cookie) :=
  takeCookie (bytesLeft resp.rbufsize) resp.rbuf

/-- The match of a `responsetemplate`: the status, the bindings and the draws left behind. -/
def matchResponse (out : Outside) (rp : RoundRobinProfile) (u : Url) (resp : Response)
    (draws : Draws) : Except Abort (Status × Vars × Draws) :=
  match u.responsetemplate with
  | none => .ok (.success, rp.state, draws)
  | some responsetemplate =>
    match responsePattern rp responsetemplate draws with
    | .error a => .error a
    | .ok (expanded, state, draws) =>
      match out.regexec expanded (cstr resp.rbuf) with
      | none => .ok (.egeneral, state, draws)
      | some (so, eo) =>
        let newValue := cpystrn (resp.rbuf.drop so.toNat) (eo - so).toNat
        let key := (u.responsename.getD []).take u.responselen.toNat
        .ok (.success, Function.update state key (some newValue), draws)

/-- `round_robin_postprocess`: the status, the cookies and the bindings, and the draws. -/
def roundRobinPostprocess (out : Outside) (rp : RoundRobinProfile) (resp : Response)
    (draws : Draws) : Except Abort (Status × (List Cookie × Vars) × Draws) :=
  match cookieStep resp with
  | .error a => .error a
  | .ok taken =>
    let cookie := taken.toList ++ rp.cookie
    match urlSlot rp.url rp.currentUrl with
    | none => .error .fault
    | some u =>
      match matchResponse out rp u resp draws with
      | .error a => .error a
      | .ok (stat, state, draws) =>
        if stat ≠ .success then .ok (stat, (cookie, state), draws)
        else
          match u.responsescript with
          | none => .ok (.success, (cookie, state), draws)
          | some script =>
            .ok (out.runScript (cstr script) (cstr resp.rbuf), (cookie, state), draws)

/-! ### Searching -/

/-- **`strstr` finds the first occurrence** that stands before a NUL. -/
theorem strstr_first {pat : Bytes} (hpat : pat ≠ []) {n : ℕ} {m : Bytes} (hnul : 0 ∉ m.take n)
    (hocc : pat <+: m.drop n) (hfirst : ∀ i < n, ¬ pat <+: m.drop i) :
    strstr pat m = some n := by
  induction n generalizing m with
  | zero =>
    cases m with
    | nil => exact absurd (List.prefix_nil.mp hocc) hpat
    | cons c m =>
      have hfound : pat.isPrefixOf (c :: m) = true := List.isPrefixOf_iff_prefix.mpr hocc
      rw [strstr, if_pos hfound]
  | succ n ih =>
    cases m with
    | nil => exact absurd (List.prefix_nil.mp hocc) hpat
    | cons c m =>
      have hnot : ¬ pat.isPrefixOf (c :: m) = true := fun h =>
        hfirst 0 (Nat.zero_lt_succ n) (List.isPrefixOf_iff_prefix.mp h)
      have hc : c ≠ 0 := fun h => hnul (by simp [h])
      have htail := ih (m := m) (fun h => hnul (List.mem_cons_of_mem c h)) hocc
        fun i hi => hfirst (i + 1) (Nat.succ_lt_succ hi)
      rw [strstr, if_neg hnot, if_neg hc, htail, Option.map_some]

/-- `strstr` finds nothing where the string holds nothing. -/
theorem strstr_none {pat m : Bytes} (hpat : 0 ∉ pat) (h : ¬ pat <:+: cstr m) :
    strstr pat m = none := by
  induction m with
  | nil => rfl
  | cons c m ih =>
    have hnot : ¬ pat.isPrefixOf (c :: m) = true := by
      intro hfound
      obtain ⟨t, ht⟩ := List.isPrefixOf_iff_prefix.mp hfound
      refine h ⟨[], cstr t, ?_⟩
      rw [← ht, cstr_append_of_not_mem hpat, List.nil_append]
    rw [strstr, if_neg hnot]
    by_cases hc : c = 0
    · rw [if_pos hc]
    · have hcons : cstr (c :: m) = c :: cstr m := by simp [cstr, hc]
      rw [if_neg hc, ih fun hin => h (hcons ▸ List.infix_cons hin), Option.map_none]

/-- `memchr` finds the first `c` where the length reaches that far. -/
theorem memchr_found {c : UInt8} {pre : Bytes} (hpre : c ∉ pre) (rest : Bytes) {n : ℕ}
    (hn : pre.length < n) : memchr c n (pre ++ c :: rest) = some pre.length := by
  obtain ⟨k, rfl⟩ : ∃ k, n = pre.length + (k + 1) := ⟨n - pre.length - 1, by omega⟩
  rw [memchr, List.take_length_add_append, List.take_succ_cons]
  exact findIdx?_append_of_not_mem c pre _ hpre

/-- The length given to `memchr` covers at least the rest of the buffer. -/
theorem le_bytesLeft {rbufsize off : ℕ} (hoff : off ≤ rbufsize) (hsize : rbufsize < 2 ^ 63) :
    rbufsize - off ≤ bytesLeft rbufsize off := by
  have hlow : -(2 : ℤ) ^ 31 ≤ wrapInt 32 off := by
    have hle := Int.le_bmod (x := (off : ℤ)) (m := 2 ^ 32) (by decide)
    simp only [wrapInt]
    omega
  have hle : wrapInt 32 off ≤ off := wrapInt_le 32 (Int.natCast_nonneg off)
  obtain ⟨n, hn⟩ : ∃ n : ℕ, (rbufsize : ℤ) - wrapInt 32 off = n :=
    ⟨_, (Int.toNat_of_nonneg (by omega)).symm⟩
  rw [bytesLeft, hn, wrapNat_of_lt (by omega)]
  omega

/-! ### The cookie of a response -/

/-- The buffer of the response holds `pre`, the line `Set-Cookie: name=value`, closed at once or
behind attributes, and more; `behind` is the memory behind the buffer. -/
structure CookieText (resp : Response) (pre name value rest behind : Bytes) : Prop where
  memory : resp.rbuf = pre ++ SET_COOKIE ++ name ++ bytes "=" ++ value ++ rest ++ behind
  size : resp.rbufsize = (pre ++ SET_COOKIE ++ name ++ bytes "=" ++ value ++ rest).length
  small : resp.rbufsize < 2 ^ 63
  noNUL : 0 ∉ pre ++ SET_COOKIE ++ name ++ bytes "=" ++ value ++ rest
  name : 61 ∉ name
  value : 59 ∉ value ∧ CR ∉ value
  closed : (∃ post, rest = CRLF ++ post) ∨
    ∃ attributes post, rest = bytes ";" ++ attributes ++ CRLF ++ post

/-- The first `Set-Cookie: ` of the response is the well-formed line of this cookie. -/
def FirstCookie (resp : Response) (name value : Bytes) : Prop :=
  ∃ pre rest behind, CookieText resp pre name value rest behind ∧
    ∀ i < pre.length, ¬ SET_COOKIE <+: resp.rbuf.drop i

/-- The response holds exactly one `Set-Cookie: `, in the well-formed line of this cookie. -/
def OneCookie (resp : Response) (name value : Bytes) : Prop :=
  ∃ pre rest behind, CookieText resp pre name value rest behind ∧
    ∀ i, SET_COOKIE <+: (resp.rbuf.take resp.rbufsize).drop i → i = pre.length

/-- The string at the response's buffer holds no `Set-Cookie: `. -/
def NoCookie (resp : Response) : Prop := ¬ SET_COOKIE <:+: cstr resp.rbuf

theorem OneCookie.firstCookie {resp : Response} {name value : Bytes}
    (h : OneCookie resp name value) : FirstCookie resp name value := by
  obtain ⟨pre, rest, behind, htext, honce⟩ := h
  refine ⟨pre, rest, behind, htext, fun i hi hocc => ?_⟩
  have hsize := htext.size
  have hlen : SET_COOKIE.length = 12 := rfl
  simp only [List.length_append, hlen] at hsize
  have hin : SET_COOKIE <+: (resp.rbuf.take resp.rbufsize).drop i := by
    rw [List.drop_take, List.prefix_take_iff]
    exact ⟨hocc, by omega⟩
  exact absurd (honce i hin) (Nat.ne_of_lt hi)

/-- The name and the value hold no NUL. -/
theorem FirstCookie.noNUL {resp : Response} {name value : Bytes}
    (h : FirstCookie resp name value) : 0 ∉ name ∧ 0 ∉ value := by
  obtain ⟨pre, rest, behind, htext, -⟩ := h
  have hnul := htext.noNUL
  simp only [List.mem_append, not_or] at hnul
  exact ⟨hnul.1.1.1.2, hnul.1.2⟩

theorem cookieStep_none {resp : Response} (h : NoCookie resp) : cookieStep resp = .ok none := by
  have hpat : 0 ∉ SET_COOKIE := by decide
  simp only [cookieStep, takeCookie, strstr_none hpat h]

theorem takeCookie_some {left : ℕ → ℕ} {rbuf : Bytes} {i k e : ℕ}
    (hfind : strstr SET_COOKIE rbuf = some i)
    (hname : memchr 61 (left (i + 12)) (rbuf.drop (i + 12)) = some k)
    (hend : memchr CR (left (i + 12 + k + 1)) (rbuf.drop (i + 12 + k + 1)) = some e) :
    takeCookie left rbuf = .ok (some ⟨cpystrn (rbuf.drop (i + 12)) k,
      cpystrn (rbuf.drop (i + 12 + k + 1))
        ((memchr 59 e (rbuf.drop (i + 12 + k + 1))).getD e)⟩) := by
  simp only [takeCookie, hfind, hname, hend]

/-- The value ends where the source looks for its end: at the `;` or else at the CR. -/
theorem value_end {value rest : Bytes} (hvalue : 59 ∉ value ∧ CR ∉ value)
    (hclosed : (∃ post, rest = CRLF ++ post) ∨
      ∃ attributes post, rest = bytes ";" ++ attributes ++ CRLF ++ post)
    (behind : Bytes) {n : ℕ} (hn : (value ++ rest).length ≤ n) :
    ∃ e, memchr CR n (value ++ rest ++ behind) = some e ∧
      (memchr 59 e (value ++ rest ++ behind)).getD e = value.length := by
  rcases hclosed with ⟨post, rfl⟩ | ⟨attributes, post, rfl⟩
  · have hmem : value ++ (CRLF ++ post) ++ behind = value ++ CR :: (LF :: post ++ behind) := by
      simp [CRLF]
    refine ⟨value.length, ?_, ?_⟩
    · rw [hmem, memchr_found hvalue.2 _ (by simp [CRLF] at hn; omega)]
    · rw [List.append_assoc, memchr_append, findIdx?_of_not_mem 59 value hvalue.1]
      rfl
  · obtain ⟨pre, suf, hsplit, hpre⟩ :=
      List.eq_append_cons_of_mem (show CR ∈ attributes ++ CRLF ++ post by simp [CRLF])
    have hmem : value ++ (bytes ";" ++ attributes ++ CRLF ++ post) ++ behind =
        (value ++ 59 :: pre) ++ CR :: (suf ++ behind) := by
      have hsemi : bytes ";" = [59] := rfl
      rw [hsemi, List.append_assoc [59], List.append_assoc [59], hsplit]
      simp
    have hlen : (value ++ 59 :: pre).length < n := by
      have hall := congrArg List.length hsplit
      simp only [List.length_append, List.length_cons] at hall hn ⊢
      have hsemi : (bytes ";").length = 1 := rfl
      omega
    have hnot : CR ∉ value ++ 59 :: pre := by
      have hne : CR ≠ 59 := by decide
      simp [hvalue.2, hne, hpre]
    refine ⟨(value ++ 59 :: pre).length, ?_, ?_⟩
    · rw [hmem, memchr_found hnot _ hlen]
    · rw [hmem, List.append_assoc, List.cons_append, memchr_found hvalue.1 _ (by simp)]
      rfl

/-- **The cookie step takes the first cookie** of the response, with the name and the value exactly
as the server sent them. -/
theorem cookieStep_first {resp : Response} {name value : Bytes} (h : FirstCookie resp name value) :
    cookieStep resp = .ok (some ⟨name, value⟩) := by
  obtain ⟨pre, rest, behind, h, hfirst⟩ := h
  have hsize := h.size
  have hnul := h.noNUL
  have hlen : SET_COOKIE.length = 12 := rfl
  have heq : bytes "=" = [61] := rfl
  simp only [List.length_append, hlen, heq, List.length_singleton] at hsize
  simp only [List.mem_append, not_or] at hnul
  obtain ⟨⟨⟨⟨⟨hpre, -⟩, hname⟩, -⟩, hvalue⟩, -⟩ := hnul
  have hat : resp.rbuf.drop pre.length =
      SET_COOKIE ++ (name ++ 61 :: (value ++ rest ++ behind)) := by
    rw [h.memory, heq]
    simp
  have hname' : resp.rbuf.drop (pre.length + 12) = name ++ 61 :: (value ++ rest ++ behind) := by
    rw [← List.drop_drop, hat, ← hlen, List.drop_left]
  have hvalue' : resp.rbuf.drop (pre.length + 12 + name.length + 1) = value ++ rest ++ behind := by
    rw [Nat.add_assoc, ← List.drop_drop, hname', ← List.drop_drop, List.drop_left]
    rfl
  have hfind : strstr SET_COOKIE resp.rbuf = some pre.length := by
    refine strstr_first (by decide) ?_ ?_ hfirst
    · rw [h.memory]
      simpa using hpre
    · exact ⟨_, hat.symm⟩
  have hleft : resp.rbufsize - (pre.length + 12) ≤ bytesLeft resp.rbufsize (pre.length + 12) :=
    le_bytesLeft (by omega) h.small
  have heqs : memchr 61 (bytesLeft resp.rbufsize (pre.length + 12))
      (name ++ 61 :: (value ++ rest ++ behind)) = some name.length :=
    memchr_found h.name _ (by omega)
  have hleft' : resp.rbufsize - (pre.length + 12 + name.length + 1) ≤
      bytesLeft resp.rbufsize (pre.length + 12 + name.length + 1) :=
    le_bytesLeft (by omega) h.small
  obtain ⟨e, hcr, hend⟩ := value_end h.value h.closed behind
    (n := bytesLeft resp.rbufsize (pre.length + 12 + name.length + 1)) (by simp; omega)
  have hcpyname : cpystrn (name ++ 61 :: (value ++ rest ++ behind)) name.length = name := by
    rw [cpystrn, List.take_left, cstr_of_not_mem hname]
  have hcpyvalue : cpystrn (value ++ rest ++ behind) value.length = value := by
    rw [cpystrn, List.append_assoc, List.take_left, cstr_of_not_mem hvalue]
  rw [← hname'] at heqs
  rw [← hvalue'] at hcr
  rw [cookieStep, takeCookie_some hfind heqs hcr, hname', hvalue', hend, hcpyname, hcpyvalue]

end Flood.Postprocess
