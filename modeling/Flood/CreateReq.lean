import Flood.HttpText
import Flood.RoundRobin

/-!
# Building a request

`round_robin_create_req` prints the parts of a request into one buffer.  `apr_base64_encode` is a
parameter.

* `createReq_text` — the buffer is the head that the configuration and the request determine, the
  cookies, an empty line and the payload.
* `createReq_roundTrip` — split at its first empty line, the buffer falls apart into the request
  line, the configured headers in order, and the payload, whose length the `Content-Length` line
  states.
-/

namespace Flood.CreateReq

open Flood.CString Flood.Net Flood.Template Flood.RoundRobin Flood.HttpText

def FLOOD_VERSION : Bytes := bytes "1.1"

/-! ### Printing -/

/-- `%s`: a NULL argument prints as `(null)`. -/
def fmtS (s : Option Bytes) : Bytes := (s.map cstr).getD (bytes "(null)")

/-- `%d` of an `apr_size_t`: the lower 32 bits are taken for an `int`. -/
def fmtD (n : ℕ) : Bytes :=
  let v := wrapInt 32 n
  (if v < 0 then bytes "-" else []) ++ decimal v.natAbs

/-- `apr_pstrcat` stops at the first NULL. -/
def pstrcat (args : List (Option Bytes)) : Bytes := (args.takeWhile Option.isSome).flatMap fmtS

/-! ### The parts of a request -/

/-- The rounds of `while (cook)`: a `;` stands before every cookie but the first. -/
def cookiePairs (first : Bool) : List Cookie → Bytes
  | [] => []
  | cook :: cs =>
    (if first then [] else bytes ";") ++ cstr cook.name ++ bytes "=" ++ cstr cook.value ++
      cookiePairs false cs

/-- The `cookies` of a request: none at all where no cookie was received. -/
def cookieHeader (jar : List Cookie) : Bytes :=
  if jar = [] then [] else bytes "Cookie: " ++ cookiePairs true jar ++ CRLF

/-- The `authz_hdr` of a request, `""` where it is NULL; a user without a password is an error. -/
def authzHdr (base64 : Bytes → Bytes) (u : Url) : Option Bytes :=
  match u.user, u.password with
  | none, _ => some []
  | some _, none => none
  | some user, some password =>
    let credtls := pstrcat [some user, some (bytes ":"), some password]
    some (pstrcat [some (bytes "Authorization: Basic "), some (base64 credtls), some CRLF])

/-- The `path` of a request. -/
def requestPath (rp : RoundRobinProfile) (r : Request) : Option Bytes :=
  if rp.proxyUrl ≠ none then
    some (pstrcat
      [r.parsedUri.scheme, some (bytes "://"), r.parsedUri.hostinfo, r.parsedUri.path])
  else r.parsedUri.path

/-- The lines that every request begins with. -/
def requestStart (rp : RoundRobinProfile) (u : Url) (r : Request) : Bytes :=
  fmtS u.methodString ++ bytes " " ++ fmtS (requestPath rp r) ++
    (if r.parsedUri.query ≠ none then bytes "?" else []) ++
    (if r.parsedUri.query ≠ none then fmtS r.parsedUri.query else []) ++ bytes " HTTP/1.1" ++ CRLF ++
  bytes "User-Agent: Flood/" ++ FLOOD_VERSION ++ CRLF ++
  bytes "Connection: " ++ (if r.keepalive then bytes "Keep-Alive" else bytes "Close") ++ CRLF ++
  bytes "Host: " ++ fmtS r.parsedUri.hostinfo ++ CRLF

/-- The lines about a payload, in a request that has one. -/
def payloadLines (r : Request) : Bytes :=
  bytes "Content-Length: " ++ fmtD r.payloadsize ++ CRLF ++
  bytes "Content-Type: " ++
    (if r.contenttype ≠ none then fmtS r.contenttype
      else bytes "application/x-www-form-urlencoded") ++ CRLF

/-- The extra headers of a url, `""` where they are NULL. -/
def extraHdr (u : Url) : Bytes := if u.extraHeaders ≠ none then fmtS u.extraHeaders else []

/-- The text of a request, given its `authz_hdr`. -/
def requestText (rp : RoundRobinProfile) (u : Url) (r : Request) (authz : Bytes) : Bytes :=
  let cookies := cookieHeader rp.cookie
  match r.method, r.payload with
  | .POST, some payload | .OTHER, some payload =>
    requestStart rp u r ++ payloadLines r ++ extraHdr u ++ authz ++ cookies ++ CRLF ++ cstr payload
  | _, _ => requestStart rp u r ++ extraHdr u ++ authz ++ cookies ++ CRLF

/-- `round_robin_create_req` -/
def roundRobinCreateReq (base64 : Bytes → Bytes) (rp : RoundRobinProfile) (r : Request) :
    Except Abort (Status × Request) :=
  match urlSlot rp.url rp.currentUrl with
  | none => .error .fault
  | some u =>
    let r := { r with wantresponse := u.responsetemplate.isSome }
    match authzHdr base64 u with
    | none => .ok (.egeneral, r)
    | some authz =>
      let rbuf := requestText rp u r authz
      .ok (.success, { r with rbuf := rbuf, rbufsize := strlen rbuf })

/-! ### What the printing functions print -/

theorem cstr_CRLF : cstr CRLF = CRLF := by decide

@[simp] theorem fmtS_some (s : Bytes) : fmtS (some s) = cstr s := rfl

theorem fmtD_of_lt {n : ℕ} (h : n < 2 ^ 31) : fmtD n = decimal n := by
  have hcast : (n : ℤ) < 2 ^ 31 := by exact_mod_cast h
  have hwrap : wrapInt 32 n = n := wrapInt_of_lt (w := 31) (Int.natCast_nonneg n) hcast
  simp only [fmtD, hwrap, Int.natAbs_natCast]
  rw [if_neg (by omega), List.nil_append]

/-- Digits are part of a line. -/
theorem isLine_decimal (n : ℕ) : IsLine (decimal n) := by
  have hdigits := (decimal_denotes n).2.1
  have hnot : ∀ d : UInt8, d < 48 → d ∉ decimal n := fun d hd hmem =>
    digit_ne (by decide) (hdigits d hmem) hd rfl
  exact ⟨hnot CR (by decide), hnot LF (by decide)⟩

/-- **What `Content-Length` states** is read back as the number printed. -/
theorem strtol_decimal {n : ℕ} (h : n < 2 ^ 31) : strtol 10 (decimal n) = ((n : ℤ), []) := by
  obtain ⟨hne, hdigits, hvalue⟩ := decimal_denotes n
  have hle : (digitsValue 10 (decimal n) : ℤ) ≤ LONG_MAX := by
    rw [hvalue]
    exact le_trans (Int.ofNat_le.mpr h.le) (by decide)
  rw [strtol_digits (by decide) hne hdigits hle, hvalue]

/-! ### The buffer holds no NUL -/

theorem fmtS_noNUL (s : Option Bytes) : 0 ∉ fmtS s := by
  cases s with
  | none => decide
  | some s => exact cstr_noNUL s

theorem pstrcat_noNUL (args : List (Option Bytes)) : 0 ∉ pstrcat args := by
  intro h
  obtain ⟨s, -, hs⟩ := List.mem_flatMap.mp h
  exact fmtS_noNUL s hs

theorem fmtD_noNUL (n : ℕ) : 0 ∉ fmtD n := by
  intro h
  rcases List.mem_append.mp h with h | h
  · split at h
    · exact absurd h (by decide)
    · cases h
  · exact digit_ne (by decide) ((decimal_denotes _).2.1 0 h) (d := 0) (by decide) rfl

theorem cookiePairs_noNUL (first : Bool) (jar : List Cookie) : 0 ∉ cookiePairs first jar := by
  induction jar generalizing first with
  | nil => exact List.not_mem_nil
  | cons c cs ih =>
    have hsep : 0 ∉ if first then [] else bytes ";" := by cases first <;> decide
    simp only [cookiePairs, List.mem_append, not_or]
    exact ⟨⟨⟨⟨hsep, cstr_noNUL _⟩, by decide⟩, cstr_noNUL _⟩, ih false⟩

theorem authzHdr_noNUL {base64 : Bytes → Bytes} {u : Url} {authz : Bytes}
    (h : authzHdr base64 u = some authz) : 0 ∉ authz := by
  unfold authzHdr at h
  split at h
  · cases h
    exact List.not_mem_nil
  · cases h
  · cases h
    exact pstrcat_noNUL _

/-- **The buffer is sent as a whole**: it holds no NUL, at which `strlen` would stop. -/
theorem requestText_noNUL (rp : RoundRobinProfile) (u : Url) (r : Request) {authz : Bytes}
    (hauthz : 0 ∉ authz) : 0 ∉ requestText rp u r authz := by
  have hstart : 0 ∉ requestStart rp u r := by
    simp only [requestStart, List.mem_append, not_or]
    refine ⟨⟨⟨⟨⟨⟨⟨⟨⟨⟨⟨⟨⟨⟨⟨fmtS_noNUL _, ?_⟩, fmtS_noNUL _⟩, ?_⟩, ?_⟩, ?_⟩, ?_⟩, ?_⟩, ?_⟩, ?_⟩, ?_⟩, ?_⟩,
      ?_⟩, ?_⟩, fmtS_noNUL _⟩, ?_⟩
    all_goals first | decide | split
    all_goals first | decide | exact fmtS_noNUL _
  have hpayload : 0 ∉ payloadLines r := by
    simp only [payloadLines, List.mem_append, not_or]
    refine ⟨⟨⟨⟨⟨?_, fmtD_noNUL _⟩, ?_⟩, ?_⟩, ?_⟩, ?_⟩
    all_goals first | decide | split
    all_goals first | decide | exact fmtS_noNUL _
  have hextra : 0 ∉ extraHdr u := by
    unfold extraHdr
    split
    · exact fmtS_noNUL _
    · exact List.not_mem_nil
  have hcookies : 0 ∉ cookieHeader rp.cookie := by
    unfold cookieHeader
    split
    · exact List.not_mem_nil
    · simp only [List.mem_append, not_or]
      exact ⟨⟨by decide, cookiePairs_noNUL _ _⟩, by decide⟩
  have hcrlf : 0 ∉ CRLF := by decide
  unfold requestText
  split <;> simp [hstart, hpayload, hextra, hcookies, hcrlf, hauthz, cstr_noNUL]

/-! ### The text of a request -/

/-- The lines about the payload, where the request has one that is sent. -/
def payloadPart (r : Request) : Bytes :=
  match r.method, r.payload with
  | .POST, some _ | .OTHER, some _ => payloadLines r
  | _, _ => []

/-- What a request holds in front of its cookies. -/
def requestHead (rp : RoundRobinProfile) (u : Url) (r : Request) (authz : Bytes) : Bytes :=
  requestStart rp u r ++ payloadPart r ++ extraHdr u ++ authz

/-- What a request holds behind its empty line. -/
def requestBody (r : Request) : Bytes :=
  match r.method, r.payload with
  | .POST, some payload | .OTHER, some payload => cstr payload
  | _, _ => []

theorem requestText_eq (rp : RoundRobinProfile) (u : Url) (r : Request) (authz : Bytes) :
    requestText rp u r authz =
      requestHead rp u r authz ++ cookieHeader rp.cookie ++ CRLF ++ requestBody r := by
  cases hm : r.method <;> cases hp : r.payload <;>
    simp [requestText, requestHead, requestBody, payloadPart, hm, hp, List.append_assoc]

/-- The head is closed by CRLF where the extra headers are. -/
theorem requestHead_closed {base64 : Bytes → Bytes} {u : Url} {authz : Bytes}
    (hauthz : authzHdr base64 u = some authz) (hextra : extraHdr u = [] ∨ CRLF <:+ extraHdr u)
    (rp : RoundRobinProfile) (r : Request) : CRLF <:+ requestHead rp u r authz := by
  have hstart : CRLF <:+ requestStart rp u r ++ payloadPart r := by
    have hlines : CRLF <:+ requestStart rp u r := List.suffix_append _ _
    unfold payloadPart
    split
    · exact (List.suffix_append _ CRLF).trans (List.suffix_append _ _)
    · exact (List.suffix_append _ CRLF).trans (List.suffix_append _ _)
    · simpa using hlines
  have hhead : CRLF <:+ requestStart rp u r ++ payloadPart r ++ extraHdr u := by
    rcases hextra with hnil | hclosed
    · simpa [hnil] using hstart
    · exact hclosed.trans (List.suffix_append _ _)
  have hlast : authz = [] ∨ CRLF <:+ authz := by
    unfold authzHdr at hauthz
    split at hauthz
    · cases hauthz
      exact .inl rfl
    · cases hauthz
    · cases hauthz
      refine .inr ?_
      simp only [pstrcat, List.takeWhile, Option.isSome_some, List.flatMap_cons, List.flatMap_nil,
        fmtS_some, cstr_CRLF, List.append_nil]
      exact (List.suffix_append _ CRLF).trans (List.suffix_append _ _)
  rcases hlast with rfl | hclosed
  · simpa [requestHead] using hhead
  · exact hclosed.trans (List.suffix_append _ _)

/-- **The buffer built by `round_robin_create_req`.** -/
theorem createReq_text {base64 : Bytes → Bytes} {rp : RoundRobinProfile} {r r' : Request}
    (h : roundRobinCreateReq base64 rp r = .ok (.success, r')) :
    ∃ u authz, urlSlot rp.url rp.currentUrl = some u ∧ authzHdr base64 u = some authz ∧
      r'.rbuf = requestHead rp u r authz ++ cookieHeader rp.cookie ++ CRLF ++ requestBody r ∧
      r'.rbufsize = r'.rbuf.length := by
  simp only [roundRobinCreateReq] at h
  split at h
  · cases h
  · next u hu =>
    split at h
    · cases h
    · next authz hauthz =>
      cases h
      refine ⟨u, authz, hu, hauthz, requestText_eq rp u _ authz, ?_⟩
      exact congrArg List.length
        (cstr_of_not_mem (requestText_noNUL rp u _ (authzHdr_noNUL hauthz)))

/-! ### The cookies as a line -/

/-- A cookie as it is sent. -/
def pair (c : Bytes × Bytes) : Bytes := c.1 ++ bytes "=" ++ c.2

/-- The name and the value that `%s` prints of a cookie. -/
def Cookie.printed (c : Cookie) : Bytes × Bytes := (cstr c.name, cstr c.value)

theorem cookiePairs_cons (c : Cookie) (cs : List Cookie) :
    cookiePairs true (c :: cs) =
      joinWith (bytes ";") ((c :: cs).map fun c => pair (Cookie.printed c)) := by
  induction cs generalizing c with
  | nil => simp [cookiePairs, joinWith, pair, Cookie.printed]
  | cons d cs ih =>
    have htail := ih d
    simp only [cookiePairs, if_true, List.nil_append] at htail
    rw [List.map_cons, joinWith_cons _ _ (by simp), ← htail]
    simp [cookiePairs, pair, Cookie.printed]

/-- The line about the cookies, where there is one. -/
def cookieLines (cookies : List (Bytes × Bytes)) : List Bytes :=
  if cookies = [] then [] else [bytes "Cookie: " ++ joinWith (bytes ";") (cookies.map pair)]

/-- **The cookies of a request** are one line, or none. -/
theorem cookieHeader_eq (jar : List Cookie) :
    cookieHeader jar = unlines (cookieLines (jar.map Cookie.printed)) := by
  cases jar with
  | nil => rfl
  | cons c cs =>
    have hne : (c :: cs).map Cookie.printed ≠ [] := by simp
    rw [cookieHeader, if_neg (List.cons_ne_nil _ _), cookiePairs_cons, cookieLines, if_neg hne]
    simp [unlines, Function.comp_def]

/-! ### The parts and what is made of them -/

/-- The parts of a request with a payload, as text. -/
structure RequestParts where
  method : Bytes
  scheme : Bytes
  host : Bytes
  path : Bytes
  query : Option Bytes
  proxied : Bool
  keepalive : Bool
  contenttype : Option Bytes
  extra : List Bytes
  credentials : Option Bytes
  cookies : List (Bytes × Bytes)
  payload : Bytes

namespace RequestParts

/-- The absolute URI for a proxy, the path for the server itself; the query follows a `?`. -/
def target (p : RequestParts) : Bytes :=
  (if p.proxied then p.scheme ++ bytes "://" ++ p.host ++ p.path else p.path) ++
    match p.query with
    | none => []
    | some query => bytes "?" ++ query

def requestLine (p : RequestParts) : Bytes := p.method ++ bytes " " ++ p.target ++ bytes " HTTP/1.1"

/-- The header lines in their order; `length` is the text of the length. -/
def headers (p : RequestParts) (length : Bytes) : List Bytes :=
  [bytes "User-Agent: Flood/" ++ FLOOD_VERSION,
    bytes "Connection: " ++ (if p.keepalive then bytes "Keep-Alive" else bytes "Close"),
    bytes "Host: " ++ p.host,
    bytes "Content-Length: " ++ length,
    bytes "Content-Type: " ++ p.contenttype.getD (bytes "application/x-www-form-urlencoded")] ++
  p.extra ++ p.credentials.toList.map (bytes "Authorization: Basic " ++ ·) ++ cookieLines p.cookies

/-- The parts hold no CR and no LF, and no extra header is empty. -/
structure Clean (p : RequestParts) : Prop where
  method : IsLine p.method
  scheme : p.proxied = true → IsLine p.scheme
  host : IsLine p.host
  path : IsLine p.path
  query : ∀ q, p.query = some q → IsLine q
  contenttype : ∀ t, p.contenttype = some t → IsLine t
  extra : ∀ l ∈ p.extra, l ≠ [] ∧ IsLine l
  credentials : ∀ c, p.credentials = some c → IsLine c
  cookies : ∀ c ∈ p.cookies, IsLine c.1 ∧ IsLine c.2

/-- The parts are those of this profile, url slot and request. -/
structure Of (base64 : Bytes → Bytes) (rp : RoundRobinProfile) (u : Url) (r : Request)
    (p : RequestParts) : Prop where
  method : u.methodString.map cstr = some p.method
  scheme : r.parsedUri.scheme.map cstr = some p.scheme
  host : r.parsedUri.hostinfo.map cstr = some p.host
  path : r.parsedUri.path.map cstr = some p.path
  query : r.parsedUri.query.map cstr = p.query
  proxied : p.proxied = rp.proxyUrl.isSome
  keepalive : p.keepalive = r.keepalive
  contenttype : r.contenttype.map cstr = p.contenttype
  extra : cstr (u.extraHeaders.getD []) = unlines p.extra
  credentials : (u.user = none ∧ p.credentials = none) ∨ ∃ user password, u.user = some user ∧
    u.password = some password ∧
    p.credentials = some (cstr (base64 (cstr user ++ bytes ":" ++ cstr password)))
  cookies : rp.cookie.map Cookie.printed = p.cookies
  payload : r.payload = some p.payload
  payloadsize : r.payloadsize = p.payload.length

end RequestParts

theorem isLine_cookieLines {cookies : List (Bytes × Bytes)}
    (h : ∀ c ∈ cookies, IsLine c.1 ∧ IsLine c.2) :
    ∀ l ∈ cookieLines cookies, l ≠ [] ∧ IsLine l := by
  have hjoin : ∀ ls : List Bytes, (∀ l ∈ ls, IsLine l) → IsLine (joinWith (bytes ";") ls) := by
    intro ls hls
    induction ls with
    | nil => exact ⟨List.not_mem_nil, List.not_mem_nil⟩
    | cons l ls ih =>
      have hl := hls l List.mem_cons_self
      by_cases hnil : ls = []
      · rw [hnil]
        exact hl
      · rw [joinWith_cons _ _ hnil, isLine_append, isLine_append]
        exact ⟨⟨hl, by decide⟩, ih fun x hx => hls x (List.mem_cons_of_mem _ hx)⟩
  intro l hl
  rw [cookieLines] at hl
  split at hl
  · cases hl
  · rw [List.mem_singleton.mp hl, isLine_append]
    refine ⟨by simp [bytes], by decide, hjoin _ fun x hx => ?_⟩
    obtain ⟨c, hc, rfl⟩ := List.mem_map.mp hx
    rw [pair, isLine_append, isLine_append]
    exact ⟨⟨(h c hc).1, by decide⟩, (h c hc).2⟩

/-- The request line and the headers are lines, and none is empty. -/
theorem RequestParts.Clean.lines {p : RequestParts} (h : p.Clean) (n : ℕ) :
    ∀ l ∈ p.requestLine :: p.headers (decimal n), l ≠ [] ∧ IsLine l := by
  have hnamed : ∀ (key value : Bytes), key ≠ [] → IsLine key → IsLine value →
      key ++ value ≠ [] ∧ IsLine (key ++ value) := fun key value hne hkey hvalue =>
    ⟨by simp [hne], isLine_append.mpr ⟨hkey, hvalue⟩⟩
  have htarget : IsLine p.target := by
    rw [RequestParts.target, isLine_append]
    constructor
    · split
      · next hproxied =>
        rw [isLine_append, isLine_append, isLine_append]
        exact ⟨⟨⟨h.scheme hproxied, by decide⟩, h.host⟩, h.path⟩
      · exact h.path
    · split
      · exact ⟨List.not_mem_nil, List.not_mem_nil⟩
      · next q hq => exact isLine_append.mpr ⟨by decide, h.query q hq⟩
  have hcontenttype : IsLine (p.contenttype.getD (bytes "application/x-www-form-urlencoded")) := by
    cases ht : p.contenttype with
    | none => decide
    | some t => exact h.contenttype t ht
  intro l hl
  simp only [RequestParts.headers, List.mem_cons, List.mem_append, List.not_mem_nil, or_false,
    List.mem_map] at hl
  rcases hl with rfl | (((rfl | rfl | rfl | rfl | rfl) | hl) | ⟨c, hc, rfl⟩) | hl
  · rw [RequestParts.requestLine, isLine_append, isLine_append, isLine_append]
    exact ⟨by simp [bytes], ⟨⟨h.method, by decide⟩, htarget⟩, by decide⟩
  · exact hnamed _ _ (by decide) (by decide) (by decide)
  · exact hnamed _ _ (by decide) (by decide) (by split <;> decide)
  · exact hnamed _ _ (by decide) (by decide) h.host
  · exact hnamed _ _ (by decide) (by decide) (isLine_decimal n)
  · exact hnamed _ _ (by decide) (by decide) hcontenttype
  · exact h.extra l hl
  · exact hnamed _ _ (by decide) (by decide) (h.credentials c (by simpa using hc))
  · exact isLine_cookieLines h.cookies l hl

/-! ### The round trip -/

theorem fmtS_of_map {s : Option Bytes} {t : Bytes} (h : s.map cstr = some t) : fmtS s = t := by
  rw [fmtS, h, Option.getD_some]

/-- The target and the query as the request line shows them. -/
theorem requestPath_target {base64 : Bytes → Bytes} {rp : RoundRobinProfile} {u : Url}
    {r : Request} {p : RequestParts} (hp : p.Of base64 rp u r) :
    fmtS (requestPath rp r) ++ ((if r.parsedUri.query ≠ none then bytes "?" else []) ++
      if r.parsedUri.query ≠ none then fmtS r.parsedUri.query else []) = p.target := by
  have hpath : fmtS (requestPath rp r) =
      if p.proxied then p.scheme ++ bytes "://" ++ p.host ++ p.path else p.path := by
    obtain ⟨scheme, hscheme, hs⟩ := Option.map_eq_some_iff.mp hp.scheme
    obtain ⟨host, hhost, hh⟩ := Option.map_eq_some_iff.mp hp.host
    obtain ⟨path, hpath, hpt⟩ := Option.map_eq_some_iff.mp hp.path
    rw [requestPath, hp.proxied, hscheme, hhost, hpath]
    cases rp.proxyUrl with
    | none => simpa using hpt
    | some proxy =>
      have hcat : pstrcat [some scheme, some (bytes "://"), some host, some path] =
          p.scheme ++ bytes "://" ++ p.host ++ p.path := by
        have hslashes : cstr (bytes "://") = bytes "://" := by decide
        simp [pstrcat, hs, hh, hpt, hslashes]
      have hnul : 0 ∉ p.scheme ++ bytes "://" ++ p.host ++ p.path := by
        rw [← hcat]
        exact pstrcat_noNUL _
      rw [if_pos (Option.some_ne_none proxy), hcat, fmtS_some, cstr_of_not_mem hnul]
      rfl
  rw [hpath, RequestParts.target, ← hp.query]
  cases r.parsedUri.query with
  | none => simp
  | some q => simp

/-- The first lines of a request. -/
theorem requestStart_lines {base64 : Bytes → Bytes} {rp : RoundRobinProfile} {u : Url}
    {r : Request} {p : RequestParts} (hp : p.Of base64 rp u r) :
    requestStart rp u r = unlines [p.requestLine,
      bytes "User-Agent: Flood/" ++ FLOOD_VERSION,
      bytes "Connection: " ++ (if p.keepalive then bytes "Keep-Alive" else bytes "Close"),
      bytes "Host: " ++ p.host] := by
  rw [RequestParts.requestLine, ← requestPath_target hp, requestStart, fmtS_of_map hp.method,
    fmtS_of_map hp.host, hp.keepalive]
  simp [unlines]

/-- The lines about the payload. -/
theorem payloadPart_lines {base64 : Bytes → Bytes} {rp : RoundRobinProfile} {u : Url}
    {r : Request} {p : RequestParts} (hmethod : r.method = .POST ∨ r.method = .OTHER)
    (hp : p.Of base64 rp u r) (hsize : p.payload.length < 2 ^ 31) :
    payloadPart r = unlines [bytes "Content-Length: " ++ decimal p.payload.length,
      bytes "Content-Type: " ++
        p.contenttype.getD (bytes "application/x-www-form-urlencoded")] := by
  have hpart : payloadPart r = payloadLines r := by
    rcases hmethod with hm | hm <;> simp only [payloadPart, hm, hp.payload]
  have htype : (if r.contenttype ≠ none then fmtS r.contenttype
      else bytes "application/x-www-form-urlencoded") =
      p.contenttype.getD (bytes "application/x-www-form-urlencoded") := by
    rw [← hp.contenttype]
    cases r.contenttype with
    | none => simp
    | some t => simp
  rw [hpart, payloadLines, htype, hp.payloadsize, fmtD_of_lt hsize]
  simp [unlines]

theorem extraHdr_lines {base64 : Bytes → Bytes} {rp : RoundRobinProfile} {u : Url}
    {r : Request} {p : RequestParts} (hp : p.Of base64 rp u r) :
    extraHdr u = unlines p.extra := by
  rw [← hp.extra, extraHdr]
  cases u.extraHeaders with
  | none => rfl
  | some extra => simp

/-- The credentials are a line, or nothing. -/
theorem authzHdr_lines {base64 : Bytes → Bytes} {rp : RoundRobinProfile} {u : Url}
    {r : Request} {p : RequestParts} (hp : p.Of base64 rp u r) :
    authzHdr base64 u =
      some (unlines (p.credentials.toList.map (bytes "Authorization: Basic " ++ ·))) := by
  rcases hp.credentials with ⟨huser, hnone⟩ | ⟨user, password, huser, hpassword, hsome⟩
  · rw [authzHdr, huser, hnone]
    rfl
  · have hbasic : cstr (bytes "Authorization: Basic ") = bytes "Authorization: Basic " := by decide
    have hcolon : cstr (bytes ":") = bytes ":" := by decide
    rw [authzHdr, huser, hpassword, hsome]
    simp [pstrcat, unlines, hbasic, hcolon, cstr_CRLF]

/-- **The text of a request with a payload** is the message of its parts. -/
theorem requestText_message {base64 : Bytes → Bytes} {rp : RoundRobinProfile} {u : Url}
    {r : Request} {p : RequestParts} (hmethod : r.method = .POST ∨ r.method = .OTHER)
    (hp : p.Of base64 rp u r) (hnul : 0 ∉ p.payload) (hsize : p.payload.length < 2 ^ 31) :
    ∃ authz, authzHdr base64 u = some authz ∧ requestText rp u r authz =
      message (p.requestLine :: p.headers (decimal p.payload.length)) p.payload := by
  refine ⟨_, authzHdr_lines hp, ?_⟩
  have hbody : requestBody r = p.payload := by
    rcases hmethod with hm | hm <;>
      simp only [requestBody, hm, hp.payload, cstr_of_not_mem hnul]
  rw [requestText_eq, requestHead, requestStart_lines hp, payloadPart_lines hmethod hp hsize,
    extraHdr_lines hp, cookieHeader_eq, hp.cookies, hbody, message, RequestParts.headers]
  simp only [← unlines_append, List.cons_append, List.nil_append, List.append_assoc]

/-- **Every request with a payload falls apart into what it was made of**: split at the first empty
line of the buffer, the head holds the request line and the configured headers in their order, and
the rest is the payload, whose length is the number in the `Content-Length` line. -/
theorem createReq_roundTrip {base64 : Bytes → Bytes} {rp : RoundRobinProfile} {u : Url}
    {r : Request} {p : RequestParts} (hslot : urlSlot rp.url rp.currentUrl = some u)
    (hmethod : r.method = .POST ∨ r.method = .OTHER) (hp : p.Of base64 rp u r) (hclean : p.Clean)
    (hnul : 0 ∉ p.payload) (hsize : p.payload.length < 2 ^ 31) :
    ∃ r' head length, roundRobinCreateReq base64 rp r = .ok (.success, r') ∧
      r'.rbufsize = r'.rbuf.length ∧ splitHead r'.rbuf = some (head, p.payload) ∧
      lines head = p.requestLine :: p.headers length ∧
      strtol 10 length = ((p.payload.length : ℤ), []) := by
  let r₀ : Request := { r with wantresponse := u.responsetemplate.isSome }
  have hp₀ : p.Of base64 rp u r₀ := ⟨hp.method, hp.scheme, hp.host, hp.path, hp.query, hp.proxied,
    hp.keepalive, hp.contenttype, hp.extra, hp.credentials, hp.cookies, hp.payload, hp.payloadsize⟩
  obtain ⟨authz, hauthz, htext⟩ := requestText_message (r := r₀) hmethod hp₀ hnul hsize
  have hcreate : roundRobinCreateReq base64 rp r = .ok (.success, { r₀ with
      rbuf := requestText rp u r₀ authz, rbufsize := strlen (requestText rp u r₀ authz) }) := by
    simp only [roundRobinCreateReq, hslot, hauthz]
    rfl
  have hlines := hclean.lines p.payload.length
  obtain ⟨-, -, -, -, -, hlength⟩ := createReq_text hcreate
  refine ⟨_, joinWith CRLF (p.requestLine :: p.headers (decimal p.payload.length)),
    decimal p.payload.length, hcreate, hlength, ?_, ?_, strtol_decimal hsize⟩
  · show splitHead (requestText rp u r₀ authz) = _
    rw [htext, splitHead_message (List.cons_ne_nil _ _) hlines]
  · exact lines_joinWith (List.cons_ne_nil _ _) fun l hl => (hlines l hl).2

/-- The requests of `round_robin_get_next_url` carry the length of their payload, a scheme and a
path. -/
theorem getNextUrl_parts {env : Env} {rp rp' : RoundRobinProfile} {draws d : Draws} {r : Request}
    (h : roundRobinGetNextUrl env rp draws = .ok (r, rp', d)) :
    r.payloadsize = (r.payload.getD []).length ∧ r.parsedUri.scheme ≠ none ∧
      r.parsedUri.path ≠ none := by
  unfold roundRobinGetNextUrl at h
  split at h
  · cases h
  · split at h
    · cases h
    · split at h
      · cases h
      · split at h
        · cases h
        · dsimp only at h
          split at h
          · cases h
          · split at h
            · cases h
            · next hcheck =>
              cases h
              refine ⟨rfl, ?_⟩
              unfold checkUri at hcheck
              split at hcheck
              · next hscheme _ =>
                split at hcheck
                · cases hcheck
                · split at hcheck
                  · cases hcheck
                  · split at hcheck
                    · cases hcheck
                    · cases hcheck
                      exact ⟨by simp [hscheme], by simp⟩
              · cases hcheck

/-- A POST through a proxy with a query, an extra header, credentials and two cookies. -/
def postParts : RequestParts where
  method := bytes "POST"
  scheme := bytes "http"
  host := bytes "a"
  path := bytes "/x"
  query := some (bytes "q")
  proxied := true
  keepalive := true
  contenttype := none
  extra := [bytes "X: y"]
  credentials := some (bytes "dTpw")
  cookies := [(bytes "b", bytes "2"), (bytes "a", bytes "1")]
  payload := bytes "hi"

def postUrl : Url where
  method := .POST
  methodString := some (bytes "POST")
  extraHeaders := some (bytes "X: y" ++ CRLF)
  user := some (bytes "u")
  password := some (bytes "p")

def postProfile : RoundRobinProfile where
  executeRounds := 1
  urls := 1
  url := [postUrl]
  baseurl := none
  proxyUrl := some ⟨some (bytes "http"), some (bytes "proxy"), 8080, none, none, none, none, none⟩
  cookie := [⟨bytes "b", bytes "2"⟩, ⟨bytes "a", bytes "1"⟩]
  state := fun _ => none
  substList := none
  currentRound := 0
  currentUrl := 0

def postRequest : Request where
  uri := bytes "http://a/x?q"
  method := .POST
  payload := some (bytes "hi")
  payloadsize := 2
  parsedUri :=
    { scheme := some (bytes "http"), hostname := some (bytes "a"), port := 80
      path := some (bytes "/x"), query := some (bytes "q"), hostinfo := some (bytes "a") }
  keepalive := true

theorem createReq_roundTrip_post :
    ∃ r' head length,
      roundRobinCreateReq (fun _ => bytes "dTpw") postProfile postRequest = .ok (.success, r') ∧
      r'.rbufsize = r'.rbuf.length ∧ splitHead r'.rbuf = some (head, bytes "hi") ∧
      lines head = bytes "POST http://a/x?q HTTP/1.1" :: postParts.headers length ∧
      strtol 10 length = (2, []) := by
  have hof : postParts.Of (fun _ => bytes "dTpw") postProfile postUrl postRequest :=
    ⟨by decide, by decide, by decide, by decide, by decide, rfl, rfl, rfl, by decide,
      .inr ⟨_, _, rfl, rfl, by decide⟩, by decide, rfl, rfl⟩
  have hclean : postParts.Clean :=
    ⟨by decide, fun _ => by decide, by decide, by decide, by decide, by decide, by decide,
      by decide, by decide⟩
  exact createReq_roundTrip rfl (.inl rfl) hof hclean (by decide) (by decide)

end Flood.CreateReq
