import Flood.Profile
import Flood.Template

/-!
# The round-robin profile

The state of a round-robin profile and two of its handlers: `round_robin_get_next_url`, which turns
the current url slot into a request, and `round_robin_loop_condition`, which moves on to the next
slot and sleeps the delay of the slot it leaves.
-/

namespace Flood.RoundRobin

open Flood.CString Flood.Net Flood.Subst Flood.Template

/-- The memory `url->payload` points to: an attribute's text, or a buffer that holds the content
of a file and, behind it, bytes that were never written. -/
inductive Payload where
  | text (s : Bytes)
  | file (content : Bytes)
  deriving DecidableEq

/-- `url_t`; the delays are in microseconds. -/
structure Url where
  url : Option Bytes := none
  method : Method := .GET
  methodString : Option Bytes := none
  payload : Option Payload := none
  contenttype : Option Bytes := none
  extraHeaders : Option Bytes := none
  predelay : ℤ := 0
  predelayprecision : ℤ := 0
  postdelay : ℤ := 0
  postdelayprecision : ℤ := 0
  payloadtemplate : Option Bytes := none
  requesttemplate : Option Bytes := none
  responsetemplate : Option Bytes := none
  responsescript : Option Bytes := none
  responsename : Option Bytes := none
  responselen : ℤ := 0
  user : Option Bytes := none
  password : Option Bytes := none
  deriving DecidableEq

/-- `cookie_t`, as far as it is ever set. -/
structure Cookie where
  name : Bytes
  value : Bytes
  deriving DecidableEq

/-- `round_robin_profile_t`. -/
structure RoundRobinProfile where
  executeRounds : ℤ
  urls : ℤ
  url : List Url
  baseurl : Option Bytes
  proxyUrl : Option Uri
  cookie : List Cookie
  state : Vars
  substList : Option (List SubstRec)
  currentRound : ℤ
  currentUrl : ℤ

/-- `rp->url[i]`; outside the array nothing is known. -/
def urlSlot (url : List Url) (i : ℤ) : Option Url := if 0 ≤ i then url[i.toNat]? else none

/-- What the handlers take from outside: `apr_uri_parse` and `apr_uri_port_of_scheme`, the bytes
that happen to stand behind the content of a payload file, and the floating point arithmetic by
which a delay with a precision becomes a random delay. -/
structure Env where
  uriParse : Bytes → Uri
  portOfScheme : Bytes → ℕ
  behind : Bytes
  jitter : ℤ → ℤ → ℕ → ℤ

/-- The sleep for a delay: none for delay 0, and never a negative one. -/
def sleepFor (env : Env) (delay precision : ℤ) (draws : Draws) : ℤ × Draws :=
  if delay = 0 then (0, draws)
  else if precision = 0 then (max delay 0, draws)
  else (max (env.jitter delay precision (draws 0)) 0, draws.next)

/-- The payload of the request, its size and the bindings and draws left behind. -/
def requestPayload (env : Env) (rp : RoundRobinProfile) (u : Url) (draws : Draws) :
    Except Abort (Option Bytes × Vars × Draws) :=
  match u.payload, u.payloadtemplate with
  | some (.text s), _ => .ok (some (cstr s), rp.state, draws)
  | some (.file content), _ => .ok (some (cstr (content ++ env.behind)), rp.state, draws)
  | none, some t =>
    match parseParamString rp.substList (cstr t) rp.state draws with
    | .error a => .error a
    | .ok (s, state, draws) => .ok (some (cstr s), state, draws)
  | none, none => .ok (none, rp.state, draws)

/-- The request URI before the base url is put in front of it. -/
def requestUri (rp : RoundRobinProfile) (u : Url) (draws : Draws) :
    Except Abort (Option Bytes × Vars × Draws) :=
  match u.requesttemplate with
  | none => .ok (u.url, rp.state, draws)
  | some t =>
    match parseParamString rp.substList (cstr t) rp.state draws with
    | .error a => .error a
    | .ok (s, state, draws) => .ok (some (cstr s), state, draws)

/-- The content type of the request. -/
def requestContenttype (rp : RoundRobinProfile) (u : Url) (draws : Draws) :
    Except Abort (Option Bytes × Vars × Draws) :=
  match u.contenttype with
  | none => .ok (none, rp.state, draws)
  | some t =>
    match parseParamString rp.substList (cstr t) rp.state draws with
    | .error a => .error a
    | .ok (s, state, draws) => .ok (some (cstr s), state, draws)

/-- The string that `round_robin_postprocess` hands to `regcomp` for a `responsetemplate`, with the
bindings and the draws left behind. -/
def responsePattern (rp : RoundRobinProfile) (responsetemplate : Bytes) (draws : Draws) :
    Except Abort (Bytes × Vars × Draws) :=
  match expandParamString rp.substList (cstr responsetemplate) rp.state draws with
  | .error a => .error a
  | .ok (s, state, draws) => .ok (cstr s, state, draws)

/-- `apr_strnatcmp(s, lit) == 0` for a literal of letters: white space in `s` does not count. -/
def strnatEq (s lit : Bytes) : Bool := s.filter (!isSpace ·) = lit

/-- The checks of the parsed URI, each of which ends the process, and the defaults for its port
and path. -/
def checkUri (env : Env) (u : Uri) : Except Abort Uri :=
  match u.scheme, u.hostname with
  | some scheme, some hostname =>
    if hostname = [] then .error .exit
    else if ¬ strnatEq scheme (bytes "http") ∧ ¬ strnatEq scheme (bytes "https") then .error .exit
    else if u.user ≠ none ∨ u.password ≠ none then .error .exit
    else
      .ok { u with
        port := if u.port = 0 then env.portOfScheme scheme else u.port
        path := some (u.path.getD (bytes "/")) }
  | _, _ => .error .exit

/-- `round_robin_get_next_url`: the request for the current slot, and the profile and the draws
left behind.  A misformed URL ends the process. -/
def roundRobinGetNextUrl (env : Env) (rp : RoundRobinProfile) (draws : Draws) :
    Except Abort (Request × RoundRobinProfile × Draws) :=
  match urlSlot rp.url rp.currentUrl with
  | none => .error .fault
  | some u =>
    match requestUri rp u draws with
    | .error a => .error a
    | .ok (uri, state, draws) =>
      match requestPayload env { rp with state := state } u draws with
      | .error a => .error a
      | .ok (payload, state, draws) =>
        match requestContenttype { rp with state := state } u draws with
        | .error a => .error a
        | .ok (contenttype, state, draws) =>
          let draws := (sleepFor env u.predelay u.predelayprecision draws).2
          -- `apr_pstrcat` stops at the first NULL, `apr_uri_parse` reads through it
          match rp.baseurl, uri with
          | none, none => .error .fault
          | base, uri =>
            let uri := base.getD [] ++ uri.getD []
            match checkUri env (env.uriParse uri) with
            | .error a => .error a
            | .ok parsed =>
              .ok ({
                uri := uri, method := u.method
                payload := payload, payloadsize := (payload.getD []).length
                contenttype := contenttype, contenttypesize := (contenttype.getD []).length
                parsedUri := parsed, parsedProxyUri := rp.proxyUrl },
                { rp with state := state }, draws)

/-- The counters after a request: the next slot, and the next round behind the last slot. -/
def advance (rp : RoundRobinProfile) : RoundRobinProfile :=
  if rp.currentUrl + 1 ≥ rp.urls then
    { rp with currentUrl := 0, currentRound := rp.currentRound + 1 }
  else { rp with currentUrl := rp.currentUrl + 1 }

/-- `round_robin_loop_condition`: whether to go on, the profile and the draws left behind and,
where it goes on, the slot whose delay was applied with the time slept. -/
def roundRobinLoopCondition (env : Env) (rp : RoundRobinProfile) (draws : Draws) :
    Except Abort (Bool × RoundRobinProfile × Draws × Option (ℤ × ℤ)) :=
  let realCurrentUrl := rp.currentUrl
  let rp := advance rp
  if rp.currentRound ≥ rp.executeRounds then .ok (false, rp, draws, none)
  else
    match urlSlot rp.url realCurrentUrl with
    | none => .error .fault
    | some u =>
      let (slept, draws) := sleepFor env u.postdelay u.postdelayprecision draws
      .ok (true, rp, draws, some (realCurrentUrl, slept))

/-! ### Verifying a response -/

def FLOOD_VALID : ℤ := 0
def FLOOD_INVALID : ℤ := 1

/-- `memcmp(p, lit, strlen(lit)) == 0` -/
def startsWith (m lit : Bytes) : Bool := fetch m lit.length = lit

/-- `verify_200`: the value stored at `*verified`. -/
def verify200 (resp : Response) : ℤ :=
  if startsWith resp.rbuf (bytes "HTTP/1.1 2") then FLOOD_VALID
  else if startsWith (resp.rbuf.drop 9) (bytes "3") then FLOOD_VALID
  else if startsWith resp.rbuf (bytes "HTTP/1.0 2") then FLOOD_VALID
  else FLOOD_INVALID

/-- A token that `apr_strtok` found: where it starts, where the next call goes on, and the buffer
with the token terminated. -/
structure Token where
  start : ℕ
  last : ℕ
  buf : Bytes

/-- `apr_strtok` from the offset `pos` on; it sets `*last` only where it finds a token. -/
def aprStrtok (sep buf : Bytes) (pos : ℕ) : Option Token :=
  let s := cstr (buf.drop pos)
  let skipped := s.takeWhile (· ∈ sep)
  let token := (s.drop skipped.length).takeWhile (· ∉ sep)
  if token = [] then none
  else
    let start := pos + skipped.length
    let stop := start + token.length
    if stop < pos + s.length then some ⟨start, stop + 1, store buf stop [0]⟩
    else some ⟨start, stop, buf⟩

/-- `verify_status_code`: the value stored at `*verified`, and the response left behind.  The
separators are the string at the address of a single space, so they include whatever stands behind
it. -/
def verifyStatusCode (behind : Bytes) (resp : Response) : Except Abort (ℤ × Response) :=
  let sep := cstr (32 :: behind)
  match aprStrtok sep resp.rbuf 0 with
  | none => .error .unset
  | some protocol =>
    match aprStrtok sep protocol.buf protocol.last with
    | none => .error .fault
    | some scode =>
      let c := byteAt scode.buf scode.start
      .ok (if c = 50 ∨ c = 51 then FLOOD_VALID else FLOOD_INVALID,
        { resp with rbuf := scode.buf })

/-! ### What the handlers change -/

/-- `round_robin_get_next_url` changes nothing in the profile but the bindings. -/
theorem roundRobinGetNextUrl_profile {env : Env} {rp rp' : RoundRobinProfile} {draws d : Draws}
    {r : Request} (h : roundRobinGetNextUrl env rp draws = .ok (r, rp', d)) :
    rp' = { rp with state := rp'.state } := by
  unfold roundRobinGetNextUrl at h
  split at h
  · cases h
  · split at h
    · cases h
    · split at h
      · cases h
      · split at h
        · cases h
        · dsimp only at h
          split at h
          · cases h
          · split at h
            · cases h
            · simp only [Except.ok.injEq, Prod.mk.injEq] at h
              rw [← h.2.1]

/-- What `round_robin_get_next_url` does: it parses the templates of the slot, one behind the other. -/
theorem getNextUrl_steps {env : Env} {rp rp' : RoundRobinProfile} {draws d : Draws} {r : Request}
    (h : roundRobinGetNextUrl env rp draws = .ok (r, rp', d)) :
    ∃ u uri state₁ draws₁ state₂ draws₂ draws₃, urlSlot rp.url rp.currentUrl = some u ∧
      requestUri rp u draws = .ok (uri, state₁, draws₁) ∧
      requestPayload env { rp with state := state₁ } u draws₁ = .ok (r.payload, state₂, draws₂) ∧
      requestContenttype { rp with state := state₂ } u draws₂ =
        .ok (r.contenttype, rp'.state, draws₃) ∧
      r.uri = rp.baseurl.getD [] ++ uri.getD [] ∧ r.method = u.method := by
  unfold roundRobinGetNextUrl at h
  split at h
  · cases h
  · next u hu =>
    split at h
    · cases h
    · next uri state₁ draws₁ huri =>
      split at h
      · cases h
      · next payload state₂ draws₂ hpayload =>
        split at h
        · cases h
        · next contenttype state₃ draws₃ hcontenttype =>
          dsimp only at h
          split at h
          · cases h
          · split at h
            · cases h
            · cases h
              exact ⟨u, _, state₁, draws₁, state₂, draws₂, draws₃, hu, huri, hpayload,
                hcontenttype, rfl, rfl⟩

/-- What a request takes from the current slot: the method, and the payload. -/
theorem roundRobinGetNextUrl_slot {env : Env} {rp rp' : RoundRobinProfile} {draws d : Draws}
    {r : Request} {u : Url} (hslot : urlSlot rp.url rp.currentUrl = some u)
    (h : roundRobinGetNextUrl env rp draws = .ok (r, rp', d)) :
    r.method = u.method ∧ ∃ state draws₁ state' draws₂,
      requestPayload env { rp with state := state } u draws₁ = .ok (r.payload, state', draws₂) := by
  obtain ⟨u', uri, state₁, draws₁, state₂, draws₂, draws₃, hu, -, hpayload, -, -, hmethod⟩ :=
    getNextUrl_steps h
  rw [hslot] at hu
  cases hu
  exact ⟨hmethod, state₁, draws₁, state₂, draws₂, hpayload⟩

@[simp] theorem advance_urls (rp : RoundRobinProfile) : (advance rp).urls = rp.urls := by
  unfold advance; split <;> rfl

@[simp] theorem advance_url (rp : RoundRobinProfile) : (advance rp).url = rp.url := by
  unfold advance; split <;> rfl

@[simp] theorem advance_cookie (rp : RoundRobinProfile) : (advance rp).cookie = rp.cookie := by
  unfold advance; split <;> rfl

@[simp] theorem advance_baseurl (rp : RoundRobinProfile) : (advance rp).baseurl = rp.baseurl := by
  unfold advance; split <;> rfl

@[simp] theorem advance_substList (rp : RoundRobinProfile) :
    (advance rp).substList = rp.substList := by
  unfold advance; split <;> rfl

@[simp] theorem advance_executeRounds (rp : RoundRobinProfile) :
    (advance rp).executeRounds = rp.executeRounds := by
  unfold advance; split <;> rfl

end Flood.RoundRobin
