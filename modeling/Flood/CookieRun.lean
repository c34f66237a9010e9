import Flood.CreateReq
import Flood.Postprocess
import Flood.RoundRobinRun

/-!
# Cookies over a run

A run of the round-robin profile in which `round_robin_create_req` builds the requests and
`round_robin_postprocess` takes the cookies.  The other handlers are arbitrary; of what they work on,
only the request and the response are known.  The run records the responses postprocessed and the
last request built.

* `built_cookies` — every request carries the cookies taken from the responses before it.
* `cookies_sent` — where every response sets at most one cookie, these are the cookies received,
  newest first, just as the server sent them.
-/

namespace Flood.CookieRun

open Flood.CString Flood.Loop Flood.Net Flood.Template Flood.Profile Flood.RoundRobin
  Flood.RoundRobinRun Flood.HttpText Flood.CreateReq Flood.Postprocess

variable {β : Type}

/-- Where the other handlers keep the request and the response.  The request that `get_next_url`
made may be kept as it is or changed, as `begin_conn` changes its keep-alive flag. -/
structure Holder (β : Type) where
  request : Option Request → β → Option Request
  storeRequest : Request → β → β
  response : β → Option Response

/-- What the other handlers work on, with the record of the responses and of the request. -/
structure Recorded (β : Type) where
  inner : β
  received : List Response
  built : Option Request

def ofInner (h : Handler β) : Handler (Recorded β) :=
  ofPart Recorded.inner (fun inner st => { st with inner := inner }) h

def createReq (base64 : Bytes → Bytes) (hold : Holder β) : Handler (Recorded β) :=
  fun rp req draws st =>
    match hold.request req st.inner with
    | none => .error .fault
    | some r =>
      match roundRobinCreateReq base64 rp r with
      | .error a => .error a
      | .ok (stat, r) =>
        .ok (stat, draws, { st with inner := hold.storeRequest r st.inner, built := some r })

/-- The handlers of a run with cookies; `o` gives those of the other events. -/
def cookieEvents (base64 : Bytes → Bytes) (out : Outside) (hold : Holder β) (o : OtherEvents β) :
    OtherEvents (Recorded β) where
  beginConn := ofInner o.beginConn
  createReq := createReq base64 hold
  sendReq := ofInner o.sendReq
  recvResp := ofInner o.recvResp
  postprocess := fun rp _ draws st =>
    match hold.response st.inner with
    | none => .error .fault
    | some resp =>
      match roundRobinPostprocess out rp resp draws with
      | .error a => .error a
      | .ok (stat, vars, draws) =>
        .ok (stat, vars, draws, { st with received := st.received ++ [resp] })
  verifyResp := ofInner o.verifyResp
  endConn := ofInner o.endConn
  processStats := ofInner o.processStats
  requestDestroy := ofInner o.requestDestroy
  responseDestroy := ofInner o.responseDestroy
  socketDestroy := ofInner o.socketDestroy
  profileInit := ofInner o.profileInit
  reportInit := ofInner o.reportInit
  socketInit := ofInner o.socketInit
  reportStats := ofInner o.reportStats
  destroyReport := ofInner o.destroyReport
  profileDestroy := ofInner o.profileDestroy

/-! ### The jar -/

/-- The cookie taken from a response, as a list. -/
def taken (resp : Response) : List Cookie :=
  match cookieStep resp with
  | .error _ => []
  | .ok cookie => cookie.toList

/-- The jar that the responses leave: newest first. -/
def jarOf (received : List Response) : List Cookie := (received.reverse).flatMap taken

theorem jarOf_append (received : List Response) (resp : Response) :
    jarOf (received ++ [resp]) = taken resp ++ jarOf received := by
  simp [jarOf]

/-- **`round_robin_postprocess` puts what it takes from a response into the jar**, however it
ends. -/
theorem postprocess_cookie {out : Outside} {rp : RoundRobinProfile} {resp : Response}
    {draws d : Draws} {stat : Status} {cookie : List Cookie} {state : Vars}
    (h : roundRobinPostprocess out rp resp draws = .ok (stat, (cookie, state), d)) :
    cookie = taken resp ++ rp.cookie := by
  unfold roundRobinPostprocess at h
  cases hstep : cookieStep resp with
  | error a => rw [hstep] at h; cases h
  | ok c =>
    rw [hstep] at h
    have htaken : taken resp = c.toList := by rw [taken, hstep]
    rw [htaken]
    dsimp only at h
    split at h
    · cases h
    · split at h
      · cases h
      · split at h
        · simp only [Except.ok.injEq, Prod.mk.injEq] at h
          exact h.2.1.1.symm
        · split at h
          · simp only [Except.ok.injEq, Prod.mk.injEq] at h
            exact h.2.1.1.symm
          · simp only [Except.ok.injEq, Prod.mk.injEq] at h
            exact h.2.1.1.symm

/-- The jar of the profile is that of the responses received. -/
def Collected (s : RobinRun (Recorded β)) : Prop := s.rp.cookie = jarOf s.rest.received

theorem ofInner_collected (h : Handler β) (s : RobinRun (Recorded β)) (stat : Status)
    (s' : RobinRun (Recorded β)) (hs : Collected s)
    (he : ofHandler (ofInner h) s = .ok (stat, s')) : Collected s' := by
  obtain ⟨draws, inner, -, rfl⟩ := ofHandler_ofPart he
  exact hs

theorem createReq_collected (base64 : Bytes → Bytes) (hold : Holder β)
    (s : RobinRun (Recorded β)) (stat : Status) (s' : RobinRun (Recorded β)) (hs : Collected s)
    (he : ofHandler (createReq base64 hold) s = .ok (stat, s')) : Collected s' := by
  simp only [ofHandler, createReq] at he
  cases hreq : hold.request s.req s.rest.inner with
  | none => rw [hreq] at he; cases he
  | some r =>
    simp only [hreq] at he
    cases hrun : roundRobinCreateReq base64 s.rp r with
    | error a => rw [hrun] at he; cases he
    | ok p =>
      rw [hrun] at he
      cases he
      exact hs

theorem postprocess_collected (base64 : Bytes → Bytes) (out : Outside) (hold : Holder β)
    (o : OtherEvents β) (s : RobinRun (Recorded β)) (stat : Status)
    (s' : RobinRun (Recorded β)) (hs : Collected s)
    (he : postprocess (cookieEvents base64 out hold o) s = .ok (stat, s')) : Collected s' := by
  simp only [postprocess, cookieEvents] at he
  cases hresp : hold.response s.rest.inner with
  | none => rw [hresp] at he; cases he
  | some resp =>
    simp only [hresp] at he
    cases hrun : roundRobinPostprocess out s.rp resp s.draws with
    | error a => rw [hrun] at he; cases he
    | ok p =>
      obtain ⟨stat', ⟨cookie, state⟩, draws⟩ := p
      rw [hrun] at he
      cases he
      show cookie = jarOf (s.rest.received ++ [resp])
      rw [jarOf_append, postprocess_cookie hrun, hs]

theorem getNextUrl_collected (env : Env) (s : RobinRun (Recorded β)) (stat : Status)
    (s' : RobinRun (Recorded β)) (hs : Collected s)
    (he : getNextUrl env s = .ok (stat, s')) : Collected s' := by
  simp only [getNextUrl] at he
  split at he
  · cases he
  · next hget =>
    cases he
    show _ = jarOf s.rest.received
    rw [roundRobinGetNextUrl_profile hget]
    exact hs

theorem loopCondition_collected (env : Env) (s : RobinRun (Recorded β)) (again : Bool)
    (s' : RobinRun (Recorded β)) (hs : Collected s)
    (h : loopCondition env s = .ok (again, s')) : Collected s' := by
  have hrest : s'.rest = s.rest := by
    simp only [loopCondition] at h
    split at h
    · cases h
    · cases h
      rfl
  have hrp : s'.rp = advance s.rp := by
    rcases loopCondition_cases h with ⟨-, -, hrp, -⟩ | ⟨u, -, -, hrp, -⟩
    · exact hrp
    · exact hrp
  rw [Collected, hrp, hrest, advance_cookie]
  exact hs

/-! ### The requests of a run -/

section Requests

variable (env : Env) (base64 : Bytes → Bytes) (out : Outside) (hold : Holder β)
  (o : OtherEvents β)

/-- The handlers of the run. -/
abbrev events : ProfileEvents (RobinRun (Recorded β)) :=
  robinEvents env (cookieEvents base64 out hold o)

/-- In the run from `s₀` `round_robin_create_req` has just built a request, leaving `s`. -/
def RequestBuilt (s₀ s : RobinRun (Recorded β)) : Prop :=
  let ev := events env base64 out hold o
  Behind ev [ev.getNextUrl, ev.beginConn, ev.createReq] s₀ .success s

end Requests

variable {env : Env} {base64 : Bytes → Bytes} {out : Outside} {hold : Holder β}
  {o : OtherEvents β}

/-- Wherever the run stands, the jar is that of the responses received. -/
theorem behind_collected {s₀ : RobinRun (Recorded β)} (hs₀ : Collected s₀)
    {pre : List (Event (RobinRun (Recorded β)))}
    (hpre : pre <+: (events env base64 out hold o).transaction) {stat : Status}
    {s : RobinRun (Recorded β)} (h : Behind (events env base64 out hold o) pre s₀ stat s) :
    Collected s := by
  refine behind_preserves ?_ (loopCondition_collected env) hs₀ hpre h
  intro e he
  simp only [ProfileEvents.transaction, List.mem_cons, List.not_mem_nil, or_false] at he
  rcases he with rfl | rfl | rfl | rfl | rfl | rfl | rfl | rfl | rfl | rfl | rfl | rfl
  · exact getNextUrl_collected env
  · exact ofInner_collected _
  · exact createReq_collected base64 hold
  · exact ofInner_collected _
  · exact ofInner_collected _
  · exact postprocess_collected base64 out hold o
  all_goals exact ofInner_collected _

/-- **Every request carries the jar**: its text is that of the configuration, the cookies taken from
the responses before it, an empty line and the payload. -/
theorem built_cookies {s₀ s : RobinRun (Recorded β)} (hs₀ : Collected s₀)
    (h : RequestBuilt env base64 out hold o s₀ s) :
    ∃ u r r' authz, s.rest.built = some r' ∧ urlSlot s.rp.url s.rp.currentUrl = some u ∧
      authzHdr base64 u = some authz ∧ r'.rbufsize = r'.rbuf.length ∧
      r'.rbuf = requestHead s.rp u r authz ++ cookieHeader (jarOf s.rest.received) ++ CRLF ++
        requestBody r := by
  have hs : Collected s := behind_collected hs₀ ⟨_, rfl⟩ h
  obtain ⟨s₁, -, hrun⟩ := h
  obtain ⟨s₂, -, hrun⟩ := runEvents_cons_success hrun
  obtain ⟨s₃, -, hrun⟩ := runEvents_cons_success hrun
  obtain ⟨s₄, hcreate, hrun⟩ := runEvents_cons_success hrun
  cases hrun
  simp only [events, robinEvents, cookieEvents, ofHandler, createReq] at hcreate
  cases hreq : hold.request s₃.req s₃.rest.inner with
  | none => rw [hreq] at hcreate; cases hcreate
  | some r =>
    simp only [hreq] at hcreate
    cases hbuilt : roundRobinCreateReq base64 s₃.rp r with
    | error a => rw [hbuilt] at hcreate; cases hcreate
    | ok p =>
      obtain ⟨stat, r'⟩ := p
      rw [hbuilt] at hcreate
      cases hcreate
      obtain ⟨u, authz, hslot, hauthz, htext, hsize⟩ := createReq_text hbuilt
      refine ⟨u, r, r', authz, rfl, hslot, hauthz, hsize, ?_⟩
      rw [htext]
      have hjar : s₃.rp.cookie = jarOf s₃.rest.received := hs
      rw [hjar]

/-! ### One cookie at a time -/

/-- The cookies, newest first, of responses that hold no `Set-Cookie: ` or exactly one, in a
well-formed line. -/
inductive SetsCookies : List Response → List (Bytes × Bytes) → Prop
  | start : SetsCookies [] []
  | none {received : List Response} {cookies : List (Bytes × Bytes)} {resp : Response}
      (h : SetsCookies received cookies) (hresp : NoCookie resp) :
      SetsCookies (received ++ [resp]) cookies
  | one {received : List Response} {cookies : List (Bytes × Bytes)} {resp : Response}
      {name value : Bytes} (h : SetsCookies received cookies) (hresp : OneCookie resp name value) :
      SetsCookies (received ++ [resp]) ((name, value) :: cookies)

theorem taken_none {resp : Response} (h : NoCookie resp) : taken resp = [] := by
  rw [taken, cookieStep_none h]
  rfl

theorem taken_first {resp : Response} {name value : Bytes} (h : FirstCookie resp name value) :
    taken resp = [⟨name, value⟩] := by
  rw [taken, cookieStep_first h]
  rfl

/-- A cookie is printed as the server sent it. -/
theorem printed_first {resp : Response} {name value : Bytes} (h : FirstCookie resp name value) :
    Cookie.printed ⟨name, value⟩ = (name, value) := by
  rw [Cookie.printed, cstr_of_not_mem h.noNUL.1, cstr_of_not_mem h.noNUL.2]

/-- The jar holds the cookies set, newest first. -/
theorem jarOf_setsCookies {received : List Response} {cookies : List (Bytes × Bytes)}
    (h : SetsCookies received cookies) : (jarOf received).map Cookie.printed = cookies := by
  induction h with
  | start => rfl
  | none h hresp ih => rw [jarOf_append, taken_none hresp, List.nil_append, ih]
  | one h hresp ih =>
    rw [jarOf_append, taken_first hresp.firstCookie, List.map_append, ih, List.map_singleton,
      printed_first hresp.firstCookie]
    rfl

/-- **The cookies go back to the server**: where every response sets at most one cookie, a request
carries the header `Cookie: ` with the cookies received so far, newest first and exactly as they were
sent, and the text of the configuration alone where none was received.  The header begins a line
where the extra headers are closed by CRLF. -/
theorem cookies_sent {s₀ s : RobinRun (Recorded β)} {cookies : List (Bytes × Bytes)}
    (hjar : s₀.rp.cookie = []) (hnone : s₀.rest.received = [])
    (h : RequestBuilt env base64 out hold o s₀ s) (hsets : SetsCookies s.rest.received cookies) :
    ∃ u r r' authz, s.rest.built = some r' ∧ urlSlot s.rp.url s.rp.currentUrl = some u ∧
      authzHdr base64 u = some authz ∧ r'.rbufsize = r'.rbuf.length ∧
      (cookies = [] →
        r'.rbuf = requestHead s.rp u r authz ++ CRLF ++ requestBody r) ∧
      (cookies ≠ [] →
        r'.rbuf = requestHead s.rp u r authz ++
          (bytes "Cookie: " ++ joinWith (bytes ";") (cookies.map pair) ++ CRLF) ++ CRLF ++
          requestBody r) ∧
      (extraHdr u = [] ∨ CRLF <:+ extraHdr u → CRLF <:+ requestHead s.rp u r authz) := by
  have hs₀ : Collected s₀ := by rw [Collected, hjar, hnone]; rfl
  obtain ⟨u, r, r', authz, hbuilt, hslot, hauthz, hsize, htext⟩ := built_cookies hs₀ h
  rw [cookieHeader_eq, jarOf_setsCookies hsets] at htext
  refine ⟨u, r, r', authz, hbuilt, hslot, hauthz, hsize, ?_, ?_,
    fun hextra => requestHead_closed hauthz hextra s.rp r⟩
  · rintro rfl
    simpa [cookieLines, unlines] using htext
  · intro hne
    rw [htext, cookieLines, if_neg hne]
    simp [unlines]

/-! ### A run of two requests -/

/-- Handlers that know one response only, and keep the request as it is. -/
def sameResponse : Holder Response := ⟨fun req _ => req, fun _ resp => resp, some⟩

/-- Handlers that do nothing and succeed. -/
def quietEvents : OtherEvents Response :=
  let quiet : Handler Response := fun _ _ draws rest => .ok (.success, draws, rest)
  { beginConn := quiet, createReq := quiet, sendReq := quiet, recvResp := quiet
    postprocess := fun rp _ draws rest => .ok (.success, (rp.cookie, rp.state), draws, rest)
    verifyResp := quiet, endConn := quiet, processStats := quiet, requestDestroy := quiet
    responseDestroy := quiet, socketDestroy := quiet, profileInit := quiet, reportInit := quiet
    socketInit := quiet, reportStats := quiet, destroyReport := quiet, profileDestroy := quiet }

/-- Nothing is matched, and every script succeeds. -/
def noMatch : Outside := ⟨fun _ _ => none, fun _ _ => .success⟩

/-- A response that is the text and nothing else. -/
def textResponse (text : Bytes) : Response := ⟨false, false, none, text, text.length, []⟩

/-- Before two requests to `http://a/`, each answered by this text. -/
def answeredBy (text : Bytes) : RobinRun (Recorded Response) where
  rp :=
    { executeRounds := 2, urls := 1
      url := [{ url := some (bytes "http://a/"), methodString := some (bytes "GET") }]
      baseurl := none, proxyUrl := none, cookie := [], state := fun _ => none, substList := none
      currentRound := 0, currentUrl := 0 }
  draws := fun _ => 0
  rest := { inner := textResponse text, received := [], built := none }
  req := none
  trace := []

def oneCookieText : Bytes := bytes "HTTP/1.1 200\r\nSet-Cookie: a=1\r\n\r\n"

theorem oneCookieText_sets : OneCookie (textResponse oneCookieText) (bytes "a") (bytes "1") := by
  refine ⟨bytes "HTTP/1.1 200\r\n", bytes "\r\n\r\n", [], ?_, fun i hi => ?_⟩
  · exact ⟨by decide, by decide, by decide, by decide, by decide, by decide,
      .inl ⟨bytes "\r\n", by decide⟩⟩
  · have hsmall : ∀ i < 33, SET_COOKIE <+: oneCookieText.drop i → i = 14 := by decide
    have hlen := hi.length_le
    have hbound : i < 33 := by
      have htext : oneCookieText.length = 33 := by decide
      have hcookie : SET_COOKIE.length = 12 := by decide
      simp [textResponse, htext, hcookie] at hlen
      omega
    exact hsmall i hbound (by simpa [textResponse] using hi)

theorem cookies_sent_second : ∃ s r' u r authz,
    RequestBuilt oneHost (fun _ => []) noMatch sameResponse quietEvents (answeredBy oneCookieText)
      s ∧
    s.rest.built = some r' ∧
    r'.rbuf = requestHead s.rp u r authz ++ (bytes "Cookie: " ++ bytes "a=1" ++ CRLF) ++ CRLF ++
      requestBody r := by
  obtain ⟨s, hs, hreceived⟩ : ∃ s, RequestBuilt oneHost (fun _ => []) noMatch sameResponse
      quietEvents (answeredBy oneCookieText) s ∧
      s.rest.received = [textResponse oneCookieText] :=
    ⟨_, ⟨_, Steps.single rfl, rfl⟩, rfl⟩
  have hsets : SetsCookies s.rest.received [(bytes "a", bytes "1")] := by
    rw [hreceived]
    exact .one .start oneCookieText_sets
  obtain ⟨u, r, r', authz, hbuilt, -, -, -, -, htext, -⟩ := cookies_sent rfl rfl hs hsets
  exact ⟨s, r', u, r, authz, hs, hbuilt, htext (List.cons_ne_nil _ _)⟩

end Flood.CookieRun
