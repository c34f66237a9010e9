import Flood.CookieRun
import Flood.ExtraHeaderLines
import Flood.Framing

/-!
# The requests of a run, as they arrive

`write_socket` sends the buffer of a request over the connection of the run, which may be a new one for
every request or the same for many.  A server takes what arrives apart again: the head of a request ends
with the first empty line, and its `Content-Length` says how long its body is.

* `readRequest_sound` — how a server reads a request does not depend on what follows it.
* `requestText_frames` — the text of a request is one such frame, whose fields are those of the
  configuration and the cookies.
* `requests_arrive` — on every connection of a run the server reads back the requests that were sent on
  it, in their order; only the last request of the run can arrive in part.
-/

namespace Flood.RequestStream

open Flood.CString Flood.Loop Flood.Net Flood.Template Flood.Profile Flood.RoundRobin
open Flood.RoundRobinRun Flood.HttpText Flood.CreateReq Flood.ExtraHeaderLines Flood.Framing
open Flood.Postprocess
open Flood.CookieRun (Holder Recorded Collected cookieEvents ofInner jarOf taken)

/-! ### A server -/

/-- The line is a `Content-Length` field. -/
def namesLength (l : Bytes) : Bool := (bytes "content-length:").isPrefixOf (l.map toLower)

/-- The length of the body that the fields announce; without such a field there is none. -/
def bodyLength (fields : List Bytes) : ℕ :=
  match fields.find? namesLength with
  | none => 0
  | some l => (strtol 10 (l.drop 15)).1.toNat

/-- Reads a request: its request line and fields, and its body. -/
def readRequest : Reader UInt8 (List Bytes × Bytes) := fun s =>
  match splitHead s with
  | none => none
  | some (head, rest) =>
    let n := bodyLength (lines head).tail
    if rest.length < n then none else some ((lines head, rest.take n), rest.drop n)

/-- Where the empty line begins. -/
theorem crlfs_prefix {c : UInt8} {m : Bytes} (h : (CRLF ++ CRLF).isPrefixOf (c :: m) = true) :
    ∃ t, c :: m = CRLF ++ CRLF ++ t ∧ m = LF :: CR :: LF :: t := by
  obtain ⟨t, ht⟩ := List.isPrefixOf_iff_prefix.mp h
  exact ⟨t, ht.symm, (List.cons.inj ht).2.symm⟩

/-- What `splitHead` takes apart is put together again. -/
theorem splitHead_text {s head rest : Bytes} (h : splitHead s = some (head, rest)) :
    s = head ++ (CRLF ++ CRLF) ++ rest := by
  induction s generalizing head with
  | nil => cases h
  | cons c m ih =>
    rw [splitHead] at h
    split at h
    · next hpre =>
      cases h
      obtain ⟨t, ht, hm⟩ := crlfs_prefix hpre
      rw [ht, hm]
      rfl
    · obtain ⟨⟨head', rest'⟩, hsplit, heq⟩ := Option.map_eq_some_iff.mp h
      cases heq
      rw [ih hsplit]
      rfl

/-- **The end of a head** does not move when more follows. -/
theorem splitHead_extend {s head rest : Bytes} (h : splitHead s = some (head, rest)) (more : Bytes) :
    splitHead (s ++ more) = some (head, rest ++ more) := by
  induction s generalizing head with
  | nil => cases h
  | cons c m ih =>
    rw [List.cons_append, splitHead]
    rw [splitHead] at h
    split at h
    · next hpre =>
      cases h
      obtain ⟨t, ht, hm⟩ := crlfs_prefix hpre
      have hpre' : (CRLF ++ CRLF).isPrefixOf (c :: (m ++ more)) = true := by
        rw [List.isPrefixOf_iff_prefix, ← List.cons_append, ht, List.append_assoc]
        exact List.prefix_append _ _
      rw [if_pos hpre', hm]
      rfl
    · next hnot =>
      obtain ⟨⟨head', rest'⟩, hsplit, heq⟩ := Option.map_eq_some_iff.mp h
      cases heq
      -- the rest is long enough for the four bytes to lie within it, or not to begin here
      have hlong : 4 ≤ m.length := by
        have hlen := congrArg List.length (splitHead_text hsplit)
        have hend : (CRLF ++ CRLF).length = 4 := rfl
        simp only [List.length_append, hend] at hlen
        omega
      have hnot' : ¬ (CRLF ++ CRLF).isPrefixOf (c :: (m ++ more)) = true := by
        intro hpre
        rw [List.isPrefixOf_iff_prefix, ← List.cons_append] at hpre
        refine hnot (List.isPrefixOf_iff_prefix.mpr ?_)
        refine List.prefix_of_prefix_length_le hpre (List.prefix_append _ _) ?_
        show 4 ≤ m.length + 1
        omega
      rw [if_neg hnot', ih hsplit]
      rfl

/-- **A server's reading of a request** depends on nothing behind it. -/
theorem readRequest_sound : Sound readRequest where
  extend s x rest more h := by
    unfold readRequest at h ⊢
    cases hsplit : splitHead s with
    | none =>
      rw [hsplit] at h
      cases h
    | some p =>
      obtain ⟨head, behind⟩ := p
      rw [hsplit] at h
      rw [splitHead_extend hsplit]
      dsimp only at h ⊢
      split at h
      · cases h
      · next hlen =>
        cases h
        rw [not_lt] at hlen
        have hlen' : ¬ (behind ++ more).length < bodyLength (lines head).tail := by
          rw [List.length_append]
          omega
        rw [if_neg hlen', List.take_append_of_le_length hlen, List.drop_append_of_le_length hlen]
  consumes s x rest h := by
    unfold readRequest at h
    cases hsplit : splitHead s with
    | none =>
      rw [hsplit] at h
      cases h
    | some p =>
      obtain ⟨head, behind⟩ := p
      rw [hsplit] at h
      dsimp only at h
      split at h
      · cases h
      · cases h
        have hlen := congrArg List.length (splitHead_text hsplit)
        have hend : (CRLF ++ CRLF).length = 4 := rfl
        simp only [List.length_append, hend] at hlen
        rw [List.length_drop]
        omega

/-- **A message** whose fields announce its body is one frame. -/
theorem message_frames {ls : List Bytes} (hne : ls ≠ []) (hls : ∀ l ∈ ls, l ≠ [] ∧ IsLine l)
    {body : Bytes} (hbody : bodyLength ls.tail = body.length) :
    Frames readRequest (message ls body) (ls, body) := by
  unfold Frames readRequest
  rw [splitHead_message hne hls]
  dsimp only
  rw [lines_joinWith hne fun l hl => (hls l hl).2, hbody, if_neg (Nat.lt_irrefl _),
    List.take_length, List.drop_length]

/-! ### The requests as frames -/

/-- The configured extra headers of a url, as lines. -/
def extraLines (u : Url) : List Bytes := (lines (extraHdr u)).dropLast

/-- What the configuration and the request bring into the text holds no CR and no LF, the extra headers
are lines that are not empty and announce no length, and the payload is a string of the size that the
request states. -/
structure Proper (base64 : Bytes → Bytes) (rp : RoundRobinProfile) (u : Url) (r : Request) :
    Prop where
  clean : CleanTexts base64 { rp with cookie := [] } u r
  extra : extraHdr u = unlines (extraLines u)
  fields : ∀ l ∈ extraLines u, l ≠ [] ∧ IsLine l ∧ namesLength l = false
  payload : ∀ payload, r.payload = some payload → 0 ∉ payload ∧ r.payloadsize = payload.length ∧
    payload.length < 2 ^ 31

/-- The name and the value of a cookie, as they are printed, hold no CR and no LF. -/
def CleanCookie (c : Cookie) : Prop := IsLine (cstr c.name) ∧ IsLine (cstr c.value)

theorem Proper.withCookies {base64 : Bytes → Bytes} {rp : RoundRobinProfile} {u : Url} {r : Request}
    (h : Proper base64 rp u r) (hcookies : ∀ c ∈ rp.cookie, CleanCookie c) :
    CleanTexts base64 rp u r where
  method := h.clean.method
  path := h.clean.path
  query := h.clean.query
  host := h.clean.host
  contenttype := h.clean.contenttype
  credentials := h.clean.credentials
  cookies := hcookies

/-- A blank in front of a number does not count. -/
theorem strtol_blank (s : Bytes) : (strtol 10 (32 :: s)).1 = (strtol 10 s).1 := by
  have hskip : (cstr (32 :: s)).dropWhile isSpace = (cstr s).dropWhile isSpace := rfl
  unfold strtol
  rw [hskip]
  dsimp only
  split
  · rfl
  · rfl

theorem bodyLength_skip {before after : List Bytes} (h : ∀ l ∈ before, namesLength l = false) :
    bodyLength (before ++ after) = bodyLength after := by
  have hnone : before.find? namesLength = none :=
    List.find?_eq_none.mpr fun l hl => by rw [h l hl]; exact Bool.false_ne_true
  unfold bodyLength
  rw [List.find?_append, hnone, Option.none_or]

/-- The field that announces a length. -/
theorem bodyLength_contentLength {n : ℕ} (h : n < 2 ^ 31) (after : List Bytes) :
    bodyLength ((bytes "Content-Length: " ++ fmtD n) :: after) = n := by
  have hnamed : namesLength (bytes "Content-Length: " ++ fmtD n) = true := rfl
  have hdrop : (bytes "Content-Length: " ++ fmtD n).drop 15 = 32 :: fmtD n := by
    have hsplit : bytes "Content-Length: " = bytes "Content-Length:" ++ [32] := by decide
    have hlen : (bytes "Content-Length:").length = 15 := by decide
    rw [hsplit, List.append_assoc, List.drop_left' hlen, List.singleton_append]
  unfold bodyLength
  rw [List.find?_cons_of_pos hnamed]
  dsimp only
  rw [hdrop, strtol_blank, fmtD_of_lt h, strtol_decimal h]
  exact Int.toNat_natCast n

/-- The fields in front of the payload's. -/
theorem startLines_noLength (rp : RoundRobinProfile) (u : Url) (r : Request) :
    ∀ l ∈ (startLines rp u r).tail, namesLength l = false := by
  intro l hl
  simp only [startLines, List.tail_cons, List.mem_cons, List.not_mem_nil, or_false] at hl
  rcases hl with rfl | rfl | rfl
  · rfl
  · cases r.keepalive
    · rfl
    · rfl
  · rfl

/-- The fields behind the extra headers. -/
theorem lastLines_noLength (credentials : Option Bytes) (cookies : List (Bytes × Bytes)) :
    ∀ l ∈ credentials.toList.map (bytes "Authorization: Basic " ++ ·) ++ cookieLines cookies,
      namesLength l = false := by
  intro l hl
  rcases List.mem_append.mp hl with hl | hl
  · obtain ⟨c, -, rfl⟩ := List.mem_map.mp hl
    rfl
  · rw [cookieLines] at hl
    split at hl
    · cases hl
    · rw [List.mem_singleton.mp hl]
      rfl

/-- A payload is sent with the fields about it, or there are neither. -/
theorem payload_sent_or_not (r : Request) :
    (∃ payload, r.payload = some payload ∧ payloadHeads r = payloadFields r ∧
      requestBody r = cstr payload) ∨ (payloadHeads r = [] ∧ requestBody r = []) := by
  unfold payloadHeads requestBody
  cases hm : r.method with
  | GET => exact .inr ⟨rfl, rfl⟩
  | HEAD => exact .inr ⟨rfl, rfl⟩
  | POST =>
    cases hp : r.payload with
    | none => exact .inr ⟨rfl, rfl⟩
    | some payload => exact .inl ⟨payload, rfl, rfl, rfl⟩
  | OTHER =>
    cases hp : r.payload with
    | none => exact .inr ⟨rfl, rfl⟩
    | some payload => exact .inl ⟨payload, rfl, rfl, rfl⟩

/-- **The fields of a request announce its body.** -/
theorem headLines_bodyLength {base64 : Bytes → Bytes} {rp : RoundRobinProfile} {u : Url}
    {r : Request} (h : Proper base64 rp u r) :
    bodyLength (headLines base64 rp u r (extraLines u)).tail = (requestBody r).length := by
  have hsplit : (headLines base64 rp u r (extraLines u)).tail =
      (startLines rp u r).tail ++ (payloadHeads r ++ (extraLines u ++
        ((credentials base64 u).toList.map (bytes "Authorization: Basic " ++ ·) ++
          cookieLines (rp.cookie.map Cookie.printed)))) := by
    simp [headLines, startLines]
  rw [hsplit, bodyLength_skip (startLines_noLength rp u r)]
  rcases payload_sent_or_not r with ⟨payload, hpayload, hheads, hbody⟩ | ⟨hheads, hbody⟩
  · obtain ⟨hnul, hsize, hlt⟩ := h.payload payload hpayload
    rw [hheads, hbody, payloadFields, hsize, List.cons_append, bodyLength_contentLength hlt,
      cstr_of_not_mem hnul]
  · rw [hheads, hbody, List.nil_append, bodyLength_skip fun l hl => (h.fields l hl).2.2,
      ← List.append_nil (_ ++ _), bodyLength_skip (lastLines_noLength _ _)]
    rfl

/-- The fields and the body of a request. -/
def parts (base64 : Bytes → Bytes) (rp : RoundRobinProfile) (u : Url) (r : Request) :
    List Bytes × Bytes := (headLines base64 rp u r (extraLines u), requestBody r)

/-- **The text of a request is one frame**, whatever its method. -/
theorem requestText_frames {base64 : Bytes → Bytes} {rp : RoundRobinProfile} {u : Url} {r : Request}
    (h : Proper base64 rp u r) (hcookies : ∀ c ∈ rp.cookie, CleanCookie c) {authz : Bytes}
    (hauthz : authzHdr base64 u = some authz) :
    Frames readRequest (requestText rp u r authz) (parts base64 rp u r) := by
  have hproper := headLines_lines (h.withCookies hcookies)
    fun l hl => ⟨(h.fields l hl).1, (h.fields l hl).2.1⟩
  have hne : headLines base64 rp u r (extraLines u) ≠ [] := by
    simp [headLines, startLines]
  rw [requestText_eq, requestHead_unlines hauthz h.extra]
  exact message_frames hne hproper (headLines_bodyLength h)

/-! ### Sending -/

/-- `write_socket`; `l` is the number of bytes that `apr_socket_send` takes, and `e` its status. -/
def writeSocket (r : Request) (l : ℕ) (e : Status) : Status :=
  if l ≠ r.rbufsize then .egeneral else e

/-- A call of `write_socket`: the connection, the profile and the request at this time, and what was
taken of the buffer. -/
structure Sending where
  conn : ℕ
  profile : RoundRobinProfile
  request : Request
  taken : Bytes

/-- The url that the request is for. -/
def Sending.url (x : Sending) : Url := (urlSlot x.profile.url x.profile.currentUrl).getD {}

/-- The whole buffer was taken. -/
def Sending.whole (x : Sending) : Bool := x.taken = x.request.rbuf

/-- What the other handlers work on, with what has arrived on every connection. -/
structure Wired (β : Type) where
  inner : β
  arrived : ℕ → Bytes
  sendings : List Sending

/-- The connection in use, and `apr_socket_send`: the number of bytes that it takes, and its status. -/
structure Network (β : Type) where
  conn : β → ℕ
  send : Bytes → β → (ℕ × Status) × β

variable {β : Type}

def ofWire (h : Handler β) : Handler (Wired β) :=
  ofPart Wired.inner (fun inner st => { st with inner := inner }) h

def wiredHolder (hold : Holder β) : Holder (Wired β) where
  request req st := hold.request req st.inner
  storeRequest r st := { st with inner := hold.storeRequest r st.inner }
  response st := hold.response st.inner

/-- The write of `generic_send_req` and `keepalive_send_req`, over a connection without SSL. -/
def sendReq (hold : Holder β) (net : Network β) : Handler (Wired β) := fun rp req draws st =>
  match hold.request req st.inner with
  | none => .error .fault
  | some r =>
    let ((l, e), inner) := net.send (r.rbuf.take r.rbufsize) st.inner
    let conn := net.conn st.inner
    let taken := (r.rbuf.take r.rbufsize).take l
    .ok (writeSocket r l e, draws,
      { inner := inner
        arrived := Function.update st.arrived conn (st.arrived conn ++ taken)
        sendings := st.sendings ++ [⟨conn, rp, r, taken⟩] })

/-- The handlers of a run that sends; `o` gives those of the other events. -/
def wireEvents (hold : Holder β) (net : Network β) (o : OtherEvents β) : OtherEvents (Wired β) where
  beginConn := ofWire o.beginConn
  createReq := ofWire o.createReq
  sendReq := sendReq hold net
  recvResp := ofWire o.recvResp
  postprocess := fun rp req draws st =>
    match o.postprocess rp req draws st.inner with
    | .error a => .error a
    | .ok (stat, vars, draws, inner) => .ok (stat, vars, draws, { st with inner := inner })
  verifyResp := ofWire o.verifyResp
  endConn := ofWire o.endConn
  processStats := ofWire o.processStats
  requestDestroy := ofWire o.requestDestroy
  responseDestroy := ofWire o.responseDestroy
  socketDestroy := ofWire o.socketDestroy
  profileInit := ofWire o.profileInit
  reportInit := ofWire o.reportInit
  socketInit := ofWire o.socketInit
  reportStats := ofWire o.reportStats
  destroyReport := ofWire o.destroyReport
  profileDestroy := ofWire o.profileDestroy

/-- The handlers of the run: `round_robin_create_req` builds the requests, and
`round_robin_postprocess` takes the cookies. -/
abbrev events (env : Env) (base64 : Bytes → Bytes) (out : Outside) (hold : Holder β)
    (net : Network β) (o : OtherEvents β) : ProfileEvents (RobinRun (Recorded (Wired β))) :=
  robinEvents env (cookieEvents base64 out (wiredHolder hold) (wireEvents hold net o))

/-! ### What was sent -/

/-- The buffer is what `round_robin_create_req` made of the request. -/
structure Built (base64 : Bytes → Bytes) (rp : RoundRobinProfile) (u : Url) (r : Request) :
    Prop where
  slot : urlSlot rp.url rp.currentUrl = some u
  text : ∃ authz, authzHdr base64 u = some authz ∧ r.rbuf = requestText rp u r authz
  size : r.rbufsize = r.rbuf.length

/-- A part of a buffer was taken that was built with cookies of the jar. -/
structure Sent (base64 : Bytes → Bytes) (jar : List Cookie) (x : Sending) : Prop where
  built : Built base64 x.profile x.url x.request
  part : x.taken <+: x.request.rbuf
  cookies : ∀ c ∈ x.profile.cookie, c ∈ jar

/-- What has arrived is what was sent. -/
structure Wire (base64 : Bytes → Bytes) (s : RobinRun (Recorded (Wired β))) : Prop where
  collected : Collected s
  arrived : ∀ conn, s.rest.inner.arrived conn =
    (s.rest.inner.sendings.filter (·.conn = conn)).flatMap Sending.taken
  sent : ∀ x ∈ s.rest.inner.sendings, Sent base64 (jarOf s.rest.received) x

/-- Every request has arrived as a whole. -/
structure Idle (base64 : Bytes → Bytes) (s : RobinRun (Recorded (Wired β))) : Prop
    extends Wire base64 s where
  whole : ∀ x ∈ s.rest.inner.sendings, x.whole = true

/-- Every request but the last has arrived as a whole. -/
structure Torn (base64 : Bytes → Bytes) (s : RobinRun (Recorded (Wired β))) : Prop
    extends Wire base64 s where
  whole : ∀ x ∈ s.rest.inner.sendings.dropLast, x.whole = true

/-- The request that is about to be sent has been built. -/
structure Ready (base64 : Bytes → Bytes) (hold : Holder β) (s : RobinRun (Recorded (Wired β))) :
    Prop extends Idle base64 s where
  built : ∃ u r, hold.request s.req s.rest.inner.inner = some r ∧ Built base64 s.rp u r

variable {env : Env} {base64 : Bytes → Bytes} {out : Outside} {hold : Holder β} {net : Network β}
  {o : OtherEvents β} {s s' : RobinRun (Recorded (Wired β))}

theorem Idle.torn (h : Idle base64 s) : Torn base64 s :=
  ⟨h.toWire, fun x hx => h.whole x ((List.dropLast_sublist _).subset hx)⟩

theorem Sent.more {jar jar' : List Cookie} {x : Sending} (h : Sent base64 jar x)
    (hjar : ∀ c ∈ jar, c ∈ jar') : Sent base64 jar' x :=
  ⟨h.built, h.part, fun c hc => hjar c (h.cookies c hc)⟩

/-- What sends nothing leaves what has arrived, whatever it receives. -/
theorem Idle.still (h : Idle base64 s) (hcollected : Collected s')
    (harrived : s'.rest.inner.arrived = s.rest.inner.arrived)
    (hsendings : s'.rest.inner.sendings = s.rest.inner.sendings)
    (hjar : ∀ c ∈ jarOf s.rest.received, c ∈ jarOf s'.rest.received) : Idle base64 s' where
  collected := hcollected
  arrived conn := by rw [harrived, hsendings, h.arrived conn]
  sent x hx := (h.sent x (hsendings ▸ hx)).more hjar
  whole x hx := h.whole x (hsendings ▸ hx)

/-- A handler that the loop finds in an idle state and leaves in one. -/
abbrev KeepsIdle (base64 : Bytes → Bytes) (e : Event (RobinRun (Recorded (Wired β)))) : Prop :=
  Ensures (Idle base64) e (Idle base64) (Torn base64)

theorem keepsIdle_of {e : Event (RobinRun (Recorded (Wired β)))}
    (h : ∀ s stat s', Idle base64 s → e s = .ok (stat, s') → Idle base64 s') :
    KeepsIdle base64 e := by
  intro s stat s' hs he
  have hs' := h s stat s' hs he
  split
  · exact hs'
  · exact hs'.torn

theorem getNextUrl_idle : KeepsIdle base64 (getNextUrl env : Event (RobinRun (Recorded (Wired β)))) := by
  apply keepsIdle_of
  intro s stat s' hs he
  have hcollected := CookieRun.getNextUrl_collected env s stat s' hs.collected he
  unfold getNextUrl at he
  split at he
  · cases he
  · cases he
    exact hs.still hcollected rfl rfl fun c hc => hc

theorem ofWire_idle (h : Handler β) : KeepsIdle base64 (ofHandler (ofInner (ofWire h))) := by
  apply keepsIdle_of
  intro s stat s' hs he
  have hcollected := CookieRun.ofInner_collected (ofWire h) s stat s' hs.collected he
  obtain ⟨draws, wired, hwired, rfl⟩ := ofHandler_ofPart he
  obtain ⟨inner, -, rfl⟩ := ofPart_ok hwired
  exact hs.still hcollected rfl rfl fun c hc => hc

theorem postprocess_idle : KeepsIdle base64
    (postprocess (cookieEvents base64 out (wiredHolder hold) (wireEvents hold net o))) := by
  apply keepsIdle_of
  intro s stat s' hs he
  have hcollected := CookieRun.postprocess_collected base64 out (wiredHolder hold)
    (wireEvents hold net o) s stat s' hs.collected he
  simp only [postprocess, cookieEvents] at he
  cases hresp : (wiredHolder hold).response s.rest.inner with
  | none =>
    rw [hresp] at he
    cases he
  | some resp =>
    simp only [hresp] at he
    cases hrun : roundRobinPostprocess out s.rp resp s.draws with
    | error a =>
      rw [hrun] at he
      cases he
    | ok p =>
      obtain ⟨stat', ⟨cookie, state⟩, draws⟩ := p
      rw [hrun] at he
      cases he
      refine hs.still hcollected rfl rfl fun c hc => ?_
      show c ∈ jarOf (s.rest.received ++ [resp])
      rw [CookieRun.jarOf_append]
      exact List.mem_append_right _ hc

/-- A buffer that `round_robin_create_req` returns is built from the request that it returns. -/
theorem createReq_built {rp : RoundRobinProfile} {r r' : Request}
    (h : roundRobinCreateReq base64 rp r = .ok (.success, r')) : ∃ u, Built base64 rp u r' := by
  simp only [roundRobinCreateReq] at h
  split at h
  · cases h
  · next u hu =>
    split at h
    · cases h
    · next authz hauthz =>
      cases h
      refine ⟨u, hu, ⟨authz, hauthz, rfl⟩, ?_⟩
      exact congrArg List.length
        (cstr_of_not_mem (requestText_noNUL rp u _ (authzHdr_noNUL hauthz)))

/-- **`create_req`** leaves the request ready to be sent. -/
theorem createReq_ready
    (hstore : ∀ req r inner, hold.request req (hold.storeRequest r inner) = some r) :
    Ensures (Idle base64) (ofHandler (CookieRun.createReq base64 (wiredHolder hold)))
      (Ready base64 hold) (Torn base64) := by
  intro s stat s' hs he
  have hcollected :=
    CookieRun.createReq_collected base64 (wiredHolder hold) s stat s' hs.collected he
  simp only [ofHandler, CookieRun.createReq] at he
  cases hreq : (wiredHolder hold).request s.req s.rest.inner with
  | none =>
    rw [hreq] at he
    cases he
  | some r =>
    simp only [hreq] at he
    cases hrun : roundRobinCreateReq base64 s.rp r with
    | error a =>
      rw [hrun] at he
      cases he
    | ok p =>
      obtain ⟨stat', r'⟩ := p
      rw [hrun] at he
      cases he
      have hidle : Idle base64 _ := hs.still hcollected rfl rfl fun c hc => hc
      split
      · next hstat =>
        subst hstat
        obtain ⟨u, hbuilt⟩ := createReq_built hrun
        exact ⟨hidle, u, r', hstore _ _ _, hbuilt⟩
      · exact hidle.torn

theorem Built.url {rp : RoundRobinProfile} {u : Url} {r : Request} (h : Built base64 rp u r)
    (conn : ℕ) (taken : Bytes) : Sending.url ⟨conn, rp, r, taken⟩ = u := by
  unfold Sending.url
  rw [h.slot]
  rfl

/-- **`send_req`** sends the request as a whole, or fails. -/
theorem sendReq_idle : Ensures (Ready base64 hold) (ofHandler (ofInner (sendReq hold net)))
    (Idle base64) (Torn base64) := by
  intro s stat s' hs he
  have hcollected := CookieRun.ofInner_collected (sendReq hold net) s stat s' hs.collected he
  obtain ⟨u, r, hreq, hbuilt⟩ := hs.built
  simp only [ofHandler, ofInner, ofPart, sendReq, hreq] at he
  rw [Except.ok.injEq, Prod.mk.injEq] at he
  obtain ⟨hstat, rfl⟩ := he
  have hbuf : r.rbuf.take r.rbufsize = r.rbuf := by
    rw [hbuilt.size, List.take_length]
  rw [hbuf] at hstat hcollected ⊢
  have hwire : Wire base64 _ := {
    collected := hcollected
    arrived := fun conn => by
      show Function.update _ _ _ conn = _
      rw [List.filter_append, List.flatMap_append, ← hs.arrived conn]
      by_cases hconn : net.conn s.rest.inner.inner = conn
      · subst hconn
        simp
      · rw [Function.update_of_ne (Ne.symm hconn)]
        simp [hconn]
    sent := fun x hx => by
      rcases List.mem_append.mp hx with hx | hx
      · exact hs.sent x hx
      · rw [List.mem_singleton.mp hx]
        refine ⟨?_, List.take_prefix _ _, fun c hc => ?_⟩
        · rw [hbuilt.url]
          exact hbuilt
        · have hjar : s.rp.cookie = jarOf s.rest.received := hs.collected
          exact hjar ▸ hc }
  split
  · next hsuccess =>
    refine ⟨hwire, fun x hx => ?_⟩
    rcases List.mem_append.mp hx with hx | hx
    · exact hs.whole x hx
    · rw [List.mem_singleton.mp hx]
      have hl : (net.send r.rbuf s.rest.inner.inner).1.1 = r.rbufsize := by
        by_contra hne
        rw [writeSocket, if_pos hne] at hstat
        exact absurd (hstat.trans hsuccess) (by decide)
      show decide (r.rbuf.take (net.send r.rbuf s.rest.inner.inner).1.1 = r.rbuf) = true
      rw [hl, hbuf]
      exact decide_eq_true rfl
  · refine ⟨hwire, fun x hx => ?_⟩
    have hlast : x ∈ s.rest.inner.sendings := by
      have hx' : x ∈ (s.rest.inner.sendings ++ [_]).dropLast := hx
      rwa [List.dropLast_concat] at hx'
    exact hs.whole x hlast

theorem loopCondition_idle (s : RobinRun (Recorded (Wired β))) (again : Bool)
    (s' : RobinRun (Recorded (Wired β))) (hs : Idle base64 s)
    (h : loopCondition env s = .ok (again, s')) : Idle base64 s' := by
  have hcollected := CookieRun.loopCondition_collected env s again s' hs.collected h
  unfold loopCondition at h
  split at h
  · cases h
  · cases h
    exact hs.still hcollected rfl rfl fun c hc => hc

/-- **A transaction**, with what has arrived before and behind each of its handlers. -/
theorem transaction_outline (env : Env) (out : Outside) (net : Network β) (o : OtherEvents β)
    (hstore : ∀ req r inner, hold.request req (hold.storeRequest r inner) = some r) :
    Outline (Torn base64) (fun s => Idle base64 s ∧ True)
      (events env base64 out hold net o).transaction (Idle base64) := by
  have hidle : ∀ s : RobinRun (Recorded (Wired β)), Idle base64 s → Torn base64 s :=
    fun s hs => hs.torn
  refine .cons (fun s hs => hs.1.torn)
    (fun s stat s' hs => getNextUrl_idle s stat s' hs.1) ?_
  refine .cons hidle (ofWire_idle _) ?_
  refine .cons hidle (createReq_ready hstore) ?_
  refine .cons (fun s hs => hs.toIdle.torn) sendReq_idle ?_
  refine .cons hidle (ofWire_idle _) ?_
  refine .cons hidle postprocess_idle ?_
  refine .cons hidle (ofWire_idle _) ?_
  refine .cons hidle (ofWire_idle _) ?_
  refine .cons hidle (ofWire_idle _) ?_
  refine .cons hidle (ofWire_idle _) ?_
  refine .cons hidle (ofWire_idle _) ?_
  exact .cons hidle (ofWire_idle _) (.nil hidle)

/-! ### Reading it back -/

/-- The fields and the body of the request that is sent. -/
def Sending.parts (base64 : Bytes → Bytes) (x : Sending) : List Bytes × Bytes :=
  RequestStream.parts base64 x.profile x.url x.request

/-- Of these requests, sent over one connection, a server reads those that arrived as a whole, and has
what arrived of the others left over. -/
def ReadsBack (base64 : Bytes → Bytes) (xs : List Sending) : Prop :=
  readStream readRequest (xs.flatMap Sending.taken) =
    ((xs.filter Sending.whole).map (Sending.parts base64),
      (xs.filter fun x => !x.whole).flatMap Sending.taken)

/-- The buffer of the request is a frame. -/
def Framed (base64 : Bytes → Bytes) (x : Sending) : Prop :=
  Frames readRequest x.request.rbuf (x.parts base64)

theorem frames_of_whole {xs : List Sending} (hframed : ∀ x ∈ xs, Framed base64 x)
    (hwhole : ∀ x ∈ xs, x.whole = true) :
    List.Forall₂ (Frames readRequest) (xs.map Sending.taken) (xs.map (Sending.parts base64)) := by
  rw [List.forall₂_map_left_iff, List.forall₂_map_right_iff, List.forall₂_same]
  intro x hx
  have htaken : x.taken = x.request.rbuf := of_decide_eq_true (hwhole x hx)
  rw [htaken]
  exact hframed x hx

theorem filter_whole {xs : List Sending} (hwhole : ∀ x ∈ xs, x.whole = true) :
    xs.filter Sending.whole = xs ∧ (xs.filter fun x => !x.whole) = [] := by
  refine ⟨List.filter_eq_self.mpr hwhole, List.filter_eq_nil_iff.mpr fun x hx => ?_⟩
  rw [hwhole x hx]
  exact Bool.false_ne_true

/-- **Requests that arrived as a whole** are read back. -/
theorem readsBack_whole {xs : List Sending} (hframed : ∀ x ∈ xs, Framed base64 x)
    (hwhole : ∀ x ∈ xs, x.whole = true) : ReadsBack base64 xs := by
  obtain ⟨hself, hnone⟩ := filter_whole hwhole
  have hread := readStream_frames readRequest_sound (frames_of_whole hframed hwhole)
    readRequest_sound.read_nil
  unfold ReadsBack
  rw [hself, hnone, List.flatMap_nil, ← hread, List.append_nil, List.flatMap_def]

/-- **A request that arrived in part** is left over behind the others. -/
theorem readsBack_cut {xs : List Sending} {y : Sending} (hframed : ∀ x ∈ xs, Framed base64 x)
    (hwhole : ∀ x ∈ xs, x.whole = true) (hy : Framed base64 y) (hpart : y.taken <+: y.request.rbuf)
    (hcut : y.whole = false) : ReadsBack base64 (xs ++ [y]) := by
  obtain ⟨hself, hnone⟩ := filter_whole hwhole
  have hread := readStream_cut readRequest_sound (frames_of_whole hframed hwhole) hy hpart
    (of_decide_eq_false hcut)
  have hlast : [y].filter Sending.whole = [] ∧ ([y].filter fun x => !x.whole) = [y] := by
    simp [hcut]
  unfold ReadsBack
  rw [List.filter_append, List.filter_append, hself, hnone, hlast.1, hlast.2, List.append_nil,
    List.nil_append, List.flatMap_append, List.flatMap_singleton, List.flatMap_def, hread]

/-- The configuration brings nothing into the requests sent that a server would take for the end of a
line, and neither do the cookies of the responses received. -/
structure CleanRun (base64 : Bytes → Bytes) (s : RobinRun (Recorded (Wired β))) : Prop where
  requests : ∀ x ∈ s.rest.inner.sendings, Proper base64 x.profile x.url x.request
  cookies : ∀ resp ∈ s.rest.received, ∀ c ∈ taken resp, CleanCookie c

/-- On every connection the server reads back what was sent on it. -/
def Arrives (base64 : Bytes → Bytes) (w : Wired β) : Prop :=
  ∀ conn, w.arrived conn = (w.sendings.filter (·.conn = conn)).flatMap Sending.taken ∧
    ReadsBack base64 (w.sendings.filter (·.conn = conn))

theorem Wire.framed (h : Wire base64 s) (hclean : CleanRun base64 s) :
    ∀ x ∈ s.rest.inner.sendings, Framed base64 x := by
  intro x hx
  have hsent := h.sent x hx
  obtain ⟨authz, hauthz, htext⟩ := hsent.built.text
  unfold Framed
  rw [htext]
  refine requestText_frames (hclean.requests x hx) (fun c hc => ?_) hauthz
  obtain ⟨resp, hresp, htaken⟩ := List.mem_flatMap.mp (hsent.cookies c hc)
  exact hclean.cookies resp (List.mem_reverse.mp hresp) c htaken

theorem Torn.arrives (h : Torn base64 s) (hclean : CleanRun base64 s) :
    Arrives base64 s.rest.inner := by
  intro conn
  have hframed := h.toWire.framed hclean
  refine ⟨h.arrived conn, ?_⟩
  rcases List.eq_nil_or_concat s.rest.inner.sendings with hnil | ⟨front, y, hsplit⟩
  · rw [hnil]
    exact readsBack_whole (fun x hx => absurd hx List.not_mem_nil)
      fun x hx => absurd hx List.not_mem_nil
  · rw [List.concat_eq_append] at hsplit
    rw [hsplit] at hframed ⊢
    have hwhole : ∀ x ∈ front, x.whole = true := by
      intro x hx
      refine h.whole x ?_
      rw [hsplit, List.dropLast_concat]
      exact hx
    have hfront : ∀ x ∈ front.filter (·.conn = conn), Framed base64 x ∧ x.whole = true :=
      fun x hx =>
        have hmem := (List.mem_filter.mp hx).1
        ⟨hframed x (List.mem_append_left _ hmem), hwhole x hmem⟩
    have hy : Framed base64 y := hframed y (List.mem_append_right _ List.mem_cons_self)
    rw [List.filter_append]
    by_cases hconn : y.conn = conn
    · have hone : [y].filter (·.conn = conn) = [y] := by simp [hconn]
      rw [hone]
      cases hcut : y.whole with
      | true =>
        have hall : ∀ x ∈ front.filter (·.conn = conn) ++ [y],
            Framed base64 x ∧ x.whole = true := by
          intro x hx
          rcases List.mem_append.mp hx with hx | hx
          · exact hfront x hx
          · rw [List.mem_singleton.mp hx]
            exact ⟨hy, hcut⟩
        exact readsBack_whole (fun x hx => (hall x hx).1) fun x hx => (hall x hx).2
      | false =>
        have hmem : y ∈ s.rest.inner.sendings :=
          hsplit ▸ List.mem_append_right _ List.mem_cons_self
        exact readsBack_cut (fun x hx => (hfront x hx).1) (fun x hx => (hfront x hx).2) hy
          (h.sent y hmem).part hcut
    · have hnone : [y].filter (·.conn = conn) = [] := by simp [hconn]
      rw [hnone, List.append_nil]
      exact readsBack_whole (fun x hx => (hfront x hx).1) fun x hx => (hfront x hx).2

/-- A run that has received and sent nothing. -/
structure Fresh (s : RobinRun (Recorded (Wired β))) : Prop where
  jar : s.rp.cookie = []
  received : s.rest.received = []
  arrived : s.rest.inner.arrived = fun _ => []
  sendings : s.rest.inner.sendings = []

theorem Fresh.idle (h : Fresh s) : Idle base64 s where
  collected := by
    rw [Collected, h.jar, h.received]
    rfl
  arrived conn := by
    rw [h.arrived, h.sendings]
    rfl
  sent x hx := by
    rw [h.sendings] at hx
    cases hx
  whole x hx := by
    rw [h.sendings] at hx
    cases hx

/-- **The requests of a run arrive as they were built.**  Wherever the run stands, a server that takes
apart what has arrived on a connection gets the requests that were sent on it, in their order, each with
its fields and its body; only the last request of the run can have arrived in part, and none has when the
loop has ended without an error. -/
theorem requests_arrive
    (hstore : ∀ req r inner, hold.request req (hold.storeRequest r inner) = some r)
    {s₀ : RobinRun (Recorded (Wired β))} (hfresh : Fresh s₀) :
    let ev := events env base64 out hold net o
    (∀ s, Passes ev s₀ s → CleanRun base64 s →
      Arrives base64 s.rest.inner ∧ ∀ x ∈ s.rest.inner.sendings.dropLast, x.whole = true) ∧
    ∀ fuel s, runProfileLoop ev s₀ fuel = some (.ok (.success, s)) → CleanRun base64 s →
      Arrives base64 s.rest.inner ∧ ∀ x ∈ s.rest.inner.sendings, x.whole = true := by
  have houtline : Outline (Torn base64) _ _ (Idle base64) :=
    transaction_outline env out net o hstore
  constructor
  · intro s hpasses hclean
    have htorn := passes_outline houtline loopCondition_idle hfresh.idle (fun _ _ => trivial) s
      hpasses
    exact ⟨htorn.arrives hclean, htorn.whole⟩
  · intro fuel s hrun hclean
    have hidle := (runProfileLoop_ensures
      (fun s stat s' hs => houtline.ensures s stat s' ⟨hs, trivial⟩) loopCondition_idle
      hfresh.idle).2 fuel .success s hrun
    rw [if_pos rfl] at hidle
    exact ⟨hidle.torn.arrives hclean, hidle.whole⟩

/-! ### Two requests over one connection -/

/-- Every url is on the host `a`. -/
def hostA : Env :=
  ⟨fun _ => ⟨some (bytes "http"), some (bytes "a"), 80, none, none, none, none, some (bytes "a")⟩,
    fun _ => 80, [], fun delay _ _ => delay⟩

/-- The request is kept from `begin_conn` on, and every response sets a cookie. -/
def keepRequest : Holder (Option Request) :=
  ⟨fun _ kept => kept, fun r _ => some r,
    fun _ => some (CookieRun.textResponse CookieRun.oneCookieText)⟩

/-- One connection, which takes whatever it is given. -/
def takesAll : Network (Option Request) := ⟨fun _ => 0, fun buf kept => ((buf.length, .success), kept)⟩

def keepEvents : OtherEvents (Option Request) :=
  let quiet : Handler (Option Request) := fun _ _ draws kept => .ok (.success, draws, kept)
  { beginConn := fun _ req draws _ => .ok (.success, draws, req)
    createReq := quiet, sendReq := quiet, recvResp := quiet
    postprocess := fun rp _ draws kept => .ok (.success, (rp.cookie, rp.state), draws, kept)
    verifyResp := quiet, endConn := quiet, processStats := quiet, requestDestroy := quiet
    responseDestroy := quiet, socketDestroy := quiet, profileInit := quiet, reportInit := quiet
    socketInit := quiet, reportStats := quiet, destroyReport := quiet, profileDestroy := quiet }

def postUrl : Url where
  url := some (bytes "http://a/")
  method := .POST
  methodString := some (bytes "POST")
  payload := some (.text (bytes "hi"))
  extraHeaders := some (bytes "X: y" ++ CRLF)

/-- Before two POSTs of `hi`. -/
def twoPosts : RobinRun (Recorded (Wired (Option Request))) where
  rp :=
    { executeRounds := 2, urls := 1, url := [postUrl], baseurl := none, proxyUrl := none, cookie := []
      state := fun _ => none, substList := none, currentRound := 0, currentUrl := 0 }
  draws := fun _ => 0
  rest := { inner := ⟨none, fun _ => [], []⟩, received := [], built := none }
  req := none
  trace := []

/-- A request, as `get_next_url` makes it. -/
def postRequest : Request where
  uri := bytes "http://a/"
  method := .POST
  payload := some (bytes "hi")
  payloadsize := 2
  parsedUri :=
    ⟨some (bytes "http"), some (bytes "a"), 80, none, none, some (bytes "/"), none, some (bytes "a")⟩

/-- The loop of this run. -/
def twoPostsLoop : Option (Except Abort (Status × RobinRun (Recorded (Wired (Option Request))))) :=
  runProfileLoop (events hostA (fun _ => []) CookieRun.noMatch keepRequest takesAll keepEvents)
    twoPosts 2

/-- The request was sent over the connection 0 as it was made, with this jar. -/
structure SentAs (x : Sending) (jar : List Cookie) : Prop where
  conn : x.conn = 0
  proxy : x.profile.proxyUrl = none
  cookie : x.profile.cookie = jar
  url : x.url = postUrl
  request : x.request = { postRequest with rbuf := x.request.rbuf, rbufsize := x.request.rbufsize }

theorem SentAs.path {x : Sending} {jar : List Cookie} (h : SentAs x jar) :
    requestPath x.profile x.request = some (bytes "/") := by
  unfold requestPath
  rw [h.request, h.proxy]
  rfl

theorem SentAs.proper {x : Sending} {jar : List Cookie} (h : SentAs x jar) :
    Proper (fun _ => []) x.profile x.url x.request := by
  have hclean : CleanTexts (fun _ => []) { x.profile with cookie := [] } x.url x.request := by
    refine ⟨?_, ?_, ?_, ?_, ?_, fun c hc => ?_, fun c hc => absurd hc List.not_mem_nil⟩
    · rw [h.url]
      decide
    · show IsLine (fmtS (requestPath x.profile x.request))
      rw [h.path]
      decide
    · rw [h.request]
      show IsLine (fmtS none)
      decide
    · rw [h.request]
      show IsLine (fmtS (some (bytes "a")))
      decide
    · rw [h.request]
      show IsLine (fmtS none)
      decide
    · rw [h.url] at hc
      cases hc
  refine ⟨hclean, ?_, ?_, ?_⟩
  · rw [h.url]
    decide +kernel
  · rw [h.url]
    decide +kernel
  · rw [h.request]
    intro payload hpayload
    cases hpayload
    exact ⟨by decide, rfl, by decide⟩

/-- The fields of the two requests, without their cookies. -/
def postFields : List Bytes :=
  [bytes "POST / HTTP/1.1", bytes "User-Agent: Flood/1.1", bytes "Connection: Close",
    bytes "Host: a", bytes "Content-Length: 2",
    bytes "Content-Type: application/x-www-form-urlencoded", bytes "X: y"]

theorem SentAs.parts {x : Sending} {jar : List Cookie} (h : SentAs x jar) :
    x.parts (fun _ => []) = (postFields ++ cookieLines (jar.map Cookie.printed), bytes "hi") := by
  have hstart : startLines x.profile x.url x.request = startLines twoPosts.rp postUrl postRequest := by
    unfold startLines
    rw [h.path, h.url, h.request]
    rfl
  have hlines : startLines twoPosts.rp postUrl postRequest = postFields.take 4 := by decide +kernel
  have hextra : extraLines x.url = postFields.drop 6 := by
    rw [h.url]
    decide +kernel
  have hheads : payloadHeads x.request = (postFields.drop 4).take 2 := by
    rw [h.request]
    show payloadFields postRequest = _
    decide +kernel
  have hbody : requestBody x.request = bytes "hi" := by
    rw [h.request]
    show cstr (bytes "hi") = _
    decide
  have hcredentials : credentials (fun _ => []) x.url = none := by
    rw [h.url]
    rfl
  unfold Sending.parts RequestStream.parts headLines
  rw [hstart, hlines, hheads, hextra, hcredentials, h.cookie, hbody]
  rfl

set_option maxRecDepth 20000 in
theorem twoPosts_run : ∃ s x y, twoPostsLoop = some (.ok (.success, s)) ∧
    s.rest.inner.sendings = [x, y] ∧
    s.rest.received = [CookieRun.textResponse CookieRun.oneCookieText,
      CookieRun.textResponse CookieRun.oneCookieText] ∧
    SentAs x [] ∧ SentAs y [⟨bytes "a", bytes "1"⟩] :=
  ⟨_, _, _, rfl, rfl, rfl, ⟨rfl, rfl, rfl, rfl, rfl⟩, ⟨rfl, rfl, rfl, rfl, rfl⟩⟩

theorem requests_arrive_twoPosts : ∃ s, twoPostsLoop = some (.ok (.success, s)) ∧
    readStream readRequest (s.rest.inner.arrived 0) =
      ([(postFields, bytes "hi"), (postFields ++ [bytes "Cookie: a=1"], bytes "hi")], []) := by
  obtain ⟨s, x, y, hrun, hsendings, hreceived, hx, hy⟩ := twoPosts_run
  have hclean : CleanRun (fun _ => []) s := by
    constructor
    · rw [hsendings]
      simp only [List.forall_mem_cons]
      exact ⟨hx.proper, hy.proper, List.forall_mem_nil _⟩
    · rw [hreceived]
      intro resp hresp c hc
      have htaken : taken resp = [⟨bytes "a", bytes "1"⟩] := by
        simp only [List.mem_cons, List.not_mem_nil, or_false, or_self] at hresp
        rw [hresp]
        exact CookieRun.taken_first CookieRun.oneCookieText_sets.firstCookie
      rw [htaken, List.mem_singleton] at hc
      rw [hc]
      exact ⟨by decide, by decide⟩
  obtain ⟨harrives, hwhole⟩ := (requests_arrive (fun _ _ _ => rfl)
    (⟨rfl, rfl, rfl, rfl⟩ : Fresh twoPosts)).2 2 s hrun hclean
  obtain ⟨harrived, hread⟩ := harrives 0
  refine ⟨s, hrun, ?_⟩
  have hall : s.rest.inner.sendings.filter (·.conn = 0) = [x, y] := by
    rw [hsendings]
    simp [hx.conn, hy.conn]
  rw [hsendings] at hwhole
  obtain ⟨hself, hnone⟩ := filter_whole hwhole
  rw [harrived]
  rw [hall] at hread ⊢
  rw [ReadsBack, hself, hnone] at hread
  rw [hread, List.map_cons, List.map_cons, hx.parts, hy.parts]
  decide +kernel

end Flood.RequestStream
