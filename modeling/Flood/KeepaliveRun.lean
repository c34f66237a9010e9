import Flood.Profile
import Flood.SocketKeepalive
import Mathlib.Data.List.Chain

/-!
# Runs with the keep-alive socket

The main loop with the keep-alive socket handlers, over a script of exchanges.  An exchange fixes the
request and what comes from outside during its round: the outcomes of the liveness check, of
opening, sending and receiving and of every other handler, the keep-alive flag of the response and
the number of its bytes that were left unread.  A handler that ends the process stands among those
that fail, since nothing of the run follows either.

* `loop_fits` — what holds of every new connection and is kept from one exchange to the next holds
  of every request and the connection it was sent on.
* `reuse_own_endpoint` — every request is sent on a connection opened for its own endpoint exactly
  when consecutive requests between which the connection is kept have one endpoint.
-/

namespace Flood.KeepaliveRun

open Flood.CString Flood.Loop Flood.Net Flood.Profile Flood.SocketKeepalive

/-- One round of the loop as seen from outside. -/
structure Exchange where
  req : Request
  check : Status := .success
  opening : Opening := .opened
  wantresponse : Bool := false
  written : Status := .success
  received : Status := .success
  keepalive : Bool := true
  owed : ℕ := 0
  nextUrl : Status := .success
  createReq : Status := .success
  postprocess : Status := .success
  verifyResp : Status := .success
  processStats : Status := .success
  requestDestroy : Status := .success
  responseDestroy : Status := .success
  deriving DecidableEq

/-- A request together with the connection it was written to, as that stood then. -/
structure SentRequest where
  req : Request
  conn : Connection
  deriving DecidableEq

/-- The state of a run.  `current` is the exchange of the round, `sent` the record of
`keepalive_send_req`. -/
structure Run where
  ksock : KeepaliveSocket
  conns : List Connection
  script : List Exchange
  current : Option Exchange
  req : Option Request
  respKeepalive : Option Bool
  sent : List SentRequest
  deriving DecidableEq

/-- A fresh run over a script. -/
def start (script : List Exchange) : Run :=
  ⟨keepaliveSocketInit, [], script, none, none, none, []⟩

/-- A handler of which only the status matters. -/
def outcome (f : Exchange → Status) : Event Run := fun s =>
  match s.current with
  | none => .error .unset
  | some x => .ok (f x, s)

def nextUrl : Event Run := fun s =>
  match s.script with
  | [] => .ok (.egeneral, s)
  | x :: script =>
    .ok (x.nextUrl, { s with script := script, current := some x, req := some x.req })

def beginConn (hasOpenssl : Bool) : Event Run := fun s =>
  match s.current, s.req with
  | some x, some req =>
    match keepaliveBeginConn hasOpenssl s.ksock s.conns req x.check x.opening with
    | .error a => .error a
    | .ok (stat, ksock, conns, req) =>
      .ok (stat, { s with ksock := ksock, conns := conns, req := some req })
  | _, _ => .error .unset

/-- `create_req` decides whether the whole response is wanted. -/
def createReq : Event Run := fun s =>
  match s.current, s.req with
  | some x, some req =>
    .ok (x.createReq, { s with req := some { req with wantresponse := x.wantresponse } })
  | _, _ => .error .unset

def sendReq : Event Run := fun s =>
  match s.current, s.req with
  | some x, some req =>
    match keepaliveSendReq s.ksock req x.written with
    | .error a => .error a
    | .ok (stat, ksock) =>
      .ok (stat, { s with
        ksock := ksock
        sent := s.sent ++ ((s.ksock.s.bind (s.conns[·]?)).map (⟨req, ·⟩)).toList })
  | _, _ => .error .unset

/-- A response leaves `owed` of its bytes on the connection. -/
def Connection.owe (c : Connection) (owed : ℕ) : Connection := { c with owed := c.owed + owed }

def recvResp : Event Run := fun s =>
  match s.current, s.ksock.s with
  | some x, some i =>
    .ok (x.received, { s with
      conns := s.conns.modify i fun c => Connection.owe c x.owed
      respKeepalive := some x.keepalive })
  | _, _ => .error .fault

def endConn : Event Run := fun s =>
  match s.respKeepalive with
  | none => .error .unset
  | some keepalive =>
    match keepaliveEndConn s.ksock s.conns keepalive with
    | .error a => .error a
    | .ok (stat, ksock, conns) => .ok (stat, { s with ksock := ksock, conns := conns })

/-- The handlers of a run with the keep-alive socket. -/
def keepaliveEvents (hasOpenssl : Bool) : ProfileEvents Run where
  profileInit := fun s => .ok (.success, s)
  reportInit := fun s => .ok (.success, s)
  socketInit := fun s => .ok (.success, { s with ksock := keepaliveSocketInit })
  getNextUrl := nextUrl
  beginConn := beginConn hasOpenssl
  createReq := createReq
  sendReq := sendReq
  recvResp := recvResp
  postprocess := outcome Exchange.postprocess
  verifyResp := outcome Exchange.verifyResp
  endConn := endConn
  processStats := outcome Exchange.processStats
  requestDestroy := outcome Exchange.requestDestroy
  responseDestroy := outcome Exchange.responseDestroy
  socketDestroy := fun s => .ok (.success, s)
  loopCondition := fun s => .ok (!s.script.isEmpty, s)
  reportStats := fun s => .ok (.success, s)
  destroyReport := fun s => .ok (.success, s)
  profileDestroy := fun s => .ok (.success, s)

/-! ### Endpoints -/

/-- What a request has to be sent to: the proxy, or the host its own URI names. -/
structure Endpoint where
  scheme : Option Bytes
  hostname : Option Bytes
  port : ℕ
  deriving DecidableEq

/-- The endpoint of a request.  A proxy serves every scheme. -/
def endpoint (req : Request) : Endpoint :=
  match req.parsedProxyUri with
  | some proxy => ⟨none, proxy.hostname, proxy.port⟩
  | none => ⟨req.parsedUri.scheme, req.parsedUri.hostname, req.parsedUri.port⟩

/-! ### What holds between a connection and the requests sent on it -/

section Fits

variable (fits : Connection → Endpoint → Prop)

/-- Whatever fits the request of `x` fits that of `y` after `x` was answered, if the connection is
kept in between. -/
def KeepsFitting (x y : Exchange) : Prop :=
  x.received = .success → x.keepalive = true → y.check = .success →
    ∀ c, fits c (endpoint x.req) → fits (Connection.owe c x.owed) (endpoint y.req)

/-- Every request was sent on a connection that fitted. -/
def AllFit (s : Run) : Prop := ∀ r ∈ s.sent, fits r.conn (endpoint r.req)

/-- Before a round: a connection that the next exchange reuses fits it. -/
structure Ready (s : Run) : Prop where
  sent : AllFit fits s
  chain : s.script.IsChain (KeepsFitting fits)
  reuse : ∀ y script i, s.script = y :: script → s.ksock.reopenSocket = false →
    s.ksock.s = some i → y.check = .success →
    ∃ c, s.conns[i]? = some c ∧ fits c (endpoint y.req)

/-- After `get_next_url`. -/
structure Chosen (s : Run) : Prop where
  sent : AllFit fits s
  current : ∃ y, s.current = some y ∧ s.req = some y.req ∧
    (y :: s.script).IsChain (KeepsFitting fits) ∧
    ∀ i, s.ksock.reopenSocket = false → s.ksock.s = some i → y.check = .success →
      ∃ c, s.conns[i]? = some c ∧ fits c (endpoint y.req)

/-- From `begin_conn` to `recv_resp`: the socket's connection, if it has one, fits the current
request. -/
structure Connected (s : Run) : Prop where
  sent : AllFit fits s
  current : ∃ y req, s.current = some y ∧ s.req = some req ∧ endpoint req = endpoint y.req ∧
    (y :: s.script).IsChain (KeepsFitting fits) ∧
    ∀ i, s.ksock.s = some i → ∃ c, s.conns[i]? = some c ∧ fits c (endpoint y.req)

/-- From `recv_resp` to `end_conn`: the connection fits the next request, if it is kept. -/
structure Answered (s : Run) : Prop where
  sent : AllFit fits s
  chain : s.script.IsChain (KeepsFitting fits)
  current : ∃ keepalive, s.current.isSome ∧ s.respKeepalive = some keepalive ∧
    ∀ y script i, s.script = y :: script → keepalive = true → s.ksock.s = some i →
      y.check = .success → ∃ c, s.conns[i]? = some c ∧ fits c (endpoint y.req)

variable {fits}

theorem outcome_ensures {P : Run → Prop} (hP : ∀ s, P s → AllFit fits s)
    (f : Exchange → Status) : Ensures P (outcome f) P (AllFit fits) := by
  intro s stat s' hs he
  simp only [outcome] at he
  split at he
  · cases he
  · simp only [Except.ok.injEq, Prod.mk.injEq] at he
    obtain ⟨rfl, rfl⟩ := he
    split
    · exact hs
    · exact hP s hs

theorem nextUrl_ensures : Ensures (Ready fits) nextUrl (Chosen fits) (AllFit fits) := by
  intro s stat s' hs he
  simp only [nextUrl] at he
  split at he
  · simp only [Except.ok.injEq, Prod.mk.injEq] at he
    obtain ⟨rfl, rfl⟩ := he
    exact hs.sent
  · next x script hscript =>
    simp only [Except.ok.injEq, Prod.mk.injEq] at he
    obtain ⟨rfl, rfl⟩ := he
    split
    · exact ⟨hs.sent, x, rfl, rfl, hscript ▸ hs.chain, fun i => hs.reuse x script i hscript⟩
    · exact hs.sent

/-- A new connection fits the request it was opened for. -/
def FitsNew (fits : Connection → Endpoint → Prop) : Prop :=
  ∀ req https, fits ⟨req, https, 0, 0⟩ (endpoint req)

theorem beginConn_ensures (hnew : FitsNew fits) (hasOpenssl : Bool) :
    Ensures (Chosen fits) (beginConn hasOpenssl) (Connected fits) (AllFit fits) := by
  intro s stat s' hs he
  obtain ⟨y, hcur, hreq, hchain, hreuse⟩ := hs.current
  simp only [beginConn, hcur, hreq] at he
  split at he
  · cases he
  · next hbegin =>
    simp only [Except.ok.injEq, Prod.mk.injEq] at he
    obtain ⟨rfl, rfl⟩ := he
    split
    · refine ⟨hs.sent, y, ?_⟩
      cases keepaliveBeginConn_begins hbegin with
      | opened https =>
        refine ⟨_, rfl, rfl, rfl, hchain, fun i hi => ?_⟩
        obtain rfl : s.conns.length = i := Option.some.inj hi
        exact ⟨_, by simp, hnew y.req https⟩
      | kept hkeep =>
        exact ⟨_, rfl, rfl, rfl, hchain, fun i hi => hreuse i hkeep.1 hi hkeep.2.2⟩
      | handshake stat k' _ _ _ _ hnone =>
        exact ⟨_, rfl, rfl, rfl, hchain, fun i hi => by rw [hnone] at hi; cases hi⟩
      | refused stat k' hstat => exact absurd ‹_› hstat
    · exact hs.sent

theorem createReq_ensures :
    Ensures (Connected fits) createReq (Connected fits) (AllFit fits) := by
  intro s stat s' hs he
  obtain ⟨y, req, hcur, hreq, hend, hrest⟩ := hs.current
  simp only [createReq, hcur, hreq, Except.ok.injEq, Prod.mk.injEq] at he
  obtain ⟨rfl, rfl⟩ := he
  split
  · exact ⟨hs.sent, y, _, rfl, rfl, hend, hrest⟩
  · exact hs.sent

theorem sendReq_ensures : Ensures (Connected fits) sendReq (Connected fits) (AllFit fits) := by
  intro s stat s' hs he
  obtain ⟨y, req, hcur, hreq, hend, hchain, hfits⟩ := hs.current
  cases hi : s.ksock.s with
  | none => simp [sendReq, hcur, hreq, keepaliveSendReq, hi] at he
  | some i =>
    obtain ⟨c, hc, hfit⟩ := hfits i hi
    simp only [sendReq, hcur, hreq, keepaliveSendReq, hi, reduceCtorEq, if_false, Option.bind_some,
      hc, Option.map_some, Option.toList_some, Except.ok.injEq, Prod.mk.injEq] at he
    obtain ⟨rfl, rfl⟩ := he
    have hsent : ∀ r ∈ s.sent ++ [⟨req, c⟩], fits r.conn (endpoint r.req) := by
      intro r hr
      rcases List.mem_append.mp hr with hr | hr
      · exact hs.sent r hr
      · rw [List.mem_singleton.mp hr, hend]
        exact hfit
    split
    · exact ⟨hsent, y, req, rfl, rfl, hend, hchain, fun j hj => hfits j (hi.trans hj)⟩
    · exact hsent

theorem recvResp_ensures : Ensures (Connected fits) recvResp (Answered fits) (AllFit fits) := by
  intro s stat s' hs he
  obtain ⟨y, req, hcur, hreq, -, hchain, hfits⟩ := hs.current
  cases hi : s.ksock.s with
  | none => simp [recvResp, hcur, hi] at he
  | some i =>
    obtain ⟨c, hc, hfit⟩ := hfits i hi
    simp only [recvResp, hcur, hi, Except.ok.injEq, Prod.mk.injEq] at he
    obtain ⟨rfl, rfl⟩ := he
    split
    · next hreceived =>
      refine ⟨hs.sent, hchain.tail, y.keepalive, rfl, rfl, ?_⟩
      intro z script j hscript hkeep hj hcheck
      obtain rfl : i = j := Option.some.inj (hi.symm.trans hj)
      have hnext : KeepsFitting fits y z := by
        rw [hscript, List.isChain_cons_cons] at hchain
        exact hchain.1
      exact ⟨Connection.owe c y.owed, by simp [hc], hnext hreceived hkeep hcheck c hfit⟩
    · exact hs.sent

theorem endConn_ensures : Ensures (Answered fits) endConn (Ready fits) (AllFit fits) := by
  intro s stat s' hs he
  obtain ⟨keepalive, -, hkeep, hreuse⟩ := hs.current
  simp only [endConn, hkeep, keepaliveEndConn] at he
  cases keepalive with
  | true =>
    simp only [if_true, Except.ok.injEq, Prod.mk.injEq] at he
    obtain ⟨rfl, rfl⟩ := he
    exact ⟨hs.sent, hs.chain, fun y script i hscript _ => hreuse y script i hscript rfl⟩
  | false =>
    cases hi : s.ksock.s with
    | none => simp [hi] at he
    | some i =>
      simp only [hi, Bool.false_eq_true, if_false, Except.ok.injEq, Prod.mk.injEq] at he
      obtain ⟨rfl, rfl⟩ := he
      exact ⟨hs.sent, hs.chain, fun y script j _ hreopen => by cases hreopen⟩

/-- **A transaction** keeps every request on a connection that fits it, and leaves the run ready
for the next round if no handler fails. -/
theorem transaction_ensures (hnew : FitsNew fits) (hasOpenssl : Bool) :
    Ensures (Ready fits) (runEvents (keepaliveEvents hasOpenssl).transaction) (Ready fits)
      (AllFit fits) := by
  have hanswered : ∀ f, Ensures (Answered fits) (outcome f) (Answered fits) (AllFit fits) :=
    outcome_ensures fun _ h => h.sent
  have hready : ∀ f, Ensures (Ready fits) (outcome f) (Ready fits) (AllFit fits) :=
    outcome_ensures fun _ h => h.sent
  refine ensures_cons nextUrl_ensures (ensures_cons (beginConn_ensures hnew hasOpenssl) ?_)
  refine ensures_cons createReq_ensures (ensures_cons sendReq_ensures ?_)
  refine ensures_cons recvResp_ensures (ensures_cons (hanswered _) (ensures_cons (hanswered _) ?_))
  refine ensures_cons endConn_ensures (ensures_cons (hready _) (ensures_cons (hready _) ?_))
  refine ensures_cons (hready _) (ensures_cons ?_ ensures_nil)
  intro s stat s' hs he
  simp only [keepaliveEvents, Except.ok.injEq, Prod.mk.injEq] at he
  obtain ⟨rfl, rfl⟩ := he
  rwa [if_pos rfl]

theorem start_ready {script : List Exchange} (h : script.IsChain (KeepsFitting fits)) :
    Ready fits (start script) :=
  ⟨by simp [AllFit, start], h, fun _ _ _ _ hreopen => by cases hreopen⟩

/-- **The connection rule.**  What holds between every new connection and the request it was opened
for, and is kept between consecutive exchanges that share a connection, holds between every request
of the run and the connection it was sent on, wherever the run stands or ends. -/
theorem loop_fits (fits : Connection → Endpoint → Prop) (hnew : FitsNew fits) (hasOpenssl : Bool) {script : List Exchange}
    (hscript : script.IsChain (KeepsFitting fits)) :
    (∀ s, Steps (runProfileRound (keepaliveEvents hasOpenssl)) (start script) s →
      AllFit fits s) ∧
    ∀ fuel stat s, runProfileLoop (keepaliveEvents hasOpenssl) (start script) fuel =
      some (.ok (stat, s)) → AllFit fits s := by
  have hloop : ∀ s again s', Ready fits s →
      (keepaliveEvents hasOpenssl).loopCondition s = .ok (again, s') → Ready fits s' := by
    intro s again s' hs h
    simp only [keepaliveEvents, Except.ok.injEq, Prod.mk.injEq] at h
    exact h.2 ▸ hs
  obtain ⟨hsteps, hends⟩ := runProfileLoop_ensures
    (transaction_ensures hnew hasOpenssl) hloop (start_ready hscript)
  refine ⟨fun s h => (hsteps s h).sent, fun fuel stat s h => ?_⟩
  have hend := hends fuel stat s h
  split at hend
  · exact hend.sent
  · exact hend

end Fits

/-! ### Requests on a connection of their own endpoint -/

/-- Every request was sent on a connection that was opened for its own endpoint. -/
def SentOnOwnEndpoint (s : Run) : Prop :=
  ∀ r ∈ s.sent, endpoint r.conn.openedFor = endpoint r.req

/-- Consecutive requests between which the response and the liveness check let the connection live
have the same endpoint. -/
def SharesEndpoint (x y : Exchange) : Prop :=
  x.received = .success → x.keepalive = true → y.check = .success →
    endpoint x.req = endpoint y.req

/-- Every request is sent on a connection opened for its own endpoint, in every run in which the
endpoint changes only where the connection is given up. -/
theorem own_of_sharesEndpoint (hasOpenssl : Bool) {script : List Exchange}
    (h : script.IsChain SharesEndpoint) :
    (∀ s, Steps (runProfileRound (keepaliveEvents hasOpenssl)) (start script) s →
      SentOnOwnEndpoint s) ∧
    ∀ fuel stat s, runProfileLoop (keepaliveEvents hasOpenssl) (start script) fuel =
      some (.ok (stat, s)) → SentOnOwnEndpoint s := by
  refine loop_fits (fun c e => endpoint c.openedFor = e) (fun _ _ => rfl) hasOpenssl ?_
  refine h.imp fun x y hxy hreceived hkeep hcheck c hc => ?_
  exact hc.trans (hxy hreceived hkeep hcheck)

/-! ### Runs in which no handler fails -/

/-- No handler fails in the round of this exchange. -/
structure Exchange.Succeeds (hasOpenssl : Bool) (x : Exchange) : Prop where
  scheme : ∃ scheme, x.req.parsedUri.scheme = some scheme ∧
    (eqIgnoreCase scheme (bytes "https") = true → hasOpenssl = true)
  opening : x.opening = .opened
  written : x.written = .success
  received : x.received = .success
  nextUrl : x.nextUrl = .success
  createReq : x.createReq = .success
  postprocess : x.postprocess = .success
  verifyResp : x.verifyResp = .success
  processStats : x.processStats = .success
  requestDestroy : x.requestDestroy = .success
  responseDestroy : x.responseDestroy = .success

/-- The run after a round in which no handler fails and `keepalive_begin_conn` left `k` and
`conns`: the request went out on the connection `c` with the number `i`. -/
def answered (s : Run) (x : Exchange) (script : List Exchange) (k : KeepaliveSocket)
    (conns : List Connection) (i : ℕ) (c : Connection) : Run :=
  let req := { x.req with keepalive := true, wantresponse := x.wantresponse }
  let conns := conns.modify i fun c => Connection.owe c x.owed
  { ksock := ⟨k.s, if x.keepalive then k.reopenSocket else true, x.wantresponse, k.ssl,
      some x.req.method⟩
    conns := if x.keepalive then conns else closeSocket conns i
    script := script, current := some x, req := some req, respKeepalive := some x.keepalive
    sent := s.sent ++ [⟨req, c⟩] }

theorem transaction_succeeds {hasOpenssl : Bool} {x : Exchange} (hx : x.Succeeds hasOpenssl)
    {s : Run} {script : List Exchange} (hscript : s.script = x :: script) {k : KeepaliveSocket}
    {conns : List Connection} {i : ℕ} {c : Connection}
    (hbegin : keepaliveBeginConn hasOpenssl s.ksock s.conns x.req x.check x.opening =
      .ok (.success, k, conns, { x.req with keepalive := true }))
    (hi : k.s = some i) (hc : conns[i]? = some c) :
    runEvents (keepaliveEvents hasOpenssl).transaction s =
      .ok (.success, answered s x script k conns i c) := by
  cases hk : x.keepalive
  all_goals
    simp [ProfileEvents.transaction, keepaliveEvents, runEvents, nextUrl, beginConn, createReq,
      sendReq, recvResp, outcome, endConn, keepaliveSendReq, keepaliveEndConn, answered, hscript,
      hbegin, hi, hc, hk, hx.nextUrl, hx.createReq, hx.written, hx.received, hx.postprocess,
      hx.verifyResp, hx.processStats, hx.requestDestroy, hx.responseDestroy]

/-- `keepalive_begin_conn` of an exchange that does not fail: the connection there was, where the
socket keeps it, and a new one otherwise. -/
theorem keepaliveBeginConn_succeeds {hasOpenssl : Bool} {x : Exchange}
    (hx : x.Succeeds hasOpenssl) (k : KeepaliveSocket) (conns : List Connection) :
    (k.Keeps x.check ∧ keepaliveBeginConn hasOpenssl k conns x.req x.check x.opening =
      .ok (.success, k, conns, { x.req with keepalive := true })) ∨
    ¬ k.Keeps x.check ∧ ∃ https, keepaliveBeginConn hasOpenssl k conns x.req x.check x.opening =
      .ok (.success, { k with ssl := https, s := some conns.length, reopenSocket := false },
        conns ++ [⟨x.req, https, 0, 0⟩], { x.req with keepalive := true }) := by
  by_cases hkeep : k.Keeps x.check
  · exact .inl ⟨hkeep, keepaliveBeginConn_keeps hkeep _ _ _ _⟩
  · obtain ⟨scheme, hscheme, hssl⟩ := hx.scheme
    obtain ⟨reopen, ho⟩ := keepaliveBeginConn_opens hkeep hasOpenssl conns x.req x.opening
    refine .inr ⟨hkeep, eqIgnoreCase scheme (bytes "https"), ?_⟩
    rw [ho]
    simp only [openConn, hscheme, hx.opening]
    rw [if_neg (by simpa using hssl)]

/-- Before a round: a connection left open is the one the last request was sent on, and it is left
open if the last response allowed it. -/
structure KeptOpen (s : Run) : Prop where
  live : ∀ i, s.ksock.reopenSocket = false → s.ksock.s = some i →
    ∃ c w r, s.conns[i]? = some c ∧ s.current = some w ∧ r ∈ s.sent ∧
      r.conn.openedFor = c.openedFor ∧ endpoint r.req = endpoint w.req
  kept : ∀ w, s.current = some w → w.keepalive = true →
    s.ksock.reopenSocket = false ∧ s.ksock.s ≠ none

/-- The connection that a request goes out on, and the last one that went out on it before. -/
theorem begin_succeeds {hasOpenssl : Bool} {x : Exchange} (hx : x.Succeeds hasOpenssl) {s : Run}
    (hs : KeptOpen s) : ∃ k conns i c,
      keepaliveBeginConn hasOpenssl s.ksock s.conns x.req x.check x.opening =
        .ok (.success, k, conns, { x.req with keepalive := true }) ∧
      k.s = some i ∧ conns[i]? = some c ∧ k.reopenSocket = false ∧
      ∀ w, s.current = some w → w.keepalive = true → x.check = .success →
        ∃ r ∈ s.sent, r.conn.openedFor = c.openedFor ∧ endpoint r.req = endpoint w.req := by
  rcases keepaliveBeginConn_succeeds hx s.ksock s.conns with
    ⟨⟨hreopen, hsome, hcheck⟩, hbegin⟩ | ⟨hnot, https, hbegin⟩
  · obtain ⟨i, hi⟩ := Option.ne_none_iff_exists'.mp hsome
    obtain ⟨c, w, r, hc, hw, hr, hconn, hend⟩ := hs.live i hreopen hi
    refine ⟨_, _, i, c, hbegin, hi, hc, hreopen, fun w' hw' _ _ => ⟨r, hr, hconn, ?_⟩⟩
    rw [hend, Option.some.inj (hw.symm.trans hw')]
  · refine ⟨_, _, s.conns.length, ⟨x.req, https, 0, 0⟩, hbegin, rfl, by simp, rfl, ?_⟩
    intro w hw hkeep hcheck
    obtain ⟨hreopen, hsome⟩ := hs.kept w hw hkeep
    exact absurd ⟨hreopen, hsome, hcheck⟩ hnot

/-- One round of an exchange that does not fail sends one more request.  If that and the requests
before it went to their own endpoints, the exchange shares its endpoint with the last one. -/
theorem round_succeeds {hasOpenssl : Bool} {x : Exchange} (hx : x.Succeeds hasOpenssl)
    {s : Run} {script : List Exchange} (hscript : s.script = x :: script) (hs : KeptOpen s) :
    ∃ s', runEvents (keepaliveEvents hasOpenssl).transaction s = .ok (.success, s') ∧
      s'.script = script ∧ s'.current = some x ∧ s.sent ⊆ s'.sent ∧ KeptOpen s' ∧
      (SentOnOwnEndpoint s' → ∀ w, s.current = some w → SharesEndpoint w x) := by
  obtain ⟨k, conns, i, c, hbegin, hi, hc, hopen, hlast⟩ := begin_succeeds hx hs
  refine ⟨_, transaction_succeeds hx hscript hbegin hi hc, rfl, rfl,
    List.subset_append_left _ _, ⟨?_, ?_⟩, ?_⟩
  · intro j hreopen hj
    obtain rfl : i = j := Option.some.inj (hi.symm.trans hj)
    have hkeep : x.keepalive = true := by
      by_contra hno
      simp [answered, hno] at hreopen
    exact ⟨Connection.owe c x.owed, x, _, by simp [answered, hkeep, hc], rfl,
      List.mem_append_right _ (List.mem_singleton_self _), rfl, rfl⟩
  · intro w hw hkeep
    obtain rfl : x = w := Option.some.inj hw
    exact ⟨by simp [answered, hkeep, hopen], by simp [answered, hi]⟩
  · intro hown w hw _ hkeep hcheck
    obtain ⟨r, hr, hconn, hend⟩ := hlast w hw hkeep hcheck
    have hfirst := hown r (List.mem_append_left _ hr)
    have hsecond := hown _ (List.mem_append_right s.sent (List.mem_singleton_self _))
    exact hend.symm.trans (hfirst.symm.trans ((congrArg endpoint hconn).trans hsecond))

theorem loopCondition_eq (hasOpenssl : Bool) (s : Run) :
    (keepaliveEvents hasOpenssl).loopCondition s = .ok (!s.script.isEmpty, s) := rfl

/-- A run in which no handler fails ends, and if all its requests went to their own endpoints,
consecutive exchanges share theirs. -/
theorem loop_succeeds {hasOpenssl : Bool} (script : List Exchange) (x : Exchange)
    (hall : ∀ y ∈ x :: script, y.Succeeds hasOpenssl) {s : Run} (hscript : s.script = x :: script)
    (hs : KeptOpen s) :
    ∃ s', Halts (runProfileLoop (keepaliveEvents hasOpenssl) s) (.ok (.success, s')) ∧
      s.sent ⊆ s'.sent ∧
      (SentOnOwnEndpoint s' → (s.current.toList ++ x :: script).IsChain SharesEndpoint) := by
  induction script generalizing x s with
  | nil =>
    obtain ⟨s', hrun, hrest, -, hsent, -, hshare⟩ :=
      round_succeeds (hall x (by simp)) hscript hs
    refine ⟨s', halts_inl ?_, hsent, fun hown => ?_⟩
    · simp [runProfileRound, hrun, loopCondition_eq, hrest]
    · cases hcur : s.current with
      | none => simp
      | some w => simpa using hshare hown w hcur
  | cons y script ih =>
    obtain ⟨s₁, hrun, hrest, hcur₁, hsent, hs₁, hshare⟩ :=
      round_succeeds (hall x (by simp)) hscript hs
    obtain ⟨s', hhalts, hsent', hchain⟩ :=
      ih y (fun z hz => hall z (List.mem_cons_of_mem _ hz)) hrest hs₁
    refine ⟨s', halts_inr ?_ hhalts, fun r hr => hsent' (hsent hr), fun hown => ?_⟩
    · simp [runProfileRound, hrun, loopCondition_eq, hrest]
    · have htail := hchain hown
      have hhead := hshare fun r hr => hown r (hsent' hr)
      rw [hcur₁] at htail
      cases hcur : s.current with
      | none => simpa using htail
      | some w => exact List.isChain_cons_cons.mpr ⟨hhead w hcur, htail⟩

/-- **Connections and endpoints.**  In every run in which the endpoint changes only between requests
that do not share a connection, each request is sent on a connection opened for its own endpoint,
wherever the run stands or ends; and a run in which no handler fails ends with every request sent so
only if it is one of these. -/
theorem reuse_own_endpoint (hasOpenssl : Bool) (script : List Exchange) :
    (script.IsChain SharesEndpoint →
      (∀ s, Steps (runProfileRound (keepaliveEvents hasOpenssl)) (start script) s →
        SentOnOwnEndpoint s) ∧
      ∀ fuel stat s, runProfileLoop (keepaliveEvents hasOpenssl) (start script) fuel =
        some (.ok (stat, s)) → SentOnOwnEndpoint s) ∧
    (script ≠ [] → (∀ x ∈ script, x.Succeeds hasOpenssl) →
      ∃ s, Halts (runProfileLoop (keepaliveEvents hasOpenssl) (start script)) (.ok (.success, s)) ∧
        (SentOnOwnEndpoint s ↔ script.IsChain SharesEndpoint)) := by
  refine ⟨own_of_sharesEndpoint hasOpenssl, fun hne hall => ?_⟩
  obtain ⟨x, script, rfl⟩ := List.exists_cons_of_ne_nil hne
  obtain ⟨s, hhalts, -, hchain⟩ := loop_succeeds script x hall (s := start (x :: script)) rfl
    ⟨fun _ hreopen => (by cases hreopen), fun _ hcur => (by cases hcur)⟩
  refine ⟨s, hhalts, hchain, fun h => ?_⟩
  obtain ⟨N, hN⟩ := hhalts
  exact (own_of_sharesEndpoint hasOpenssl h).2 N .success s (hN N le_rfl)

/-- A GET request without a proxy. -/
def plainRequest (scheme hostname : String) (port : ℕ) : Request where
  uri := bytes scheme ++ bytes "://" ++ bytes hostname ++ bytes "/"
  method := .GET
  parsedUri := { scheme := some (bytes scheme), hostname := some (bytes hostname), port := port }

/-- Two hosts, the first of which lets the connection live. -/
def twoHosts : List Exchange :=
  [{ req := plainRequest "http" "a" 80 }, { req := plainRequest "http" "b" 80 }]

/-- The second request goes out on the connection to the first host. -/
theorem twoHosts_wrong_endpoint :
    ¬ ∀ script : List Exchange, ∀ fuel stat s,
      runProfileLoop (keepaliveEvents false) (start script) fuel = some (.ok (stat, s)) →
        SentOnOwnEndpoint s := by
  intro h
  have hb := h twoHosts 2 .success _ rfl _ (List.mem_cons_of_mem _ (List.mem_singleton_self _))
  revert hb
  decide

end Flood.KeepaliveRun
