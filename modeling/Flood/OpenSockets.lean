import Flood.EventLog
import Flood.SslSocket

/-!
# The sockets of a run with the generic socket

`open_socket` looks a host up, creates a socket and connects it; where no local port is left it sleeps
for four minutes and tries again with a new socket.  `generic_begin_conn` and `generic_end_conn` open
and close one connection for each transaction.  The other handlers, and what the network answers, are
arbitrary.

* `openSocket_opens` — what `open_socket` leaves open: the socket it returns, and those of the attempts
  that ran out of ports, which nothing closes.
* `sockets_accounted` — in every state of every run one connection is open behind `begin_conn` and up to
  `end_conn`, none elsewhere, and beside it only the sockets lost in this way; the sleep is four minutes
  for each of them.
-/

namespace Flood.OpenSockets

open Flood.CString Flood.EventLog Flood.Loop Flood.Net Flood.Profile Flood.SslSocket
open Flood.ProfileTables (EventName)

/-! ### Opening a socket -/

/-- The answers to one attempt: of `apr_sockaddr_info_get`, `apr_socket_create` and
`apr_socket_connect`. -/
structure Attempt where
  lookup : Status
  create : Status
  connect : Status
  deriving DecidableEq

def EAGAIN : Status := .errno 11

/-- The sockets of the process: the number of the next one, those open, those that an attempt to open a
connection has left behind, and the time slept. -/
structure Sockets where
  next : ℕ
  opened : List ℕ
  lost : List ℕ
  slept : ℤ
  deriving DecidableEq

/-- A socket is created. -/
def Sockets.create (s : Sockets) : Sockets :=
  { s with next := s.next + 1, opened := s.opened ++ [s.next] }

/-- `close_socket`; to close a socket that is not open is a fault. -/
def closeSocket (s : Sockets) (fd : ℕ) : Except Abort Sockets :=
  if fd ∈ s.opened then .ok { s with opened := s.opened.erase fd } else .error .fault

/-- `open_socket`: the status where it returns NULL, and the socket otherwise.  When the answers are
used up, the lookup times out. -/
def openSocket : List Attempt → Sockets → Except Abort (Status × Option ℕ × Sockets)
  | [], s => .ok (.timeup, none, s)
  | a :: attempts, s =>
    if a.lookup ≠ .success then .ok (a.lookup, none, s)
    else if a.create ≠ .success then .ok (a.create, none, s)
    else
      let fd := s.next
      let s := s.create
      if a.connect ≠ .success then
        -- `EINPROGRESS` has a branch of its own, which does what the last branch does
        if a.connect = EAGAIN then
          openSocket attempts { s with
            lost := s.lost ++ [fd]
            slept := s.slept + 4 * 60 * APR_USEC_PER_SEC }
        else
          match closeSocket s fd with
          | .error e => .error e
          | .ok s => .ok (a.connect, none, s)
      else .ok (.success, some fd, s)

/-- The test of `ssl_open_socket`: `e` is what `SSL_connect` returns, and `sslError` what
`SSL_get_error` makes of it. -/
def sslConnected (e : ℤ) (sslError : SslOutcome Unit) : Bool :=
  e = 0 ∨ sslError = .completed () ∨ sslError = .wantRead ∨ sslError = .wantWrite

/-! ### The handlers -/

/-- `generic_socket_t`; a field that was never set is `none`. -/
structure GenericSocket where
  s : Option ℕ
  wantresponse : Option Bool
  ssl : Option Bool
  deriving DecidableEq

/-- What the socket handlers share with the others and with the network: the current request, the
answers to the attempts to open a connection, the outcome of `SSL_connect`, and what writing and
reading do. -/
structure Outside (γ : Type) where
  req : γ → Option Request
  setReq : Request → γ → γ
  answers : Uri → γ → List Attempt × γ
  handshake : γ → (ℤ × SslOutcome Unit) × γ
  write : GenericSocket → Event γ
  receive : GenericSocket → Event γ

/-- The state of a run. -/
structure SocketRun (γ : Type) where
  inner : γ
  gsock : Option GenericSocket
  sockets : Sockets

variable {γ : Type}

/-- A handler that has no access to the socket. -/
def apart (e : Event γ) : Event (SocketRun γ) := fun s =>
  match e s.inner with
  | .error a => .error a
  | .ok (stat, inner) => .ok (stat, { s with inner := inner })

def genericSocketInit : Event (SocketRun γ) := fun s =>
  .ok (.success, { s with gsock := some ⟨none, none, none⟩ })

/-- What `ssl_open_socket` does behind `open_socket`, where it is called: whether it returns the
connection. -/
def sslHandshake (out : Outside γ) (ssl : Bool) (inner : γ) : Bool × γ :=
  if ssl then
    match out.handshake inner with
    | ((e, sslError), inner) => (sslConnected e sslError, inner)
  else (true, inner)

/-- `generic_begin_conn`, with OpenSSL.  Where `SSL_connect` fails, nothing sets the status that is
returned. -/
def genericBeginConn (out : Outside γ) : Event (SocketRun γ) := fun s =>
  match s.gsock, out.req s.inner with
  | some gsock, some req =>
    match req.parsedUri.scheme with
    | none => .error .fault
    | some scheme =>
      let ssl := eqIgnoreCase scheme (bytes "https")
      let (attempts, inner) := out.answers (req.parsedProxyUri.getD req.parsedUri) s.inner
      match openSocket attempts s.sockets with
      | .error a => .error a
      | .ok (stat, none, sockets) =>
        .ok (stat, ⟨inner, some { gsock with s := none, ssl := some ssl }, sockets⟩)
      | .ok (_, some fd, sockets) =>
        let (connected, inner) := sslHandshake out ssl inner
        if connected then
          .ok (.success, ⟨out.setReq { req with keepalive := false } inner,
            some { gsock with s := some fd, ssl := some ssl }, sockets⟩)
        else .error .unset
  | _, _ => .error .fault

/-- `generic_send_req` -/
def genericSendReq (out : Outside γ) : Event (SocketRun γ) := fun s =>
  match s.gsock, out.req s.inner with
  | some gsock, some req =>
    let gsock := { gsock with wantresponse := some req.wantresponse }
    match out.write gsock s.inner with
    | .error a => .error a
    | .ok (stat, inner) => .ok (stat, { s with inner := inner, gsock := some gsock })
  | _, _ => .error .fault

/-- `generic_recv_resp`, or `generic_fullresp_recv_resp`, which asks for the whole response while it
reads. -/
def genericRecvResp (fullresp : Bool) (out : Outside γ) : Event (SocketRun γ) := fun s =>
  match s.gsock with
  | none => .error .fault
  | some gsock =>
    let asked := if fullresp then { gsock with wantresponse := some true } else gsock
    match out.receive asked s.inner with
    | .error a => .error a
    | .ok (stat, inner) => .ok (stat, { s with inner := inner })

/-- `generic_end_conn` -/
def genericEndConn : Event (SocketRun γ) := fun s =>
  match s.gsock with
  | none => .error .fault
  | some gsock =>
    match gsock.ssl, gsock.s with
    | none, _ => .error .unset
    | some _, none => .error .fault
    | some _, some fd =>
      match closeSocket s.sockets fd with
      | .error a => .error a
      | .ok sockets => .ok (.success, { s with sockets := sockets })

/-- `generic_socket_destroy` -/
def genericSocketDestroy : Event (SocketRun γ) := fun s => .ok (.success, s)

/-- The handlers of a run with the generic socket; `ev` are those of the other events. -/
def socketEvents (fullresp : Bool) (out : Outside γ) (ev : ProfileEvents γ) :
    ProfileEvents (SocketRun γ) where
  profileInit := apart ev.profileInit
  reportInit := apart ev.reportInit
  socketInit := genericSocketInit
  getNextUrl := apart ev.getNextUrl
  beginConn := genericBeginConn out
  createReq := apart ev.createReq
  sendReq := genericSendReq out
  recvResp := genericRecvResp fullresp out
  postprocess := apart ev.postprocess
  verifyResp := apart ev.verifyResp
  endConn := genericEndConn
  processStats := apart ev.processStats
  requestDestroy := apart ev.requestDestroy
  responseDestroy := apart ev.responseDestroy
  socketDestroy := genericSocketDestroy
  loopCondition := fun s =>
    match ev.loopCondition s.inner with
    | .error a => .error a
    | .ok (again, inner) => .ok (again, { s with inner := inner })
  reportStats := apart ev.reportStats
  destroyReport := apart ev.destroyReport
  profileDestroy := apart ev.profileDestroy

/-! ### What is open -/

/-- Sockets have been numbered in the order of their creation, and four minutes have been slept for
each that was lost. -/
structure Sound (s : Sockets) : Prop where
  numbered : ∀ fd ∈ s.opened, fd < s.next
  slept : s.slept = s.lost.length * (4 * 60 * APR_USEC_PER_SEC)

/-- Nothing is open but what was lost. -/
structure Free (s : Sockets) : Prop extends Sound s where
  opened : s.opened = s.lost

/-- One socket is open, beside what was lost. -/
structure Held (s : Sockets) (fd : ℕ) : Prop extends Sound s where
  opened : s.opened = s.lost ++ [fd]
  fresh : fd ∉ s.lost

theorem Free.create {s : Sockets} (h : Free s) : Held s.create s.next where
  numbered fd hfd := by
    rcases List.mem_append.mp hfd with hold | hnew
    · exact Nat.lt_succ_of_lt (h.numbered fd hold)
    · rw [List.mem_singleton.mp hnew]
      exact Nat.lt_succ_self _
  slept := h.slept
  opened := congrArg (· ++ [s.next]) h.opened
  fresh := fun hmem => absurd (h.numbered s.next (h.opened ▸ hmem)) (Nat.lt_irrefl _)

/-- **To close the open socket** leaves what was lost. -/
theorem Held.close {s : Sockets} {fd : ℕ} (h : Held s fd) :
    ∃ s', closeSocket s fd = .ok s' ∧ Free s' := by
  have hmem : fd ∈ s.opened := by simp [h.opened]
  refine ⟨_, if_pos hmem, ?_, ?_⟩
  · exact ⟨fun fd' hfd' => h.numbered fd' (List.mem_of_mem_erase hfd'), h.slept⟩
  · show s.opened.erase fd = s.lost
    rw [h.opened, List.erase_append_right _ h.fresh, List.erase_cons_head, List.append_nil]

/-- A socket that is left behind. -/
theorem Held.lose {s : Sockets} {fd : ℕ} (h : Held s fd) : Free { s with
    lost := s.lost ++ [fd]
    slept := s.slept + 4 * 60 * APR_USEC_PER_SEC } where
  numbered := h.numbered
  slept := by
    rw [List.length_append, List.length_singleton, h.slept]
    push_cast
    rw [Int.add_mul, Int.one_mul]
  opened := h.opened

/-- **`open_socket`** leaves one socket open where it returns one, and none where it does not. -/
theorem openSocket_opens (attempts : List Attempt) {s : Sockets} (h : Free s) :
    ∃ stat fd s', openSocket attempts s = .ok (stat, fd, s') ∧
      match fd with
      | none => stat ≠ .success ∧ Free s'
      | some fd => Held s' fd := by
  induction attempts generalizing s with
  | nil => exact ⟨_, _, _, rfl, Status.noConfusion, h⟩
  | cons a attempts ih =>
    have hcreate := h.create
    unfold openSocket
    split
    · next hlookup => exact ⟨_, _, _, rfl, hlookup, h⟩
    · split
      · next hcreated => exact ⟨_, _, _, rfl, hcreated, h⟩
      · dsimp only
        split
        · next hconnect =>
          split
          · exact ih hcreate.lose
          · obtain ⟨s', hclose, hfree⟩ := hcreate.close
            rw [hclose]
            exact ⟨_, _, _, rfl, hconnect, hfree⟩
        · exact ⟨_, _, _, rfl, hcreate⟩

/-! ### The outline of a transaction -/

/-- The events between `begin_conn` and `end_conn`. -/
def heldEvents : List EventName := [.createReq, .sendReq, .recvResp, .postprocess, .verifyResp]

/-- Behind this call there is a connection. -/
def holds : Entry → Bool
  | .again _ => false
  | .call ev stat => (ev = .beginConn ∧ stat = .success) ∨ ev ∈ heldEvents

/-- The last call is one behind which there is a connection. -/
def holdsBehind (log : List Entry) : Bool := log.getLast?.any holds

/-- The socket that the handlers use is the one that is open. -/
def Connected (s : SocketRun γ) : Prop :=
  ∃ gsock fd, s.gsock = some gsock ∧ gsock.s = some fd ∧ gsock.ssl ≠ none ∧ Held s.sockets fd

/-- One connection is open where the last call says so, and none elsewhere. -/
def Accounted (s : Logged (SocketRun γ)) : Prop :=
  if holdsBehind s.log then Connected s.run else Free s.run.sockets

theorem holdsBehind_append (log : List Entry) (e : Entry) : holdsBehind (log ++ [e]) = holds e := by
  simp [holdsBehind]

/-- A handler leaves the sockets as they are, and the one in use in use. -/
def Keeps (e : Event (SocketRun γ)) : Prop :=
  ∀ s stat s', e s = .ok (stat, s') →
    s'.sockets = s.sockets ∧ (Connected s → Connected s')

theorem apart_keeps (e : Event γ) : Keeps (apart e) := by
  intro s stat s' h
  unfold apart at h
  split at h
  · cases h
  · cases h
    exact ⟨rfl, id⟩

theorem genericSendReq_keeps (out : Outside γ) : Keeps (genericSendReq out) := by
  intro s stat s' h
  unfold genericSendReq at h
  split at h
  · next gsock req hgsock _ =>
    dsimp only at h
    split at h
    · cases h
    · cases h
      refine ⟨rfl, ?_⟩
      rintro ⟨gsock', fd, hsome, hfd, hssl, hheld⟩
      rw [hgsock, Option.some.injEq] at hsome
      subst hsome
      exact ⟨_, fd, rfl, hfd, hssl, hheld⟩
  · cases h

theorem genericRecvResp_keeps (fullresp : Bool) (out : Outside γ) :
    Keeps (genericRecvResp fullresp out) := by
  intro s stat s' h
  unfold genericRecvResp at h
  split at h
  · cases h
  · dsimp only at h
    split at h
    · cases h
    · cases h
      exact ⟨rfl, id⟩

/-- What a logged call did. -/
theorem logged_step {ev : EventName} {e : Event (SocketRun γ)} {s s' : Logged (SocketRun γ)}
    {stat : Status} (h : logged ev e s = .ok (stat, s')) :
    e s.run = .ok (stat, s'.run) ∧ s'.log = s.log ++ [.call ev stat] := by
  unfold logged at h
  split at h
  · cases h
  · next hrun =>
    cases h
    exact ⟨hrun, rfl⟩

/-- Between the transactions, and before and behind the connection of a transaction. -/
def Idle (s : Logged (SocketRun γ)) : Prop := Accounted s ∧ Free s.run.sockets

/-- Within the connection of a transaction. -/
def Busy (s : Logged (SocketRun γ)) : Prop := Accounted s ∧ Connected s.run

theorem idle_of_free {s : Logged (SocketRun γ)} (hlog : holdsBehind s.log = false)
    (h : Free s.run.sockets) : Idle s := by
  refine ⟨?_, h⟩
  rw [Accounted, hlog]
  exact h

theorem busy_of_connected {s : Logged (SocketRun γ)} (hlog : holdsBehind s.log = true)
    (h : Connected s.run) : Busy s := by
  refine ⟨?_, h⟩
  rw [Accounted, hlog]
  exact h

/-- A handler elsewhere, whether or not it succeeds. -/
theorem logged_keepsIdle {ev : EventName} (hev : ∀ stat, holds (.call ev stat) = false)
    {e : Event (SocketRun γ)}
    (he : ∀ s stat s', e s = .ok (stat, s') → s'.sockets = s.sockets) (s : Logged (SocketRun γ))
    (stat : Status) (s' : Logged (SocketRun γ)) (hs : Idle s)
    (h : logged ev e s = .ok (stat, s')) : Idle s' := by
  obtain ⟨hrun, hlog⟩ := logged_step h
  refine idle_of_free ?_ ?_
  · rw [hlog, holdsBehind_append, hev]
  · rw [he _ _ _ hrun]
    exact hs.2

theorem logged_idle {ev : EventName} (hev : ∀ stat, holds (.call ev stat) = false)
    {e : Event (SocketRun γ)}
    (he : ∀ s stat s', e s = .ok (stat, s') → s'.sockets = s.sockets) :
    Ensures Idle (logged ev e) Idle Accounted := by
  intro s stat s' hs h
  have hidle := logged_keepsIdle hev he s stat s' hs h
  split
  · exact hidle
  · exact hidle.1

/-- A handler between `begin_conn` and `end_conn`. -/
theorem logged_busy {ev : EventName} (hev : ev ∈ heldEvents) {e : Event (SocketRun γ)}
    (he : Keeps e) : Ensures Busy (logged ev e) Busy Accounted := by
  intro s stat s' hs h
  obtain ⟨hrun, hlog⟩ := logged_step h
  have hbusy : Busy s' := by
    refine busy_of_connected ?_ ((he _ _ _ hrun).2 hs.2)
    rw [hlog, holdsBehind_append]
    exact decide_eq_true (.inr hev)
  split
  · exact hbusy
  · exact hbusy.1

/-- **`begin_conn`** opens the connection, or fails and leaves none. -/
theorem beginConn_accounted (out : Outside γ) :
    Ensures Idle (logged .beginConn (genericBeginConn out)) Busy Accounted := by
  intro s stat s' hs h
  obtain ⟨hrun, hlog⟩ := logged_step h
  unfold genericBeginConn at hrun
  split at hrun
  · next gsock req hgsock hreq =>
    split at hrun
    · cases hrun
    · dsimp only at hrun
      obtain ⟨stat₁, fd, sockets, hopen, hleft⟩ :=
        openSocket_opens (out.answers (req.parsedProxyUri.getD req.parsedUri) s.run.inner).1 hs.2
      rw [hopen] at hrun
      cases fd with
      | none =>
        obtain ⟨hstat, hfree⟩ := hleft
        simp only [Except.ok.injEq, Prod.mk.injEq] at hrun
        obtain ⟨rfl, hrun⟩ := hrun
        rw [if_neg hstat]
        refine (idle_of_free ?_ ?_).1
        · rw [hlog, holdsBehind_append]
          exact decide_eq_false (by simp [hstat, heldEvents])
        · rw [← hrun]
          exact hfree
      | some fd =>
        dsimp only at hrun
        split at hrun
        · simp only [Except.ok.injEq, Prod.mk.injEq] at hrun
          obtain ⟨rfl, hrun⟩ := hrun
          rw [if_pos rfl]
          refine busy_of_connected ?_ ?_
          · rw [hlog, holdsBehind_append]
            rfl
          · rw [← hrun]
            exact ⟨_, fd, rfl, rfl, Option.some_ne_none _, hleft⟩
        · cases hrun
  · cases hrun

/-- **`end_conn`** closes the connection that is open. -/
theorem genericEndConn_closes {s : SocketRun γ} (h : Connected s) :
    ∃ s', genericEndConn s = .ok (.success, s') ∧ Free s'.sockets := by
  obtain ⟨gsock, fd, hgsock, hfd, hssl, hheld⟩ := h
  obtain ⟨ssl, hssl⟩ := Option.ne_none_iff_exists'.mp hssl
  obtain ⟨sockets, hclose, hfree⟩ := hheld.close
  exact ⟨{ s with sockets := sockets }, by simp [genericEndConn, hgsock, hfd, hssl, hclose], hfree⟩

theorem endConn_accounted :
    Ensures Busy (logged .endConn (genericEndConn : Event (SocketRun γ))) Idle Accounted := by
  intro s stat s' hs h
  obtain ⟨hrun, hlog⟩ := logged_step h
  obtain ⟨s₁, hend, hfree⟩ := genericEndConn_closes hs.2
  rw [hend] at hrun
  cases hrun
  rw [if_pos rfl]
  refine idle_of_free ?_ hfree
  rw [hlog, holdsBehind_append]
  rfl

/-! ### The sockets of a run -/

variable {fullresp : Bool} {out : Outside γ} {ev : ProfileEvents γ}

theorem apart_sockets (e : Event γ) (s : SocketRun γ) (stat : Status) (s' : SocketRun γ)
    (h : apart e s = .ok (stat, s')) : s'.sockets = s.sockets := (apart_keeps e s stat s' h).1

theorem genericSocketInit_sockets (s : SocketRun γ) (stat : Status) (s' : SocketRun γ)
    (h : genericSocketInit s = .ok (stat, s')) : s'.sockets = s.sockets := by
  cases h
  rfl

theorem genericSocketDestroy_sockets (s : SocketRun γ) (stat : Status) (s' : SocketRun γ)
    (h : genericSocketDestroy s = .ok (stat, s')) : s'.sockets = s.sockets := by
  cases h
  rfl

/-- **A transaction**, with what is open before and behind each of its handlers. -/
theorem transaction_outline (fullresp : Bool) (out : Outside γ) (ev : ProfileEvents γ) :
    Outline Accounted (fun s => Idle s ∧ True) (withLog (socketEvents fullresp out ev)).transaction
      Idle := by
  have hidle : ∀ s : Logged (SocketRun γ), Idle s → Accounted s := fun s hs => hs.1
  have hbusy : ∀ s : Logged (SocketRun γ), Busy s → Accounted s := fun s hs => hs.1
  refine .cons (fun s hs => hs.1.1)
    (fun s stat s' hs => logged_idle (fun _ => rfl) (apart_sockets _) s stat s' hs.1) ?_
  refine .cons hidle (beginConn_accounted out) ?_
  refine .cons hbusy (logged_busy (by decide) (apart_keeps _)) ?_
  refine .cons hbusy (logged_busy (by decide) (genericSendReq_keeps out)) ?_
  refine .cons hbusy (logged_busy (by decide) (genericRecvResp_keeps fullresp out)) ?_
  refine .cons hbusy (logged_busy (by decide) (apart_keeps _)) ?_
  refine .cons hbusy (logged_busy (by decide) (apart_keeps _)) ?_
  refine .cons hbusy endConn_accounted ?_
  refine .cons hidle (logged_idle (fun _ => rfl) (apart_sockets _)) ?_
  refine .cons hidle (logged_idle (fun _ => rfl) (apart_sockets _)) ?_
  refine .cons hidle (logged_idle (fun _ => rfl) (apart_sockets _)) ?_
  exact .cons hidle (logged_idle (fun _ => rfl) genericSocketDestroy_sockets) (.nil hidle)

theorem loopCondition_idle (s : Logged (SocketRun γ)) (again : Bool) (s' : Logged (SocketRun γ))
    (hs : Idle s)
    (h : (withLog (socketEvents fullresp out ev)).loopCondition s = .ok (again, s')) : Idle s' := by
  simp only [withLog, loggedCondition, socketEvents] at h
  split at h
  · cases h
  · next hloop =>
    cases h
    split at hloop
    · cases hloop
    · cases hloop
      exact idle_of_free (by rw [holdsBehind_append]; rfl) hs.2

/-- The handlers in front of the loop, or the first of them. -/
theorem setup_idle {s s' : Logged (SocketRun γ)} {stat : Status}
    {es : List (Event (Logged (SocketRun γ)))}
    (hes : es <+: (withLog (socketEvents fullresp out ev)).setup) (hs : Idle s)
    (h : runEvents es s = .ok (stat, s')) : Idle s' := by
  have hall : ∀ e ∈ (withLog (socketEvents fullresp out ev)).setup,
      ∀ s stat s', Idle s → e s = .ok (stat, s') → Idle s' := by
    simp only [ProfileEvents.setup, withLog, socketEvents, List.forall_mem_cons]
    exact ⟨logged_keepsIdle (fun _ => rfl) (apart_sockets _),
      logged_keepsIdle (fun _ => rfl) (apart_sockets _),
      logged_keepsIdle (fun _ => rfl) genericSocketInit_sockets, List.forall_mem_nil _⟩
  exact runEvents_preserves (fun e he => hall e (hes.subset he)) hs h

/-- The handlers behind the loop, or the first of them. -/
theorem finish_idle {s s' : Logged (SocketRun γ)} {stat : Status}
    {es : List (Event (Logged (SocketRun γ)))}
    (hes : es <+: (withLog (socketEvents fullresp out ev)).finish) (hs : Idle s)
    (h : runEvents es s = .ok (stat, s')) : Idle s' := by
  have hall : ∀ e ∈ (withLog (socketEvents fullresp out ev)).finish,
      ∀ s stat s', Idle s → e s = .ok (stat, s') → Idle s' := by
    simp only [ProfileEvents.finish, withLog, socketEvents, List.forall_mem_cons]
    exact ⟨logged_keepsIdle (fun _ => rfl) (apart_sockets _),
      orEgeneral_preserves (logged_keepsIdle (fun _ => rfl) (apart_sockets _)),
      orEgeneral_preserves (logged_keepsIdle (fun _ => rfl) (apart_sockets _)),
      List.forall_mem_nil _⟩
  exact runEvents_preserves (fun e he => hall e (hes.subset he)) hs h

/-- **The sockets of a run are accounted for** in every state that it passes through, in front of the
loop, in it, behind it and where it ends, and `end_conn` never closes a socket that is not open. -/
theorem sockets_accounted (fullresp : Bool) (out : Outside γ) (ev : ProfileEvents γ)
    {s₀ : SocketRun γ} (hfree : Free s₀.sockets) :
    let run := withLog (socketEvents fullresp out ev)
    (∀ s₁ s, runEvents run.setup ⟨s₀, []⟩ = .ok (.success, s₁) → Passes run s₁ s → Accounted s) ∧
    (∀ s₁ s stat, runEvents run.setup ⟨s₀, []⟩ = .ok (.success, s₁) →
      Behind run (run.transaction.take 7) s₁ stat s → stat = .success →
        ∃ s', genericEndConn s.run = .ok (.success, s')) ∧
    (∀ es, es <+: run.setup → ∀ s stat, runEvents es ⟨s₀, []⟩ = .ok (stat, s) → Accounted s) ∧
    (∀ s₁ s₂ fuel, runEvents run.setup ⟨s₀, []⟩ = .ok (.success, s₁) →
      runProfileLoop run s₁ fuel = some (.ok (.success, s₂)) →
        ∀ es, es <+: run.finish → ∀ s stat, runEvents es s₂ = .ok (stat, s) → Accounted s) ∧
    ∀ fuel stat s', runProfile run ⟨s₀, []⟩ fuel = some (.ok (stat, s')) → Accounted s' := by
  have hstart : Idle (⟨s₀, []⟩ : Logged (SocketRun γ)) := idle_of_free rfl hfree
  have houtline := transaction_outline fullresp out ev
  have hsetups : ∀ {es stat s}, es <+: (withLog (socketEvents fullresp out ev)).setup →
      runEvents es ⟨s₀, []⟩ = .ok (stat, s) → Idle s := fun hes hrun => setup_idle hes hstart hrun
  have hloopRule : ∀ {fuel s₁ stat s₂}, Idle s₁ →
      runProfileLoop (withLog (socketEvents fullresp out ev)) s₁ fuel = some (.ok (stat, s₂)) →
        if stat = .success then Idle s₂ else Accounted s₂ := fun {fuel s₁ stat s₂} hs₁ hrun =>
    (runProfileLoop_ensures (fun s stat s' hs => houtline.ensures s stat s' ⟨hs, trivial⟩)
      loopCondition_idle hs₁).2 fuel stat s₂ hrun
  refine ⟨fun s₁ s hsetup => ?_, fun s₁ s stat hsetup => ?_, fun es hes s stat hrun => ?_,
    fun s₁ s₂ fuel hsetup hloop es hes s stat hrun => ?_, fun fuel stat s' h => ?_⟩
  · exact passes_outline houtline loopCondition_idle (hsetups List.prefix_rfl hsetup)
      (fun _ _ => trivial) s
  · rintro ⟨s₂, hsteps, hrun⟩ rfl
    have hidle := steps_ensures houtline.ensures loopCondition_idle
      (hsetups List.prefix_rfl hsetup) (fun _ _ => trivial) s₂ hsteps
    -- the state behind `verify_resp` is within the connection
    have hbefore : Ensures Idle (runEvents
        ((withLog (socketEvents fullresp out ev)).transaction.take 7)) Busy Accounted := by
      refine ensures_cons (logged_idle (fun _ => rfl) (apart_sockets _)) ?_
      refine ensures_cons (beginConn_accounted out) ?_
      refine ensures_cons (logged_busy (by decide) (apart_keeps _)) ?_
      refine ensures_cons (logged_busy (by decide) (genericSendReq_keeps out)) ?_
      refine ensures_cons (logged_busy (by decide) (genericRecvResp_keeps fullresp out)) ?_
      refine ensures_cons (logged_busy (by decide) (apart_keeps _)) ?_
      exact ensures_cons (logged_busy (by decide) (apart_keeps _)) ensures_nil
    have hbusy := hbefore s₂ .success s hidle hrun
    rw [if_pos rfl] at hbusy
    obtain ⟨s', hend, -⟩ := genericEndConn_closes hbusy.2
    exact ⟨s', hend⟩
  · exact (hsetups hes hrun).1
  · have hended := hloopRule (hsetups List.prefix_rfl hsetup) hloop
    rw [if_pos rfl] at hended
    exact (finish_idle hes hended hrun).1
  · rcases runProfile_cases h with ⟨-, hsetup⟩ | ⟨s₁, hsetup, ⟨hne, hloop⟩ | ⟨s₂, hloop, hend⟩⟩
    · exact (hsetups List.prefix_rfl hsetup).1
    · have hfailed := hloopRule (hsetups List.prefix_rfl hsetup) hloop
      rwa [if_neg hne] at hfailed
    · have hended := hloopRule (hsetups List.prefix_rfl hsetup) hloop
      rw [if_pos rfl] at hended
      exact (finish_idle List.prefix_rfl hended hend).1

/-! ### A run that finds no port at first -/

/-- The first attempt to connect finds no local port, and the second succeeds. -/
def portsUsedUp : Outside Unit where
  req _ := some
    { uri := bytes "http://a/", method := .GET
      parsedUri := ⟨some (bytes "http"), some (bytes "a"), 80, none, none, none, none, none⟩ }
  setReq _ inner := inner
  answers _ _ := ([⟨.success, .success, EAGAIN⟩, ⟨.success, .success, .success⟩], ())
  handshake _ := ((1, .completed ()), ())
  write _ inner := .ok (.success, inner)
  receive _ inner := .ok (.success, inner)

/-- The process before it has opened anything. -/
def noSockets : SocketRun Unit := ⟨(), none, ⟨0, [], [], 0⟩⟩

theorem noSockets_free : Free noSockets.sockets where
  numbered _ hfd := absurd hfd List.not_mem_nil
  slept := rfl
  opened := rfl

/-- What such a run of one transaction leaves. -/
def portsEnd : SocketRun Unit :=
  ⟨(), some ⟨some 1, some false, some false⟩, ⟨2, [0], [0], 240000000⟩⟩

theorem ports_run : ∃ log,
    runProfile (withLog (socketEvents false portsUsedUp quietHandlers)) ⟨noSockets, []⟩ 1 =
      some (.ok (.success, ⟨portsEnd, log⟩)) := ⟨_, rfl⟩

theorem sockets_accounted_ports : ∃ log, Accounted (⟨portsEnd, log⟩ : Logged (SocketRun Unit)) := by
  obtain ⟨log, hrun⟩ := ports_run
  exact ⟨log, (sockets_accounted false portsUsedUp quietHandlers noSockets_free).2.2.2.2 _ _ _ hrun⟩

end Flood.OpenSockets
