import Flood.KeepaliveRun

/-!
# The life of a connection

Which connections of a run with the keep-alive socket are open, and which one the socket uses.

* `usesLive_iff` — requests are sent and responses received on a connection that is open and of the
  kind the socket takes it for, and none is closed twice, exactly when no failed SSL handshake goes
  unreported.
* `oneOpen_iff` — at most one connection is open at any time exactly when no connection that fails
  the liveness check is replaced: its replacement is opened, but it is never closed.
-/

namespace Flood.KeepaliveConnections

open Flood.CString Flood.Loop Flood.Net Flood.Profile Flood.SocketKeepalive Flood.KeepaliveRun

/-! ### Lists of connections -/

/-- The connection number `i` is open, and of this kind. -/
def LiveAt (conns : List Connection) (i : ℕ) (ssl : Bool) : Prop :=
  ∃ c, conns[i]? = some c ∧ c.closed = 0 ∧ c.ssl = ssl

def IsOpen (conns : List Connection) (i : ℕ) : Prop := ∃ ssl, LiveAt conns i ssl

/-- No connection was closed twice. -/
def ClosedOnce (conns : List Connection) : Prop := ∀ c ∈ conns, c.closed ≤ 1

def OneOpen (conns : List Connection) : Prop :=
  ∀ i j, IsOpen conns i → IsOpen conns j → i = j

/-- A new connection is open, and the others are as they were. -/
theorem liveAt_append {conns : List Connection} {req : Request} {https : Bool} {i : ℕ}
    {ssl : Bool} : LiveAt (conns ++ [⟨req, https, 0, 0⟩]) i ssl ↔
      LiveAt conns i ssl ∨ (i = conns.length ∧ https = ssl) := by
  unfold LiveAt
  rcases lt_trichotomy i conns.length with h | rfl | h
  · rw [List.getElem?_append_left h]
    simp [h.ne]
  · simp
  · rw [List.getElem?_eq_none (by simp; omega), List.getElem?_eq_none (by omega)]
    simp [h.ne']

theorem isOpen_append {conns : List Connection} {req : Request} {https : Bool} {i : ℕ} :
    IsOpen (conns ++ [⟨req, https, 0, 0⟩]) i ↔ IsOpen conns i ∨ i = conns.length := by
  simp only [IsOpen, liveAt_append, exists_or, exists_and_left, exists_eq', and_true]

theorem closedOnce_append {conns : List Connection} (h : ClosedOnce conns) (req : Request)
    (https : Bool) : ClosedOnce (conns ++ [⟨req, https, 0, 0⟩]) := by
  intro c hc
  rcases List.mem_append.mp hc with hc | hc
  · exact h c hc
  · rw [List.mem_singleton.mp hc]
    exact Nat.zero_le 1

/-- A response that leaves bytes changes no connection's life. -/
theorem liveAt_owe {conns : List Connection} {i j owed : ℕ} {ssl : Bool} :
    LiveAt (conns.modify i fun c => Connection.owe c owed) j ssl ↔ LiveAt conns j ssl := by
  unfold LiveAt
  rw [List.getElem?_modify]
  cases conns[j]? with
  | none => simp
  | some c => by_cases h : i = j <;> simp [h, Connection.owe]

/-- A change of one connection is all that has to be looked at. -/
theorem closedOnce_modify {conns : List Connection} (h : ClosedOnce conns) {i : ℕ}
    {f : Connection → Connection} (hf : ∀ c, conns[i]? = some c → (f c).closed ≤ 1) :
    ClosedOnce (conns.modify i f) := by
  intro c hc
  obtain ⟨j, hj⟩ := List.mem_iff_getElem?.mp hc
  rw [List.getElem?_modify] at hj
  cases hget : conns[j]? with
  | none => simp [hget] at hj
  | some d =>
    by_cases hij : i = j
    · subst hij
      obtain rfl : f d = c := by simpa [hget] using hj
      exact hf d hget
    · obtain rfl : d = c := by simpa [hget, hij] using hj
      exact h d (List.mem_iff_getElem?.mpr ⟨j, hget⟩)

theorem closedOnce_owe {conns : List Connection} (h : ClosedOnce conns) (i owed : ℕ) :
    ClosedOnce (conns.modify i fun c => Connection.owe c owed) :=
  closedOnce_modify h fun c hc => h c (List.mem_iff_getElem?.mpr ⟨i, hc⟩)

/-- A connection that is closed is open no longer, and the others are as they were. -/
theorem isOpen_close {conns : List Connection} {i j : ℕ} :
    IsOpen (closeSocket conns i) j ↔ IsOpen conns j ∧ i ≠ j := by
  unfold IsOpen LiveAt closeSocket
  rw [List.getElem?_modify]
  cases conns[j]? with
  | none => simp
  | some c => by_cases h : i = j <;> simp [h]

/-- Closing an open connection closes it once. -/
theorem closedOnce_close {conns : List Connection} (h : ClosedOnce conns) {i : ℕ}
    (hi : IsOpen conns i) : ClosedOnce (closeSocket conns i) := by
  refine closedOnce_modify h fun c hc => ?_
  obtain ⟨-, d, hd, hclosed, -⟩ := hi
  obtain rfl : c = d := Option.some.inj (hc.symm.trans hd)
  rw [hclosed]

/-! ### The calls of a run -/

section Calls

variable (hasOpenssl : Bool) (script : List Exchange)

/-- `keepalive_begin_conn` is called in this state. -/
def BeginCalled (s : Run) : Prop :=
  let ev := keepaliveEvents hasOpenssl
  Behind ev [ev.getNextUrl] (start script) .success s

/-- `keepalive_send_req` is called in this state. -/
def SendCalled (s : Run) : Prop :=
  let ev := keepaliveEvents hasOpenssl
  Behind ev [ev.getNextUrl, ev.beginConn, ev.createReq] (start script) .success s

/-- `keepalive_recv_resp` is called in this state. -/
def RecvCalled (s : Run) : Prop :=
  let ev := keepaliveEvents hasOpenssl
  Behind ev [ev.getNextUrl, ev.beginConn, ev.createReq, ev.sendReq] (start script) .success s

end Calls

/-- The socket's connection is open, and of the kind the socket takes it for. -/
def UsesLive (s : Run) : Prop := ∃ i, s.ksock.s = some i ∧ LiveAt s.conns i s.ksock.ssl

/-- The connection that the socket has fails the liveness check, and is replaced. -/
def Leaks (hasOpenssl : Bool) (s : Run) : Prop :=
  s.ksock.reopenSocket = false ∧ s.ksock.s ≠ none ∧ ∃ x, s.current = some x ∧
    x.check ≠ .success ∧ Opens hasOpenssl x.req x.opening

/-- A connection is to be opened, its SSL handshake fails, what stands in `rv` is taken for a
success, and the request is made. -/
def FailsSilently (hasOpenssl : Bool) (s : Run) : Prop :=
  ∃ x scheme, s.current = some x ∧ ¬ s.ksock.Keeps x.check ∧
    x.req.parsedUri.scheme = some scheme ∧ eqIgnoreCase scheme (bytes "https") = true ∧
    hasOpenssl = true ∧ x.opening = .sslFailed .success ∧ x.createReq = .success

/-! ### The outline of a transaction -/

section Outline

variable (noLeak : Prop)

/-- Between rounds: a connection that the socket keeps is open and of its kind; without a leak no
other connection is open. -/
structure Idle (s : Run) : Prop where
  once : ClosedOnce s.conns
  kept : ∀ i, s.ksock.reopenSocket = false → s.ksock.s = some i → LiveAt s.conns i s.ksock.ssl
  only : noLeak → ∀ i, IsOpen s.conns i → s.ksock.reopenSocket = false ∧ s.ksock.s = some i

/-- Behind `get_next_url`: the request is that of the exchange. -/
structure Picked (hasOpenssl : Bool) (s : Run) : Prop extends Idle noLeak s where
  current : ∃ x, s.current = some x ∧ s.req = some x.req
  safe : noLeak → ¬ Leaks hasOpenssl s

/-- From `begin_conn` to `end_conn`: the socket's connection, if it has one, is open and of its
kind. -/
structure Busy (s : Run) : Prop where
  once : ClosedOnce s.conns
  live : ∀ i, s.ksock.s = some i →
    s.ksock.reopenSocket = false ∧ LiveAt s.conns i s.ksock.ssl
  one : noLeak → OneOpen s.conns

/-- From `send_req` on the socket has a connection. -/
structure InUse (s : Run) : Prop extends Busy noLeak s where
  used : s.ksock.s ≠ none

/-- In every state of the run. -/
structure Tidy (s : Run) : Prop where
  once : ClosedOnce s.conns
  one : noLeak → OneOpen s.conns

variable {noLeak}

theorem Idle.tidy {s : Run} (h : Idle noLeak s) : Tidy noLeak s where
  once := h.once
  one := fun hno i j hi hj =>
    Option.some.inj ((h.only hno i hi).2.symm.trans (h.only hno j hj).2)

theorem Busy.tidy {s : Run} (h : Busy noLeak s) : Tidy noLeak s := ⟨h.once, h.one⟩

theorem outcome_keeps {P : Run → Prop} (hP : ∀ s, P s → Tidy noLeak s) (f : Exchange → Status) :
    Ensures P (outcome f) P (Tidy noLeak) := by
  intro s stat s' hs he
  simp only [outcome] at he
  split at he
  · cases he
  · cases he
    split
    · exact hs
    · exact hP s hs

/-- No leak comes about behind `get_next_url`. -/
def SafeNext (noLeak : Prop) (hasOpenssl : Bool) (s : Run) : Prop :=
  noLeak → ∀ s', nextUrl s = .ok (.success, s') → ¬ Leaks hasOpenssl s'

variable (noLeak) in
theorem nextUrl_keeps (hasOpenssl : Bool) :
    Ensures (fun s => Idle noLeak s ∧ SafeNext noLeak hasOpenssl s) nextUrl
      (Picked noLeak hasOpenssl) (Tidy noLeak) := by
  rintro s stat s' ⟨hs, hsafe⟩ he
  have hsafe' : stat = .success → noLeak → ¬ Leaks hasOpenssl s' := by
    rintro rfl hno
    exact hsafe hno s' he
  simp only [nextUrl] at he
  split at he
  · cases he
    exact hs.tidy
  · next x script _ =>
    cases he
    split
    · next hstat => exact ⟨⟨hs.once, hs.kept, hs.only⟩, ⟨x, rfl, rfl⟩, hsafe' hstat⟩
    · exact ⟨hs.once, hs.tidy.one⟩

/-- No connection is open where one is opened, unless that leaks. -/
theorem Picked.none_open {hasOpenssl : Bool} {s : Run} (hs : Picked noLeak hasOpenssl s)
    {x : Exchange} (hcur : s.current = some x) (hkeep : ¬ s.ksock.Keeps x.check)
    (hopens : Opens hasOpenssl x.req x.opening) (hno : noLeak) (i : ℕ) : ¬ IsOpen s.conns i := by
  intro hi
  obtain ⟨hreopen, hsome⟩ := hs.only hno i hi
  have hne : s.ksock.s ≠ none := by simp [hsome]
  exact hs.safe hno ⟨hreopen, hne, x, hcur, fun hcheck => hkeep ⟨hreopen, hne, hcheck⟩, hopens⟩

/-- A new connection stands alone where no other is open. -/
theorem oneOpen_append {conns : List Connection} (h : ∀ i, ¬ IsOpen conns i) (req : Request)
    (https : Bool) : OneOpen (conns ++ [⟨req, https, 0, 0⟩]) := by
  intro i j hi hj
  rw [(isOpen_append.mp hi).resolve_left (h i), (isOpen_append.mp hj).resolve_left (h j)]

theorem beginConn_keeps (hasOpenssl : Bool) :
    Ensures (Picked noLeak hasOpenssl) (beginConn hasOpenssl) (Busy noLeak) (Tidy noLeak) := by
  intro s stat s' hs he
  obtain ⟨x, hcur, hreq⟩ := hs.current
  simp only [beginConn, hcur, hreq] at he
  split at he
  · cases he
  · next hbegin =>
    cases he
    cases keepaliveBeginConn_begins hbegin with
    | kept hkeep =>
      exact ⟨hs.once, fun i hi => ⟨hkeep.1, hs.kept i hkeep.1 hi⟩, hs.tidy.one⟩
    | opened https hkeep hopens =>
      refine ⟨closedOnce_append hs.once x.req https, fun i hi => ⟨rfl, ?_⟩,
        fun hno => oneOpen_append (hs.none_open hcur hkeep hopens hno) x.req https⟩
      exact liveAt_append.mpr (.inr ⟨(Option.some.inj hi).symm, rfl⟩)
    | handshake stat k' hkeep hopens _ _ hnone =>
      have hone : noLeak → OneOpen (s.conns ++ [⟨x.req, true, 0, 0⟩]) :=
        fun hno => oneOpen_append (hs.none_open hcur hkeep hopens hno) x.req true
      split
      · exact ⟨closedOnce_append hs.once x.req true,
          fun i hi => absurd (hnone.symm.trans hi) (by simp), hone⟩
      · exact ⟨closedOnce_append hs.once x.req true, hone⟩
    | refused stat k' hstat =>
      rw [if_neg hstat]
      exact ⟨hs.once, hs.tidy.one⟩

theorem createReq_keeps : Ensures (Busy noLeak) createReq (Busy noLeak) (Tidy noLeak) := by
  intro s stat s' hs he
  simp only [createReq] at he
  split at he
  · cases he
    split
    · exact ⟨hs.once, hs.live, hs.one⟩
    · exact ⟨hs.once, hs.one⟩
  · cases he

theorem sendReq_keeps : Ensures (Busy noLeak) sendReq (InUse noLeak) (Tidy noLeak) := by
  intro s stat s' hs he
  simp only [sendReq] at he
  split at he
  · simp only [keepaliveSendReq] at he
    split at he
    · cases he
    · next hk =>
      split at hk
      · cases hk
      · next hne =>
        cases hk
        cases he
        split
        · exact ⟨⟨hs.once, hs.live, hs.one⟩, hne⟩
        · exact ⟨hs.once, hs.one⟩
  · cases he

theorem recvResp_keeps : Ensures (InUse noLeak) recvResp (InUse noLeak) (Tidy noLeak) := by
  intro s stat s' hs he
  simp only [recvResp] at he
  split at he
  · next x i hcur hi =>
    cases he
    have hlive : ∀ j ssl, LiveAt (s.conns.modify i fun c => Connection.owe c x.owed) j ssl ↔
        LiveAt s.conns j ssl := fun j ssl => liveAt_owe
    have hone : noLeak → OneOpen (s.conns.modify i fun c => Connection.owe c x.owed) := by
      simpa only [OneOpen, IsOpen, hlive] using hs.one
    split
    · exact ⟨⟨closedOnce_owe hs.once i x.owed, by simpa only [hlive] using hs.live, hone⟩, hs.used⟩
    · exact ⟨closedOnce_owe hs.once i x.owed, hone⟩
  · cases he

theorem endConn_keeps : Ensures (InUse noLeak) endConn (Idle noLeak) (Tidy noLeak) := by
  intro s stat s' hs he
  obtain ⟨i, hi⟩ := Option.ne_none_iff_exists'.mp hs.used
  obtain ⟨hreopen, hlive⟩ := hs.live i hi
  simp only [endConn] at he
  split at he
  · cases he
  · next keepalive hkeep =>
    cases keepalive with
    | true =>
      cases he
      refine ⟨hs.once, fun j _ hj => (hs.live j hj).2, fun hno j hj => ⟨hreopen, ?_⟩⟩
      rw [hs.one hno j i hj ⟨_, hlive⟩]
      exact hi
    | false =>
      simp only [keepaliveEndConn, hi, Bool.false_eq_true, if_false] at he
      cases he
      refine ⟨closedOnce_close hs.once ⟨_, hlive⟩, fun j hopen _ => (by cases hopen), fun hno j hj => ?_⟩
      obtain ⟨hj, hij⟩ := isOpen_close.mp hj
      exact absurd (hs.one hno i j ⟨_, hlive⟩ hj) hij

variable (noLeak) in
/-- **A transaction**, handler by handler. -/
theorem transaction_keeps (hasOpenssl : Bool) :
    Outline (Tidy noLeak) (fun s => Idle noLeak s ∧ SafeNext noLeak hasOpenssl s)
      (keepaliveEvents hasOpenssl).transaction (Idle noLeak) := by
  have hidle : ∀ s, Idle noLeak s → Tidy noLeak s := fun s h => h.tidy
  have hbusy : ∀ s, Busy noLeak s → Tidy noLeak s := fun s h => h.tidy
  have huse : ∀ s, InUse noLeak s → Tidy noLeak s := fun s h => h.tidy
  refine .cons (fun s h => h.1.tidy) (nextUrl_keeps noLeak hasOpenssl) ?_
  refine .cons (fun s h => h.tidy) (beginConn_keeps hasOpenssl) ?_
  refine .cons hbusy createReq_keeps (.cons hbusy sendReq_keeps ?_)
  refine .cons huse recvResp_keeps ?_
  refine .cons huse (outcome_keeps huse _) (.cons huse (outcome_keeps huse _) ?_)
  refine .cons huse endConn_keeps ?_
  refine .cons hidle (outcome_keeps hidle _) (.cons hidle (outcome_keeps hidle _) ?_)
  refine .cons hidle (outcome_keeps hidle _) (.cons hidle ?_ (.nil hidle))
  intro s stat s' hs he
  cases he
  exact hs

theorem start_idle (script : List Exchange) : Idle noLeak (start script) where
  once := by simp [ClosedOnce, start]
  kept := fun i hopen => by cases hopen
  only := fun _ i hi => by
    obtain ⟨ssl, c, hc, -⟩ := hi
    simp [start] at hc

theorem loopCondition_keeps (hasOpenssl : Bool) (s : Run) (again : Bool) (s' : Run)
    (hs : Idle noLeak s) (h : (keepaliveEvents hasOpenssl).loopCondition s = .ok (again, s')) :
    Idle noLeak s' := by
  cases h
  exact hs

end Outline

/-! ### Connections in use -/

/-- Nothing is assumed about leaks. -/
theorem safeNext_false (hasOpenssl : Bool) (s : Run) : SafeNext False hasOpenssl s := fun h => h.elim

theorem passes_closedOnce {hasOpenssl : Bool} {script : List Exchange} {s : Run}
    (h : Passes (keepaliveEvents hasOpenssl) (start script) s) : ClosedOnce s.conns :=
  (passes_outline (transaction_keeps False hasOpenssl)
    (loopCondition_keeps hasOpenssl) (start_idle script)
    (fun s _ => safeNext_false hasOpenssl s) s h).once

/-- Between rounds the connections are as the outline has them. -/
theorem steps_idle {noLeak : Prop} {hasOpenssl : Bool} {script : List Exchange} {s : Run}
    (hsafe : ∀ s, Steps (runProfileRound (keepaliveEvents hasOpenssl)) (start script) s →
      SafeNext noLeak hasOpenssl s)
    (h : Steps (runProfileRound (keepaliveEvents hasOpenssl)) (start script) s) : Idle noLeak s :=
  steps_ensures (transaction_keeps noLeak hasOpenssl).ensures (loopCondition_keeps hasOpenssl)
    (start_idle script) hsafe s h

/-- The states in which the handlers of a request are called. -/
theorem beginCalled_picked {noLeak : Prop} {hasOpenssl : Bool} {script : List Exchange} {s : Run}
    (hsafe : ∀ s, Steps (runProfileRound (keepaliveEvents hasOpenssl)) (start script) s →
      SafeNext noLeak hasOpenssl s)
    (h : BeginCalled hasOpenssl script s) : Picked noLeak hasOpenssl s := by
  obtain ⟨s₁, hsteps, hrun⟩ := h
  have hpick := ensures_cons (nextUrl_keeps noLeak hasOpenssl) ensures_nil
  simpa using hpick s₁ .success s ⟨steps_idle hsafe hsteps, hsafe s₁ hsteps⟩ hrun

theorem recvCalled_inUse {hasOpenssl : Bool} {script : List Exchange} {s : Run}
    (h : RecvCalled hasOpenssl script s) : InUse False s := by
  obtain ⟨s₁, hsteps, hrun⟩ := h
  have hsafe := fun s (_ : Steps (runProfileRound (keepaliveEvents hasOpenssl)) (start script) s) =>
    safeNext_false hasOpenssl s
  have huse := ensures_cons (nextUrl_keeps False hasOpenssl)
    (ensures_cons (beginConn_keeps hasOpenssl)
      (ensures_cons createReq_keeps (ensures_cons sendReq_keeps ensures_nil)))
  simpa using huse s₁ .success s ⟨steps_idle hsafe hsteps, hsafe s₁ hsteps⟩ hrun

/-- What `begin_conn` made of the exchange that was picked. -/
theorem beginConn_begins {hasOpenssl : Bool} {s s' : Run} {x : Exchange} {stat : Status}
    (hcur : s.current = some x) (hreq : s.req = some x.req)
    (h : beginConn hasOpenssl s = .ok (stat, s')) :
    ∃ k conns req, s' = { s with ksock := k, conns := conns, req := some req } ∧
      Begins hasOpenssl s.ksock s.conns x.req x.check x.opening stat k conns req := by
  simp only [beginConn, hcur, hreq] at h
  split at h
  · cases h
  · next hbegin =>
    cases h
    exact ⟨_, _, _, by rw [hcur], keepaliveBeginConn_begins hbegin⟩

/-- A successful `begin_conn` leaves the socket with a connection, unless a failed handshake passes
for a success. -/
theorem beginConn_used {hasOpenssl : Bool} {s s' : Run} {x : Exchange}
    (hcur : s.current = some x) (hreq : s.req = some x.req) (hcreate : x.createReq = .success)
    (hfails : ¬ FailsSilently hasOpenssl s)
    (h : beginConn hasOpenssl s = .ok (.success, s')) : s'.ksock.s ≠ none := by
  obtain ⟨k, conns, req, rfl, hbegins⟩ := beginConn_begins hcur hreq h
  generalize hstat : Status.success = stat at hbegins
  cases hbegins with
  | kept hkeep => exact hkeep.2.1
  | opened https hkeep hopens => exact Option.some_ne_none _
  | handshake stat k' hkeep hopens hopening hscheme hnone =>
    obtain ⟨scheme, hscheme, hhttps⟩ := hscheme
    obtain ⟨scheme', hscheme', hssl⟩ := hopens.1
    obtain rfl : scheme = scheme' := Option.some.inj (hscheme.symm.trans hscheme')
    rw [← hstat] at hopening
    exact absurd ⟨x, scheme, hcur, hkeep, hscheme, hhttps, hssl hhttps, hopening, hcreate⟩ hfails
  | refused stat k' hne => exact absurd hstat.symm hne

/-- A request is sent on a live connection where no failed handshake passes for a success. -/
theorem sendCalled_usesLive {hasOpenssl : Bool} {script : List Exchange}
    (h : ∀ s, BeginCalled hasOpenssl script s → ¬ FailsSilently hasOpenssl s) {s : Run}
    (hs : SendCalled hasOpenssl script s) : UsesLive s := by
  obtain ⟨s₁, hsteps, hrun⟩ := hs
  obtain ⟨s₂, hnext, hrun⟩ := runEvents_cons_success hrun
  obtain ⟨s₃, hbegin, hrun⟩ := runEvents_cons_success hrun
  obtain ⟨s₄, hcreate, hrun⟩ := runEvents_cons_success hrun
  cases hrun
  have hcalled : BeginCalled hasOpenssl script s₂ := ⟨s₁, hsteps, by simp [runEvents, hnext]⟩
  have hpicked := beginCalled_picked (fun s _ => safeNext_false hasOpenssl s) hcalled
  obtain ⟨x, hcur, hreq⟩ := hpicked.current
  have hbusy : Busy False s₃ := by
    simpa using beginConn_keeps hasOpenssl s₂ .success s₃ hpicked hbegin
  obtain ⟨k, conns, req, hs₃, -⟩ := beginConn_begins hcur hreq hbegin
  simp only [keepaliveEvents, createReq, hs₃, hcur, Except.ok.injEq, Prod.mk.injEq] at hcreate
  obtain ⟨hsuccess, rfl⟩ := hcreate
  have hused := beginConn_used hcur hreq hsuccess (h s₂ hcalled) hbegin
  rw [hs₃] at hused hbusy
  obtain ⟨i, hi⟩ := Option.ne_none_iff_exists'.mp hused
  exact ⟨i, hi, (hbusy.live i hi).2⟩

/-- A failed handshake that passes for a success leaves the request without a connection. -/
theorem sendCalled_of_failsSilently {hasOpenssl : Bool} {script : List Exchange} {s : Run}
    (hs : BeginCalled hasOpenssl script s) (hfails : FailsSilently hasOpenssl s) :
    ∃ s', SendCalled hasOpenssl script s' ∧ s'.ksock.s = none := by
  have hpicked := beginCalled_picked (fun s _ => safeNext_false hasOpenssl s) hs
  obtain ⟨s₁, hsteps, hrun⟩ := hs
  obtain ⟨s₂, hnext, hrun⟩ := runEvents_cons_success hrun
  cases hrun
  obtain ⟨x, scheme, hcur, hkeep, hscheme, hhttps, hssl, hopening, hcreate⟩ := hfails
  obtain ⟨x', hcur', hreq⟩ := hpicked.current
  obtain rfl : x = x' := Option.some.inj (hcur.symm.trans hcur')
  obtain ⟨reopen, hopen⟩ := keepaliveBeginConn_opens hkeep hasOpenssl s.conns x.req x.opening
  let k : KeepaliveSocket := { s.ksock with reopenSocket := reopen, ssl := true, s := none }
  let s₃ : Run := { s with ksock := k, conns := s.conns ++ [⟨x.req, true, 0, 0⟩] }
  have hbegin : beginConn hasOpenssl s = .ok (.success, s₃) := by
    simp only [beginConn, hcur, hreq, hopen]
    simp [openConn, hscheme, hhttps, hssl, hopening, s₃, k, hcur, hreq]
  refine ⟨{ s₃ with req := some { x.req with wantresponse := x.wantresponse } },
    ⟨s₁, hsteps, ?_⟩, rfl⟩
  have hnext' : nextUrl s₁ = .ok (.success, s) := hnext
  simp [runEvents, keepaliveEvents, hnext', hbegin, createReq, s₃, hcur, hreq, hcreate]

/-- **The connection in use is live** in every call of `send_req` and `recv_resp`, and none is
closed twice, if and only if no failed handshake passes for a success. -/
theorem usesLive_iff (hasOpenssl : Bool) (script : List Exchange) :
    ((∀ s, SendCalled hasOpenssl script s → UsesLive s) ∧
      (∀ s, RecvCalled hasOpenssl script s → UsesLive s) ∧
      ∀ s, Passes (keepaliveEvents hasOpenssl) (start script) s → ClosedOnce s.conns) ↔
    ∀ s, BeginCalled hasOpenssl script s → ¬ FailsSilently hasOpenssl s := by
  constructor
  · rintro ⟨hsend, -, -⟩ s hs hfails
    obtain ⟨s', hs', hnone⟩ := sendCalled_of_failsSilently hs hfails
    obtain ⟨i, hi, -⟩ := hsend s' hs'
    rw [hnone] at hi
    cases hi
  · intro h
    refine ⟨fun s hs => sendCalled_usesLive h hs, fun s hs => ?_, fun s => passes_closedOnce⟩
    have huse := recvCalled_inUse hs
    obtain ⟨i, hi⟩ := Option.ne_none_iff_exists'.mp huse.used
    exact ⟨i, hi, (huse.live i hi).2⟩

/-- One request over https, whose SSL handshake fails while `rv` happens to hold 0. -/
def badHandshake : List Exchange :=
  [{ req := plainRequest "https" "a" 443, opening := .sslFailed .success }]

/-- The request is sent on no connection at all. -/
theorem badHandshake_sends : ¬ ∀ hasOpenssl script,
    (∀ s, SendCalled hasOpenssl script s → UsesLive s) ∧
    (∀ s, RecvCalled hasOpenssl script s → UsesLive s) ∧
    ∀ s, Passes (keepaliveEvents hasOpenssl) (start script) s → ClosedOnce s.conns := by
  intro h
  obtain ⟨s, hs, hnone⟩ : ∃ s, SendCalled true badHandshake s ∧ s.ksock.s = none :=
    ⟨_, ⟨start badHandshake, .refl, rfl⟩, rfl⟩
  obtain ⟨i, hi, -⟩ := (h true badHandshake).1 s hs
  rw [hnone] at hi
  cases hi

/-! ### Connections left open -/

/-- Opening a connection adds it, open, to the others. -/
theorem openConn_adds {hasOpenssl : Bool} {req : Request} {opening : Opening}
    (h : Opens hasOpenssl req opening) (k : KeepaliveSocket) (conns : List Connection) :
    ∃ stat k' https req', openConn hasOpenssl k conns req opening =
      .ok (stat, k', conns ++ [⟨req, https, 0, 0⟩], req') := by
  obtain ⟨⟨scheme, hscheme, hssl⟩, hopening⟩ := h
  have hnot : ¬ (eqIgnoreCase scheme (bytes "https") = true ∧ ¬ hasOpenssl = true) :=
    fun hno => hno.2 (hssl hno.1)
  simp only [openConn, hscheme, if_neg hnot]
  cases opening with
  | opened => exact ⟨_, _, _, _, rfl⟩
  | failed rv hrv => exact absurd rfl (hopening rv hrv)
  | sslFailed rv => cases eqIgnoreCase scheme (bytes "https") <;> exact ⟨_, _, _, _, rfl⟩

/-- A connection that fails the liveness check is still open when its replacement is opened. -/
theorem beginConn_leaks {hasOpenssl : Bool} {script : List Exchange} {s : Run}
    (hs : BeginCalled hasOpenssl script s) (hleaks : Leaks hasOpenssl s) :
    ∃ stat s', beginConn hasOpenssl s = .ok (stat, s') ∧ s.conns.length < s'.conns.length ∧
      ∃ c ∈ s.conns, c.closed = 0 := by
  obtain ⟨hreopen, hsome, x, hcur, hcheck, hopens⟩ := hleaks
  have hpicked := beginCalled_picked (fun s _ => safeNext_false hasOpenssl s) hs
  obtain ⟨x', hcur', hreq⟩ := hpicked.current
  obtain rfl : x = x' := Option.some.inj (hcur.symm.trans hcur')
  obtain ⟨i, hi⟩ := Option.ne_none_iff_exists'.mp hsome
  obtain ⟨c, hc, hclosed, -⟩ := hpicked.kept i hreopen hi
  obtain ⟨reopen, hbegin⟩ := keepaliveBeginConn_opens
    (fun hkeep : s.ksock.Keeps x.check => hcheck hkeep.2.2) hasOpenssl s.conns x.req x.opening
  obtain ⟨stat, k', https, req', hadds⟩ := openConn_adds hopens
    { s.ksock with reopenSocket := reopen } s.conns
  have hadded : beginConn hasOpenssl s = .ok (stat, { s with
      ksock := k', conns := s.conns ++ [⟨x.req, https, 0, 0⟩], req := some req' }) := by
    simp only [beginConn, hcur, hreq, hbegin, hadds]
  exact ⟨stat, _, hadded, by simp, c, List.mem_of_getElem? hc, hclosed⟩

/-- **At most one connection is open** wherever the run stands, and every connection is closed when
a new one is opened, if and only if no connection that fails the liveness check is replaced. -/
theorem oneOpen_iff (hasOpenssl : Bool) (script : List Exchange) :
    ((∀ s, BeginCalled hasOpenssl script s → ∀ stat s', beginConn hasOpenssl s = .ok (stat, s') →
        s.conns.length < s'.conns.length → ∀ c ∈ s.conns, 0 < c.closed) ∧
      ∀ s, Passes (keepaliveEvents hasOpenssl) (start script) s → OneOpen s.conns) ↔
    ∀ s, BeginCalled hasOpenssl script s → ¬ Leaks hasOpenssl s := by
  constructor
  · rintro ⟨hopen, -⟩ s hs hleaks
    obtain ⟨stat, s', hbegin, hlen, c, hc, hclosed⟩ := beginConn_leaks hs hleaks
    exact absurd (hopen s hs stat s' hbegin hlen c hc) (by rw [hclosed]; exact lt_irrefl 0)
  · intro h
    have hsafe : ∀ s, Steps (runProfileRound (keepaliveEvents hasOpenssl)) (start script) s →
        SafeNext True hasOpenssl s := by
      intro s hsteps _ s' hnext
      refine h s' ⟨s, hsteps, ?_⟩
      show runEvents [nextUrl] s = _
      simp [runEvents, hnext]
    refine ⟨fun s hs stat s' hbegin hlen c hc => ?_, fun s hs => ?_⟩
    · have hpicked := beginCalled_picked hsafe hs
      obtain ⟨x, hcur, hreq⟩ := hpicked.current
      obtain ⟨k, conns, req, rfl, hbegins⟩ := beginConn_begins hcur hreq hbegin
      obtain ⟨i, hi⟩ := List.mem_iff_getElem?.mp hc
      have hnone : ¬ s.ksock.Keeps x.check ∧ Opens hasOpenssl x.req x.opening := by
        cases hbegins with
        | kept hkeep => exact absurd hlen (lt_irrefl _)
        | opened https hkeep hopens => exact ⟨hkeep, hopens⟩
        | handshake stat k' hkeep hopens => exact ⟨hkeep, hopens⟩
        | refused stat k' hne => exact absurd hlen (lt_irrefl _)
      have hnot := hpicked.none_open hcur hnone.1 hnone.2 trivial i
      exact Nat.pos_of_ne_zero fun hzero => hnot ⟨c.ssl, c, hi, hzero, rfl⟩
    · exact (passes_outline (transaction_keeps True hasOpenssl) (loopCondition_keeps hasOpenssl)
        (start_idle script) hsafe s hs).one trivial

/-- Two requests, before the second of which the server has dropped the connection. -/
def droppedConnection : List Exchange :=
  [{ req := plainRequest "http" "a" 80 }, { req := plainRequest "http" "a" 80, check := .egeneral }]

/-- The dropped connection is replaced without being closed. -/
theorem droppedConnection_left_open : ¬ ∀ hasOpenssl script,
    (∀ s, BeginCalled hasOpenssl script s → ∀ stat s', beginConn hasOpenssl s = .ok (stat, s') →
      s.conns.length < s'.conns.length → ∀ c ∈ s.conns, 0 < c.closed) ∧
    ∀ s, Passes (keepaliveEvents hasOpenssl) (start script) s → OneOpen s.conns := by
  intro h
  obtain ⟨s, hs, c, hc, hclosed, hbegin⟩ : ∃ s, BeginCalled false droppedConnection s ∧
      ∃ c ∈ s.conns, c.closed = 0 ∧ ∃ s', beginConn false s = .ok (.success, s') ∧
        s.conns.length < s'.conns.length :=
    ⟨_, ⟨_, Steps.single rfl, rfl⟩, _, List.mem_singleton_self _, rfl, _, rfl, by decide⟩
  obtain ⟨s', hbegin, hlen⟩ := hbegin
  have hpos := (h false droppedConnection).1 s hs .success s' hbegin hlen c hc
  omega

end Flood.KeepaliveConnections
