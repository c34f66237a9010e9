import Flood.ContentLength
import Flood.KeepaliveRun

/-!
# Responses in a run with the keep-alive socket

The exchanges of a run whose responses are read by `keepalive_recv_resp`: when the bytes that a
response leaves unread can reach the request after it.

* `body_consumed_or_closed` — a response whose body is covered by the events is consumed or its
  connection closed, and then no request goes out on a connection that owes bytes.
-/

namespace Flood.KeepaliveResponses

open Flood.CString Flood.Loop Flood.Net Flood.Profile Flood.SocketKeepalive Flood.ContentLength
  Flood.KeepaliveRun

/-- The receive step of the exchange is this call of `keepalive_recv_resp`. -/
def Answers (x : Exchange) (t : BodyRead) : Prop :=
  t.ksock.method = some x.req.method ∧ t.ksock.wantresponse = x.wantresponse ∧
  ∃ resp c, t.Returns (.ok (x.received, resp, c)) ∧
    (∀ r, resp = some r → r.keepalive = x.keepalive) ∧
    x.owed = t.resp.block.length + t.resp.length - c.received.length

/-- A response that is answered by a covered call owes nothing where its connection lives on. -/
theorem Answers.owed_eq_zero {x : Exchange} {t : BodyRead} (h : Answers x t)
    (hshort : t.resp.Short) (hcov : t.Covered) (hreceived : x.received = .success)
    (hkeep : x.keepalive = true) : x.owed = 0 := by
  obtain ⟨-, -, resp, c, hret, hflag, howed⟩ := h
  rw [hreceived] at hret
  obtain ⟨r, rfl⟩ := t.returns_some hshort hret
  have := (t.consumesOrCloses_iff hshort).1 hcov r c hret ((hflag r rfl).trans hkeep)
  omega

theorem isChain_of_forall {R : Exchange → Exchange → Prop} {l : List Exchange}
    (h : ∀ x ∈ l, ∀ y, R x y) : l.IsChain R := by
  induction l with
  | nil => exact .nil
  | cons x l ih =>
    have htail := ih fun y hy => h y (List.mem_cons_of_mem _ hy)
    cases l with
    | nil => exact .singleton x
    | cons y l => exact .cons_cons (h x (by simp) y) htail

/-- No request was sent on a connection that owed bytes of an earlier response. -/
def NothingOwed (s : Run) : Prop := ∀ r ∈ s.sent, r.conn.owed = 0

theorem nothingOwed_of_covered (hasOpenssl : Bool) (script : List Exchange)
    (h : ∀ x ∈ script, x.received = .success → x.keepalive = true →
      ∃ t, Answers x t ∧ t.resp.Short ∧ t.Covered) :
    (∀ s, Steps (runProfileRound (keepaliveEvents hasOpenssl)) (start script) s →
      NothingOwed s) ∧
    ∀ fuel stat s, runProfileLoop (keepaliveEvents hasOpenssl) (start script) fuel =
      some (.ok (stat, s)) → NothingOwed s := by
  refine loop_fits (fun c _ => c.owed = 0) (fun _ _ => rfl) hasOpenssl
    (isChain_of_forall fun x hx y hreceived hkeep _ c hc => ?_)
  obtain ⟨t, hans, hshort, hcov⟩ := h x hx hreceived hkeep
  simp only [Connection.owe, hans.owed_eq_zero hshort hcov hreceived hkeep, hc]

/-- **Unread bytes never meet a later request** where every connection that is left alive was read
by a call whose events cover the body; and for a body whose length the code looks at that is exactly
when the call consumes the response or gives the connection up. -/
theorem body_consumed_or_closed (t : BodyRead) (hasOpenssl : Bool) (script : List Exchange) :
    ((t.resp.Short → t.Covered → t.ConsumesOrCloses) ∧
      (t.resp.Short → t.ksock.wantresponse = false ∨
        t.resp.block.length + t.resp.length < 2 ^ 31 → t.ConsumesOrCloses → t.Covered) ∧
      (¬ t.resp.Short → t.ksock.wantresponse = false → t.got = [] → 0 < t.resp.length →
        ¬ t.ConsumesOrCloses)) ∧
    ((∀ x ∈ script, x.received = .success → x.keepalive = true →
        ∃ t, Answers x t ∧ t.resp.Short ∧ t.Covered) →
      (∀ s, Steps (runProfileRound (keepaliveEvents hasOpenssl)) (start script) s →
        NothingOwed s) ∧
      ∀ fuel stat s, runProfileLoop (keepaliveEvents hasOpenssl) (start script) fuel =
        some (.ok (stat, s)) → NothingOwed s) :=
  ⟨⟨fun hshort => (t.consumesOrCloses_iff hshort).1,
    fun hshort => (t.consumesOrCloses_iff hshort).2, t.not_consumesOrCloses_long⟩,
    nothingOwed_of_covered hasOpenssl script⟩

theorem get_ne_head : some Method.GET ≠ some .HEAD := by decide

/-- One byte of three, and then a timeout in `apr_poll`. -/
def cutShort : BodyRead where
  resp := threeBytes
  ksock := ⟨some 0, false, false, false, some .GET⟩
  notHead := get_ne_head
  got := [65]
  gotOk := by decide
  fits := by decide
  events := [⟨.timeup, .success, []⟩]
  mem := []
  b := []

theorem cutShort_left_alive : ¬ ∀ t : BodyRead, t.ConsumesOrCloses := fun h =>
  absurd ((cutShort.consumesOrCloses_iff (by decide)).2 (.inl rfl) (h cutShort)) (by
    unfold BodyRead.Covered
    decide)

end Flood.KeepaliveResponses
