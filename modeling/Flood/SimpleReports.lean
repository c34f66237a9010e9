import Flood.RoundRobinRun

/-!
# The simple report

A run of the round-robin profile with the simple report and one of the verifiers.  The other
handlers are arbitrary: they see the profile, the request and the response and may replace the
response, but the report and `verified` are not theirs.  The run records the verdict of every call of
the verifier and every value that `simple_process_stats` was called with.

* `simpleProcessStats_tally` — one call adds one value to the report of those before it.
* `transaction_counted` — a transaction verifies one response and reports its verdict once.
* `report_totals_iff` — the totals of a complete run are exact if and only if the number of
  transactions fits an `int`.
-/

namespace Flood.SimpleReports

open Flood.CString Flood.Loop Flood.Net Flood.Template Flood.Profile Flood.RoundRobin
  Flood.RoundRobinRun

/-- `simple_report_t`; the fields are of type `int`. -/
structure SimpleReport where
  hitCount : ℤ
  successes : ℤ
  failures : ℤ
  deriving DecidableEq

/-- `simple_report_init` -/
def simpleReportInit : SimpleReport := ⟨0, 0, 0⟩

/-- `x++` for an `int`. -/
def increment (x : ℤ) : ℤ := wrapInt 32 (x + 1)

/-- `simple_process_stats`: any other value of `verified` is counted as a hit only. -/
def simpleProcessStats (sr : SimpleReport) (verified : ℤ) : SimpleReport :=
  let sr := { sr with hitCount := increment sr.hitCount }
  if verified = FLOOD_VALID then { sr with successes := increment sr.successes }
  else if verified = FLOOD_INVALID then { sr with failures := increment sr.failures }
  else sr

/-- The verifiers of the round-robin profile. -/
inductive Verifier where
  | verify200
  | verifyStatusCode (behind : Bytes)

def Verifier.run : Verifier → Response → Except Abort (ℤ × Response)
  | .verify200, resp => .ok (RoundRobin.verify200 resp, resp)
  | .verifyStatusCode behind, resp => RoundRobin.verifyStatusCode behind resp

/-- The state of a run beside the profile: the report, `verified` and the response of `run_profile`,
what the other handlers work on, and the record of the verdicts and of the values processed. -/
structure Stats (γ : Type) where
  report : SimpleReport
  verified : ℤ
  resp : Option Response
  inner : γ
  verdicts : List ℤ
  processed : List ℤ

variable {γ : Type}

/-- A handler that has neither the report nor `verified`. -/
abbrev InnerHandler (γ : Type) := Handler (Option Response × γ)

/-- The handlers of the events that the profile, the report and the verifier leave open. -/
structure InnerEvents (γ : Type) where
  profileInit : InnerHandler γ
  socketInit : InnerHandler γ
  beginConn : InnerHandler γ
  createReq : InnerHandler γ
  sendReq : InnerHandler γ
  recvResp : InnerHandler γ
  postprocess : RoundRobinProfile → Option Request → Draws → Option Response → γ →
    Except Abort (Status × (List Cookie × Vars) × Draws × Option Response × γ)
  endConn : InnerHandler γ
  requestDestroy : InnerHandler γ
  responseDestroy : InnerHandler γ
  socketDestroy : InnerHandler γ
  profileDestroy : InnerHandler γ

def ofInner (h : InnerHandler γ) : Handler (Stats γ) :=
  ofPart (fun st => (st.resp, st.inner)) (fun p st => { st with resp := p.1, inner := p.2 }) h

def reportInit : Handler (Stats γ) := fun _ _ draws st =>
  .ok (.success, draws, { st with report := simpleReportInit })

def verifyResp (v : Verifier) : Handler (Stats γ) := fun _ _ draws st =>
  match st.resp with
  | none => .error .fault
  | some resp =>
    match v.run resp with
    | .error a => .error a
    | .ok (verified, resp) =>
      .ok (.success, draws, { st with
        verified := verified
        resp := some resp
        verdicts := st.verdicts ++ [verified] })

def processStats : Handler (Stats γ) := fun _ _ draws st =>
  .ok (.success, draws, { st with
    report := simpleProcessStats st.report st.verified
    processed := st.processed ++ [st.verified] })

/-- `simple_report_stats` prints the three numbers, and `simple_destroy_report` does nothing. -/
def keepStats : Handler (Stats γ) := fun _ _ draws st => .ok (.success, draws, st)

/-- The handlers of a run with the simple report. -/
def statsEvents (o : InnerEvents γ) (v : Verifier) : OtherEvents (Stats γ) where
  profileInit := ofInner o.profileInit
  reportInit := reportInit
  socketInit := ofInner o.socketInit
  beginConn := ofInner o.beginConn
  createReq := ofInner o.createReq
  sendReq := ofInner o.sendReq
  recvResp := ofInner o.recvResp
  postprocess := fun rp req draws st =>
    match o.postprocess rp req draws st.resp st.inner with
    | .error a => .error a
    | .ok (stat, vars, draws, resp, inner) =>
      .ok (stat, vars, draws, { st with resp := resp, inner := inner })
  verifyResp := verifyResp v
  endConn := ofInner o.endConn
  processStats := processStats
  requestDestroy := ofInner o.requestDestroy
  responseDestroy := ofInner o.responseDestroy
  socketDestroy := ofInner o.socketDestroy
  reportStats := keepStats
  destroyReport := keepStats
  profileDestroy := ofInner o.profileDestroy

/-! ### The report as a function of the values processed -/

/-- A verdict is one of the two values that the report classifies. -/
def IsVerdict (v : ℤ) : Prop := v = FLOOD_VALID ∨ v = FLOOD_INVALID

/-- The report of the values processed so far. -/
def tally (vs : List ℤ) : SimpleReport :=
  ⟨wrapInt 32 vs.length, wrapInt 32 (vs.count FLOOD_VALID), wrapInt 32 (vs.count FLOOD_INVALID)⟩

theorem increment_wrapInt (n : ℕ) : increment (wrapInt 32 n) = wrapInt 32 (n + 1 : ℕ) := by
  simp only [increment, wrapInt, Int.bmod_add_bmod, Int.natCast_add, Int.cast_ofNat_Int]

/-- **One call of `simple_process_stats`** adds one value to the report of those before it. -/
theorem simpleProcessStats_tally (vs : List ℤ) {v : ℤ} (hv : IsVerdict v) :
    simpleProcessStats (tally vs) v = tally (vs ++ [v]) := by
  have hne : FLOOD_INVALID ≠ FLOOD_VALID := by decide
  rcases hv with rfl | rfl
  · simp [simpleProcessStats, tally, increment_wrapInt, hne.symm]
  · simp [simpleProcessStats, tally, increment_wrapInt, hne]

/-- Every value is counted on one side or the other. -/
theorem count_add_count {vs : List ℤ} (h : ∀ v ∈ vs, IsVerdict v) :
    vs.count FLOOD_VALID + vs.count FLOOD_INVALID = vs.length := by
  have hne : FLOOD_INVALID ≠ FLOOD_VALID := by decide
  induction vs with
  | nil => rfl
  | cons v vs ih =>
    have htail := ih fun u hu => h u (List.mem_cons_of_mem _ hu)
    rcases h v List.mem_cons_self with rfl | rfl
    · simp [hne.symm]
      omega
    · simp [hne]
      omega

/-- `verify_200` yields one of the two verdicts. -/
theorem verify200_isVerdict (resp : Response) : IsVerdict (verify200 resp) := by
  unfold verify200
  split
  · exact .inl rfl
  · split
    · exact .inl rfl
    · split
      · exact .inl rfl
      · exact .inr rfl

/-- `verify_status_code` yields one of the two verdicts. -/
theorem verifyStatusCode_isVerdict {behind : Bytes} {resp resp' : Response} {verified : ℤ}
    (h : verifyStatusCode behind resp = .ok (verified, resp')) : IsVerdict verified := by
  simp only [verifyStatusCode] at h
  split at h
  · cases h
  · split at h
    · cases h
    · cases h
      split
      · exact .inl rfl
      · exact .inr rfl

theorem run_isVerdict {v : Verifier} {resp resp' : Response} {verified : ℤ}
    (h : v.run resp = .ok (verified, resp')) : IsVerdict verified := by
  cases v with
  | verify200 =>
    cases h
    exact verify200_isVerdict resp
  | verifyStatusCode behind => exact verifyStatusCode_isVerdict h

/-! ### The requests of a trace -/

/-- The number of requests among the entries of a trace. -/
def requestsOf (entries : List (Bool × ℤ)) : ℕ := entries.countP fun e => e.1 = false

/-- The number of requests made so far, which is the number of transactions begun. -/
def requests (s : RobinRun (Stats γ)) : ℕ := requestsOf (s.trace.map Trace.entry)

theorem requestsOf_entriesBefore (n i : ℕ) : requestsOf (entriesBefore n i) = i := by
  induction i with
  | zero => rfl
  | succ i ih =>
    rw [entriesBefore_succ, requestsOf, List.countP_append]
    simpa [requestsOf] using ih

theorem requestsOf_expectedEntries (n : ℕ) {count : ℕ} (h : 0 < count) :
    requestsOf (expectedEntries n count) = count := by
  obtain ⟨k, rfl⟩ : ∃ k, count = k + 1 := ⟨count - 1, by omega⟩
  rw [expectedEntries_succ, requestsOf, List.countP_append]
  have hbefore := requestsOf_entriesBefore n k
  simpa [requestsOf] using hbefore

/-! ### The outline of a transaction -/

/-- `asked` requests have no value processed for them yet, and the last of them is verified when
`judged` says so. -/
structure Counted (asked : ℕ) (judged : Bool) (s : RobinRun (Stats γ)) : Prop where
  requests : requests s = s.rest.processed.length + asked
  verdicts : s.rest.verdicts = s.rest.processed ++ if judged then [s.rest.verified] else []
  values : ∀ v ∈ s.rest.verdicts, IsVerdict v
  report : s.rest.report = tally s.rest.processed

/-- What an event leaves alone that has neither the trace nor the report. -/
theorem counted_congr {asked : ℕ} {judged : Bool} {s s' : RobinRun (Stats γ)}
    (hs : Counted asked judged s) (htrace : requests s' = requests s)
    (hverified : s'.rest.verified = s.rest.verified)
    (hverdicts : s'.rest.verdicts = s.rest.verdicts)
    (hprocessed : s'.rest.processed = s.rest.processed)
    (hreport : s'.rest.report = s.rest.report) : Counted asked judged s' where
  requests := by rw [htrace, hprocessed, hs.requests]
  verdicts := by rw [hverdicts, hprocessed, hverified, hs.verdicts]
  values := by rw [hverdicts]; exact hs.values
  report := by rw [hreport, hprocessed, hs.report]

theorem ofInner_counted (h : InnerHandler γ) (asked : ℕ) (judged : Bool) :
    Ensures (Counted asked judged) (ofHandler (ofInner h)) (Counted asked judged)
      fun _ => True := by
  intro s stat s' hs he
  obtain ⟨draws, inner, -, rfl⟩ := ofHandler_ofPart he
  split
  · exact counted_congr hs rfl rfl rfl rfl rfl
  · trivial

theorem postprocess_counted (o : InnerEvents γ) (v : Verifier) (asked : ℕ) (judged : Bool) :
    Ensures (Counted asked judged) (postprocess (statsEvents o v)) (Counted asked judged)
      fun _ => True := by
  intro s stat s' hs he
  simp only [postprocess, statsEvents] at he
  cases hrun : o.postprocess s.rp s.req s.draws s.rest.resp s.rest.inner with
  | error a => rw [hrun] at he; cases he
  | ok p =>
    rw [hrun] at he
    cases he
    split
    · exact counted_congr hs rfl rfl rfl rfl rfl
    · trivial

/-- `get_next_url` begins a transaction. -/
theorem getNextUrl_counted (env : Env) :
    Ensures (Counted 0 false) (getNextUrl env : Event (RobinRun (Stats γ))) (Counted 1 false)
      fun _ => True := by
  intro s stat s' hs he
  simp only [getNextUrl] at he
  split at he
  · cases he
  · cases he
    refine ⟨?_, hs.verdicts, hs.values, hs.report⟩
    have hasked := hs.requests
    simp only [requests, requestsOf, List.map_append, List.countP_append] at hasked ⊢
    rw [hasked]
    rfl

/-- The verifier adds a verdict. -/
theorem verifyResp_counted (v : Verifier) :
    Ensures (Counted 1 false) (ofHandler (verifyResp v : Handler (Stats γ))) (Counted 1 true)
      fun _ => True := by
  intro s stat s' hs he
  simp only [ofHandler, verifyResp] at he
  cases hresp : s.rest.resp with
  | none => rw [hresp] at he; cases he
  | some resp =>
    simp only [hresp] at he
    cases hrun : v.run resp with
    | error a => rw [hrun] at he; cases he
    | ok p =>
      rw [hrun] at he
      cases he
      refine ⟨hs.requests, by simp [hs.verdicts], fun u hu => ?_, hs.report⟩
      rcases List.mem_append.mp hu with hu | hu
      · exact hs.values u hu
      · rw [List.mem_singleton.mp hu]
        exact run_isVerdict hrun

/-- `process_stats` adds the verdict of its transaction to the report. -/
theorem processStats_counted :
    Ensures (Counted 1 true) (ofHandler (processStats : Handler (Stats γ))) (Counted 0 false)
      fun _ => True := by
  intro s stat s' hs he
  cases he
  have hverdict : IsVerdict s.rest.verified := hs.values _ (by simp [hs.verdicts])
  refine ⟨?_, by simp [hs.verdicts], hs.values, ?_⟩
  · simpa [requests] using hs.requests
  · show simpleProcessStats s.rest.report s.rest.verified = _
    rw [hs.report, simpleProcessStats_tally _ hverdict]

/-- **A transaction** verifies one response and reports its verdict once. -/
theorem transaction_counted (env : Env) (o : InnerEvents γ) (v : Verifier) :
    Ensures (Counted 0 false) (runEvents (robinEvents env (statsEvents o v)).transaction)
      (Counted 0 false) fun _ => True := by
  refine ensures_cons (getNextUrl_counted env) ?_
  refine ensures_cons (ofInner_counted o.beginConn 1 false) ?_
  refine ensures_cons (ofInner_counted o.createReq 1 false) ?_
  refine ensures_cons (ofInner_counted o.sendReq 1 false) ?_
  refine ensures_cons (ofInner_counted o.recvResp 1 false) ?_
  refine ensures_cons (postprocess_counted o v 1 false) ?_
  refine ensures_cons (verifyResp_counted v) ?_
  refine ensures_cons (ofInner_counted o.endConn 1 true) ?_
  refine ensures_cons processStats_counted ?_
  refine ensures_cons (ofInner_counted o.requestDestroy 0 false) ?_
  refine ensures_cons (ofInner_counted o.responseDestroy 0 false) ?_
  exact ensures_cons (ofInner_counted o.socketDestroy 0 false) ensures_nil

/-- A delay is no request. -/
theorem loopCondition_counted (env : Env) {s s' : RobinRun (Stats γ)} {again : Bool}
    (hs : Counted 0 false s) (h : loopCondition env s = .ok (again, s')) : Counted 0 false s' := by
  simp only [loopCondition] at h
  split at h
  · cases h
  · next slept _ =>
    cases h
    refine counted_congr hs ?_ rfl rfl rfl rfl
    cases slept with
    | none => simp [requests]
    | some d => simp [requests, requestsOf, Trace.entry]

/-! ### The totals of a run -/

/-- The profile that `round_robin_profile_init` leaves for `n` slots and `r` rounds, with nothing
recorded yet. -/
structure Fresh (n : ℕ) (r : ℤ) (s : RobinRun (Stats γ)) : Prop where
  urls : s.rp.urls = n
  rounds : s.rp.executeRounds = r
  round : s.rp.currentRound = 0
  slot : s.rp.currentUrl = 0
  trace : s.trace = []
  verdicts : s.rest.verdicts = []
  processed : s.rest.processed = []

/-- In the run from `s₀` no event before `report_stats` fails, and `report_stats` is called in the
state `s`. -/
def ReportCalled (env : Env) (o : InnerEvents γ) (v : Verifier) (s₀ s : RobinRun (Stats γ)) :
    Prop :=
  let ev := robinEvents env (statsEvents o v)
  ∃ s₁, runEvents ev.setup s₀ = .ok (.success, s₁) ∧
    Halts (runProfileLoop ev s₁) (.ok (.success, s))

/-- The totals that a run of `n` slots and `r` rounds should leave in the report. -/
structure Totals (n : ℕ) (r : ℤ) (s : RobinRun (Stats γ)) : Prop where
  once : s.rest.processed.length = requests s ∧ s.rest.processed = s.rest.verdicts
  hits : s.rest.report.hitCount = n * r
  successes : s.rest.report.successes = s.rest.verdicts.count FLOOD_VALID
  sum : s.rest.report.successes + s.rest.report.failures = s.rest.report.hitCount

/-- The events before the loop leave a fresh profile and an empty report. -/
theorem setup_fresh {env : Env} {o : InnerEvents γ} {v : Verifier} {n : ℕ} {r : ℤ}
    {s₀ s₁ : RobinRun (Stats γ)} (hs₀ : Fresh n r s₀)
    (h : runEvents (robinEvents env (statsEvents o v)).setup s₀ = .ok (.success, s₁)) :
    Fresh n r s₁ ∧ s₁.rest.report = simpleReportInit := by
  have hinner : ∀ (i : InnerHandler γ) (s s' : RobinRun (Stats γ)), Fresh n r s →
      ofHandler (ofInner i) s = .ok (.success, s') →
      Fresh n r s' ∧ s'.rest.report = s.rest.report := by
    intro i s s' hs he
    obtain ⟨draws, inner, -, rfl⟩ := ofHandler_ofPart he
    exact ⟨⟨hs.urls, hs.rounds, hs.round, hs.slot, hs.trace, hs.verdicts, hs.processed⟩, rfl⟩
  obtain ⟨s₂, hprofile, h⟩ := runEvents_cons_success h
  obtain ⟨s₃, hreport, h⟩ := runEvents_cons_success h
  obtain ⟨s₄, hsocket, h⟩ := runEvents_cons_success h
  cases h
  have hs₂ := (hinner o.profileInit s₀ s₂ hs₀ hprofile).1
  have hs₃ : Fresh n r s₃ ∧ s₃.rest.report = simpleReportInit := by
    cases hreport
    exact ⟨⟨hs₂.urls, hs₂.rounds, hs₂.round, hs₂.slot, hs₂.trace, hs₂.verdicts, hs₂.processed⟩,
      rfl⟩
  obtain ⟨hs₁, hkept⟩ := hinner o.socketInit s₃ s₁ hs₃.1 hsocket
  exact ⟨hs₁, hkept.trans hs₃.2⟩

/-- The run comes to `report_stats` with all its transactions counted. -/
theorem reportCalled_counted {env : Env} {o : InnerEvents γ} {v : Verifier} {n : ℕ} {r : ℤ}
    (hn : 0 < n) (hr : 1 ≤ r) {s₀ s : RobinRun (Stats γ)} (hs₀ : Fresh n r s₀)
    (h : ReportCalled env o v s₀ s) : Counted 0 false s ∧ requests s = n * r.toNat := by
  obtain ⟨s₁, hsetup, hhalts⟩ := h
  obtain ⟨hs₁, hreport⟩ := setup_fresh hs₀ hsetup
  have hstart : Counted 0 false s₁ :=
    ⟨by simp [requests, requestsOf, hs₁.trace, hs₁.processed], by simp [hs₁.verdicts, hs₁.processed],
      by simp [hs₁.verdicts], by rw [hreport, hs₁.processed]; rfl⟩
  constructor
  · obtain ⟨fuel, hfuel⟩ := hhalts
    have hrule := (runProfileLoop_ensures (transaction_counted env o v)
      (fun _ _ _ => loopCondition_counted env) hstart).2
    simpa using hrule fuel .success s (hfuel fuel le_rfl)
  · have hbefore : Before env s₁ n 0 s₁ :=
      before_start hn hs₁.urls hs₁.round hs₁.slot hs₁.trace
    obtain ⟨out, hout, hcomplete⟩ := loop_halts (o := statsEvents o v) hn hbefore
    have hentries := (hcomplete s (hout.unique hhalts)).entries
    have hcount : requestCount n r = n * r.toNat := if_neg (by omega)
    rw [hs₁.rounds, hcount] at hentries
    rw [requests, hentries, requestsOf_expectedEntries n (Nat.mul_pos hn (by omega))]

/-- The hits are the transactions, in the arithmetic of an `int`. -/
theorem reportCalled_hits {env : Env} {o : InnerEvents γ} {v : Verifier} {n : ℕ} {r : ℤ}
    (hn : 0 < n) (hr : 1 ≤ r) {s₀ s : RobinRun (Stats γ)} (hs₀ : Fresh n r s₀)
    (h : ReportCalled env o v s₀ s) : (s.rest.processed.length : ℤ) = n * r ∧
      s.rest.report.hitCount = wrapInt 32 (n * r) := by
  obtain ⟨hs, hrequests⟩ := reportCalled_counted hn hr hs₀ h
  have hlength : s.rest.processed.length = n * r.toNat := by rw [← hrequests, hs.requests]; rfl
  have hcast : (s.rest.processed.length : ℤ) = n * r := by
    rw [hlength, Int.natCast_mul, Int.toNat_of_nonneg (by omega)]
  exact ⟨hcast, by rw [hs.report, tally, hcast]⟩

/-- **The totals of the simple report are exact** at `report_stats` if and only if the number of
transactions is one that an `int` can count. -/
theorem report_totals_iff {env : Env} {o : InnerEvents γ} {v : Verifier} {n : ℕ} {r : ℤ}
    (hn : 0 < n) (hr : 1 ≤ r) {s₀ s : RobinRun (Stats γ)} (hs₀ : Fresh n r s₀)
    (h : ReportCalled env o v s₀ s) : Totals n r s ↔ n * r < 2 ^ 31 := by
  obtain ⟨hs, -⟩ := reportCalled_counted hn hr hs₀ h
  obtain ⟨hlength, hhits⟩ := reportCalled_hits hn hr hs₀ h
  have hverdicts : s.rest.verdicts = s.rest.processed := by simpa using hs.verdicts
  constructor
  · intro ht
    rw [← ht.hits, hhits]
    exact wrapInt_lt 31 _
  · intro hfits
    have hsplit := count_add_count (hverdicts ▸ hs.values)
    have hle : ∀ k : ℕ, k ≤ s.rest.processed.length → wrapInt 32 k = k := by
      intro k hk
      refine wrapInt_of_lt (w := 31) (Int.natCast_nonneg k) (lt_of_le_of_lt ?_ hfits)
      rw [← hlength]
      exact Int.ofNat_le.mpr hk
    have hreport : s.rest.report = ⟨s.rest.processed.length, s.rest.processed.count FLOOD_VALID,
        s.rest.processed.count FLOOD_INVALID⟩ := by
      rw [hs.report, tally, hle _ le_rfl, hle _ List.count_le_length, hle _ List.count_le_length]
    refine ⟨⟨hs.requests.symm, hverdicts.symm⟩, ?_, ?_, ?_⟩
    · rw [hreport, ← hlength]
    · rw [hreport, hverdicts]
    · rw [hreport, ← hsplit]
      exact (Int.natCast_add _ _).symm

/-! ### Runs over two slots -/

/-- Events that succeed; every response is the same. -/
def okEvents : InnerEvents Unit :=
  let quiet : InnerHandler Unit := fun _ _ draws s => .ok (.success, draws, s)
  { profileInit := quiet, socketInit := quiet, beginConn := quiet, createReq := quiet
    sendReq := quiet
    recvResp := fun _ _ draws s =>
      .ok (.success, draws, some ⟨false, false, none, bytes "HTTP/1.1 200", 12, []⟩, s.2)
    postprocess := fun rp _ draws resp inner =>
      .ok (.success, (rp.cookie, rp.state), draws, resp, inner)
    endConn := quiet, requestDestroy := quiet, responseDestroy := quiet, socketDestroy := quiet
    profileDestroy := quiet }

/-- Before `r` rounds over two slots `http://a/`. -/
def twoUrls (r : ℤ) : RobinRun (Stats Unit) where
  rp :=
    { executeRounds := r, urls := 2
      url := [{ url := some (bytes "http://a/") }, { url := some (bytes "http://a/") }]
      baseurl := none, proxyUrl := none, cookie := [], state := fun _ => none, substList := none
      currentRound := 0, currentUrl := 0 }
  draws := fun _ => 0
  rest :=
    { report := simpleReportInit, verified := 0, resp := none, inner := (), verdicts := []
      processed := [] }
  req := none
  trace := []

theorem twoUrls_fresh (r : ℤ) : Fresh 2 r (twoUrls r) := ⟨rfl, rfl, rfl, rfl, rfl, rfl, rfl⟩

/-- Only the counters of the profile have changed. -/
def Running (r : ℤ) (s : RobinRun (Stats Unit)) : Prop :=
  ∃ round slot, (slot = 0 ∨ slot = 1) ∧
    s.rp = { (twoUrls r).rp with currentRound := round, currentUrl := slot }

/-- A transaction of this run succeeds. -/
theorem running_transaction {r : ℤ} {s : RobinRun (Stats Unit)} (hs : Running r s) :
    ∃ s₁, runEvents (robinEvents oneHost (statsEvents okEvents .verify200)).transaction s =
      .ok (.success, s₁) ∧ s₁.rp = s.rp := by
  obtain ⟨round, slot, hslot, hrp⟩ := hs
  obtain ⟨rp, draws, rest, req, trace⟩ := s
  subst hrp
  rcases hslot with rfl | rfl
  · exact ⟨_, rfl, rfl⟩
  · exact ⟨_, rfl, rfl⟩

/-- The loop condition of this run succeeds. -/
theorem running_loopCondition {r : ℤ} {s : RobinRun (Stats Unit)} (hs : Running r s) :
    ∃ again s', loopCondition oneHost s = .ok (again, s') ∧ Running r s' := by
  obtain ⟨round, slot, hslot, hrp⟩ := hs
  have hadvance : Running r { s with rp := advance s.rp } := by
    rcases hslot with rfl | rfl
    · exact ⟨round, 1, .inr rfl, by rw [hrp]; rfl⟩
    · exact ⟨round + 1, 0, .inl rfl, by rw [hrp]; rfl⟩
  obtain ⟨round', slot', hslot', hrp'⟩ := hadvance
  have hurl : ∃ u, urlSlot s.rp.url s.rp.currentUrl = some u := by
    rw [hrp]
    rcases hslot with rfl | rfl
    · exact ⟨_, rfl⟩
    · exact ⟨_, rfl⟩
  obtain ⟨u, hu⟩ := hurl
  simp only [loopCondition, roundRobinLoopCondition, advance_url, hu]
  by_cases hdone : (advance s.rp).currentRound ≥ (advance s.rp).executeRounds
  · rw [if_pos hdone]
    exact ⟨false, _, rfl, round', slot', hslot', hrp'⟩
  · rw [if_neg hdone]
    exact ⟨true, _, rfl, round', slot', hslot', hrp'⟩

/-- Every such run comes to `report_stats`. -/
theorem twoUrls_reportCalled (r : ℤ) :
    ∃ s, ReportCalled oneHost okEvents .verify200 (twoUrls r) s := by
  let ev := robinEvents oneHost (statsEvents okEvents .verify200)
  have hround : ∀ s, Running r s → (∃ s', runProfileRound ev s = .inl (.ok (.success, s'))) ∨
      ∃ s', runProfileRound ev s = .inr s' ∧ Running r s' := by
    intro s hs
    obtain ⟨s₁, htrans, hrp⟩ := running_transaction hs
    have hs₁ : Running r s₁ := by rwa [Running, hrp]
    obtain ⟨again, s', hloop, hs'⟩ := running_loopCondition hs₁
    have hloop' : ev.loopCondition s₁ = .ok (again, s') := hloop
    cases again with
    | false => exact .inl ⟨s', by simp [runProfileRound, ev, htrans, hloop']⟩
    | true => exact .inr ⟨s', by simp [runProfileRound, ev, htrans, hloop'], hs'⟩
  have hbefore : Before oneHost (twoUrls r) 2 0 (twoUrls r) :=
    before_start Nat.two_pos rfl rfl rfl rfl
  obtain ⟨out, hout, -⟩ := loop_halts (o := statsEvents okEvents .verify200) Nat.two_pos hbefore
  obtain ⟨fuel, hfuel⟩ := hout
  obtain ⟨s, rfl⟩ : ∃ s, out = .ok (.success, s) := by
    refine runLoop_invariant (Running r) (fun out => ∃ s, out = .ok (.success, s)) ?_ ?_
      ⟨0, 0, .inl rfl, rfl⟩ (hfuel fuel le_rfl)
    · intro s s' hs hstep
      rcases hround s hs with ⟨s₁, hr⟩ | ⟨s₁, hr, hs₁⟩
      · rw [hr] at hstep; cases hstep
      · rw [hr, Sum.inr.injEq] at hstep
        exact hstep ▸ hs₁
    · intro s out hs hleave
      rcases hround s hs with ⟨s₁, hr⟩ | ⟨s₁, hr, -⟩
      · rw [hr, Sum.inl.injEq] at hleave
        exact ⟨s₁, hleave.symm⟩
      · rw [hr] at hleave; cases hleave
  exact ⟨s, twoUrls r, rfl, fuel, hfuel⟩

theorem report_totals_oneRound :
    ∃ s, ReportCalled oneHost okEvents .verify200 (twoUrls 1) s ∧ Totals 2 1 s := by
  obtain ⟨s, hs⟩ := twoUrls_reportCalled 1
  exact ⟨s, hs, (report_totals_iff Nat.two_pos le_rfl (twoUrls_fresh 1) hs).mpr (by decide)⟩

/-- With `2 ^ 30` rounds over the two slots the counter of the hits overflows. -/
theorem twoUrls_overflows : ¬ ∀ (env : Env) (o : InnerEvents Unit) (v : Verifier) (n : ℕ) (r : ℤ)
    (s₀ s : RobinRun (Stats Unit)), 0 < n → 1 ≤ r → Fresh n r s₀ → ReportCalled env o v s₀ s →
      Totals n r s := by
  intro h
  obtain ⟨s, hs⟩ := twoUrls_reportCalled (2 ^ 30)
  have hr : (1 : ℤ) ≤ 2 ^ 30 := by decide
  have htotals := h _ _ _ 2 (2 ^ 30) _ s Nat.two_pos hr (twoUrls_fresh _) hs
  have hhits := (reportCalled_hits Nat.two_pos hr (twoUrls_fresh _) hs).2
  have hlt := wrapInt_lt 31 ((2 : ℕ) * 2 ^ 30)
  rw [← hhits, htotals.hits] at hlt
  exact absurd hlt (by decide)

end Flood.SimpleReports
