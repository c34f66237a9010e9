import Flood.RoundRobin
import Mathlib.Data.List.Basic

/-!
# Runs of the round-robin profile

The main loop with the round-robin handlers for `get_next_url` and `loop_condition` and any
handlers for the other events.  The other handlers may read the profile; of its fields only
`postprocess` writes any, the cookies and the bindings.  The run records, beside its state, every
request with the slot that was current, and every delay that the loop condition applies.

* `robinLoop_trace` — with `n` slots and `r` rounds, a run in which no event fails makes `n * r`
  requests (one, when `r ≤ 0`), round the slots in order, each from the url of its slot, and after
  every request but the last sleeps the postdelay of the slot just requested.
-/

namespace Flood.RoundRobinRun

open Flood.CString Flood.Loop Flood.Net Flood.Subst Flood.Template Flood.Profile Flood.RoundRobin

/-- What the run records: a request that was made while a slot was current, or a delay of a slot
with the time slept. -/
inductive Trace where
  | request (slot : ℤ) (req : Request)
  | postdelay (slot : ℤ) (slept : ℤ)
  deriving DecidableEq

/-- The state of a run; `rest` is whatever the other handlers work on. -/
structure RobinRun (β : Type) where
  rp : RoundRobinProfile
  draws : Draws
  rest : β
  req : Option Request
  trace : List Trace

/-- A handler for another event, which sees the profile and the current request. -/
abbrev Handler (β : Type) :=
  RoundRobinProfile → Option Request → Draws → β → Except Abort (Status × Draws × β)

/-- The handlers of the events other than `get_next_url` and `loop_condition`. -/
structure OtherEvents (β : Type) where
  beginConn : Handler β
  createReq : Handler β
  sendReq : Handler β
  recvResp : Handler β
  postprocess : RoundRobinProfile → Option Request → Draws → β →
    Except Abort (Status × (List Cookie × Vars) × Draws × β)
  verifyResp : Handler β
  endConn : Handler β
  processStats : Handler β
  requestDestroy : Handler β
  responseDestroy : Handler β
  socketDestroy : Handler β
  profileInit : Handler β
  reportInit : Handler β
  socketInit : Handler β
  reportStats : Handler β
  destroyReport : Handler β
  profileDestroy : Handler β

variable {β : Type}

def ofHandler (h : Handler β) : Event (RobinRun β) := fun s =>
  match h s.rp s.req s.draws s.rest with
  | .error a => .error a
  | .ok (stat, draws, rest) => .ok (stat, { s with draws := draws, rest := rest })

/-- A handler that works on a part of what the handlers of a run work on. -/
def ofPart {γ : Type} (part : γ → β) (put : β → γ → γ) (h : Handler β) : Handler γ :=
  fun rp req draws st =>
    match h rp req draws (part st) with
    | .error a => .error a
    | .ok (stat, draws, inner) => .ok (stat, draws, put inner st)

section Part

variable {γ : Type} {part : γ → β} {put : β → γ → γ} {h : Handler β} {stat : Status}

theorem ofPart_ok {rp : RoundRobinProfile} {req : Option Request} {draws draws' : Draws} {st st' : γ}
    (he : ofPart part put h rp req draws st = .ok (stat, draws', st')) :
    ∃ inner, h rp req draws (part st) = .ok (stat, draws', inner) ∧ st' = put inner st := by
  unfold ofPart at he
  split at he
  · cases he
  · next hrun =>
    cases he
    exact ⟨_, hrun, rfl⟩

/-- It changes that part and the draws, and nothing else. -/
theorem ofHandler_ofPart {s s' : RobinRun γ}
    (he : ofHandler (ofPart part put h) s = .ok (stat, s')) :
    ∃ draws inner, h s.rp s.req s.draws (part s.rest) = .ok (stat, draws, inner) ∧
      s' = { s with draws := draws, rest := put inner s.rest } := by
  unfold ofHandler at he
  split at he
  · cases he
  · next hrun =>
    cases he
    obtain ⟨inner, hinner, rfl⟩ := ofPart_ok hrun
    exact ⟨_, inner, hinner, rfl⟩

end Part

def getNextUrl (env : Env) : Event (RobinRun β) := fun s =>
  match roundRobinGetNextUrl env s.rp s.draws with
  | .error a => .error a
  | .ok (req, rp, draws) =>
    .ok (.success, { s with
      rp := rp
      draws := draws
      req := some req
      trace := s.trace ++ [.request s.rp.currentUrl req] })

def postprocess (o : OtherEvents β) : Event (RobinRun β) := fun s =>
  match o.postprocess s.rp s.req s.draws s.rest with
  | .error a => .error a
  | .ok (stat, (cookie, state), draws, rest) =>
    .ok (stat, { s with
      rp := { s.rp with cookie := cookie, state := state }
      draws := draws
      rest := rest })

def loopCondition (env : Env) (s : RobinRun β) : Except Abort (Bool × RobinRun β) :=
  match roundRobinLoopCondition env s.rp s.draws with
  | .error a => .error a
  | .ok (again, rp, draws, slept) =>
    .ok (again, { s with
      rp := rp
      draws := draws
      trace := s.trace ++ (slept.map fun (slot, t) => .postdelay slot t).toList })

/-- The handlers of a round-robin run. -/
def robinEvents (env : Env) (o : OtherEvents β) : ProfileEvents (RobinRun β) where
  profileInit := ofHandler o.profileInit
  reportInit := ofHandler o.reportInit
  socketInit := ofHandler o.socketInit
  getNextUrl := getNextUrl env
  beginConn := ofHandler o.beginConn
  createReq := ofHandler o.createReq
  sendReq := ofHandler o.sendReq
  recvResp := ofHandler o.recvResp
  postprocess := postprocess o
  verifyResp := ofHandler o.verifyResp
  endConn := ofHandler o.endConn
  processStats := ofHandler o.processStats
  requestDestroy := ofHandler o.requestDestroy
  responseDestroy := ofHandler o.responseDestroy
  socketDestroy := ofHandler o.socketDestroy
  loopCondition := loopCondition env
  reportStats := ofHandler o.reportStats
  destroyReport := ofHandler o.destroyReport
  profileDestroy := ofHandler o.profileDestroy

/-! ### The expected trace -/

/-- The number of requests: one even when there is no round to execute. -/
def requestCount (n : ℕ) (r : ℤ) : ℕ := if r ≤ 0 then 1 else n * r.toNat

/-- The kind and the slot of an entry, without the request and the time slept. -/
def Trace.entry : Trace → Bool × ℤ
  | .request slot _ => (false, slot)
  | .postdelay slot _ => (true, slot)

/-- The run the configuration asks for: the `i`-th request from slot `i % n`, each but the last
followed by the delay of its own slot. -/
def expectedEntries (n count : ℕ) : List (Bool × ℤ) :=
  (List.range count).flatMap fun i =>
    (false, ((i % n : ℕ) : ℤ)) :: if i + 1 < count then [(true, ((i % n : ℕ) : ℤ))] else []

/-- `text` is a template expanded under some bindings and draws, or `plain` where there is none. -/
def Expanded (substList : Option (List SubstRec)) (template plain text : Option Bytes) : Prop :=
  match template with
  | none => text = plain
  | some t => ∃ s state draws state' draws',
      parseParamString substList (cstr t) state draws = .ok (s, state', draws') ∧ text = some (cstr s)

/-- The string that a payload points to. -/
def payloadText (env : Env) : Payload → Bytes
  | .text s => cstr s
  | .file content => cstr (content ++ env.behind)

/-- `r` asks for the url `u`: with its method, its text or request template behind the base url, and
its payload and content type. -/
structure RequestFor (env : Env) (rp : RoundRobinProfile) (u : Url) (r : Request) : Prop where
  method : r.method = u.method
  uri : ∃ text, Expanded rp.substList u.requesttemplate u.url text ∧
    r.uri = rp.baseurl.getD [] ++ text.getD []
  payload : ∀ p, u.payload = some p → r.payload = some (payloadText env p)
  payloadtemplate : u.payload = none → Expanded rp.substList u.payloadtemplate none r.payload
  contenttype : Expanded rp.substList u.contenttype none r.contenttype

/-- The time slept for the postdelay of `u`: exactly the delay if it has no precision, else the
random delay of some draw, and nothing for a delay of 0 or a negative time. -/
structure SleptFor (env : Env) (u : Url) (slept : ℤ) : Prop where
  nodelay : u.postdelay = 0 → slept = 0
  fixed : u.postdelayprecision = 0 → slept = max u.postdelay 0
  random : u.postdelay ≠ 0 → u.postdelayprecision ≠ 0 →
    ∃ draw, slept = max (env.jitter u.postdelay u.postdelayprecision draw) 0

/-- An entry belongs to the url of its own slot. -/
def OfSlot (env : Env) (rp : RoundRobinProfile) : Trace → Prop
  | .request slot r => ∃ u, urlSlot rp.url slot = some u ∧ RequestFor env rp u r
  | .postdelay slot slept => ∃ u, urlSlot rp.url slot = some u ∧ SleptFor env u slept

/-- The first `i` requests, each with the delay of its own slot behind it. -/
def entriesBefore (n i : ℕ) : List (Bool × ℤ) :=
  (List.range i).flatMap fun j => [(false, ((j % n : ℕ) : ℤ)), (true, ((j % n : ℕ) : ℤ))]

theorem entriesBefore_succ (n i : ℕ) : entriesBefore n (i + 1) =
    entriesBefore n i ++ [(false, ((i % n : ℕ) : ℤ)), (true, ((i % n : ℕ) : ℤ))] := by
  simp only [entriesBefore, List.range_succ, List.flatMap_append, List.flatMap_cons,
    List.flatMap_nil, List.append_nil]

theorem entriesBefore_length (n i : ℕ) : (entriesBefore n i).length = 2 * i := by
  induction i with
  | zero => rfl
  | succ i ih => rw [entriesBefore_succ, List.length_append, ih]; rfl

theorem expectedEntries_succ (n k : ℕ) : expectedEntries n (k + 1) =
    entriesBefore n k ++ [(false, ((k % n : ℕ) : ℤ))] := by
  have hinner : (List.range k).flatMap (fun i => (false, ((i % n : ℕ) : ℤ)) ::
      if i + 1 < k + 1 then [(true, ((i % n : ℕ) : ℤ))] else []) = entriesBefore n k := by
    refine List.flatMap_congr fun i hi => ?_
    rw [if_pos (Nat.succ_lt_succ (List.mem_range.mp hi))]
  rw [expectedEntries, List.range_succ, List.flatMap_append, hinner]
  simp

/-! ### What an entry records -/

section Expanded

variable {env : Env} {rp : RoundRobinProfile} {u : Url} {draws d : Draws} {text : Option Bytes}
  {state : Vars}

theorem requestUri_expanded (h : requestUri rp u draws = .ok (text, state, d)) :
    Expanded rp.substList u.requesttemplate u.url text := by
  unfold requestUri at h
  split at h
  · next hnone =>
    cases h
    rw [hnone]
    rfl
  · next t ht =>
    split at h
    · cases h
    · next s state' d' hparse =>
      cases h
      rw [ht]
      exact ⟨s, _, _, _, _, hparse, rfl⟩

theorem requestContenttype_expanded (h : requestContenttype rp u draws = .ok (text, state, d)) :
    Expanded rp.substList u.contenttype none text := by
  unfold requestContenttype at h
  split at h
  · next hnone =>
    cases h
    rw [hnone]
    rfl
  · next t ht =>
    split at h
    · cases h
    · next s state' d' hparse =>
      cases h
      rw [ht]
      exact ⟨s, _, _, _, _, hparse, rfl⟩

theorem requestPayload_string (h : requestPayload env rp u draws = .ok (text, state, d))
    (p : Payload) (hp : u.payload = some p) : text = some (payloadText env p) := by
  unfold requestPayload at h
  rw [hp] at h
  cases p with
  | text s =>
    cases h
    rfl
  | file content =>
    cases h
    rfl

theorem requestPayload_expanded (h : requestPayload env rp u draws = .ok (text, state, d))
    (hp : u.payload = none) : Expanded rp.substList u.payloadtemplate none text := by
  unfold requestPayload at h
  rw [hp] at h
  cases ht : u.payloadtemplate with
  | none =>
    rw [ht] at h
    cases h
    rfl
  | some t =>
    rw [ht] at h
    dsimp only at h
    split at h
    · cases h
    · next s state' d' hparse =>
      cases h
      exact ⟨s, _, _, _, _, hparse, rfl⟩

theorem sleepFor_sleptFor (env : Env) (u : Url) (draws : Draws) :
    SleptFor env u (sleepFor env u.postdelay u.postdelayprecision draws).1 := by
  unfold sleepFor
  split
  · next hzero => exact ⟨fun _ => rfl, fun _ => by rw [hzero]; rfl, fun h => absurd hzero h⟩
  · next hdelay =>
    split
    · next hfixed => exact ⟨fun h => absurd h hdelay, fun _ => rfl, fun _ h => absurd hfixed h⟩
    · next hrandom =>
      exact ⟨fun h => absurd h hdelay, fun h => absurd h hrandom, fun _ _ => ⟨draws 0, rfl⟩⟩

/-- Nothing but the slots, the base url and the substitution files matters to an entry. -/
theorem OfSlot.congr {rp' : RoundRobinProfile} {t : Trace} (hurl : rp'.url = rp.url)
    (hbase : rp'.baseurl = rp.baseurl) (hsubst : rp'.substList = rp.substList)
    (h : OfSlot env rp t) : OfSlot env rp' t := by
  cases t with
  | request slot r =>
    obtain ⟨u, hu, hr⟩ := h
    refine ⟨u, hurl ▸ hu, hr.method, ?_, hr.payload, ?_, ?_⟩
    · rw [hsubst, hbase]
      exact hr.uri
    · rw [hsubst]
      exact hr.payloadtemplate
    · rw [hsubst]
      exact hr.contenttype
  | postdelay slot slept =>
    obtain ⟨u, hu, hslept⟩ := h
    exact ⟨u, hurl ▸ hu, hslept⟩

end Expanded

/-! ### What a transaction changes -/

/-- `s` agrees with `s₀` on everything the loop depends on: what the other handlers leave alone. -/
structure SameCore (s₀ s : RobinRun β) : Prop where
  urls : s.rp.urls = s₀.rp.urls
  url : s.rp.url = s₀.rp.url
  rounds : s.rp.executeRounds = s₀.rp.executeRounds
  round : s.rp.currentRound = s₀.rp.currentRound
  slot : s.rp.currentUrl = s₀.rp.currentUrl
  base : s.rp.baseurl = s₀.rp.baseurl
  substList : s.rp.substList = s₀.rp.substList
  trace : s.trace = s₀.trace

theorem ofHandler_core {s₀ : RobinRun β} (h : Handler β) (s : RobinRun β) (stat : Status)
    (s' : RobinRun β) (hs : SameCore s₀ s) (he : ofHandler h s = .ok (stat, s')) :
    SameCore s₀ s' := by
  simp only [ofHandler] at he
  split at he
  · cases he
  · simp only [Except.ok.injEq, Prod.mk.injEq] at he
    obtain ⟨-, rfl⟩ := he
    exact ⟨hs.urls, hs.url, hs.rounds, hs.round, hs.slot, hs.base, hs.substList, hs.trace⟩

theorem postprocess_core {s₀ : RobinRun β} (o : OtherEvents β) (s : RobinRun β) (stat : Status)
    (s' : RobinRun β) (hs : SameCore s₀ s) (he : postprocess o s = .ok (stat, s')) :
    SameCore s₀ s' := by
  simp only [postprocess] at he
  split at he
  · cases he
  · simp only [Except.ok.injEq, Prod.mk.injEq] at he
    obtain ⟨-, rfl⟩ := he
    exact ⟨hs.urls, hs.url, hs.rounds, hs.round, hs.slot, hs.base, hs.substList, hs.trace⟩

/-- **`round_robin_get_next_url`** makes a request for the url of the current slot. -/
theorem getNextUrl_requestFor {env : Env} {rp rp' : RoundRobinProfile} {draws d : Draws}
    {r : Request} (h : roundRobinGetNextUrl env rp draws = .ok (r, rp', d)) :
    ∃ u, urlSlot rp.url rp.currentUrl = some u ∧ RequestFor env rp u r := by
  obtain ⟨u, uri, state₁, draws₁, state₂, draws₂, draws₃, hu, huri, hpayload, hcontenttype, hr,
    hmethod⟩ := getNextUrl_steps h
  have htemplate := requestPayload_expanded hpayload
  have htype := requestContenttype_expanded hcontenttype
  exact ⟨u, hu, hmethod, ⟨uri, requestUri_expanded huri, hr⟩, requestPayload_string hpayload,
    htemplate, htype⟩

theorem getNextUrl_core {env : Env} {s s' : RobinRun β} {stat : Status}
    (he : getNextUrl env s = .ok (stat, s')) :
    ∃ r, OfSlot env s.rp (.request s.rp.currentUrl r) ∧
      SameCore { s with trace := s.trace ++ [.request s.rp.currentUrl r] } s' := by
  simp only [getNextUrl] at he
  split at he
  · cases he
  · next req rp draws hget =>
    simp only [Except.ok.injEq, Prod.mk.injEq] at he
    obtain ⟨-, rfl⟩ := he
    refine ⟨req, getNextUrl_requestFor hget, ?_⟩
    rw [roundRobinGetNextUrl_profile hget]
    exact ⟨rfl, rfl, rfl, rfl, rfl, rfl, rfl, rfl⟩

/-- **A transaction** records a request for the url of the current slot and changes nothing else
that the loop depends on. -/
theorem transaction_core {env : Env} {o : OtherEvents β} {s s' : RobinRun β}
    (h : runEvents (robinEvents env o).transaction s = .ok (.success, s')) :
    ∃ r, OfSlot env s.rp (.request s.rp.currentUrl r) ∧
      SameCore { s with trace := s.trace ++ [.request s.rp.currentUrl r] } s' := by
  obtain ⟨s₁, hget, hrest⟩ := runEvents_cons_success h
  obtain ⟨r, hr, hcore⟩ := getNextUrl_core hget
  refine ⟨r, hr, runEvents_preserves (P := SameCore _) ?_ hcore hrest⟩
  intro e he
  simp only [robinEvents, List.mem_cons, List.not_mem_nil, or_false] at he
  rcases he with rfl | rfl | rfl | rfl | rfl | rfl | rfl | rfl | rfl | rfl | rfl
  all_goals first | exact ofHandler_core _ | exact postprocess_core _

/-! ### The loop -/

/-- The loop's state before the request number `i`. -/
structure Before (env : Env) (s₀ : RobinRun β) (n i : ℕ) (s : RobinRun β) : Prop where
  urls : s.rp.urls = n
  url : s.rp.url = s₀.rp.url
  base : s.rp.baseurl = s₀.rp.baseurl
  substList : s.rp.substList = s₀.rp.substList
  rounds : s.rp.executeRounds = s₀.rp.executeRounds
  round : s.rp.currentRound = ((i / n : ℕ) : ℤ)
  slot : s.rp.currentUrl = ((i % n : ℕ) : ℤ)
  entries : s.trace.map Trace.entry = entriesBefore n i
  owned : ∀ t ∈ s.trace, OfSlot env s₀.rp t
  more : i < requestCount n s₀.rp.executeRounds

/-- Moving on from slot `i % n` of round `i / n` leads to slot and round of `i + 1`. -/
theorem advance_counters {rp : RoundRobinProfile} {n i : ℕ} (hn : 0 < n) (hurls : rp.urls = n)
    (hround : rp.currentRound = ((i / n : ℕ) : ℤ)) (hslot : rp.currentUrl = ((i % n : ℕ) : ℤ)) :
    (advance rp).currentRound = (((i + 1) / n : ℕ) : ℤ) ∧
      (advance rp).currentUrl = (((i + 1) % n : ℕ) : ℤ) := by
  have hlt := Nat.mod_lt i hn
  have hdiv := Nat.div_add_mod i n
  unfold advance
  split
  · next hwrap =>
    have heq : i % n + 1 = n := by omega
    have hi : i + 1 = n * (i / n + 1) := by rw [Nat.mul_add, Nat.mul_one]; omega
    rw [hi, Nat.mul_div_cancel_left _ hn, Nat.mul_mod_right]
    exact ⟨by simp [hround], rfl⟩
  · next hmore =>
    have hlt' : i % n + 1 < n := by omega
    have hi : i + 1 = i % n + 1 + n * (i / n) := by omega
    rw [hi, Nat.add_mul_div_left _ _ hn, Nat.div_eq_of_lt hlt', Nat.add_mul_mod_self_left,
      Nat.mod_eq_of_lt hlt']
    exact ⟨by simp [hround], by simp [hslot]⟩

/-- The loop condition's test, in terms of the number of requests made. -/
theorem rounds_done_iff {n i : ℕ} {r : ℤ} (hn : 0 < n) (hi : i < requestCount n r) :
    (((i + 1) / n : ℕ) : ℤ) ≥ r ↔ i + 1 = requestCount n r := by
  unfold requestCount at hi ⊢
  split
  · next hr =>
    rw [if_pos hr] at hi
    constructor
    · intro _; omega
    · intro _; exact hr.trans (Int.natCast_nonneg _)
  · next hr =>
    rw [if_neg hr] at hi
    have hcast : r = (r.toNat : ℤ) := (Int.toNat_of_nonneg (by omega)).symm
    have hle : r.toNat ≤ (i + 1) / n ↔ r.toNat * n ≤ i + 1 := Nat.le_div_iff_mul_le hn
    rw [Nat.mul_comm r.toNat n] at hle
    constructor
    · intro h
      have := hle.mp (by omega)
      omega
    · intro h
      have := hle.mpr (by omega)
      omega

/-- What a run leaves that made all its requests. -/
structure Complete (env : Env) (s₀ : RobinRun β) (n : ℕ) (s : RobinRun β) : Prop where
  entries : s.trace.map Trace.entry = expectedEntries n (requestCount n s₀.rp.executeRounds)
  owned : ∀ t ∈ s.trace, OfSlot env s₀.rp t

/-- The loop condition after the request number `i`: it ends the loop behind the last request, and
otherwise applies the delay of the slot just requested. -/
theorem loopCondition_cases {env : Env} {s : RobinRun β} {again : Bool} {s' : RobinRun β}
    (h : loopCondition env s = .ok (again, s')) :
    (again = false ∧ (advance s.rp).currentRound ≥ s.rp.executeRounds ∧ s'.rp = advance s.rp ∧
      s'.trace = s.trace) ∨
    ∃ slept, again = true ∧ ¬ (advance s.rp).currentRound ≥ s.rp.executeRounds ∧
      s'.rp = advance s.rp ∧ OfSlot env s.rp (.postdelay s.rp.currentUrl slept) ∧
      s'.trace = s.trace ++ [.postdelay s.rp.currentUrl slept] := by
  simp only [loopCondition, roundRobinLoopCondition, advance_executeRounds, advance_url] at h
  by_cases hdone : (advance s.rp).currentRound ≥ s.rp.executeRounds
  · rw [if_pos hdone] at h
    simp only [Except.ok.injEq, Prod.mk.injEq] at h
    obtain ⟨rfl, rfl⟩ := h
    exact .inl ⟨rfl, hdone, rfl, by simp⟩
  · rw [if_neg hdone] at h
    cases hslot : urlSlot s.rp.url s.rp.currentUrl with
    | none => rw [hslot] at h; cases h
    | some u =>
      rw [hslot] at h
      simp only [Except.ok.injEq, Prod.mk.injEq] at h
      obtain ⟨rfl, rfl⟩ := h
      exact .inr ⟨_, rfl, hdone, rfl, ⟨u, hslot, sleepFor_sleptFor env u s.draws⟩, rfl⟩

/-- **One round** from the request number `i` either leaves the loop, with all requests made if
every event succeeded, or goes on to the request number `i + 1`. -/
theorem round_before {env : Env} {o : OtherEvents β} {s₀ s : RobinRun β} {n i : ℕ} (hn : 0 < n)
    (h : Before env s₀ n i s) :
    (∃ out, runProfileRound (robinEvents env o) s = .inl out ∧
      ∀ s', out = .ok (.success, s') → Complete env s₀ n s') ∨
    ∃ s', runProfileRound (robinEvents env o) s = .inr s' ∧ Before env s₀ n (i + 1) s' := by
  -- the transaction leaves the counters, so the loop condition moves on from those of `s`
  have hcounters : ∀ s₁ : RobinRun β,
      (∃ r, OfSlot env s.rp (.request s.rp.currentUrl r) ∧
        SameCore { s with trace := s.trace ++ [.request s.rp.currentUrl r] } s₁) →
      s₁.rp.url = s₀.rp.url ∧ s₁.rp.baseurl = s₀.rp.baseurl ∧
        s₁.rp.substList = s₀.rp.substList ∧ s₁.rp.executeRounds = s₀.rp.executeRounds ∧
        s₁.rp.currentUrl = ((i % n : ℕ) : ℤ) ∧ s₁.rp.urls = n ∧
        (advance s₁.rp).currentRound = (((i + 1) / n : ℕ) : ℤ) ∧
        (advance s₁.rp).currentUrl = (((i + 1) % n : ℕ) : ℤ) ∧
        s₁.trace.map Trace.entry = entriesBefore n i ++ [(false, ((i % n : ℕ) : ℤ))] ∧
        ∀ t ∈ s₁.trace, OfSlot env s₀.rp t := by
    rintro s₁ ⟨r, hr, hc⟩
    have hurls : s₁.rp.urls = n := hc.urls.trans h.urls
    have hslot := hc.slot.trans h.slot
    have hadv := advance_counters hn hurls (hc.round.trans h.round) hslot
    refine ⟨hc.url.trans h.url, hc.base.trans h.base, hc.substList.trans h.substList,
      hc.rounds.trans h.rounds, hslot, hurls, hadv.1, hadv.2, ?_, ?_⟩
    · rw [hc.trace, List.map_append, h.entries, List.map_singleton, Trace.entry, h.slot]
    · intro t ht
      rw [hc.trace, List.mem_append, List.mem_singleton] at ht
      rcases ht with ht | rfl
      · exact h.owned t ht
      · exact hr.congr h.url.symm h.base.symm h.substList.symm
  rcases runProfileRound_cases (robinEvents env o) s with
    ⟨a, hr⟩ | ⟨stat, s', hstat, -, hr⟩ | ⟨s₁, s', ht, hl, hr⟩ | ⟨s₁, s', ht, hl, hr⟩
  · exact .inl ⟨_, hr, fun s' heq => by cases heq⟩
  · refine .inl ⟨_, hr, fun s'' heq => ?_⟩
    simp only [Except.ok.injEq, Prod.mk.injEq] at heq
    exact absurd heq.1 hstat
  · obtain ⟨-, -, -, hrounds, hslot, hurls, hround, -, hentries, howned⟩ :=
      hcounters s₁ (transaction_core ht)
    refine .inl ⟨_, hr, fun s'' heq => ?_⟩
    simp only [Except.ok.injEq, Prod.mk.injEq, true_and] at heq
    subst heq
    rcases loopCondition_cases hl with ⟨-, hdone, -, htrace⟩ | ⟨slept, hfalse, -⟩
    · rw [hround, hrounds, rounds_done_iff hn h.more] at hdone
      refine ⟨?_, fun t htm => howned t (htrace ▸ htm)⟩
      rw [← hdone, expectedEntries_succ, htrace, hentries]
    · cases hfalse
  · obtain ⟨hurl, hbase, hsubst, hrounds, hslot, hurls, hround, hnext, hentries, howned⟩ :=
      hcounters s₁ (transaction_core ht)
    rcases loopCondition_cases hl with ⟨hfalse, -⟩ | ⟨slept, -, hdone, hrp, hslept, htrace⟩
    · cases hfalse
    · rw [hround, hrounds, rounds_done_iff hn h.more] at hdone
      refine .inr ⟨s', hr, ?_⟩
      refine ⟨by rw [hrp, advance_urls, hurls], by rw [hrp, advance_url, hurl],
        by rw [hrp, advance_baseurl, hbase], by rw [hrp, advance_substList, hsubst],
        by rw [hrp, advance_executeRounds, hrounds], by rw [hrp, hround], by rw [hrp, hnext],
        ?_, ?_, Nat.lt_of_le_of_ne h.more hdone⟩
      · rw [htrace, List.map_append, hentries, entriesBefore_succ, List.append_assoc, hslot]
        rfl
      · intro t htm
        rw [htrace, List.mem_append, List.mem_singleton] at htm
        rcases htm with htm | rfl
        · exact howned t htm
        · exact hslept.congr hurl.symm hbase.symm hsubst.symm

/-- Each round adds two entries to the trace, which stays below twice the number of requests. -/
theorem before_length {env : Env} {s₀ s : RobinRun β} {n i : ℕ} (h : Before env s₀ n i s) :
    s.trace.length = 2 * i := by
  rw [← entriesBefore_length n i, ← h.entries, List.length_map]

/-- A loop that stands before a request ends. -/
theorem loop_halts {env : Env} {o : OtherEvents β} {s₀ s : RobinRun β} {n i : ℕ} (hn : 0 < n)
    (h : Before env s₀ n i s) :
    ∃ out, Halts (runProfileLoop (robinEvents env o) s) out ∧
      ∀ s', out = .ok (.success, s') → Complete env s₀ n s' := by
  refine halts_of_measure (fun t => ∃ j, Before env s₀ n j t) _
    (fun t => 2 * requestCount n s₀.rp.executeRounds - t.trace.length) ?_ ⟨i, h⟩
  rintro t ⟨j, hj⟩
  rcases round_before (o := o) hn hj with hout | ⟨t', ht', hb⟩
  · exact .inl hout
  · refine .inr ⟨t', ht', ⟨j + 1, hb⟩, ?_⟩
    have hlen := before_length hj
    have hlen' := before_length hb
    have hmore := hj.more
    omega

/-- A fresh run stands before its first request. -/
theorem before_start {env : Env} {s : RobinRun β} {n : ℕ} (hn : 0 < n) (hurls : s.rp.urls = n)
    (hround : s.rp.currentRound = 0) (hslot : s.rp.currentUrl = 0) (htrace : s.trace = []) :
    Before env s n 0 s := by
  refine ⟨hurls, rfl, rfl, rfl, rfl, by simpa using hround, by simpa using hslot, by simp [htrace,
    entriesBefore], by simp [htrace], ?_⟩
  unfold requestCount
  split
  · exact Nat.zero_lt_one
  · next hr => exact Nat.mul_pos hn (by omega)

/-- Every round of a fresh run starts before some request. -/
theorem before_of_steps {env : Env} {o : OtherEvents β} {s₀ s s' : RobinRun β} {n i : ℕ}
    (hn : 0 < n) (h : Before env s₀ n i s)
    (hsteps : Steps (runProfileRound (robinEvents env o)) s s') : ∃ j, Before env s₀ n j s' := by
  induction hsteps with
  | refl => exact ⟨i, h⟩
  | tail _ hstep ih =>
    obtain ⟨j, hj⟩ := ih
    rcases round_before (o := o) hn hj with ⟨out, hout, -⟩ | ⟨s₂, hs₂, hb⟩
    · rw [hout] at hstep; cases hstep
    · rw [hs₂, Sum.inr.injEq] at hstep
      exact ⟨j + 1, hstep ▸ hb⟩

/-- **Every run of a round-robin profile** with `n` slots ends.  If no event fails, it made
`n * r` requests (one, when `r ≤ 0`), the `i`-th from the url of slot `i % n`, and behind every one
but the last slept the postdelay of that very slot.  Whenever a round starts, and so at each call of
`round_robin_get_next_url`, the current slot is inside the array. -/
theorem robinLoop_trace (env : Env) (o : OtherEvents β) (s : RobinRun β) (n : ℕ) (hn : 0 < n)
    (hurls : s.rp.urls = n) (hround : s.rp.currentRound = 0) (hslot : s.rp.currentUrl = 0)
    (htrace : s.trace = []) :
    (∃ out, Halts (runProfileLoop (robinEvents env o) s) out ∧
      ∀ s', out = .ok (.success, s') →
        s'.trace.map Trace.entry = expectedEntries n (requestCount n s.rp.executeRounds) ∧
        ∀ t ∈ s'.trace, OfSlot env s.rp t) ∧
    ∀ s', Steps (runProfileRound (robinEvents env o)) s s' →
      0 ≤ s'.rp.currentUrl ∧ s'.rp.currentUrl < n := by
  have hstart : Before env s n 0 s := before_start hn hurls hround hslot htrace
  constructor
  · obtain ⟨out, hhalts, hpost⟩ := loop_halts (o := o) hn hstart
    exact ⟨out, hhalts, fun s' heq => ⟨(hpost s' heq).entries, (hpost s' heq).owned⟩⟩
  · intro s' hsteps
    obtain ⟨j, hj⟩ := before_of_steps hn hstart hsteps
    rw [hj.slot]
    exact ⟨Int.natCast_nonneg _, Int.ofNat_lt.mpr (Nat.mod_lt _ hn)⟩

/-! ### A run with two slots -/

/-- Handlers that do nothing and succeed. -/
def quietEvents : OtherEvents Unit :=
  let quiet : Handler Unit := fun _ _ draws rest => .ok (.success, draws, rest)
  { beginConn := quiet, createReq := quiet, sendReq := quiet, recvResp := quiet
    postprocess := fun rp _ draws rest => .ok (.success, (rp.cookie, rp.state), draws, rest)
    verifyResp := quiet, endConn := quiet, processStats := quiet, requestDestroy := quiet
    responseDestroy := quiet, socketDestroy := quiet, profileInit := quiet, reportInit := quiet
    socketInit := quiet, reportStats := quiet, destroyReport := quiet, profileDestroy := quiet }

/-- Every URL names the same host, and delays are not random. -/
def oneHost : Env :=
  ⟨fun _ => { scheme := some (bytes "http"), hostname := some (bytes "a"), port := 80 },
    fun _ => 80, [], fun delay _ _ => delay⟩

/-- Before one round over the slots `http://a/x`, with a postdelay of 5, and `http://a/y`. -/
def twoSlots : RobinRun Unit where
  rp :=
    { executeRounds := 1, urls := 2
      url := [{ url := some (bytes "http://a/x"), postdelay := 5 },
        { url := some (bytes "http://a/y"), postdelay := 7 }]
      baseurl := none, proxyUrl := none, cookie := [], state := fun _ => none, substList := none
      currentRound := 0, currentUrl := 0 }
  draws := fun _ => 0
  rest := ()
  req := none
  trace := []

theorem robinLoop_trace_twoSlots :
    ∃ s', Halts (runProfileLoop (robinEvents oneHost quietEvents) twoSlots) (.ok (.success, s')) ∧
      s'.trace.map Trace.entry = [(false, 0), (true, 0), (false, 1)] ∧
      (∀ slot slept, .postdelay slot slept ∈ s'.trace → slot = 0 ∧ slept = 5) ∧
      (∀ r, .request 0 r ∈ s'.trace → r.uri = bytes "http://a/x") ∧
      ∀ r, .request 1 r ∈ s'.trace → r.uri = bytes "http://a/y" := by
  obtain ⟨⟨out, hhalts, hpost⟩, -⟩ :=
    robinLoop_trace oneHost quietEvents twoSlots 2 (by decide) rfl rfl rfl rfl
  obtain ⟨s', hrun⟩ : ∃ s', Halts (runProfileLoop (robinEvents oneHost quietEvents) twoSlots)
      (.ok (.success, s')) := ⟨_, halts_of_runLoop (n := 2) rfl⟩
  obtain ⟨hentries, howned⟩ := hpost s' (hhalts.unique hrun)
  refine ⟨s', hrun, hentries, ?_, ?_, ?_⟩
  · intro slot slept hmem
    have hentry : (true, slot) ∈ s'.trace.map Trace.entry := List.mem_map_of_mem hmem
    obtain ⟨u, hu, hslept⟩ := howned _ hmem
    rw [hentries] at hentry
    have hslot : slot = 0 := by
      rcases hentry with _ | ⟨_, _ | ⟨_, _ | ⟨_, hnil⟩⟩⟩
      · rfl
      · cases hnil
    subst hslot
    cases hu
    exact ⟨rfl, hslept.fixed rfl⟩
  · intro r hmem
    obtain ⟨u, hu, hr⟩ := howned _ hmem
    cases hu
    obtain ⟨text, rfl, huri⟩ := hr.uri
    exact huri
  · intro r hmem
    obtain ⟨u, hu, hr⟩ := howned _ hmem
    cases hu
    obtain ⟨text, rfl, huri⟩ := hr.uri
    exact huri

end Flood.RoundRobinRun
