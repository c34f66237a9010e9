import Flood.ContentLength

/-!
# Responses with a Content-Length, kept whole

`keepalive_recv_resp` with `wantresponse` set hands the rest of the body to `keepalive_load_resp`,
whose argument 0 means "up to the end of the connection".  A first read that holds the whole body
leaves exactly that 0.

* `load_exact` — with bytes to go, the loading loop reads these and no more, from any segmentation.
* `loadAll_reads_on` — without a bound the loop ends only behind a read that brought nothing.
* `WholeResponse.isExact_iff` — the response is returned whole, and no read issued behind its last
  byte, exactly when the first read leaves some of the body and lengths fit the types of the code.
-/

namespace Flood.LoadedResponses

open Flood.CString Flood.Loop Flood.Net Flood.SocketKeepalive Flood.HeaderBlock Flood.ContentLength

/-- None of these reads is issued when `n` bytes have been received. -/
def NoneBehind (n : ℕ) (reads : List Read) : Prop :=
  ∀ before r behind, reads = before ++ r :: behind → (before.flatMap Read.received).length < n

theorem noneBehind_nil (n : ℕ) : NoneBehind n [] := by
  intro before r behind h
  exact absurd h.symm (by simp)

/-- A read that is issued in time, and reads that are in time behind it. -/
theorem noneBehind_cons {n : ℕ} {r : Read} {reads : List Read} (hn : 0 < n)
    (h : NoneBehind (n - r.received.length) reads) : NoneBehind n (r :: reads) := by
  intro before r' behind heq
  cases before with
  | nil => exact hn
  | cons r₀ before =>
    simp only [List.cons_append, List.cons.injEq] at heq
    obtain ⟨rfl, hreads⟩ := heq
    have hlt := h before r' behind hreads
    simp only [List.flatMap_cons, List.length_append]
    omega

/-! ### The loading loop with a bound -/

/-- A read in the bounded loop that brings what it was asked for is appended, and the loop goes on
while bytes are left. -/
theorem loadRound_body {rbuf got todo : Bytes} {b : Bytes} {c c' : Conn}
    (hfit : rbuf.length + (got ++ todo).length < 2 ^ 31)
    (hread : readSocket c (min (got ++ todo).length (MAX_DOC_LENGTH - 1)) =
      (⟨.success, got.length, got⟩, c')) :
    loadRound readSocket true
        ⟨rbuf, (rbuf.length + (got ++ todo).length : ℕ), (got ++ todo).length, b, c⟩ =
      if todo = [] then
        .inl (.ok (.success,
          ⟨rbuf ++ got, (rbuf.length + got.length : ℕ), 0, store b 0 got, c'⟩))
      else
        .inr ⟨rbuf ++ got, ((rbuf ++ got).length + todo.length : ℕ), todo.length, store b 0 got,
          c'⟩ := by
  have hrequest : (if true = false ∨ (got ++ todo).length > MAX_DOC_LENGTH - 1 then
      MAX_DOC_LENGTH - 1 else (got ++ todo).length) =
      min (got ++ todo).length (MAX_DOC_LENGTH - 1) := by
    simp only [Bool.true_eq_false, false_or]
    split <;> omega
  have halloc : ¬ rbuf.length + got.length >
      wrapNat 64 ((rbuf.length + (got ++ todo).length : ℕ) : ℤ) := by
    rw [wrapNat_of_lt (by omega), List.length_append]
    omega
  have hremaining : wrapNat 64 (((got ++ todo).length : ℤ) - got.length) = todo.length := by
    rw [List.length_append, show ((got.length + todo.length : ℕ) : ℤ) - got.length =
      (todo.length : ℕ) by omega]
    exact wrapNat_of_lt (by rw [List.length_append] at hfit; omega)
  have hloaded : loaded ⟨rbuf, (rbuf.length + (got ++ todo).length : ℕ), (got ++ todo).length, b, c⟩
      ⟨.success, got.length, got⟩ c' =
      ⟨rbuf ++ got, (rbuf.length + (got ++ todo).length : ℕ), todo.length, store b 0 got, c'⟩ := by
    simp only [loaded, if_neg halloc, hremaining, fetch_store]
  have hroom : ¬ ((rbuf.length + got.length : ℕ) : ℤ) >
      ((rbuf.length + (got ++ todo).length : ℕ) : ℤ) := by
    rw [List.length_append]
    omega
  rw [loadRound_eq hrequest hread, hloaded]
  dsimp only
  rw [if_neg hroom]
  by_cases hnil : todo = []
  · subst hnil
    simp
  · have hpos := List.length_pos_iff.mpr hnil
    rw [if_pos ⟨by simp [stops], .inr (by omega)⟩, if_neg hnil]
    simp only [List.length_append, Nat.add_assoc]

/-- **The loading loop reads exactly what is left of the body**, from any segmentation, into an
allocation that was made for it. -/
theorem load_exact (todo rest rbuf : Bytes) (hne : todo ≠ [])
    (hfit : rbuf.length + todo.length < 2 ^ 31) (segs : List Bytes) (hsegs : ∀ s ∈ segs, s ≠ [])
    (hstream : segs.flatten = todo ++ rest) (b : Bytes) (log : List Read) :
    ∃ (s : LoadState Conn) (later : List Read) (segs' : List Bytes),
      Halts (fun n => runLoop (loadRound readSocket true) n
          ⟨rbuf, (rbuf.length + todo.length : ℕ), todo.length, b, ⟨segs.map arrival, log⟩⟩)
        (.ok (.success, s)) ∧
      s.rbuf = rbuf ++ todo ∧ s.conn = ⟨segs'.map arrival, log ++ later⟩ ∧
      later.flatMap Read.received = todo ∧ NoneBehind todo.length later ∧ segs'.flatten = rest := by
  induction hlen : todo.length using Nat.strong_induction_on generalizing todo rbuf segs b log with
  | _ left ih =>
    subst hlen
    obtain ⟨got, todo₁, segs₁, rfl, hgot, hle, hread, hsegs₁, hstream₁⟩ :=
      readSocket_body hne hsegs hstream log
    have hround := loadRound_body (b := b) hfit hread
    have hgotpos := List.length_pos_iff.mpr hgot
    let first : Read := ⟨min (got ++ todo₁).length (MAX_DOC_LENGTH - 1), got⟩
    by_cases hnil : todo₁ = []
    · rw [if_pos hnil] at hround
      subst hnil
      refine ⟨_, [first], segs₁, halts_inl hround, by simp, rfl, by simp [first], ?_, hstream₁⟩
      exact noneBehind_cons (by simpa using hgotpos) (noneBehind_nil _)
    · rw [if_neg hnil] at hround
      obtain ⟨s, later, segs', hhalts, hbuf, hconn, hlater, hnone, hrest⟩ :=
        ih todo₁.length (by rw [List.length_append]; omega) todo₁ (rbuf ++ got) hnil
          (by rw [List.length_append] at hfit ⊢; omega) segs₁ hsegs₁ hstream₁ (store b 0 got)
          (log ++ [first]) rfl
      refine ⟨s, first :: later, segs', halts_inr hround hhalts, ?_, ?_, ?_, ?_, hrest⟩
      · rw [hbuf, List.append_assoc]
      · rw [hconn, List.append_assoc]
        rfl
      · rw [List.flatMap_cons, hlater]
      · refine noneBehind_cons (by rw [List.length_append]; omega) ?_
        rwa [show (got ++ todo₁).length - first.received.length = todo₁.length by
          simp [first]]

/-! ### What the loading loop returns -/

/-- **What one round of the loading loop can do**: an allocation fails it, it appends what it read
and goes on, or it appends that and returns, behind a status that stops it or with nothing left. -/
theorem loadRound_cases (remain : Bool) (s : LoadState Conn) :
    ∃ n r c, readSocket s.conn n = (r, c) ∧ (remain = false → n = MAX_DOC_LENGTH - 1) ∧
      (loadRound readSocket remain s = .inl (.error .fault) ∨
      loadRound readSocket remain s = .inr (loaded s r c) ∨
      (loadRound readSocket remain s = .inl (.ok (r.status, loaded s r c)) ∧
        ((s.rbuf.length + r.buflen : ℕ) : ℤ) ≤ (loaded s r c).currentalloc ∧
        (stops r.status = true ∨ remain = true))) := by
  let n := if remain = false ∨ s.remaining > MAX_DOC_LENGTH - 1 then MAX_DOC_LENGTH - 1
    else s.remaining
  obtain ⟨r, c, hread⟩ : ∃ r c, readSocket s.conn n = (r, c) := ⟨_, _, rfl⟩
  refine ⟨n, r, c, hread, fun h => if_pos (.inl h), ?_⟩
  rw [loadRound_eq rfl hread]
  by_cases hroom : ((s.rbuf.length + r.buflen : ℕ) : ℤ) > (loaded s r c).currentalloc
  · exact .inl (if_pos hroom)
  · rw [if_neg hroom]
    by_cases hmore : ¬ stops r.status = true ∧ (remain = false ∨ (loaded s r c).remaining ≠ 0)
    · exact .inr (.inl (if_pos hmore))
    · refine .inr (.inr ⟨if_neg hmore, not_lt.mp hroom, ?_⟩)
      cases remain with
      | true => exact .inr rfl
      | false => exact .inl (by_contra fun hgo => hmore ⟨hgo, .inl rfl⟩)

/-- Whatever the loop returns fits the last allocation, whose size is an `int`. -/
theorem load_fits {remain : Bool} {n : ℕ} {s s' : LoadState Conn} {status : Status}
    (hs : s.currentalloc < 2 ^ 31)
    (h : runLoop (loadRound readSocket remain) n s = some (.ok (status, s'))) :
    s'.rbuf.length < 2 ^ 31 := by
  have hloaded : ∀ (t : LoadState Conn) r c, t.currentalloc < 2 ^ 31 →
      (loaded t r c).currentalloc < 2 ^ 31 := by
    intro t r c ht
    simp only [loaded]
    split
    · exact wrapInt_lt 31 _
    · exact ht
  refine runLoop_invariant (fun t : LoadState Conn => t.currentalloc < 2 ^ 31)
    (fun r => ∀ status s', r = .ok (status, s') → s'.rbuf.length < 2 ^ 31) ?_ ?_ hs h status s' rfl
  · intro t t' ht hround
    obtain ⟨n, r, c, -, -, hr | hr | ⟨hr, -, -⟩⟩ := loadRound_cases remain t
    all_goals rw [hr] at hround; cases hround
    exact hloaded t r c ht
  · rintro t - ht hround status s' rfl
    obtain ⟨n, r, c, -, -, hr | hr | ⟨hr, hroom, -⟩⟩ := loadRound_cases remain t
    all_goals rw [hr] at hround; cases hround
    have halloc := hloaded t r c ht
    simp only [loaded, List.length_append, fetch_length] at hroom halloc ⊢
    omega

/-- A read where only arrivals are to come leaves only arrivals, and stops a loop only where it
brings nothing. -/
theorem readSocket_arrivals (segs : List Bytes) (log : List Read) (n : ℕ) :
    ∃ (r : ReadResult) (rd : Read) (segs' : List Bytes),
      readSocket ⟨segs.map arrival, log⟩ n = (r, ⟨segs'.map arrival, log ++ [rd]⟩) ∧
      (stops r.status = true → rd.received = []) := by
  cases segs with
  | nil => exact ⟨_, _, [], readSocket_nil log n, fun _ => rfl⟩
  | cons seg segs =>
    by_cases hfit : seg.length ≤ n
    · exact ⟨_, _, segs, readSocket_arrival hfit _ log, fun h => by simp [stops] at h⟩
    · exact ⟨_, _, seg.drop n :: segs, readSocket_arrival_split (not_le.mp hfit) _ log,
        fun h => by simp [stops] at h⟩

/-- **Without a bound the loop ends only behind a read that brought nothing**, as long as data
arrives without incident. -/
theorem loadAll_reads_on {n : ℕ} {segs : List Bytes} {s s' : LoadState Conn} {log : List Read}
    {status : Status} (hconn : s.conn = ⟨segs.map arrival, log⟩)
    (h : runLoop (loadRound readSocket false) n s = some (.ok (status, s'))) :
    ∃ before last, s'.conn.log = log ++ before ++ [last] ∧ last.received = [] := by
  -- the reads so far, on a connection on which only arrivals are to come
  refine runLoop_invariant
    (fun t : LoadState Conn => ∃ before segs, t.conn = ⟨List.map arrival segs, log ++ before⟩)
    (fun r => ∀ status s', r = .ok (status, s') →
      ∃ before last, s'.conn.log = log ++ before ++ [last] ∧ last.received = []) ?_ ?_
    ⟨[], segs, by rw [hconn, List.append_nil]⟩ h status s' rfl
  · rintro t t' ⟨before, segs, ht⟩ hround
    obtain ⟨n, r, c, hread, -, hr | hr | ⟨hr, -, -⟩⟩ := loadRound_cases false t
    all_goals rw [hr] at hround; cases hround
    obtain ⟨r', rd, segs', hread', -⟩ := readSocket_arrivals segs (log ++ before) n
    rw [ht, hread', Prod.mk.injEq] at hread
    exact ⟨before ++ [rd], segs', by rw [← List.append_assoc]; exact hread.2.symm⟩
  · rintro t - ⟨before, segs, ht⟩ hround status s' rfl
    obtain ⟨n, r, c, hread, -, hr | hr | ⟨hr, -, hstop⟩⟩ := loadRound_cases false t
    all_goals rw [hr] at hround; cases hround
    obtain ⟨r', rd, segs', hread', hlast⟩ := readSocket_arrivals segs (log ++ before) n
    rw [ht, hread', Prod.mk.injEq] at hread
    obtain ⟨rfl, rfl⟩ := hread
    exact ⟨before, rd, rfl, hlast (hstop.resolve_right (by decide))⟩

/-! ### Whole responses -/

/-- A call of `keepalive_recv_resp` with `wantresponse` set, on a response with a length that arrives
without incident: the first read brings the header block and `got` of the body, the arrivals behind
it are any segmentation of what is left of the body and of what the server sends behind it. -/
structure WholeResponse where
  resp : LengthResponse
  ksock : KeepaliveSocket
  wants : ksock.wantresponse = true
  notHead : ksock.method ≠ some .HEAD
  got : Bytes
  todo : Bytes
  rest : Bytes
  body : got.length + todo.length = resp.length
  fits : (resp.block ++ got).length ≤ MAX_DOC_LENGTH - 1
  segs : List Bytes
  segsOk : ∀ s ∈ segs, s ≠ []
  stream : segs.flatten = todo ++ rest
  mem : Bytes
  b : Bytes

/-- The call returns this. -/
def WholeResponse.Returns (t : WholeResponse)
    (out : Except Abort (Status × Option Response × Conn)) : Prop :=
  Halts (keepaliveRecvResp readSocket t.ksock t.mem t.b
    ⟨((t.resp.block ++ t.got) :: t.segs).map arrival, []⟩) out

/-- The call returns the header block followed by the body, and after the first read it issues none
behind the last byte of the body, so that what follows the body stays on the connection. -/
def WholeResponse.IsExact (t : WholeResponse) : Prop :=
  ∃ (resp : Response) (later : List Read) (segs' : List Bytes),
    t.Returns (.ok (.success, some resp,
      ⟨segs'.map arrival, ⟨MAX_DOC_LENGTH - 1, t.resp.block ++ t.got⟩ :: later⟩)) ∧
    resp.rbuf = t.resp.block ++ (t.got ++ t.todo) ∧
    resp.rbufsize = (t.resp.block ++ (t.got ++ t.todo)).length ∧
    later.flatMap Read.received = t.todo ∧ NoneBehind t.todo.length later ∧ segs'.flatten = t.rest

/-- With `wantresponse` the call returns what `keepalive_load_resp` makes of the response. -/
theorem receiveBody_want {σ : Type} (read : σ → ℕ → ReadResult × σ) (resp : Response)
    (contentLength : ℤ) (status : Status) (b : Bytes) (c : σ) (n : ℕ) :
    receiveBody read true resp contentLength 0 status b c n =
      (keepaliveLoadResp read resp (if resp.keepalive then wrapNat 64 contentLength else 0) b c
        n).map (Except.map fun p => (.success, some p.2.1, p.2.2)) := by
  simp only [receiveBody, if_true]
  generalize keepaliveLoadResp read resp _ b c n = call
  cases call with
  | none => rfl
  | some out => cases out <;> rfl

/-- The response behind the header loop. -/
def WholeResponse.headed (t : WholeResponse) : Response :=
  ⟨true, false, none, store t.mem 0 (t.resp.block ++ t.got), (t.resp.block ++ t.got).length,
    linesTable t.resp.headers.lines⟩

/-- The connection behind the first read. -/
def WholeResponse.behindFirst (t : WholeResponse) : Conn :=
  ⟨t.segs.map arrival, [⟨MAX_DOC_LENGTH - 1, t.resp.block ++ t.got⟩]⟩

/-- The call returns what the loading part makes of the length that is left. -/
theorem WholeResponse.returns_of_load (t : WholeResponse) {value : ℤ} {left : ℕ}
    (hvalue : contentLengthValue t.resp.digits = (value, true))
    (hleft : wrapNat 64 (wrapInt 64 (value - t.got.length)) = left)
    {out : Except Abort (Status × Response × Conn)}
    (h : Halts (keepaliveLoadResp readSocket t.headed left t.b t.behindFirst) out) :
    t.Returns (out.map fun p => (.success, some p.2.1, p.2.2)) := by
  refine keepaliveRecvResp_headers
    (show t.resp.block ++ t.got = linesText t.resp.headers.lines ++ CRLF ++ t.got from rfl)
    (readSocket_arrival t.fits (t.segs.map arrival) [])
    (Halts.congr (fun n => receiveMessage_length t.resp t.notHead hvalue rfl t.b _ n) ?_)
  refine Halts.congr (fun n => ?_) (h.map (Except.map _))
  rw [t.wants, receiveBody_want, if_pos rfl, hleft]
  rfl

/-- The size of the first allocation of `keepalive_load_resp`. -/
def WholeResponse.alloc (t : WholeResponse) (left : ℕ) : ℤ :=
  wrapInt 32 (((if left > 0 then left else MAX_DOC_LENGTH : ℕ) : ℤ) + t.headed.rbufsize)

/-- The loading loop starts with what the first read brought. -/
def WholeResponse.loading (t : WholeResponse) (left : ℕ) : LoadState Conn :=
  ⟨fetch t.headed.rbuf t.headed.rbufsize, t.alloc left, left, t.b, t.behindFirst⟩

theorem WholeResponse.loading_alloc (t : WholeResponse) (left : ℕ) :
    (t.loading left).currentalloc < 2 ^ 31 := by
  simp only [WholeResponse.loading, WholeResponse.alloc]
  exact wrapInt_lt 31 _

theorem WholeResponse.fetch_headed (t : WholeResponse) :
    fetch t.headed.rbuf t.headed.rbufsize = t.resp.block ++ t.got :=
  fetch_store t.mem (t.resp.block ++ t.got)

/-- An allocation too small for the first read is a fault. -/
theorem WholeResponse.load_fault (t : WholeResponse) {left : ℕ}
    (hroom : t.alloc left < t.headed.rbufsize) :
    Halts (keepaliveLoadResp readSocket t.headed left t.b t.behindFirst) (.error .fault) := by
  refine Halts.congr (fun n => ?_) (halts_const _)
  rw [WholeResponse.alloc] at hroom
  simp only [keepaliveLoadResp, if_pos hroom]

/-- Otherwise `keepalive_load_resp` returns what its loop assembled. -/
theorem WholeResponse.load_loop (t : WholeResponse) {left : ℕ}
    (hroom : ¬ t.alloc left < t.headed.rbufsize) {out : Except Abort (Status × LoadState Conn)}
    (h : Halts (fun n => runLoop (loadRound readSocket (left > 0)) n (t.loading left)) out) :
    Halts (keepaliveLoadResp readSocket t.headed left t.b t.behindFirst)
      (out.map fun p =>
        (p.1, { t.headed with rbuf := p.2.rbuf, rbufsize := p.2.rbuf.length }, p.2.conn)) := by
  refine Halts.congr (fun n => ?_) (h.map (Except.map _))
  rw [WholeResponse.alloc] at hroom
  simp only [keepaliveLoadResp, if_neg hroom, WholeResponse.loading, WholeResponse.alloc]
  generalize runLoop (loadRound readSocket (left > 0)) n _ = call
  cases call with
  | none => rfl
  | some out => cases out <;> rfl

/-- The loading loop ends. -/
theorem WholeResponse.loading_halts (t : WholeResponse) {left : ℕ} (hsmall : left < 2 ^ 63) :
    ∃ out, Halts (fun n => runLoop (loadRound readSocket (left > 0)) n (t.loading left)) out := by
  by_cases hpos : left > 0
  · obtain ⟨out, hhalts, -⟩ := load_covers left hpos hsmall (fetch t.headed.rbuf t.headed.rbufsize)
      (t.alloc left) t.b (t.segs.map arrival) t.behindFirst.log
    refine ⟨out, ?_⟩
    rw [decide_eq_true hpos]
    exact hhalts
  · obtain ⟨out, hhalts, -⟩ := loadAll_halts (t.loading left)
    refine ⟨out, ?_⟩
    rw [decide_eq_false hpos]
    exact hhalts

/-- A response behind a successful call is one that the loading loop assembled. -/
theorem WholeResponse.loop_of_returns (t : WholeResponse) {value : ℤ} {left : ℕ}
    (hvalue : contentLengthValue t.resp.digits = (value, true))
    (hleft : wrapNat 64 (wrapInt 64 (value - t.got.length)) = left) (hsmall : left < 2 ^ 63)
    {resp : Response} {c : Conn} (h : t.Returns (.ok (.success, some resp, c))) :
    ∃ n status s, runLoop (loadRound readSocket (left > 0)) n (t.loading left) =
      some (.ok (status, s)) ∧ resp.rbuf = s.rbuf ∧ c = s.conn := by
  by_cases hroom : t.alloc left < t.headed.rbufsize
  · have hfault := t.returns_of_load hvalue hleft (t.load_fault hroom)
    exact absurd (hfault.unique h) (by simp [Except.map])
  · obtain ⟨out, hhalts⟩ := t.loading_halts hsmall
    have heq := (t.returns_of_load hvalue hleft (t.load_loop hroom hhalts)).unique h
    obtain ⟨N, hN⟩ := hhalts
    rcases out with a | ⟨status, s⟩
    · cases heq
    · cases heq
      exact ⟨N, status, s, hN N le_rfl, rfl, rfl⟩

/-! ### When the response is returned whole -/

/-- With nothing left to read the loop has no bound, and issues a read behind the last byte. -/
theorem WholeResponse.not_exact_of_unbounded (t : WholeResponse) {value : ℤ}
    (hvalue : contentLengthValue t.resp.digits = (value, true))
    (hleft : wrapNat 64 (wrapInt 64 (value - t.got.length)) = 0) : ¬ t.IsExact := by
  rintro ⟨resp, later, segs', hret, -, -, hlater, hnone, -⟩
  obtain ⟨n, status, s, hloop, -, hconn⟩ := t.loop_of_returns hvalue hleft (by decide) hret
  obtain ⟨before, last, hlog, hlast⟩ := loadAll_reads_on
    (show (t.loading 0).conn = ⟨t.segs.map arrival,
      [⟨MAX_DOC_LENGTH - 1, t.resp.block ++ t.got⟩]⟩ from rfl) hloop
  rw [← hconn, List.singleton_append, List.cons_append, List.cons.injEq] at hlog
  obtain ⟨-, rfl⟩ := hlog
  rw [List.flatMap_append, List.flatMap_singleton, hlast, List.append_nil] at hlater
  have hlt := hnone before last [] rfl
  rw [hlater] at hlt
  exact lt_irrefl _ hlt

/-- A length of 16 characters or more is taken for 0. -/
theorem WholeResponse.not_exact_of_long (t : WholeResponse) (hlong : ¬ t.resp.Short) :
    ¬ t.IsExact := by
  have hvalue : contentLengthValue t.resp.digits = (0, true) := by
    rw [contentLengthValue, t.resp.strlen_digits]
    exact if_neg hlong
  by_cases hgot : t.got = []
  · exact t.not_exact_of_unbounded hvalue (by rw [hgot]; decide)
  · -- what is left wraps round, and the allocation comes out short of what was read already
    have hpos := List.length_pos_iff.mpr hgot
    have hfits := t.fits
    rw [List.length_append, show MAX_DOC_LENGTH = 8192 from rfl] at hfits
    have hleft : wrapNat 64 (wrapInt 64 ((0 : ℤ) - t.got.length)) = 2 ^ 64 - t.got.length := by
      have hint : wrapInt 64 ((0 : ℤ) - t.got.length) = -t.got.length := by
        rw [Int.zero_sub, wrapInt, Int.bmod_def]
        omega
      rw [hint, wrapNat]
      omega
    have halloc : t.alloc (2 ^ 64 - t.got.length) = t.resp.block.length := by
      have hsize : t.headed.rbufsize = t.resp.block.length + t.got.length := List.length_append
      rw [WholeResponse.alloc, if_pos (by omega), hsize, wrapInt, Int.bmod_def]
      omega
    have hfault := t.returns_of_load hvalue hleft (t.load_fault (by
      rw [halloc]
      show ((t.resp.block.length : ℕ) : ℤ) < ((t.resp.block ++ t.got).length : ℕ)
      rw [List.length_append]
      omega))
    rintro ⟨resp, later, segs', hret, -⟩
    exact absurd (hfault.unique hret) (by simp [Except.map])

/-- What is left of the body behind the first read, for a length the code looks at. -/
theorem WholeResponse.left_short (t : WholeResponse) (hshort : t.resp.Short) :
    wrapNat 64 (wrapInt 64 ((t.resp.length : ℤ) - t.got.length)) = t.todo.length := by
  have hlt := t.resp.length_lt hshort
  have hbody := t.body
  rw [show (t.resp.length : ℤ) - t.got.length = (t.todo.length : ℕ) by omega,
    wrapInt_of_lt (w := 63) (Int.natCast_nonneg _) (by omega)]
  exact wrapNat_of_lt (by omega)

/-- **A response kept whole** is returned exactly, with no read behind its last byte, if and only if
the first read leaves some of the body to the loading loop, the code looks at the announced length,
and the whole response is shorter than an `int` can say. -/
theorem WholeResponse.isExact_iff (t : WholeResponse) :
    t.IsExact ↔ t.got.length < t.resp.length ∧ t.resp.Short ∧
      t.resp.block.length + t.resp.length < 2 ^ 31 := by
  have hbody := t.body
  constructor
  · intro hexact
    have hshort : t.resp.Short := by_contra fun hlong => t.not_exact_of_long hlong hexact
    have hvalue := contentLengthValue_short hshort
    have hleft := t.left_short hshort
    have hlt := t.resp.length_lt hshort
    have hmore : 0 < t.todo.length := Nat.pos_of_ne_zero fun hnone =>
      t.not_exact_of_unbounded hvalue (hleft.trans hnone) hexact
    refine ⟨by omega, hshort, ?_⟩
    obtain ⟨resp, later, segs', hret, hbuf, -⟩ := hexact
    obtain ⟨n, status, s, hloop, hassembled, -⟩ :=
      t.loop_of_returns hvalue hleft (by omega) hret
    have hfits := load_fits (t.loading_alloc t.todo.length) hloop
    rw [← hassembled, hbuf, List.length_append, List.length_append] at hfits
    omega
  · rintro ⟨hmore, hshort, htotal⟩
    have hpos : 0 < t.todo.length := by omega
    have hsize : t.headed.rbufsize = t.resp.block.length + t.got.length := List.length_append
    have halloc : t.alloc t.todo.length = (t.headed.rbufsize + t.todo.length : ℕ) := by
      rw [WholeResponse.alloc, if_pos hpos, Int.add_comm, ← Int.natCast_add]
      exact wrapInt_of_lt (w := 31) (Int.natCast_nonneg _) (by omega)
    obtain ⟨s, later, segs', hhalts, hbuf, hconn, hlater, hnone, hrest⟩ :=
      load_exact t.todo t.rest (t.resp.block ++ t.got) (List.length_pos_iff.mp hpos)
        (by rw [List.length_append]; omega) t.segs t.segsOk t.stream t.b t.behindFirst.log
    have hloop : Halts (fun n => runLoop (loadRound readSocket (t.todo.length > 0)) n
        (t.loading t.todo.length)) (.ok (.success, s)) := by
      rw [decide_eq_true hpos, WholeResponse.loading, t.fetch_headed, halloc]
      exact hhalts
    have hret := t.returns_of_load (contentLengthValue_short hshort) (t.left_short hshort)
      (t.load_loop (by rw [halloc]; omega) hloop)
    simp only [Except.map, hconn] at hret
    refine ⟨_, later, segs', hret, ?_, ?_, hlater, hnone, hrest⟩
    · rw [hbuf, List.append_assoc]
    · rw [hbuf, List.append_assoc]

/-- The body `ABC`, all of it in the first read. -/
def bodyInFirstRead : WholeResponse where
  resp := threeBytes
  ksock := ⟨some 0, false, true, false, some .GET⟩
  wants := rfl
  notHead := by decide
  got := [65, 66, 67]
  todo := []
  rest := []
  body := by decide
  fits := by decide
  segs := []
  segsOk := by simp
  stream := rfl
  mem := []
  b := []

/-- Behind the complete response another read is issued. -/
theorem bodyInFirstRead_reads_on : ¬ ∀ t : WholeResponse, t.IsExact := fun h =>
  bodyInFirstRead.not_exact_of_unbounded (contentLengthValue_short (by decide)) (by decide)
    (h bodyInFirstRead)

end Flood.LoadedResponses
