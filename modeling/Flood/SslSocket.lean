import Flood.Net

/-!
# Reading and writing over SSL

`ssl_read_socket` and `ssl_write_socket`.  Both call themselves again where the SSL layer wants to read
first, and neither looks at what the inner call returns.  A call is followed over the attempts that it
makes, one for each level of the recursion.

* `sslReadSocket_eq`, `sslWriteSocket_eq` — the first attempt that does not lead to another one decides.
* `sslSocket_iff` — when the status returned is that of the last attempt.
-/

namespace Flood.SslSocket

open Flood.CString Flood.Net

/-- What `SSL_get_error` makes of a call of `SSL_read` or `SSL_write`; `α` is what a completed call
hands over.  `syscall` comes with `errno`, `fatal` stands for all that has no case of its own. -/
inductive SslOutcome (α : Type) where
  /-- `SSL_ERROR_NONE` -/
  | completed (a : α)
  | wantRead
  | wantWrite
  | zeroReturn
  | syscall (errno : ℕ)
  | fatal
  deriving DecidableEq

/-! ### The two functions -/

/-- One level of `ssl_read_socket`: the bytes that `SSL_pending` counts, the sockets that `apr_poll`
reports where it is called, and the outcome of `SSL_read` where that is reached. -/
structure ReadAttempt where
  pending : ℕ
  socketsRead : ℤ
  outcome : SslOutcome Bytes
  deriving DecidableEq

/-- `ssl_read_socket`, with the attempts that it made.  `*buflen` is the one variable of all levels.
`none` means that the attempts do not suffice for a return. -/
def sslReadSocket : List ReadAttempt → ℕ → Option (ReadResult × List ReadAttempt)
  | [], _ => none
  | a :: attempts, buflen =>
    if a.pending < buflen ∧ a.socketsRead ≠ 1 then some (⟨.timeup, buflen, []⟩, [a])
    else
      match a.outcome with
      | .completed data => some (⟨.success, data.length, data⟩, [a])
      | .wantRead =>
        -- the inner call sets `*buflen`; its status is lost
        (sslReadSocket attempts buflen).map fun inner =>
          ({ inner.1 with status := .success }, a :: inner.2)
      | .zeroReturn => some (⟨.eof, buflen, []⟩, [a])
      | .syscall errno =>
        if errno = 0 then some (⟨.eof, buflen, []⟩, [a]) else some (⟨.egeneral, buflen, []⟩, [a])
      | .wantWrite | .fatal => some (⟨.egeneral, buflen, []⟩, [a])

/-- `ssl_write_socket`, with the outcomes of the calls of `SSL_write`.  Nothing that the handshake
between two calls does is looked at. -/
def sslWriteSocket : List (SslOutcome ℕ) → Option (Status × List (SslOutcome ℕ))
  | [] => none
  | o :: outcomes =>
    match o with
    | .completed _ => some (.success, [o])
    | .wantRead => (sslWriteSocket outcomes).map fun inner => (.success, o :: inner.2)
    | .wantWrite => some (.success, [o])
    | .zeroReturn | .syscall _ | .fatal => some (.egeneral, [o])

/-! ### The status that is due -/

/-- The call of `SSL_read` of an attempt, where the poll lets it come to that. -/
def ReadAttempt.sslRead (buflen : ℕ) (a : ReadAttempt) : Option (SslOutcome Bytes) :=
  if a.pending < buflen ∧ a.socketsRead ≠ 1 then none else some a.outcome

/-- The attempt leads to another one. -/
def ReadAttempt.again (buflen : ℕ) (a : ReadAttempt) : Bool := a.sslRead buflen = some .wantRead

/-- The failure that an attempt ends with. -/
def ReadAttempt.failure (buflen : ℕ) (a : ReadAttempt) : Option Status :=
  match a.sslRead buflen with
  | none => some .timeup
  | some (.completed _) => none
  | some .wantRead => none
  | some .zeroReturn => some .eof
  | some (.syscall errno) => some (if errno = 0 then .eof else .egeneral)
  | some .wantWrite => some .egeneral
  | some .fatal => some .egeneral

/-- What a call returned goes with the attempts it made: `APR_SUCCESS` only if the last `SSL_read`
completed, with the number of bytes that it stored, and otherwise the failure of the last attempt. -/
structure ReadReports (buflen : ℕ) (r : ReadResult) (made : List ReadAttempt) : Prop where
  success : r.status = .success → ∃ data,
    (made.filterMap (ReadAttempt.sslRead buflen)).getLast? = some (.completed data) ∧
      r.buflen = data.length ∧ r.data = data
  failure : ∀ a ∈ made.getLast?, ∀ stat ∈ a.failure buflen, r.status = stat

/-- Whatever the attempts are, `ssl_read_socket` reports them. -/
def ReadsReport (attempts : List ReadAttempt) (buflen : ℕ) : Prop :=
  ∀ r made, sslReadSocket attempts buflen = some (r, made) → ReadReports buflen r made

/-- `ssl_write_socket` returns `APR_SUCCESS` only if its last `SSL_write` completed. -/
def WritesReport (outcomes : List (SslOutcome ℕ)) : Prop :=
  ∀ stat made, sslWriteSocket outcomes = some (stat, made) → stat = .success →
    ∃ n, made.getLast? = some (.completed n)

/-! ### What decides a call -/

/-- The status, the length and the bytes that an attempt ends with, if it leads to no other one. -/
def ReadAttempt.result (buflen : ℕ) (a : ReadAttempt) : ReadResult :=
  match a.sslRead buflen with
  | some (.completed data) => ⟨.success, data.length, data⟩
  | _ => ⟨(a.failure buflen).getD .success, buflen, []⟩

theorem sslReadSocket_last {a : ReadAttempt} {buflen : ℕ} (h : a.again buflen = false)
    (attempts : List ReadAttempt) :
    sslReadSocket (a :: attempts) buflen = some (a.result buflen, [a]) := by
  unfold sslReadSocket ReadAttempt.result ReadAttempt.failure
  unfold ReadAttempt.again at h
  by_cases hpoll : a.pending < buflen ∧ a.socketsRead ≠ 1
  · rw [if_pos hpoll, show a.sslRead buflen = none from if_pos hpoll]
    rfl
  · have hread : a.sslRead buflen = some a.outcome := if_neg hpoll
    rw [if_neg hpoll, hread]
    rw [hread] at h
    cases houtcome : a.outcome with
    | completed data => rfl
    | wantRead =>
      rw [houtcome] at h
      cases h
    | wantWrite => rfl
    | zeroReturn => rfl
    | syscall errno =>
      dsimp only
      split
      · rfl
      · rfl
    | fatal => rfl

theorem sslReadSocket_again {a : ReadAttempt} {buflen : ℕ} (h : a.again buflen = true)
    (attempts : List ReadAttempt) :
    sslReadSocket (a :: attempts) buflen =
      (sslReadSocket attempts buflen).map fun inner =>
        ({ inner.1 with status := .success }, a :: inner.2) := by
  have hread : a.sslRead buflen = some .wantRead := of_decide_eq_true h
  unfold ReadAttempt.sslRead at hread
  split at hread
  · cases hread
  · next hpoll =>
    rw [sslReadSocket, if_neg hpoll, Option.some.inj hread]

/-- **The first attempt that leads to no other one decides** what is returned; behind others, its status
is lost. -/
theorem sslReadSocket_eq (attempts : List ReadAttempt) (buflen : ℕ) :
    sslReadSocket attempts buflen =
      (attempts.dropWhile (ReadAttempt.again buflen)).head?.map fun a =>
        (if attempts.takeWhile (ReadAttempt.again buflen) = [] then a.result buflen
          else { a.result buflen with status := .success },
        attempts.takeWhile (ReadAttempt.again buflen) ++ [a]) := by
  induction attempts with
  | nil => rfl
  | cons a attempts ih =>
    cases hagain : a.again buflen with
    | false =>
      rw [sslReadSocket_last hagain, List.dropWhile_cons_of_neg (by rw [hagain]; decide),
        List.takeWhile_cons_of_neg (by rw [hagain]; decide)]
      rfl
    | true =>
      rw [sslReadSocket_again hagain, List.dropWhile_cons_of_pos hagain,
        List.takeWhile_cons_of_pos hagain, ih, Option.map_map]
      congr 1
      funext last
      rw [Function.comp_apply, if_neg (List.cons_ne_nil _ _)]
      split
      · rfl
      · rfl

/-- The `SSL_write` leads to another one. -/
def SslOutcome.again {α : Type} : SslOutcome α → Bool
  | .wantRead => true
  | _ => false

/-- The status that `ssl_write_socket` gives an outcome. -/
def SslOutcome.written : SslOutcome ℕ → Status
  | .completed _ | .wantRead | .wantWrite => .success
  | .zeroReturn | .syscall _ | .fatal => .egeneral

/-- **The first `SSL_write` that leads to no other one decides**; behind others, its status is lost. -/
theorem sslWriteSocket_eq (outcomes : List (SslOutcome ℕ)) :
    sslWriteSocket outcomes =
      (outcomes.dropWhile SslOutcome.again).head?.map fun o =>
        (if outcomes.takeWhile SslOutcome.again = [] then o.written else .success,
        outcomes.takeWhile SslOutcome.again ++ [o]) := by
  induction outcomes with
  | nil => rfl
  | cons o outcomes ih =>
    cases o with
    | wantRead =>
      show (sslWriteSocket outcomes).map _ = _
      rw [ih, List.dropWhile_cons_of_pos rfl, List.takeWhile_cons_of_pos rfl, Option.map_map]
      rfl
    | completed n => rfl
    | wantWrite => rfl
    | zeroReturn => rfl
    | syscall errno => rfl
    | fatal => rfl

/-! ### When the status is the one that is due -/

/-- The first attempt leads to no other one, or the attempt that decides completes its `SSL_read`. -/
def ReadKept (attempts : List ReadAttempt) (buflen : ℕ) : Prop :=
  attempts.takeWhile (ReadAttempt.again buflen) = [] ∨
    ∀ a ∈ (attempts.dropWhile (ReadAttempt.again buflen)).head?,
      ∃ data, a.sslRead buflen = some (.completed data)

/-- The `SSL_write` that decides completes, or it is the first and fails otherwise than by wanting to
write. -/
def WriteKept (outcomes : List (SslOutcome ℕ)) : Prop :=
  ∀ o ∈ (outcomes.dropWhile SslOutcome.again).head?, (∃ n, o = .completed n) ∨
    (outcomes.takeWhile SslOutcome.again = [] ∧ o ≠ .wantWrite)

theorem ReadAttempt.result_completed {buflen : ℕ} {a : ReadAttempt} {data : Bytes}
    (h : a.sslRead buflen = some (.completed data)) :
    a.result buflen = ⟨.success, data.length, data⟩ := by
  rw [ReadAttempt.result, h]

/-- An attempt that leads to no other one and does not complete its `SSL_read` fails. -/
theorem ReadAttempt.fails {buflen : ℕ} {a : ReadAttempt} (hagain : a.again buflen = false)
    (h : ¬ ∃ data, a.sslRead buflen = some (.completed data)) :
    ∃ stat, a.failure buflen = some stat ∧ stat ≠ .success ∧
      a.result buflen = ⟨stat, buflen, []⟩ := by
  unfold ReadAttempt.result ReadAttempt.failure
  unfold ReadAttempt.again at hagain
  cases hread : a.sslRead buflen with
  | none => exact ⟨.timeup, rfl, nofun, rfl⟩
  | some outcome =>
    cases outcome with
    | completed data => exact absurd ⟨data, hread⟩ h
    | wantRead =>
      rw [hread] at hagain
      cases hagain
    | wantWrite => exact ⟨.egeneral, rfl, nofun, rfl⟩
    | zeroReturn => exact ⟨.eof, rfl, nofun, rfl⟩
    | syscall errno =>
      refine ⟨_, rfl, ?_, rfl⟩
      split
      · exact nofun
      · exact nofun
    | fatal => exact ⟨.egeneral, rfl, nofun, rfl⟩

/-- The last call of `SSL_read`, where the last attempt came to one. -/
theorem getLast?_sslRead {buflen : ℕ} {a : ReadAttempt} {outcome : SslOutcome Bytes}
    (h : a.sslRead buflen = some outcome) (before : List ReadAttempt) :
    ((before ++ [a]).filterMap (ReadAttempt.sslRead buflen)).getLast? = some outcome := by
  rw [List.filterMap_append, List.filterMap_cons_some h]
  exact List.getLast?_concat

theorem getLast?_append_again {buflen : ℕ} {before : List ReadAttempt}
    (hbefore : ∀ b ∈ before, b.again buflen = true) {a : ReadAttempt} {data : Bytes}
    (h : ((before ++ [a]).filterMap (ReadAttempt.sslRead buflen)).getLast? =
      some (.completed data)) : a.sslRead buflen = some (.completed data) := by
  cases ha : a.sslRead buflen with
  | some outcome =>
    rw [getLast?_sslRead ha] at h
    exact h
  | none =>
    rw [List.filterMap_append, List.filterMap_cons_none ha, List.filterMap_nil, List.append_nil] at h
    obtain ⟨b, hb, hread⟩ := List.mem_filterMap.mp (List.mem_of_getLast? h)
    rw [of_decide_eq_true (hbefore b hb)] at hread
    cases hread

theorem readsReport_iff (attempts : List ReadAttempt) (buflen : ℕ) :
    ReadsReport attempts buflen ↔ ReadKept attempts buflen := by
  have hbefore : ∀ b ∈ attempts.takeWhile (ReadAttempt.again buflen), b.again buflen = true :=
    fun b hb => List.mem_takeWhile_imp hb
  unfold ReadsReport ReadKept
  rw [sslReadSocket_eq]
  generalize attempts.takeWhile (ReadAttempt.again buflen) = before at hbefore ⊢
  cases hlast : (attempts.dropWhile (ReadAttempt.again buflen)).head? with
  | none => exact iff_of_true nofun (.inr nofun)
  | some a =>
    have hagain : a.again buflen = false := by
      have hnot := List.head?_dropWhile_not (ReadAttempt.again buflen) attempts
      rwa [hlast] at hnot
    by_cases hdone : ∃ data, a.sslRead buflen = some (.completed data)
    · obtain ⟨data, hread⟩ := hdone
      refine iff_of_true ?_ (.inr ?_)
      · intro r made h
        rw [Option.map_some, ReadAttempt.result_completed hread, ite_self, Option.some.injEq,
          Prod.mk.injEq] at h
        obtain ⟨rfl, rfl⟩ := h
        refine ⟨fun _ => ⟨data, getLast?_sslRead hread before, rfl, rfl⟩, ?_⟩
        intro a' ha' stat hstat
        rw [List.getLast?_concat, Option.mem_some_iff] at ha'
        rw [← ha', ReadAttempt.failure, hread] at hstat
        cases hstat
      · intro a' ha'
        rw [Option.mem_some_iff] at ha'
        exact ⟨data, ha' ▸ hread⟩
    · obtain ⟨stat, hfailure, hstat, hresult⟩ := ReadAttempt.fails hagain hdone
      have hkept : (∀ a' ∈ some a, ∃ data, a'.sslRead buflen = some (.completed data)) ↔ False :=
        iff_of_false (fun h => hdone (h a rfl)) id
      rw [hkept, or_false, Option.map_some, hresult]
      constructor
      · intro h
        by_contra hretried
        rw [if_neg hretried] at h
        obtain ⟨data, hread, -⟩ := (h _ _ rfl).success rfl
        exact hdone ⟨data, getLast?_append_again hbefore hread⟩
      · intro hfirst r made h
        rw [if_pos hfirst, Option.some.injEq, Prod.mk.injEq] at h
        obtain ⟨rfl, rfl⟩ := h
        refine ⟨fun hsuccess => absurd hsuccess hstat, ?_⟩
        intro a' ha' stat' hstat'
        rw [List.getLast?_concat, Option.mem_some_iff] at ha'
        rw [← ha', hfailure] at hstat'
        exact Option.some.inj hstat'

theorem writesReport_iff (outcomes : List (SslOutcome ℕ)) :
    WritesReport outcomes ↔ WriteKept outcomes := by
  unfold WritesReport WriteKept
  rw [sslWriteSocket_eq]
  generalize outcomes.takeWhile SslOutcome.again = before
  cases hlast : (outcomes.dropWhile SslOutcome.again).head? with
  | none => exact iff_of_true nofun nofun
  | some o =>
    have hagain : o.again = false := by
      have hnot := List.head?_dropWhile_not SslOutcome.again outcomes
      rwa [hlast] at hnot
    have hreturned : (∀ stat made, (some o).map (fun o =>
          (if before = [] then o.written else Status.success, before ++ [o])) = some (stat, made) →
          stat = .success → ∃ n, made.getLast? = some (.completed n)) ↔
        ((if before = [] then o.written else .success) = .success → ∃ n, o = .completed n) := by
      constructor
      · intro h hsuccess
        obtain ⟨n, hn⟩ := h _ _ rfl hsuccess
        rw [List.getLast?_concat, Option.some.injEq] at hn
        exact ⟨n, hn⟩
      · intro h stat made heq hsuccess
        rw [Option.map_some, Option.some.injEq, Prod.mk.injEq] at heq
        obtain ⟨rfl, rfl⟩ := heq
        obtain ⟨n, hn⟩ := h hsuccess
        exact ⟨n, by rw [List.getLast?_concat, hn]⟩
    rw [hreturned]
    have hwritten : o.written = .success ↔ (∃ n, o = .completed n) ∨ o = .wantWrite := by
      cases o with
      | completed n => exact iff_of_true rfl (.inl ⟨n, rfl⟩)
      | wantRead => cases hagain
      | wantWrite => exact iff_of_true rfl (.inr rfl)
      | zeroReturn => simp [SslOutcome.written]
      | syscall errno => simp [SslOutcome.written]
      | fatal => simp [SslOutcome.written]
    have hsome : ∀ p : SslOutcome ℕ → Prop, (∀ o' ∈ some o, p o') ↔ p o := by simp
    rw [hsome]
    by_cases hfirst : before = []
    · rw [if_pos hfirst, hwritten]
      constructor
      · intro h
        by_cases hwant : o = .wantWrite
        · exact .inl (h (.inr hwant))
        · exact .inr ⟨hfirst, hwant⟩
      · intro h hsuccess
        rcases h with hdone | ⟨-, hwant⟩
        · exact hdone
        · exact hsuccess.resolve_right hwant
    · rw [if_neg hfirst]
      constructor
      · intro h
        exact .inl (h rfl)
      · intro h _
        exact h.resolve_right fun h => hfirst h.1

/-- **The status returned is that of the last attempt** exactly where none was made before it or it
completed; a write that is to wait until the connection takes more counts as done. -/
theorem sslSocket_iff (attempts : List ReadAttempt) (buflen : ℕ) (outcomes : List (SslOutcome ℕ)) :
    (ReadsReport attempts buflen ↔ ReadKept attempts buflen) ∧
      (WritesReport outcomes ↔ WriteKept outcomes) :=
  ⟨readsReport_iff attempts buflen, writesReport_iff outcomes⟩

/-- The server asks for a new handshake and closes the connection. -/
def renegotiated : List ReadAttempt := [⟨0, 1, .wantRead⟩, ⟨0, 1, .zeroReturn⟩]

/-- The end of file behind a renegotiation is lost, and `*buflen` is the length asked for. -/
theorem renegotiated_lost :
    sslReadSocket renegotiated 8191 = some (⟨.success, 8191, []⟩, renegotiated) ∧
      ¬ ∀ attempts buflen, ReadsReport attempts buflen := by
  refine ⟨rfl, fun h => ?_⟩
  rcases (readsReport_iff renegotiated 8191).mp (h _ _) with hfirst | hlast
  · cases hfirst
  · obtain ⟨data, hread⟩ := hlast ⟨0, 1, .zeroReturn⟩ rfl
    cases hread

end Flood.SslSocket
