import Mathlib.Data.Nat.Find
import Flood.ReceiveBuffers

/-!
# The reads of the generic socket

`generic_recv_resp` has two loops, one that keeps the response and one that throws it away.  Both read
until end of file or a timeout, and are left by no other status.

* `fullRound_follows`, `discardRound_follows` — the loops go on as the outcomes of the reads say.
* `returns_iff` — the number of reads and the status that the function returns.
* `sameOutcome_iff` — the two loops report the same unless a timeout ends them.
* `terminates_iff` — they end just where some read ends with end of file or a timeout.
-/

namespace Flood.GenericReads

open Flood.CString Flood.Loop Flood.Net Flood.SocketGeneric Flood.ReceiveBuffers

/-! ### Sequences of reads -/

/-- The outcomes of the reads, in order; none reports more bytes than a read is asked for. -/
structure ReadStream where
  outcome : ℕ → ReadResult
  fits : ∀ n, (outcome n).buflen ≤ MAX_DOC_LENGTH - 1

namespace ReadStream

/-- The reader on which the reads turn out so; its state is the number of reads made. -/
def read (o : ReadStream) (n : ℕ) (_ : ℕ) : ReadResult × ℕ := (o.outcome n, n + 1)

def status (o : ReadStream) (n : ℕ) : Status := (o.outcome n).status

/-- The loops go on behind this read. -/
def goesOn (o : ReadStream) (n : ℕ) : Bool := genericGoesOn (o.status n)

/-- The first read behind which the loops do not go on. -/
structure StopsAt (o : ReadStream) (n : ℕ) : Prop where
  before : ∀ k < n, o.goesOn k = true
  stop : o.goesOn n = false

end ReadStream

variable (o : ReadStream) (wantresponse : Bool) (b mem : Bytes)

/-- `generic_recv_resp` on these reads returns a status, after a number of reads. -/
def Returns (status : Status) (reads : ℕ) : Prop :=
  ∃ resp, Halts (genericRecvResp o.read wantresponse b mem 0) (.ok (status, resp, reads))

/-- `generic_recv_resp` on these reads comes to an end. -/
def Terminates : Prop := ∃ r, Halts (genericRecvResp o.read wantresponse b mem 0) r

variable {o}

theorem goesOn_false_iff {n : ℕ} :
    o.goesOn n = false ↔ o.status n = .eof ∨ o.status n = .timeup := by
  rw [ReadStream.goesOn, genericGoesOn, decide_eq_false_iff_not, not_and_or, not_not, not_not]

theorem stopsAt_or_never (o : ReadStream) : (∃ n, o.StopsAt n) ∨ ∀ n, o.goesOn n = true := by
  by_cases h : ∃ n, o.goesOn n = false
  · left
    refine ⟨Nat.find h, fun k hk => ?_, Nat.find_spec h⟩
    rw [← Bool.not_eq_false]
    exact Nat.find_min h hk
  · right
    intro n
    rw [← Bool.not_eq_false]
    exact fun hn => h ⟨n, hn⟩

theorem ReadStream.StopsAt.unique {n m : ℕ} (h : o.StopsAt n) (h' : o.StopsAt m) : n = m := by
  rcases Nat.lt_trichotomy n m with hlt | heq | hgt
  · exact absurd h.stop (by rw [h'.before n hlt]; decide)
  · exact heq
  · exact absurd h'.stop (by rw [h.before m hgt]; decide)

/-! ### The two loops -/

/-- The loop that keeps the response goes on as the reads say. -/
theorem fullRound_follows (o : ReadStream) :
    Follows (fullRound o.read) o.goesOn (fun n s => Room s ∧ s.conn = n)
      (fun n r => ∃ s, r = .ok s ∧ s.conn = n + 1) := by
  rintro n s ⟨hroom, rfl⟩
  have hread : o.read s.conn (MAX_DOC_LENGTH - 1) = (o.outcome s.conn, s.conn + 1) := rfl
  obtain ⟨s', hroom', hconn, -, hround⟩ := fullRound_eq hroom hread (o.fits s.conn)
  rw [show (o.outcome s.conn).status = o.status s.conn from rfl] at hround
  constructor
  · intro hon
    rw [if_pos (of_decide_eq_true hon)] at hround
    exact ⟨s', hround, hroom', hconn⟩
  · intro hstop
    rw [if_neg (of_decide_eq_false hstop)] at hround
    exact ⟨_, hround, s', rfl, hconn⟩

/-- The loop that throws the response away looks at the status of the read in front of the round. -/
theorem discardRound_follows (o : ReadStream) :
    Follows (discardRound o.read) o.goesOn (fun n s => s = (o.status n, n + 1))
      (fun n r => r = (o.status n, n + 1)) := by
  rintro n s rfl
  constructor
  · intro hon
    rw [discardRound, if_pos (of_decide_eq_true hon)]
    exact ⟨_, rfl, rfl⟩
  · intro hstop
    rw [discardRound, if_neg (of_decide_eq_false hstop)]
    exact ⟨_, rfl, rfl⟩

theorem fullStart_at (b : Bytes) :
    Room (⟨[], MAX_DOC_LENGTH, b, 0⟩ : FullState ℕ) ∧
      (⟨[], MAX_DOC_LENGTH, b, 0⟩ : FullState ℕ).conn = 0 :=
  ⟨⟨Nat.zero_le _, Nat.le_refl _⟩, rfl⟩

/-! ### What the function returns -/

/-- The status that `generic_recv_resp` returns when its loop ends behind the read `n`. -/
def returned (o : ReadStream) (wantresponse : Bool) (n : ℕ) : Status :=
  if wantresponse = false ∧ o.status n = .timeup then .timeup else .success

theorem returns_of_stopsAt {n : ℕ} (h : o.StopsAt n) :
    Returns o wantresponse b mem (returned o wantresponse n) (n + 1) := by
  unfold Returns
  cases wantresponse with
  | true =>
    obtain ⟨r, hhalts, s, rfl, hconn⟩ :=
      (fullRound_follows o).halts (fullStart_at b) h.before h.stop
    refine ⟨some ⟨false, false, none, s.rbuf, s.rbuf.length, []⟩, ?_⟩
    show Halts (fun m => genericRecvResp o.read true b mem 0 m) _
    simp only [genericRecvResp, if_true]
    rw [← hconn]
    exact hhalts.bind (halts_const _)
  | false =>
    obtain ⟨r, hhalts, rfl⟩ := (discardRound_follows o).halts
      (s := (o.status 0, 1)) rfl h.before h.stop
    have hrun : ∀ t, Halts (fun _ : ℕ =>
          if (o.status n) ≠ .success ∧ (o.status n) ≠ .eof then
            some (Except.ok (o.status n, (none : Option Response), n + 1))
          else some (.ok (.success, some ⟨false, false, none, store mem 0 (o.outcome 0).data,
            (o.outcome 0).buflen, []⟩, n + 1))) t →
        Halts (genericRecvResp o.read false b mem 0) t := by
      intro t ht
      show Halts (fun m => genericRecvResp o.read false b mem 0 m) _
      simp only [genericRecvResp, Bool.false_eq_true, if_false]
      exact hhalts.bind ht
    rcases goesOn_false_iff.mp h.stop with heof | htimeup
    · refine ⟨some ⟨false, false, none, store mem 0 (o.outcome 0).data, (o.outcome 0).buflen, []⟩,
        hrun _ ?_⟩
      rw [returned, heof]
      exact halts_const _
    · refine ⟨none, hrun _ ?_⟩
      rw [returned, htimeup]
      exact halts_const _

/-- With no read that stops them the loops never end. -/
theorem not_terminates (h : ∀ n, o.goesOn n = true) : ¬ Terminates o wantresponse b mem := by
  rintro ⟨r, N, hN⟩
  have hrun := hN N (Nat.le_refl N)
  cases wantresponse with
  | true =>
    rw [genericRecvResp, if_pos rfl, (fullRound_follows o).never (fullStart_at b) h] at hrun
    cases hrun
  | false =>
    have hnever := (discardRound_follows o).never (s := (o.status 0, 1)) rfl h N
    simp only [genericRecvResp, Bool.false_eq_true, if_false] at hrun
    rw [show runLoop (discardRound o.read) N ((o.read 0 (MAX_DOC_LENGTH - 1)).1.status,
      (o.read 0 (MAX_DOC_LENGTH - 1)).2) = none from hnever] at hrun
    cases hrun

/-- **What `generic_recv_resp` returns**: it makes the reads up to the first end of file or timeout,
with either loop, and only the one that throws the response away reports the timeout. -/
theorem returns_iff (status : Status) (reads : ℕ) :
    Returns o wantresponse b mem status reads ↔
      ∃ n, o.StopsAt n ∧ status = returned o wantresponse n ∧ reads = n + 1 := by
  constructor
  · rintro ⟨resp, hhalts⟩
    rcases stopsAt_or_never o with ⟨n, hn⟩ | hnever
    · obtain ⟨resp', hhalts'⟩ := returns_of_stopsAt wantresponse b mem hn
      have heq := hhalts.unique hhalts'
      simp only [Except.ok.injEq, Prod.mk.injEq] at heq
      exact ⟨n, hn, heq.1, heq.2.2⟩
    · exact absurd ⟨_, hhalts⟩ (not_terminates wantresponse b mem hnever)
  · rintro ⟨n, hn, rfl, rfl⟩
    exact returns_of_stopsAt wantresponse b mem hn

/-- **Asking for the full response changes nothing** in the number of reads and the status just where
no timeout comes before the first end of file. -/
theorem sameOutcome_iff (o : ReadStream) (b mem : Bytes) :
    (∀ status reads, Returns o true b mem status reads ↔ Returns o false b mem status reads) ↔
      ∀ n, o.status n = .timeup → ∃ k < n, o.status k = .eof := by
  simp only [returns_iff]
  rcases stopsAt_or_never o with ⟨n, hn⟩ | hnever
  · have hfull : returned o true n = .success := by simp [returned]
    rcases goesOn_false_iff.mp hn.stop with heof | htimeup
    · have hdiscard : returned o false n = .success := by simp [returned, heof]
      refine iff_of_true (fun status reads => exists_congr fun m => and_congr_right fun hm => ?_) ?_
      · rw [hm.unique hn, hfull, hdiscard]
      · intro m hm
        refine ⟨n, ?_, heof⟩
        by_contra hge
        rcases Nat.lt_or_ge m n with hlt | hle
        · exact absurd (goesOn_false_iff.mpr (.inr hm)) (by rw [hn.before m hlt]; decide)
        · rw [show m = n by omega, heof] at hm
          cases hm
    · have hdiscard : returned o false n = .timeup := by simp [returned, htimeup]
      refine iff_of_false ?_ ?_
      · intro h
        obtain ⟨m, hm, hstatus, -⟩ := (h .success (n + 1)).mp ⟨n, hn, hfull.symm, rfl⟩
        rw [hm.unique hn, hdiscard] at hstatus
        cases hstatus
      · intro h
        obtain ⟨k, hk, heof⟩ := h n htimeup
        exact absurd (goesOn_false_iff.mpr (.inl heof)) (by rw [hn.before k hk]; decide)
  · refine iff_of_true (fun status reads => exists_congr fun m => ?_) ?_
    · refine iff_of_false ?_ ?_
      · rintro ⟨hm, -⟩
        exact absurd hm.stop (by rw [hnever m]; decide)
      · rintro ⟨hm, -⟩
        exact absurd hm.stop (by rw [hnever m]; decide)
    · intro m hm
      exact absurd (goesOn_false_iff.mpr (.inr hm)) (by rw [hnever m]; decide)

/-- Every read has the same outcome, with nothing stored. -/
def steadyReads (status : Status) : ReadStream := ⟨fun _ => ⟨status, 0, []⟩, fun _ => Nat.zero_le _⟩

/-- After a timeout the loop that keeps the response returns success. -/
theorem timeup_not_reported : ¬ ∀ (o : ReadStream) (b mem : Bytes) (status : Status) (reads : ℕ),
    Returns o true b mem status reads ↔ Returns o false b mem status reads := by
  intro h
  have hstops : (steadyReads .timeup).StopsAt 0 := ⟨nofun, rfl⟩
  obtain ⟨n, hn, hstatus, -⟩ := (returns_iff false [] [] .success 1).mp
    ((h (steadyReads .timeup) [] [] .success 1).mp (returns_of_stopsAt true [] [] hstops))
  rw [hn.unique hstops] at hstatus
  cases hstatus

/-- **The loops end** just where some read ends with end of file or a timeout. -/
theorem terminates_iff (o : ReadStream) (b mem : Bytes) :
    (Terminates o true b mem ∧ Terminates o false b mem) ↔
      ∃ n, o.status n = .eof ∨ o.status n = .timeup := by
  rcases stopsAt_or_never o with ⟨n, hn⟩ | hnever
  · refine iff_of_true ⟨?_, ?_⟩ ⟨n, goesOn_false_iff.mp hn.stop⟩
    · obtain ⟨resp, hhalts⟩ := returns_of_stopsAt true b mem hn
      exact ⟨_, hhalts⟩
    · obtain ⟨resp, hhalts⟩ := returns_of_stopsAt false b mem hn
      exact ⟨_, hhalts⟩
  · refine iff_of_false (fun h => not_terminates true b mem hnever h.1) ?_
    rintro ⟨n, hstop⟩
    exact absurd (goesOn_false_iff.mpr hstop) (by rw [hnever n]; decide)

/-- A connection whose every read fails with `APR_EGENERAL` is read for ever. -/
theorem egeneral_spins : ¬ ∀ (o : ReadStream) (b mem : Bytes),
    (∃ N, ∀ n, N ≤ n → o.status n ≠ .success) →
      Terminates o true b mem ∧ Terminates o false b mem := by
  intro h
  have hends := h (steadyReads .egeneral) [] [] ⟨0, fun n _ => nofun⟩
  exact not_terminates true [] [] (fun n => rfl) hends.1

end Flood.GenericReads
