import Mathlib.Data.Nat.Find
import Flood.Loop
import Flood.Net

/-!
# Feeding a response script

`round_robin_postprocess` writes the response to the standard input of the url's script.  A write may
take fewer bytes than it is asked for; the loop counts what was taken, and asks for the whole response
again, from its start.

* `feedScript_halts` — the loop ends, with what the writes took.
* `feedScript_iff` — the script gets the response just where every write finds the beginning of the
  response where the last one ended, and the last one ends at its end.
-/

namespace Flood.ScriptInput

open Flood.CString Flood.Net Flood.Loop

/-! ### The loop -/

/-- The pipe to the script: what `apr_pollset_poll` returns in a round, and the number of bytes that
`apr_file_write` reports. -/
structure Pipe where
  poll : ℕ → Status
  bytes : ℕ → ℕ

/-- The rounds so far, `wbytes`, and what has been written to the script.  `wbytes` stays below twice
the length of a string in memory, which an `apr_size_t` holds. -/
structure WriteState where
  round : ℕ
  wbytes : ℕ
  input : Bytes

/-- The body of the loop: it is left with `APR_SUCCESS` at the end, or with the error of a poll. -/
def writeRound (pipe : Pipe) (rbuf : Bytes) (nbytes : ℕ) (s : WriteState) :
    (Status × Bytes) ⊕ WriteState :=
  if ¬ s.wbytes < nbytes then .inl (.success, s.input)
  else if pipe.poll s.round ≠ .success then .inl (pipe.poll s.round, s.input)
  else
    let bytes := pipe.bytes s.round
    .inr ⟨s.round + 1, s.wbytes + bytes, s.input ++ fetch rbuf bytes⟩

/-- The loop that writes `resp->rbuf` to the script. -/
def feedScript (pipe : Pipe) (rbuf : Bytes) (fuel : ℕ) : Option (Status × Bytes) :=
  runLoop (writeRound pipe rbuf (strlen rbuf)) fuel ⟨0, 0, []⟩

/-- The bytes taken by the first `n` writes. -/
def taken (pipe : Pipe) : ℕ → ℕ
  | 0 => 0
  | n + 1 => taken pipe n + pipe.bytes n

/-- Each write takes at least one byte, and at most those it is asked for. -/
def ShortWrites (pipe : Pipe) (rbuf : Bytes) : Prop :=
  ∀ i, taken pipe i < strlen rbuf → 1 ≤ pipe.bytes i ∧ pipe.bytes i ≤ strlen rbuf

/-- What the first `n` writes have written. -/
def sent (pipe : Pipe) (rbuf : Bytes) : ℕ → Bytes
  | 0 => []
  | n + 1 => sent pipe rbuf n ++ fetch rbuf (pipe.bytes n)

/-- Where a write ended the response goes on as it begins, as far as the next write takes it. -/
def Repeats (pipe : Pipe) (rbuf : Bytes) (i : ℕ) : Prop :=
  ((cstr rbuf).drop (taken pipe i)).take (pipe.bytes i) = (cstr rbuf).take (pipe.bytes i)

/-! ### What is taken and sent -/

theorem taken_mono (pipe : Pipe) {n m : ℕ} (h : n ≤ m) : taken pipe n ≤ taken pipe m := by
  induction m, h using Nat.le_induction with
  | base => exact Nat.le_refl _
  | succ m _ ih => exact Nat.le_trans ih (Nat.le_add_right _ _)

@[simp] theorem sent_length (pipe : Pipe) (rbuf : Bytes) (n : ℕ) : (sent pipe rbuf n).length = taken pipe n := by
  induction n with
  | zero => rfl
  | succ n ih => rw [sent, List.length_append, ih, fetch_length, taken]

variable {pipe : Pipe} {rbuf : Bytes}

theorem sent_grows {n m : ℕ} (h : n ≤ m) : sent pipe rbuf n <+: sent pipe rbuf m := by
  induction m, h using Nat.le_induction with
  | base => exact List.prefix_rfl
  | succ m _ ih => exact ih.trans (List.prefix_append _ _)

/-- A write within the response takes its beginning. -/
theorem fetch_response {n : ℕ} (h : n ≤ strlen rbuf) : fetch rbuf n = (cstr rbuf).take n := by
  conv_lhs => rw [← List.takeWhile_append_dropWhile (p := fun x : UInt8 => decide (x ≠ 0)) (l := rbuf)]
  exact fetch_append h _

/-- As long as not all is taken, every write takes something. -/
theorem le_taken (hshort : ShortWrites pipe rbuf) {n : ℕ}
    (h : ∀ i < n, taken pipe i < strlen rbuf) : n ≤ taken pipe n := by
  induction n with
  | zero => exact Nat.le_refl 0
  | succ n ih =>
    have hn := ih fun i hi => h i (Nat.lt_succ_of_lt hi)
    have hbytes := (hshort n (h n (Nat.lt_succ_self n))).1
    rw [taken]
    omega

/-- A round goes on: not all is taken, and the pipe can be written to. -/
def GoesOn (pipe : Pipe) (rbuf : Bytes) (i : ℕ) : Prop :=
  taken pipe i < strlen rbuf ∧ pipe.poll i = .success

instance (pipe : Pipe) (rbuf : Bytes) (i : ℕ) : Decidable (GoesOn pipe rbuf i) :=
  inferInstanceAs (Decidable (_ ∧ _))

/-- The rounds are as many as go on. -/
theorem exists_rounds (hshort : ShortWrites pipe rbuf) :
    ∃ n, ¬ GoesOn pipe rbuf n ∧ ∀ i < n, GoesOn pipe rbuf i := by
  have hstop : ∃ n, ¬ GoesOn pipe rbuf n := by
    by_contra hnone
    rw [not_exists] at hnone
    have hall : ∀ i, taken pipe i < strlen rbuf := fun i => (not_not.mp (hnone i)).1
    have hle := le_taken hshort fun i (_ : i < strlen rbuf) => hall i
    have hlt := hall (strlen rbuf)
    omega
  exact ⟨Nat.find hstop, Nat.find_spec hstop, fun i hi => not_not.mp (Nat.find_min hstop hi)⟩

/-! ### The rounds -/

theorem writeRound_goesOn {i : ℕ} (h : GoesOn pipe rbuf i) :
    writeRound pipe rbuf (strlen rbuf) ⟨i, taken pipe i, sent pipe rbuf i⟩ =
      .inr ⟨i + 1, taken pipe (i + 1), sent pipe rbuf (i + 1)⟩ := by
  rw [writeRound, if_neg (not_not.mpr h.1), if_neg (not_not.mpr h.2)]
  rfl

theorem steps_goesOn {n : ℕ} (h : ∀ i < n, GoesOn pipe rbuf i) :
    Steps (writeRound pipe rbuf (strlen rbuf)) ⟨0, 0, []⟩ ⟨n, taken pipe n, sent pipe rbuf n⟩ := by
  induction n with
  | zero => exact Relation.ReflTransGen.refl
  | succ n ih =>
    exact (ih fun i hi => h i (Nat.lt_succ_of_lt hi)).tail
      (writeRound_goesOn (h n (Nat.lt_succ_self n)))

/-- **The loop ends** behind the rounds that go on, with what they sent. -/
theorem feedScript_halts {n : ℕ} (hn : ¬ GoesOn pipe rbuf n) (h : ∀ i < n, GoesOn pipe rbuf i) :
    Halts (feedScript pipe rbuf)
      (if taken pipe n < strlen rbuf then pipe.poll n else .success, sent pipe rbuf n) := by
  refine halts_of_steps (steps_goesOn h) (halts_inl ?_)
  by_cases htaken : taken pipe n < strlen rbuf
  · rw [writeRound, if_neg (not_not.mpr htaken), if_pos fun hpoll => hn ⟨htaken, hpoll⟩,
      if_pos htaken]
  · rw [writeRound, if_pos htaken, if_neg htaken]

/-! ### When the script gets the response -/

/-- Writes that find the beginning of the response where the last one ended send the response. -/
theorem sent_of_repeats (hshort : ShortWrites pipe rbuf) {n : ℕ}
    (h : ∀ i < n, taken pipe i < strlen rbuf ∧ Repeats pipe rbuf i) :
    sent pipe rbuf n = (cstr rbuf).take (taken pipe n) := by
  induction n with
  | zero => rfl
  | succ n ih =>
    obtain ⟨htaken, hrepeats⟩ := h n (Nat.lt_succ_self n)
    rw [sent, ih fun i hi => h i (Nat.lt_succ_of_lt hi), fetch_response (hshort n htaken).2,
      ← hrepeats, taken, List.take_add]

/-- Writes that send the response find its beginning where the last one ended. -/
theorem repeats_of_sent (hshort : ShortWrites pipe rbuf) {n i : ℕ} (hi : i < n)
    (htaken : taken pipe i < strlen rbuf) (h : sent pipe rbuf n = cstr rbuf) :
    Repeats pipe rbuf i := by
  have hfirst : ∀ j ≤ n, sent pipe rbuf j = (cstr rbuf).take (taken pipe j) := by
    intro j hj
    rw [← h, ← sent_length pipe rbuf j]
    exact List.prefix_iff_eq_take.mp (sent_grows hj)
  have hnext := hfirst (i + 1) hi
  rw [sent, hfirst i (Nat.le_of_lt hi), taken, List.take_add,
    fetch_response (hshort i htaken).2] at hnext
  exact (List.append_cancel_left hnext).symm

/-- **The script gets the response**, whenever the loop ends, just where a poll fails before all is
taken, or the bytes taken add up to the length of the response and every write finds its beginning
where the last one ended. -/
theorem feedScript_iff (pipe : Pipe) (rbuf : Bytes) (hshort : ShortWrites pipe rbuf) :
    (∃ r, Halts (feedScript pipe rbuf) r) ∧
    ((∀ input, Halts (feedScript pipe rbuf) (.success, input) → input = cstr rbuf) ↔
      (∃ i, taken pipe i < strlen rbuf ∧ pipe.poll i ≠ .success) ∨
        ∃ n, taken pipe n = strlen rbuf ∧ ∀ i < n, Repeats pipe rbuf i) := by
  obtain ⟨n, hn, hrounds⟩ := exists_rounds hshort
  have hhalts := feedScript_halts hn hrounds
  refine ⟨⟨_, hhalts⟩, ?_⟩
  by_cases htaken : taken pipe n < strlen rbuf
  · -- a poll failed: the loop does not end with success
    have hpoll : pipe.poll n ≠ .success := fun hpoll => hn ⟨htaken, hpoll⟩
    refine iff_of_true ?_ (.inl ⟨n, htaken, hpoll⟩)
    intro input hinput
    rw [if_pos htaken] at hhalts
    exact absurd (congrArg Prod.fst (hhalts.unique hinput)) hpoll
  · rw [if_neg htaken] at hhalts
    have hpolls : ¬ ∃ i, taken pipe i < strlen rbuf ∧ pipe.poll i ≠ .success := by
      rintro ⟨i, hi, hpoll⟩
      rcases Nat.lt_or_ge i n with hlt | hge
      · exact hpoll (hrounds i hlt).2
      · exact htaken (Nat.lt_of_le_of_lt (taken_mono pipe hge) hi)
    have hsent : (∀ input, Halts (feedScript pipe rbuf) (.success, input) → input = cstr rbuf) ↔
        sent pipe rbuf n = cstr rbuf := by
      constructor
      · intro h
        exact h _ hhalts
      · intro h input hinput
        rw [← h]
        exact (congrArg Prod.snd (hhalts.unique hinput)).symm
    rw [hsent, or_iff_right hpolls]
    constructor
    · intro h
      refine ⟨n, ?_, fun i hi => repeats_of_sent hshort hi (hrounds i hi).1 h⟩
      rw [← sent_length pipe rbuf, h]
      rfl
    · rintro ⟨m, hm, hrepeats⟩
      have hle : n ≤ m := by
        by_contra hlt
        have hgoes := (hrounds m (by omega)).1
        omega
      have hall : taken pipe n = strlen rbuf := by
        have := taken_mono pipe hle
        omega
      rw [sent_of_repeats hshort fun i hi => ⟨(hrounds i hi).1, hrepeats i (by omega)⟩, hall]
      exact List.take_length

/-- A pipe that always takes a given number of bytes. -/
def steadyPipe (bytes : ℕ) : Pipe := ⟨fun _ => .success, fun _ => bytes⟩

/-- Two short writes feed a response of two equal bytes. -/
theorem feedScript_iff_equalBytes :
    (∃ r, Halts (feedScript (steadyPipe 1) (bytes "aa")) r) ∧
      ∀ input, Halts (feedScript (steadyPipe 1) (bytes "aa")) (.success, input) →
        input = bytes "aa" := by
  obtain ⟨hends, hinput⟩ := feedScript_iff (steadyPipe 1) (bytes "aa") fun i _ => by
    show 1 ≤ 1 ∧ 1 ≤ strlen (bytes "aa")
    decide +kernel
  refine ⟨hends, hinput.mpr (.inr ⟨2, by decide +kernel, ?_⟩)⟩
  unfold Repeats
  decide +kernel

/-- Two writes of one byte each send the first byte twice. -/
theorem feedScript_twoWrites : ¬ ∀ (pipe : Pipe) (rbuf : Bytes), ShortWrites pipe rbuf →
    ∀ input, Halts (feedScript pipe rbuf) (.success, input) → input = cstr rbuf := by
  intro h
  have hinput := h (steadyPipe 1) (bytes "ab")
    (fun i _ => by
      show 1 ≤ 1 ∧ 1 ≤ strlen (bytes "ab")
      decide +kernel)
    (bytes "aa")
    (halts_of_runLoop (n := 3) (by decide +kernel))
  revert hinput
  decide +kernel

end Flood.ScriptInput
