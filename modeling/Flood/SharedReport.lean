import Flood.Mutex
import Flood.ReportLines

/-!
# The report of relative times of many farmers

The farmers of a farm are threads of one process with one `local_stdout`.
`relative_times_process_stats` prints its line while it holds the mutex of the configuration;
`apr_file_printf` may write a line in several pieces.

* `out_lines` — under every schedule the output is whole lines and the start of one more.
* `sharedReport_reads_back` — at every moment of every schedule the output can be read back, and the
  rows of a farmer are those of its first calls, in its order; at the end they are those of all.
-/

namespace Flood.SharedReport

open Flood.CString Flood.Mutex Flood.Net Flood.ReportLines

/-- A call of `relative_times_process_stats`, with the pieces in which its line is written. -/
structure LineJob where
  thread : Bytes
  call : Call
  pieces : List Bytes
  whole : pieces.flatten =
    relativeTimesProcessStats thread call.samples call.verified call.uri

/-- What the line of a call says. -/
def LineJob.row (job : LineJob) : Row :=
  ⟨job.call.samples, job.call.verified, job.thread, cstr job.call.uri⟩

/-- The line of a call, without the line feed. -/
def LineJob.line (job : LineJob) : Bytes :=
  relativeLine job.thread job.call.samples job.call.verified job.call.uri

variable {ι : Type}

/-- What is known of the farmers: each prints under the name of its own thread, and what it prints fits
on one line. -/
structure Farmers (thread : ι → Bytes) (jobs : ι → List LineJob) : Prop where
  own : ∀ i, ∀ job ∈ jobs i, job.thread = thread i
  distinct : Function.Injective thread
  clean : ∀ i, 32 ∉ thread i ∧ LF ∉ thread i
  printable : ∀ i, ∀ job ∈ jobs i, Printable job.call.samples job.call.verified job.call.uri

variable {thread : ι → Bytes} {jobs : ι → List LineJob}

/-- A line can be read back. -/
theorem Farmers.line (h : Farmers thread jobs) {i : ι} {job : LineJob} (hjob : job ∈ jobs i) :
    job.pieces.flatten = job.line ++ [LF] ∧ readRelative job.line = some job.row ∧ LF ∉ job.line := by
  have hprintable := h.printable i job hjob
  refine ⟨?_, readRelative_line ?_ hprintable⟩
  · rw [job.whole, relativeTimesProcessStats_line job.thread hprintable]
    rfl
  · rw [h.own i job hjob]
    exact h.clean i

variable [DecidableEq ι] {s : Threads ι LineJob Bytes}

/-- The jobs begun are jobs of their threads. -/
theorem mem_begun {begun : List (ι × LineJob)} (hbegun : Accounts LineJob.pieces jobs s begun)
    {b : ι × LineJob} (hb : b ∈ begun) : b.2 ∈ jobs b.1 := by
  rw [← hbegun.program b.1]
  refine List.mem_append_left _ (List.mem_map.mpr ⟨b, List.mem_filter.mpr ⟨hb, ?_⟩, rfl⟩)
  exact decide_eq_true rfl

omit [DecidableEq ι] in
/-- The lines of some jobs, one behind the other. -/
theorem piecesOf_lines (h : Farmers thread jobs) {told : List (ι × LineJob)}
    (htold : ∀ b ∈ told, b.2 ∈ jobs b.1) :
    (piecesOf LineJob.pieces told).flatten = told.flatMap fun b => b.2.line ++ [LF] := by
  induction told with
  | nil => rfl
  | cons b told ih =>
    have hline := (h.line (htold b List.mem_cons_self)).1
    have hrest := ih fun b' hb' => htold b' (List.mem_cons_of_mem _ hb')
    rw [piecesOf, List.flatMap_cons, List.flatten_append, hline, List.flatMap_cons]
    exact congrArg (_ ++ ·) hrest

/-- The part of a line that has been written is the line, or has no line feed in it. -/
theorem written_cases {job : LineJob} {written left : List Bytes} {line : Bytes}
    (hline : job.pieces.flatten = line ++ [LF]) (hclean : LF ∉ line)
    (hpieces : job.pieces = written ++ left) :
    written.flatten = line ++ [LF] ∨ LF ∉ written.flatten := by
  rw [hpieces, List.flatten_append] at hline
  rcases List.eq_nil_or_concat left.flatten with hnil | ⟨front, last, hlast⟩
  · rw [hnil, List.append_nil] at hline
    exact .inl hline
  · rw [hlast, List.concat_eq_append, ← List.append_assoc] at hline
    obtain ⟨hfront, -⟩ := List.append_inj' hline rfl
    refine .inr fun hmem => hclean ?_
    rw [← hfront]
    exact List.mem_append_left _ hmem

/-- **Under every schedule** the output is whole lines of jobs that were begun, in the order in which
the mutex was taken, and the start of one more. -/
theorem out_lines (h : Farmers thread jobs) {begun : List (ι × LineJob)}
    (hbegun : Accounts LineJob.pieces jobs s begun) :
    ∃ told torn, told <+: begun ∧ LF ∉ torn ∧ (s.holder = none → told = begun) ∧
      s.out.flatten = (told.flatMap fun b => b.2.line ++ [LF]) ++ torn := by
  have hlines : ∀ told, told <+: begun →
      (piecesOf LineJob.pieces told).flatten = told.flatMap fun b => b.2.line ++ [LF] :=
    fun told htold => piecesOf_lines h fun b hb => mem_begun hbegun (htold.subset hb)
  cases hholder : s.holder with
  | none =>
    refine ⟨begun, [], List.prefix_rfl, List.not_mem_nil, fun _ => rfl, ?_⟩
    rw [hbegun.idle hholder, List.append_nil, hlines begun List.prefix_rfl]
  | some i =>
    obtain ⟨done, job, written, left, hdone, hpieces, -, hout⟩ := hbegun.busy i hholder
    have hjob : job ∈ jobs i := mem_begun hbegun (b := (i, job)) (by simp [hdone])
    obtain ⟨hline, -, hclean⟩ := h.line hjob
    have hprefix : done <+: begun := hdone ▸ List.prefix_append _ _
    have hflat : s.out.flatten =
        (done.flatMap fun b => b.2.line ++ [LF]) ++ written.flatten := by
      rw [hout, List.flatten_append, hlines done hprefix]
    rcases written_cases hline hclean hpieces with hwhole | htorn
    · refine ⟨begun, [], List.prefix_rfl, List.not_mem_nil, fun _ => rfl, ?_⟩
      rw [hflat, hwhole, hdone]
      simp
    · exact ⟨done, written.flatten, hprefix, htorn, 
        fun hnone => absurd hnone (Option.some_ne_none i), hflat⟩

/-- The rows of a farmer among those of some jobs are those of its jobs. -/
theorem rows_of_farmer (h : Farmers thread jobs) {told : List (ι × LineJob)}
    (htold : ∀ b ∈ told, b.2 ∈ jobs b.1) (i : ι) :
    (told.map fun b => b.2.row).filter (fun r => r.thread = thread i) =
      (jobsOf i told).map LineJob.row := by
  induction told with
  | nil => rfl
  | cons b told ih =>
    have hrest := ih fun b' hb' => htold b' (List.mem_cons_of_mem _ hb')
    have hown : b.2.row.thread = thread b.1 := h.own b.1 b.2 (htold b List.mem_cons_self)
    rw [jobsOf] at hrest ⊢
    by_cases hb : b.1 = i
    · subst hb
      simp [hown, hrest]
    · have hne : thread b.1 ≠ thread i := fun heq => hb (h.distinct heq)
      simp [hown, hne, hb, hrest]

/-- **The report of many farmers can be read back** at every moment of every schedule: every row is of
one of the farmers, the rows of each are those of its first calls in its order, and when all have
finished they are those of all its calls.  Until then some thread can go on. -/
theorem sharedReport_reads_back (h : Farmers thread jobs)
    (hreachable : Reachable LineJob.pieces jobs s) :
    (¬ Finished s → ∃ s', Step LineJob.pieces s s') ∧
    ∃ rows, readReport readRelative s.out.flatten = some rows ∧
      (∀ r ∈ rows, ∃ i, r.thread = thread i) ∧
      ∀ i, rows.filter (fun r => r.thread = thread i) <+: (jobs i).map LineJob.row ∧
        (Finished s → rows.filter (fun r => r.thread = thread i) = (jobs i).map LineJob.row) := by
  refine ⟨progress hreachable, ?_⟩
  obtain ⟨begun, hbegun⟩ := reachable_accounts hreachable
  obtain ⟨told, torn, htold, htorn, hall, hout⟩ := out_lines h hbegun
  have hmem : ∀ b ∈ told, b.2 ∈ jobs b.1 := fun b hb => mem_begun hbegun (htold.subset hb)
  refine ⟨told.map fun b => b.2.row, ?_, ?_, fun i => ?_⟩
  · rw [hout]
    exact readReport_lines (fun b hb => (h.line (hmem b hb)).2) htorn
  · intro r hr
    obtain ⟨b, hb, rfl⟩ := List.mem_map.mp hr
    exact ⟨b.1, h.own b.1 b.2 (hmem b hb)⟩
  · rw [rows_of_farmer h hmem]
    have hprogram := hbegun.program i
    constructor
    · -- the jobs told are the first of those begun, and these are the first of the farmer's
      refine List.IsPrefix.map _ (List.IsPrefix.trans ((htold.filter _).map _) ?_)
      exact ⟨s.todo i, hprogram⟩
    · intro hfinished
      rw [hall (hbegun.free hfinished), ← hprogram, (hfinished i).2, List.append_nil]

/-! ### Two farmers -/

/-- A line that is written in two pieces. -/
def cutLine (line : Bytes) : List Bytes := [line.take 5, line.drop 5]

theorem cutLine_flatten (line : Bytes) : (cutLine line).flatten = line := by
  simp [cutLine]

/-- The call of a run of one transaction, made in the thread `thread`. -/
def cutJob (thread : Bytes) : LineJob :=
  ⟨thread, tickingCall, cutLine _, cutLine_flatten _⟩

def twoThreads (i : Bool) : Bytes := cond i (bytes "1") (bytes "2")

def twoJobs (i : Bool) : List LineJob := [cutJob (twoThreads i)]

theorem twoFarmers : Farmers twoThreads twoJobs where
  own i job hjob := by
    rw [List.mem_singleton.mp hjob]
    rfl
  distinct := by
    unfold Function.Injective
    decide
  clean := by decide
  printable i job hjob := by
    rw [List.mem_singleton.mp hjob]
    exact tickingCall_printable

/-- One farmer has printed its line, and the other has begun to. -/
theorem sharedReport_reads_back_two : ∃ s, Reachable LineJob.pieces twoJobs s ∧
    s.holder = some false ∧
    ∃ rows, readReport readRelative s.out.flatten = some rows ∧
      (∀ r ∈ rows, ∃ i, r.thread = twoThreads i) ∧
      ∀ i, rows.filter (fun r => r.thread = twoThreads i) <+: (twoJobs i).map LineJob.row ∧
        (Finished s →
          rows.filter (fun r => r.thread = twoThreads i) = (twoJobs i).map LineJob.row) := by
  have hfirst : Reachable LineJob.pieces twoJobs (start twoJobs) := .refl
  have hlocked := hfirst.tail (.lock (i := true) rfl rfl rfl)
  have hwritten := (hlocked.tail (.write (i := true) rfl)).tail (.write (i := true) rfl)
  have hfree := hwritten.tail (.unlock (i := true) rfl)
  have hsecond := (hfree.tail (.lock (i := false) rfl rfl rfl)).tail (.write (i := false) rfl)
  exact ⟨_, hsecond, rfl, (sharedReport_reads_back twoFarmers hsecond).2⟩

end Flood.SharedReport
