import Mathlib.Data.Nat.Digits.Defs
import Flood.DecimalText
import Flood.Pieces
import Flood.RoundRobin
import Flood.Timers

/-!
# The easy report and the report of relative times

Both print one line for each call of `process_stats`, with the five samples of the timer, the verdict,
the thread and the URI of the request.  The report of relative times prints the last four samples
relative to the first, and puts all but the thread and the URI into a buffer of 256 bytes.

* `readEasy_line`, `readRelative_line` — a line can be read back, whatever the samples are.
* `relativeBuf_fits` — the buffer of the report of relative times is large enough.
* `easyReport_reads_back`, `relativeReport_reads_back` — what a run prints can be read back to one row
  for each call of `process_stats`, and in these rows no sample is earlier than one before it.
-/

namespace Flood.ReportLines

open Flood.CString Flood.DecimalText Flood.Net Flood.Pieces Flood.Profile Flood.Timers
open Flood.RoundRobin (FLOOD_VALID FLOOD_INVALID)
open Flood.Template (decimal decimal_denotes)

/-! ### Printing -/

/-- `%d` and `%ld` of a value of the type. -/
def fmtInt (x : ℤ) : Bytes := (if x < 0 then bytes "-" else []) ++ decimal x.natAbs

/-- A timer whose fields have all been sampled. -/
structure Samples where
  begin : ℤ
  connect : ℤ
  write : ℤ
  read : ℤ
  close : ℤ
  deriving DecidableEq

def Samples.fields (t : Samples) : List ℤ := [t.begin, t.connect, t.write, t.read, t.close]

/-- The fields of a timer; to read one that was never sampled is an error. -/
def samplesOf (t : Timer) : Except Abort Samples :=
  match t.begin, t.connect, t.write, t.read, t.close with
  | some begin, some connect, some write, some read, some close =>
    .ok ⟨begin, connect, write, read, close⟩
  | _, _, _, _, _ => .error .unset

/-- What `easy_process_stats` prints in the thread number `thread`. -/
def easyProcessStats (thread : ℤ) (t : Samples) (verified : ℤ) (uri : Bytes) : Bytes :=
  let foo := fmtInt t.begin ++ bytes " " ++ fmtInt t.connect ++ bytes " " ++ fmtInt t.write ++
    bytes " " ++ fmtInt t.read ++ bytes " " ++ fmtInt t.close
  let foo :=
    if verified = FLOOD_VALID then foo ++ bytes " OK"
    else if verified = FLOOD_INVALID then foo ++ bytes " FAIL"
    else foo ++ bytes " " ++ fmtInt verified
  foo ++ bytes " " ++ fmtInt thread ++ bytes " " ++ cstr uri ++ [LF]

def FLOOD_PRINT_BUF : ℕ := 256

/-- `apr_snprintf`: what it stores, without the NUL; the number it returns is the length of this. -/
def snprintf (len : ℕ) (text : Bytes) : Bytes := text.take (len - 1)

/-- The difference of two samples, both of type `apr_time_t`. -/
def since (t : Samples) (x : ℤ) : ℤ := wrapInt 64 (x - t.begin)

/-- `buf` of `relative_times_process_stats`: the second call prints behind what the first has
stored. -/
def relativeBuf (t : Samples) (verified : ℤ) : Bytes :=
  let buf := snprintf FLOOD_PRINT_BUF (fmtInt t.begin ++ bytes " " ++ fmtInt (since t t.connect) ++
    bytes " " ++ fmtInt (since t t.write) ++ bytes " " ++ fmtInt (since t t.read) ++ bytes " " ++
    fmtInt (since t t.close))
  let verdict :=
    if verified = FLOOD_VALID then bytes " OK "
    else if verified = FLOOD_INVALID then bytes " FAIL "
    else bytes " " ++ fmtInt verified ++ bytes " "
  buf ++ snprintf (FLOOD_PRINT_BUF - buf.length) verdict

/-- What `relative_times_process_stats` prints; `thread` is the text of `%pT`. -/
def relativeTimesProcessStats (thread : Bytes) (t : Samples) (verified : ℤ) (uri : Bytes) : Bytes :=
  relativeBuf t verified ++ bytes " " ++ thread ++ bytes " " ++ cstr uri ++ [LF]

/-! ### Reading -/

/-- What a line says. -/
structure Row where
  samples : Samples
  verified : ℤ
  thread : Bytes
  uri : Bytes
  deriving DecidableEq

def readInt (text : Bytes) : ℤ := (strtol 10 text).1

def readVerdict (text : Bytes) : ℤ :=
  if text = bytes "OK" then FLOOD_VALID
  else if text = bytes "FAIL" then FLOOD_INVALID
  else readInt text

/-- A line of the easy report; the URI is what stands behind seven blanks. -/
def readEasy (line : Bytes) : Option Row :=
  match line.splitOn 32 with
  | b :: c :: w :: r :: x :: v :: thread :: uri =>
    some ⟨⟨readInt b, readInt c, readInt w, readInt r, readInt x⟩, readVerdict v, thread,
      [32].intercalate uri⟩
  | _ => none

/-- A line of the report of relative times, which has two blanks behind the verdict. -/
def readRelative (line : Bytes) : Option Row :=
  match line.splitOn 32 with
  | b :: c :: w :: r :: x :: v :: _ :: thread :: uri =>
    let behind := fun text => wrapInt 64 (readInt b + readInt text)
    some ⟨⟨readInt b, behind c, behind w, behind r, behind x⟩, readVerdict v, thread,
      [32].intercalate uri⟩
  | _ => none

/-- The rows of a report, one for each line. -/
def readReport (readLine : Bytes → Option Row) (out : Bytes) : Option (List Row) :=
  (out.splitOn LF).dropLast.mapM readLine

/-! ### Numbers -/

theorem mem_fmtInt {x : ℤ} {c : UInt8} (h : c ∈ fmtInt x) : c = 45 ∨ isDigit 10 c := by
  rcases List.mem_append.mp h with hsign | hdigit
  · split at hsign
    · exact .inl (List.mem_singleton.mp hsign)
    · exact absurd hsign List.not_mem_nil
  · exact .inr ((decimal_denotes _).2.1 c hdigit)

/-- A number has no byte in it that is neither a digit nor the sign. -/
theorem not_mem_fmtInt {c : UInt8} (hsign : c ≠ 45) (hdigit : isDigit 10 c = false) (x : ℤ) :
    c ∉ fmtInt x := by
  intro h
  rcases mem_fmtInt h with rfl | hc
  · exact hsign rfl
  · rw [hdigit] at hc
    cases hc

/-- The text of a number, as an integer text. -/
def intText (x : ℤ) : IntText where
  sign := if x < 0 then bytes "-" else []
  digits := decimal x.natAbs
  sign_eq := by
    split
    · exact .inr (.inr rfl)
    · exact .inl rfl
  digits_ne := (decimal_denotes _).1
  digits_all := (decimal_denotes _).2.1

theorem intText_value (x : ℤ) : (intText x).value = x := by
  have hne : ([] : Bytes) ≠ bytes "-" := by decide
  simp only [IntText.value, signed, intText, (decimal_denotes x.natAbs).2.2]
  by_cases h : x < 0
  · rw [if_pos h, if_pos rfl]
    omega
  · rw [if_neg h, if_neg hne]
    omega

/-- **A number is read back.** -/
theorem readInt_fmtInt {x : ℤ} (h : Fits 63 x) : readInt (fmtInt x) = x := by
  have hread : readInt (fmtInt x) = saturate x := by
    show (strtol 10 (intText x).text).1 = _
    rw [strtol_text, intText_value]
  obtain ⟨hlow, hhigh⟩ := h
  rw [hread, saturate, LONG_MAX, LONG_MIN]
  omega

theorem fmtInt_length {x : ℤ} {k : ℕ} (hk : 0 < k) (h : x.natAbs < 10 ^ k) :
    (fmtInt x).length ≤ k + 1 := by
  have hdigits : (decimal x.natAbs).length ≤ k := by
    rw [decimal, List.length_map]
    exact Nat.toDigits_length 10 _ k hk h
  rw [fmtInt, List.length_append]
  split
  · rw [show (bytes "-").length = 1 from rfl]
    omega
  · rw [List.length_nil]
    omega

theorem fmtInt_length_int64 {x : ℤ} (h : Fits 63 x) : (fmtInt x).length ≤ 20 := by
  obtain ⟨hlow, hhigh⟩ := h
  exact fmtInt_length (k := 19) (by decide) (by omega)

theorem fmtInt_length_int {x : ℤ} (h : Fits 31 x) : (fmtInt x).length ≤ 11 := by
  obtain ⟨hlow, hhigh⟩ := h
  exact fmtInt_length (k := 10) (by decide) (by omega)

/-! ### The fields of a line -/

/-- The verdict, as both reports print it. -/
def verdictText (verified : ℤ) : Bytes :=
  if verified = FLOOD_VALID then bytes "OK"
  else if verified = FLOOD_INVALID then bytes "FAIL"
  else fmtInt verified

theorem not_mem_verdictText {c : UInt8} (hc : c = 32 ∨ c = LF) (verified : ℤ) :
    c ∉ verdictText verified := by
  have hwords : c ∉ bytes "OK" ∧ c ∉ bytes "FAIL" ∧ c ≠ 45 ∧ isDigit 10 c = false := by
    rcases hc with rfl | rfl
    · decide
    · decide
  obtain ⟨hok, hfail, hsign, hdigit⟩ := hwords
  unfold verdictText
  split
  · exact hok
  · split
    · exact hfail
    · exact not_mem_fmtInt hsign hdigit verified

/-- **The verdict is read back**: a number is none of the two words. -/
theorem readVerdict_verdictText {verified : ℤ} (h : Fits 31 verified) :
    readVerdict (verdictText verified) = verified := by
  have hne : ∀ word : Bytes, (79 : UInt8) ∈ word ∨ (70 : UInt8) ∈ word → fmtInt verified ≠ word := by
    rintro word hword rfl
    rcases hword with hmem | hmem
    · exact not_mem_fmtInt (by decide) (by decide) verified hmem
    · exact not_mem_fmtInt (by decide) (by decide) verified hmem
  have hwords : bytes "FAIL" ≠ bytes "OK" := by decide
  unfold verdictText
  split
  · next hvalid => rw [readVerdict, if_pos rfl, hvalid]
  · split
    · next hinvalid => rw [readVerdict, if_neg hwords, if_pos rfl, hinvalid]
    · rw [readVerdict, if_neg (hne _ (by decide)), if_neg (hne _ (by decide))]
      refine readInt_fmtInt ⟨?_, ?_⟩
      · have hlow := h.1
        omega
      · have hhigh := h.2
        omega

/-- What a timer and a verdict can be in the program, with a URI that is printed on one line. -/
structure Printable (t : Samples) (verified : ℤ) (uri : Bytes) : Prop where
  samples : ∀ x ∈ t.fields, Fits 63 x
  verified : Fits 31 verified
  uri : LF ∉ cstr uri

theorem easyProcessStats_fields (thread : ℤ) (t : Samples) (verified : ℤ) (uri : Bytes) :
    easyProcessStats thread t verified uri =
      terminated 32 [fmtInt t.begin, fmtInt t.connect, fmtInt t.write, fmtInt t.read,
        fmtInt t.close, verdictText verified, fmtInt thread] ++ cstr uri ++ [LF] := by
  have hblank : bytes " " = [32] := by decide
  have hok : bytes " OK" = [32] ++ bytes "OK" := by decide
  have hfail : bytes " FAIL" = [32] ++ bytes "FAIL" := by decide
  unfold easyProcessStats verdictText
  split
  · simp [terminated, hblank, hok]
  · split
    · simp [terminated, hblank, hfail]
    · simp [terminated, hblank]

/-- **The buffer is large enough** for whatever is printed into it. -/
theorem relativeBuf_fits {t : Samples} {verified : ℤ} {uri : Bytes}
    (h : Printable t verified uri) :
    relativeBuf t verified =
      terminated 32 [fmtInt t.begin, fmtInt (since t t.connect), fmtInt (since t t.write),
        fmtInt (since t t.read), fmtInt (since t t.close), verdictText verified] := by
  have hblank : bytes " " = [32] := by decide
  have hok : bytes " OK " = [32] ++ bytes "OK" ++ [32] := by decide
  have hfail : bytes " FAIL " = [32] ++ bytes "FAIL" ++ [32] := by decide
  have hbegin := fmtInt_length_int64 (h.samples t.begin (by simp [Samples.fields]))
  have hsince : ∀ x, (fmtInt (since t x)).length ≤ 20 := fun x =>
    fmtInt_length_int64 (fits_wrapInt 63 _)
  have hconnect := hsince t.connect
  have hwrite := hsince t.write
  have hread := hsince t.read
  have hclose := hsince t.close
  -- five numbers of at most 20 bytes with four blanks, then a verdict of at most 11 between blanks
  have hfirst : snprintf FLOOD_PRINT_BUF (fmtInt t.begin ++ bytes " " ++
      fmtInt (since t t.connect) ++ bytes " " ++ fmtInt (since t t.write) ++ bytes " " ++
      fmtInt (since t t.read) ++ bytes " " ++ fmtInt (since t t.close)) =
        fmtInt t.begin ++ bytes " " ++ fmtInt (since t t.connect) ++ bytes " " ++
      fmtInt (since t t.write) ++ bytes " " ++ fmtInt (since t t.read) ++ bytes " " ++
      fmtInt (since t t.close) := by
    refine List.take_of_length_le ?_
    simp only [List.length_append, hblank, List.length_singleton, FLOOD_PRINT_BUF]
    omega
  have hsecond : ∀ verdict : Bytes, verdict.length ≤ 13 → snprintf (FLOOD_PRINT_BUF -
      (fmtInt t.begin ++ bytes " " ++ fmtInt (since t t.connect) ++ bytes " " ++
        fmtInt (since t t.write) ++ bytes " " ++ fmtInt (since t t.read) ++ bytes " " ++
        fmtInt (since t t.close)).length) verdict = verdict := by
    intro verdict hlen
    refine List.take_of_length_le ?_
    simp only [List.length_append, hblank, List.length_singleton, FLOOD_PRINT_BUF]
    omega
  have hverified := fmtInt_length_int h.verified
  simp only [relativeBuf, hfirst]
  unfold verdictText
  split
  · rw [hsecond _ (by decide)]
    simp [terminated, hblank, hok]
  · split
    · rw [hsecond _ (by decide)]
      simp [terminated, hblank, hfail]
    · rw [hsecond _ (by simp only [List.length_append, hblank, List.length_singleton]; omega)]
      simp [terminated, hblank]

/-! ### Reading a line -/

/-- The line of the easy report, without the line feed. -/
def easyLine (thread : ℤ) (t : Samples) (verified : ℤ) (uri : Bytes) : Bytes :=
  terminated 32 [fmtInt t.begin, fmtInt t.connect, fmtInt t.write, fmtInt t.read,
    fmtInt t.close, verdictText verified, fmtInt thread] ++ cstr uri

/-- The line of the report of relative times, without the line feed: there is nothing between the two
blanks behind the verdict. -/
def relativeLine (thread : Bytes) (t : Samples) (verified : ℤ) (uri : Bytes) : Bytes :=
  terminated 32 [fmtInt t.begin, fmtInt (since t t.connect), fmtInt (since t t.write),
    fmtInt (since t t.read), fmtInt (since t t.close), verdictText verified, [], thread] ++ cstr uri

theorem easyProcessStats_line (thread : ℤ) (t : Samples) (verified : ℤ) (uri : Bytes) :
    easyProcessStats thread t verified uri = easyLine thread t verified uri ++ [LF] :=
  easyProcessStats_fields thread t verified uri

theorem relativeTimesProcessStats_line (thread : Bytes) {t : Samples} {verified : ℤ} {uri : Bytes}
    (h : Printable t verified uri) :
    relativeTimesProcessStats thread t verified uri =
      relativeLine thread t verified uri ++ [LF] := by
  have hblank : bytes " " = [32] := by decide
  rw [relativeTimesProcessStats, relativeBuf_fits h]
  simp [relativeLine, terminated, hblank]

/-- Numbers and verdicts have neither a blank nor a line feed in them. -/
theorem field_clean {c : UInt8} (hc : c = 32 ∨ c = LF) :
    (∀ x, c ∉ fmtInt x) ∧ ∀ verified, c ∉ verdictText verified := by
  have hbyte : c ≠ 45 ∧ isDigit 10 c = false := by
    rcases hc with rfl | rfl
    · decide
    · decide
  exact ⟨not_mem_fmtInt hbyte.1 hbyte.2, not_mem_verdictText hc⟩

/-- Fields behind which stands what has no line feed in it. -/
theorem not_mem_terminated {fields : List Bytes} {rest : Bytes} (hfields : ∀ f ∈ fields, LF ∉ f)
    (hrest : LF ∉ rest) : LF ∉ terminated 32 fields ++ rest := by
  have hblank : LF ∉ [(32 : UInt8)] := by decide
  intro hmem
  rcases List.mem_append.mp hmem with hin | hin
  · obtain ⟨f, hf, hbyte⟩ := List.mem_flatMap.mp hin
    exact (List.mem_append.mp hbyte).elim (hfields f hf) hblank
  · exact hrest hin

/-- **A line of the easy report is read back.** -/
theorem readEasy_line (thread : ℤ) {t : Samples} {verified : ℤ} {uri : Bytes}
    (h : Printable t verified uri) :
    readEasy (easyLine thread t verified uri) = some ⟨t, verified, fmtInt thread, cstr uri⟩ ∧
      LF ∉ easyLine thread t verified uri := by
  have hsamples := h.samples
  simp only [Samples.fields, List.forall_mem_cons] at hsamples
  obtain ⟨hbegin, hconnect, hwrite, hread, hclose, -⟩ := hsamples
  constructor
  · obtain ⟨hint, hverdict⟩ := field_clean (c := 32) (.inl rfl)
    unfold readEasy easyLine
    rw [splitOn_terminated (by simp [hint, hverdict])]
    simp only [List.cons_append, List.nil_append, readInt_fmtInt hbegin, readInt_fmtInt hconnect,
      readInt_fmtInt hwrite, readInt_fmtInt hread, readInt_fmtInt hclose,
      readVerdict_verdictText h.verified, List.intercalate_splitOn]
  · obtain ⟨hint, hverdict⟩ := field_clean (c := LF) (.inr rfl)
    exact not_mem_terminated (by simp [hint, hverdict]) h.uri

/-- What was made relative to the first sample is the sample itself again. -/
theorem begin_add_since {t : Samples} {x : ℤ} (hx : Fits 63 x) :
    wrapInt 64 (t.begin + since t x) = x := by
  rw [since, wrapInt_add_right, Int.add_comm, Int.sub_add_cancel]
  exact wrapInt_eq hx.1 hx.2

/-- **A line of the report of relative times is read back.** -/
theorem readRelative_line {thread : Bytes} (hthread : 32 ∉ thread ∧ LF ∉ thread) {t : Samples}
    {verified : ℤ} {uri : Bytes} (h : Printable t verified uri) :
    readRelative (relativeLine thread t verified uri) = some ⟨t, verified, thread, cstr uri⟩ ∧
      LF ∉ relativeLine thread t verified uri := by
  have hsamples := h.samples
  simp only [Samples.fields, List.forall_mem_cons] at hsamples
  obtain ⟨hbegin, hconnect, hwrite, hread, hclose, -⟩ := hsamples
  have hsince : ∀ x, readInt (fmtInt (since t x)) = since t x := fun x =>
    readInt_fmtInt (fits_wrapInt 63 _)
  constructor
  · obtain ⟨hint, hverdict⟩ := field_clean (c := 32) (.inl rfl)
    unfold readRelative relativeLine
    rw [splitOn_terminated (by simp [hint, hverdict, hthread.1])]
    simp only [List.cons_append, List.nil_append, readInt_fmtInt hbegin, hsince,
      begin_add_since hconnect, begin_add_since hwrite, begin_add_since hread,
      begin_add_since hclose, readVerdict_verdictText h.verified, List.intercalate_splitOn]
  · obtain ⟨hint, hverdict⟩ := field_clean (c := LF) (.inr rfl)
    exact not_mem_terminated (by simp [hint, hverdict, hthread.2]) h.uri

/-- **A report is read back** line by line, up to a last line that is not complete. -/
theorem readReport_lines {ι : Type} {readLine : Bytes → Option Row} {line : ι → Bytes} {row : ι → Row}
    {calls : List ι} (h : ∀ c ∈ calls, readLine (line c) = some (row c) ∧ LF ∉ line c) {torn : Bytes}
    (htorn : LF ∉ torn) :
    readReport readLine ((calls.flatMap fun c => line c ++ [LF]) ++ torn) =
      some (calls.map row) := by
  have hlines : (calls.flatMap fun c => line c ++ [LF]) = terminated LF (calls.map line) := by
    rw [terminated, List.flatMap_map]
  have hclean : ∀ l ∈ calls.map line, LF ∉ l := by
    intro l hl
    obtain ⟨c, hc, rfl⟩ := List.mem_map.mp hl
    exact (h c hc).2
  rw [readReport, hlines, splitOn_terminated hclean, List.splitOn_eq_singleton htorn,
    List.dropLast_concat]
  clear hlines hclean
  induction calls with
  | nil => rfl
  | cons c calls ih =>
    have hrest := ih fun c' hc' => h c' (List.mem_cons_of_mem _ hc')
    rw [List.map_cons, List.mapM_cons, (h c List.mem_cons_self).1, hrest]
    rfl

/-! ### The report of a run -/

/-- How the handlers hold what `process_stats` is passed beside the timer. -/
structure Passing (γ : Type) where
  uri : γ → Option Bytes
  verified : γ → ℤ

/-- A call of `process_stats`. -/
structure Call where
  samples : Samples
  verified : ℤ
  uri : Bytes
  deriving DecidableEq

/-- The state of a run: what the handlers work on, what has been printed on `local_stdout`, and the
calls of `process_stats`. -/
structure Printed (γ : Type) where
  inner : γ
  out : Bytes
  calls : List Call

variable {γ : Type}

/-- A handler that prints nothing on `local_stdout`. -/
def silent (e : Event γ) : Event (Printed γ) := fun s =>
  match e s.inner with
  | .error a => .error a
  | .ok (stat, inner) => .ok (stat, { s with inner := inner })

/-- The `process_stats` of a report that prints `line`. -/
def printStats (line : Samples → ℤ → Bytes → Bytes) (look : Passing γ) (timer : Timer) :
    Event (Printed γ) := fun s =>
  match look.uri s.inner, samplesOf timer with
  | none, _ => .error .fault
  | _, .error a => .error a
  | some uri, .ok samples =>
    let verified := look.verified s.inner
    .ok (.success, { s with
      out := s.out ++ line samples verified uri
      calls := s.calls ++ [⟨samples, verified, uri⟩] })

/-- The handlers of a run with a report, all but its own `process_stats` silent. -/
def silentEvents (ev : ProfileEvents γ) : ProfileEvents (Printed γ) where
  profileInit := silent ev.profileInit
  reportInit := silent ev.reportInit
  socketInit := silent ev.socketInit
  getNextUrl := silent ev.getNextUrl
  beginConn := silent ev.beginConn
  createReq := silent ev.createReq
  sendReq := silent ev.sendReq
  recvResp := silent ev.recvResp
  postprocess := silent ev.postprocess
  verifyResp := silent ev.verifyResp
  endConn := silent ev.endConn
  processStats := silent ev.processStats
  requestDestroy := silent ev.requestDestroy
  responseDestroy := silent ev.responseDestroy
  socketDestroy := silent ev.socketDestroy
  loopCondition := fun s =>
    match ev.loopCondition s.inner with
    | .error a => .error a
    | .ok (again, inner) => .ok (again, { s with inner := inner })
  reportStats := silent ev.reportStats
  destroyReport := silent ev.destroyReport
  profileDestroy := silent ev.profileDestroy

/-- The handlers of a run whose report prints `line`; `timeNow` is the clock. -/
def reportEvents (timeNow : Printed γ → ℤ × Printed γ) (line : Samples → ℤ → Bytes → Bytes)
    (look : Passing γ) (ev : ProfileEvents γ) : ProfileEvents (Timed (Printed γ)) :=
  withTimer timeNow (printStats line look) (silentEvents ev)

/-- The clock prints nothing. -/
def ClockSilent (timeNow : Printed γ → ℤ × Printed γ) : Prop :=
  ∀ s, (timeNow s).2.out = s.out ∧ (timeNow s).2.calls = s.calls

/-- What has been printed are the lines of the calls, and the calls had the timers that were passed. -/
structure Reported (line : Samples → ℤ → Bytes → Bytes) (s : Timed (Printed γ)) : Prop where
  out : s.run.out = s.run.calls.flatMap fun c => line c.samples c.verified c.uri
  passed : s.passed.flatMap Timer.fields =
    (s.run.calls.flatMap fun c => c.samples.fields).map some

variable {timeNow : Printed γ → ℤ × Printed γ} {line : Samples → ℤ → Bytes → Bytes}
  {look : Passing γ} {ev : ProfileEvents γ}

theorem Reported.congr {s s' : Timed (Printed γ)} (h : Reported line s)
    (hout : s'.run.out = s.run.out) (hcalls : s'.run.calls = s.run.calls)
    (hpassed : s'.passed = s.passed) : Reported line s' where
  out := by rw [hout, hcalls, h.out]
  passed := by rw [hpassed, hcalls, h.passed]

theorem silent_same {e : Event γ} {s s' : Printed γ} {stat : Status}
    (h : silent e s = .ok (stat, s')) : s'.out = s.out ∧ s'.calls = s.calls := by
  unfold silent at h
  split at h
  · cases h
  · cases h
    exact ⟨rfl, rfl⟩

theorem untimed_reported (e : Event γ) (s : Timed (Printed γ)) (stat : Status)
    (s' : Timed (Printed γ)) (hs : Reported line s) (h : untimed (silent e) s = .ok (stat, s')) :
    Reported line s' := by
  unfold untimed at h
  split at h
  · cases h
  · next hrun =>
    cases h
    exact hs.congr (silent_same hrun).1 (silent_same hrun).2 rfl

theorem sampledBehind_reported (hclock : ClockSilent timeNow) (set : Timer → ℤ → Timer)
    (e : Event γ) (s : Timed (Printed γ)) (stat : Status) (s' : Timed (Printed γ))
    (hs : Reported line s) (h : sampledBehind timeNow set (silent e) s = .ok (stat, s')) :
    Reported line s' := by
  unfold sampledBehind at h
  split at h
  · cases h
  · next stat₁ run hrun =>
    obtain ⟨hout, hcalls⟩ := silent_same hrun
    split at h
    · cases h
      exact hs.congr hout hcalls rfl
    · cases h
      exact hs.congr ((hclock run).1.trans hout) ((hclock run).2.trans hcalls) rfl

theorem samplesOf_fields {timer : Timer} {samples : Samples} (h : samplesOf timer = .ok samples) :
    timer.fields = samples.fields.map some := by
  unfold samplesOf at h
  split at h
  · next hbegin hconnect hwrite hread hclose =>
    cases h
    simp [Timer.fields, Samples.fields, hbegin, hconnect, hwrite, hread, hclose]
  · cases h

/-- **A call of `process_stats`** prints its line. -/
theorem passTimer_reported (s : Timed (Printed γ)) (stat : Status) (s' : Timed (Printed γ))
    (hs : Reported line s) (h : passTimer (printStats line look) s = .ok (stat, s')) :
    Reported line s' := by
  unfold passTimer at h
  split at h
  · cases h
  · next stat₁ run hrun =>
    cases h
    unfold printStats at hrun
    split at hrun
    · cases hrun
    · cases hrun
    · next uri samples huri hsamples =>
      cases hrun
      constructor
      · simp only [List.flatMap_append, List.flatMap_singleton, hs.out]
      · simp only [List.flatMap_append, List.flatMap_singleton, List.map_append, hs.passed,
          samplesOf_fields hsamples]

/-- A sample that is taken changes no field of the timer but its own. -/
def OwnField (set : Timer → ℤ → Timer) : Prop :=
  ∀ t x y, some y ∈ (set t x).fields → y = x ∨ some y ∈ t.fields

/-- **What a run with a report keeps**: what its samples, its calls of `process_stats` and the handlers
that print nothing keep. -/
theorem report_preserves {P : Timed (Printed γ) → Prop}
    (huntimed : ∀ e s stat s', P s → untimed (silent e) s = .ok (stat, s') → P s')
    (hsampled : ∀ set, OwnField set → ∀ e s stat s', P s →
      sampledBehind timeNow set (silent e) s = .ok (stat, s') → P s')
    (hstats : ∀ s stat s', P s → passTimer (printStats line look) s = .ok (stat, s') → P s')
    (hloop : ∀ s inner, P s → P { s with run := { s.run with inner := inner } })
    {s s' : Timed (Printed γ)} {fuel : ℕ} {stat : Status} (hs : P s)
    (h : runProfile (reportEvents timeNow line look ev) s fuel = some (.ok (stat, s'))) : P s' := by
  refine runProfile_preserves ?_ ?_ ?_ ?_ hs h
  · simp only [ProfileEvents.setup, reportEvents, withTimer, silentEvents, List.forall_mem_cons]
    exact ⟨huntimed _, huntimed _, huntimed _, List.forall_mem_nil _⟩
  · simp only [ProfileEvents.transaction, reportEvents, withTimer, silentEvents,
      List.forall_mem_cons]
    refine ⟨hsampled _ ?_ _, hsampled _ ?_ _, huntimed _, hsampled _ ?_ _, hsampled _ ?_ _,
      huntimed _, huntimed _, hsampled _ ?_ _, hstats, huntimed _, huntimed _, huntimed _,
      List.forall_mem_nil _⟩
    all_goals
      intro t x y hy
      simp only [Timer.fields, List.mem_cons, Option.some.injEq] at hy ⊢
      tauto
  · intro s₁ again s₂ hs₁ hagain
    simp only [reportEvents, withTimer, silentEvents] at hagain
    split at hagain
    · cases hagain
    · next hrun =>
      split at hrun
      · cases hrun
      · cases hrun
        cases hagain
        exact hloop s₁ _ hs₁
  · simp only [ProfileEvents.finish, reportEvents, withTimer, silentEvents, List.forall_mem_cons]
    exact ⟨huntimed _, orEgeneral_preserves (huntimed _), orEgeneral_preserves (huntimed _),
      List.forall_mem_nil _⟩

/-- What a run has printed, and with which timers. -/
theorem run_reported (hclock : ClockSilent timeNow) {s s' : Timed (Printed γ)} {fuel : ℕ}
    {stat : Status} (hs : Reported line s)
    (h : runProfile (reportEvents timeNow line look ev) s fuel = some (.ok (stat, s'))) :
    Reported line s' :=
  report_preserves untimed_reported (fun set _ => sampledBehind_reported hclock set)
    passTimer_reported (fun _ _ hs => hs.congr rfl rfl rfl) hs h

/-- The rows of the calls, each with the text of the thread. -/
def rowsOf (thread : Bytes) (calls : List Call) : List Row :=
  calls.map fun c => ⟨c.samples, c.verified, thread, cstr c.uri⟩

/-- What a report should be: it can be read back to one row for each call of `process_stats`, and the
samples in the rows, one row behind the other, never go back in time. -/
structure ReadsBack (readLine : Bytes → Option Row) (thread : Bytes) (s : Timed (Printed γ)) :
    Prop where
  rows : readReport readLine s.run.out = some (rowsOf thread s.run.calls)
  ordered : ((rowsOf thread s.run.calls).flatMap fun r => r.samples.fields).Pairwise (· ≤ ·)

variable {clock : Printed γ → ℤ}

/-- The samples of the calls of a run are in order. -/
theorem calls_ordered {s' : Timed (Printed γ)} (hreported : Reported line s') (horder : InOrder s')
    (thread : Bytes) :
    ((rowsOf thread s'.run.calls).flatMap fun r => r.samples.fields).Pairwise (· ≤ ·) := by
  obtain ⟨times, htimes, hsorted⟩ := horder
  rw [hreported.passed] at htimes
  have hsame : (s'.run.calls.flatMap fun c => c.samples.fields) = times :=
    List.map_injective_iff.mpr (Option.some_injective ℤ) htimes
  rw [rowsOf, List.flatMap_map, hsame]
  exact hsorted

/-- A run whose lines are read back has a report that is read back. -/
theorem reads_back {readLine : Bytes → Option Row} {text : Call → Bytes} {thread : Bytes}
    (hclock : ClockSilent timeNow)
    (hmono : Monotone clock timeNow (printStats line look) (silentEvents ev)) {inner : γ}
    {timer : Timer} {s' : Timed (Printed γ)} {fuel : ℕ} {stat : Status}
    (h : runProfile (reportEvents timeNow line look ev) ⟨⟨inner, [], []⟩, timer, []⟩ fuel =
      some (.ok (stat, s')))
    (htext : ∀ c ∈ s'.run.calls, line c.samples c.verified c.uri = text c ++ [LF] ∧
      readLine (text c) = some ⟨c.samples, c.verified, thread, cstr c.uri⟩ ∧ LF ∉ text c) :
    ReadsBack readLine thread s' := by
  have hreported := run_reported hclock (s := ⟨⟨inner, [], []⟩, timer, []⟩) ⟨rfl, rfl⟩ h
  constructor
  · rw [hreported.out, List.flatMap_congr fun c hc => (htext c hc).1]
    have hread := readReport_lines (fun c hc => (htext c hc).2) (List.not_mem_nil (a := LF))
    rwa [List.append_nil] at hread
  · exact calls_ordered hreported (timers_ordered hmono h) _

/-- **The easy report of a run can be read back.** -/
theorem easyReport_reads_back {thread : ℤ} (hclock : ClockSilent timeNow)
    (hmono : Monotone clock timeNow (printStats (easyProcessStats thread) look) (silentEvents ev))
    {inner : γ} {timer : Timer} {s' : Timed (Printed γ)} {fuel : ℕ} {stat : Status}
    (h : runProfile (reportEvents timeNow (easyProcessStats thread) look ev)
      ⟨⟨inner, [], []⟩, timer, []⟩ fuel = some (.ok (stat, s')))
    (hcalls : ∀ c ∈ s'.run.calls, Printable c.samples c.verified c.uri) :
    ReadsBack readEasy (fmtInt thread) s' :=
  reads_back hclock hmono h fun c hc =>
    ⟨easyProcessStats_line thread c.samples c.verified c.uri, readEasy_line thread (hcalls c hc)⟩

/-- **The report of relative times of a run can be read back.** -/
theorem relativeReport_reads_back {thread : Bytes} (hthread : 32 ∉ thread ∧ LF ∉ thread)
    (hclock : ClockSilent timeNow)
    (hmono : Monotone clock timeNow (printStats (relativeTimesProcessStats thread) look)
      (silentEvents ev))
    {inner : γ} {timer : Timer} {s' : Timed (Printed γ)} {fuel : ℕ} {stat : Status}
    (h : runProfile (reportEvents timeNow (relativeTimesProcessStats thread) look ev)
      ⟨⟨inner, [], []⟩, timer, []⟩ fuel = some (.ok (stat, s')))
    (hcalls : ∀ c ∈ s'.run.calls, Printable c.samples c.verified c.uri) :
    ReadsBack readRelative thread s' :=
  reads_back hclock hmono h fun c hc =>
    ⟨relativeTimesProcessStats_line thread (hcalls c hc), readRelative_line hthread (hcalls c hc)⟩

/-! ### A run of one transaction -/

/-- Every request is for `http://a/`, and every response is valid. -/
def sameUrl : Passing ℤ := ⟨fun _ => some (bytes "http://a/"), fun _ => FLOOD_VALID⟩

/-- The time is what the handlers work on. -/
def readClock (s : Printed ℤ) : ℤ × Printed ℤ := (s.inner, s)

theorem readClock_silent : ClockSilent readClock := fun _ => ⟨rfl, rfl⟩

theorem ticking_silent (line : Samples → ℤ → Bytes → Bytes) :
    Monotone Printed.inner readClock (printStats line sameUrl) (silentEvents ticking) where
  now _ := ⟨le_rfl, le_rfl⟩
  handlers e he s stat s' h := by
    simp only [ProfileEvents.transaction, silentEvents, ticking, List.mem_cons, List.not_mem_nil,
      or_false, or_self] at he
    subst he
    cases h
    exact Int.le_add_one (Int.le_refl _)
  stats timer s stat s' h := by
    unfold printStats at h
    split at h
    · cases h
    · cases h
    · cases h
      exact le_rfl
  loop s again s' h := by
    cases h
    exact Int.le_add_one (Int.le_refl _)

/-- The only call of such a run. -/
def tickingCall : Call := ⟨⟨4, 5, 7, 8, 11⟩, FLOOD_VALID, bytes "http://a/"⟩

theorem tickingCall_printable : Printable tickingCall.samples tickingCall.verified tickingCall.uri where
  samples := by decide
  verified := by decide
  uri := by decide

/-- What the run leaves, when it has printed `out`. -/
def tickingEnd (out : Bytes) : Timed (Printed ℤ) :=
  ⟨⟨18, out, [tickingCall]⟩, tickingTimer, [tickingTimer]⟩

theorem ticking_easyRun : runProfile (reportEvents readClock (easyProcessStats 7) sameUrl ticking)
      ⟨⟨0, [], []⟩, ⟨none, none, none, none, none⟩, []⟩ 1 =
    some (.ok (.success, tickingEnd (bytes "4 5 7 8 11 OK 7 http://a/\n"))) := rfl

theorem ticking_relativeRun :
    runProfile (reportEvents readClock (relativeTimesProcessStats (bytes "7")) sameUrl ticking)
      ⟨⟨0, [], []⟩, ⟨none, none, none, none, none⟩, []⟩ 1 =
    some (.ok (.success, tickingEnd (bytes "4 1 3 4 7 OK  7 http://a/\n"))) := rfl

theorem easyReport_reads_back_ticking :
    ReadsBack readEasy (fmtInt 7) (tickingEnd (bytes "4 5 7 8 11 OK 7 http://a/\n")) :=
  easyReport_reads_back readClock_silent (ticking_silent _) ticking_easyRun
    (List.forall_mem_singleton.mpr tickingCall_printable)

theorem relativeReport_reads_back_ticking :
    ReadsBack readRelative (bytes "7") (tickingEnd (bytes "4 1 3 4 7 OK  7 http://a/\n")) :=
  relativeReport_reads_back (by decide) readClock_silent (ticking_silent _) ticking_relativeRun
    (List.forall_mem_singleton.mpr tickingCall_printable)

end Flood.ReportLines
