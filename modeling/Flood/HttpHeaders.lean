import Flood.HeaderBlock

/-!
# Header blocks of HTTP/1.1

The header loop of `keepalive_recv_resp` derives the key and the value of a field by fixed offsets
from the first colon of its line.  Here it runs on every block that HTTP/1.1 allows: a status line,
and fields with any white space around a value that may be empty.

* `headerLoop_texts`, `headerLoop_faults` — the loop ends at the empty line, unless some line ends
  with its first colon.
* `tableGet_texts` — what the table holds for a token.
* `headersKept_iff` — the loop keeps the last value of every field, without the white space around
  it, exactly when each of these is sent with one byte of white space.
-/

namespace Flood.HttpHeaders

open Flood.CString Flood.Loop Flood.Net Flood.SocketKeepalive Flood.HeaderBlock

/-! ### The grammar -/

/-- A character of a token. -/
def isTchar (c : UInt8) : Bool :=
  (48 ≤ c ∧ c ≤ 57) ∨ (65 ≤ c ∧ c ≤ 90) ∨ (97 ≤ c ∧ c ≤ 122) ∨
    c ∈ ([33, 35, 36, 37, 38, 39, 42, 43, 45, 46, 94, 95, 96, 124, 126] : Bytes)

/-- Optional white space: a space or a tab. -/
def isOws (c : UInt8) : Bool := c = 32 ∨ c = 9

/-- A character of a field value or of a reason: visible, above ASCII, or white space. -/
def isFieldChar (c : UInt8) : Bool := (33 ≤ c ∧ c ≠ 127) ∨ isOws c

/-- A token, such as the name of a field. -/
def IsToken (name : Bytes) : Prop := name ≠ [] ∧ ∀ c ∈ name, isTchar c = true

/-- A field: its name and, behind the colon, its value with the white space around it. -/
structure HttpField where
  name : Bytes
  before : Bytes
  value : Bytes
  after : Bytes
  nameOk : IsToken name
  beforeOk : ∀ c ∈ before, isOws c = true
  valueOk : ∀ c ∈ value, isFieldChar c = true
  startOk : ∀ c ∈ value.head?, isOws c = false
  endOk : ∀ c ∈ value.getLast?, isOws c = false
  afterOk : ∀ c ∈ after, isOws c = true

/-- A header block: the version, the code and the reason of its status line, and its fields. -/
structure HttpHead where
  major : UInt8
  minor : UInt8
  code : Bytes
  reason : Bytes
  fields : List HttpField
  versionOk : isDigit 10 major = true ∧ isDigit 10 minor = true
  codeOk : code.length = 3 ∧ ∀ c ∈ code, isDigit 10 c = true
  reasonOk : ∀ c ∈ reason, isFieldChar c = true

/-- What stands behind the colon of a field. -/
def HttpField.rest (f : HttpField) : Bytes := f.before ++ f.value ++ f.after

/-- The line of a field. -/
def HttpField.text (f : HttpField) : Bytes := f.name ++ COLON :: f.rest

/-- The status line. -/
def HttpHead.statusText (h : HttpHead) : Bytes :=
  bytes "HTTP/" ++ (h.major :: 46 :: h.minor :: 32 :: h.code ++ 32 :: h.reason)

/-- The lines of a block. -/
def HttpHead.texts (h : HttpHead) : List Bytes := h.statusText :: h.fields.map HttpField.text

/-- Lines as they are sent. -/
def textsBlock (ts : List Bytes) : Bytes := ts.flatMap (· ++ CRLF)

/-- The last field of a name, compared without case. -/
def lastField (fields : List HttpField) (name : Bytes) : Option HttpField :=
  fields.reverse.find? fun f => eqIgnoreCase f.name name

/-! ### The property and the condition -/

/-- On a first read that holds the whole block, the header loop ends at the empty line, without a
copy of a negative length, and the table holds the last value of every field, without the white space
around it. -/
def HeadersKept (h : HttpHead) (body mem : Bytes) : Prop :=
  let first := textsBlock h.texts ++ CRLF ++ body
  ∃ t, Halts (fun n => runLoop (headerRound (store mem 0 first) first.length) n ⟨0, []⟩)
      (.ok ⟨(textsBlock h.texts).length, t⟩) ∧
    ∀ name, IsToken name → tableGet t name = (lastField h.fields name).map HttpField.value

/-- The line ends with its first colon. -/
def EndsAtColon (t : Bytes) : Prop :=
  ∃ k, t.findIdx? (· = COLON) = some k ∧ t.length < k + 2

/-- The field has exactly one byte of white space: in front of its value, if that is not empty. -/
def HttpField.OneSpace (f : HttpField) : Prop :=
  if f.value = [] then (f.before ++ f.after).length = 1 else f.before.length = 1 ∧ f.after = []

/-- No line ends with its first colon, and the last field of each name has one byte of white
space. -/
def HttpHead.Plain (h : HttpHead) : Prop :=
  (∀ t ∈ h.texts, ¬ EndsAtColon t) ∧
    ∀ name f, lastField h.fields name = some f → f.OneSpace

/-! ### Lines that the loop takes -/

/-- A line as it can stand in a block. -/
def ProperLine (t : Bytes) : Prop := t ≠ [] ∧ CR ∉ t ∧ 0 ∉ t

theorem exists_lines {ts : List Bytes} (h : ∀ t ∈ ts, ProperLine t)
    (hcolon : ∀ t ∈ ts, ¬ EndsAtColon t) : ∃ ls : List Line, ls.map Line.text = ts := by
  induction ts with
  | nil => exact ⟨[], rfl⟩
  | cons t ts ih =>
    rw [List.forall_mem_cons] at h hcolon
    obtain ⟨ls, hls⟩ := ih h.2 hcolon.2
    obtain ⟨hne, hcr, hnul⟩ := h.1
    refine ⟨⟨t, hne, hcr, hnul, fun k hk => ?_⟩ :: ls, by rw [List.map_cons, hls]⟩
    exact Nat.not_lt.mp fun hlt => hcolon.1 ⟨k, hk, hlt⟩

theorem linesText_map (ls : List Line) : linesText ls = textsBlock (ls.map Line.text) := by
  rw [linesText, textsBlock, List.flatMap_map]

/-- The table of a list of lines. -/
def textsTable (ts : List Bytes) : Table := ts.foldl addText []

/-- **The header loop takes proper lines**, up to the empty line, if none ends with its first
colon. -/
theorem headerLoop_texts {ts : List Bytes} (h : ∀ t ∈ ts, ProperLine t)
    (hcolon : ∀ t ∈ ts, ¬ EndsAtColon t) {first body : Bytes}
    (hfirst : first = textsBlock ts ++ CRLF ++ body) (mem : Bytes) :
    Halts (fun n => runLoop (headerRound (store mem 0 first) first.length) n ⟨0, []⟩)
      (.ok ⟨(textsBlock ts).length, textsTable ts⟩) := by
  obtain ⟨ls, rfl⟩ := exists_lines h hcolon
  rw [← linesText_map] at hfirst ⊢
  have hbuf : (store mem 0 first).drop 0 =
      linesText ls ++ CRLF ++ (body ++ mem.drop first.length) := by
    rw [List.drop_zero, store_zero]
    conv_lhs => rw [hfirst]
    simp only [List.append_assoc, hfirst]
  have hsize : 0 + (linesText ls).length < first.length := by
    rw [hfirst]
    simp only [List.length_append, CRLF, List.length_cons, List.length_nil]
    omega
  have hloop := headerLoop_lines ls 0 [] _ hbuf hsize
  rw [Nat.zero_add] at hloop
  rw [textsTable, List.foldl_map]
  exact hloop

/-- A line that ends with its first colon has a negative length left for its value. -/
theorem addHeader_faults {t : Bytes} (h : EndsAtColon t) (m : Bytes) (table : Table) :
    addHeader (t ++ m) t.length table = .error .fault := by
  obtain ⟨k, hk, hlt⟩ := h
  rw [addHeader, show (58 : UInt8) = COLON from rfl, memchr_append, hk]
  exact if_pos hlt

/-- **The header loop faults** at the first line that ends with its first colon. -/
theorem headerLoop_faults {good : List Bytes} {bad : Bytes} (hgood : ∀ t ∈ good, ProperLine t)
    (hcolon : ∀ t ∈ good, ¬ EndsAtColon t) (hproper : ProperLine bad) (hbad : EndsAtColon bad)
    {first more : Bytes} (hfirst : first = textsBlock good ++ (bad ++ CRLF ++ more)) (mem : Bytes) :
    Halts (fun n => runLoop (headerRound (store mem 0 first) first.length) n ⟨0, []⟩)
      (.error .fault) := by
  obtain ⟨ls, rfl⟩ := exists_lines hgood hcolon
  rw [← linesText_map] at hfirst
  have hbuf : (store mem 0 first).drop 0 =
      linesText ls ++ (bad ++ CRLF ++ (more ++ mem.drop first.length)) := by
    rw [List.drop_zero, store_zero]
    conv_lhs => rw [hfirst]
    simp only [List.append_assoc, hfirst]
  have hlen : 0 < bad.length := List.length_pos_iff.mpr hproper.1
  have hsize : 0 + (linesText ls).length < first.length := by
    rw [hfirst]
    simp only [List.length_append]
    omega
  obtain ⟨hsteps, hdrop⟩ := headerLoop_steps ls 0 [] _ hbuf hsize
  refine halts_of_steps hsteps (halts_inl ?_)
  have hline : bad.length - 1 + 1 = bad.length := by omega
  have hstr : strstr CRLF ((store mem 0 first).drop (0 + (linesText ls).length)) =
      some (bad.length - 1 + 1) := by
    rw [hdrop, strstr_line bad _ hproper.2.1 hproper.2.2, hline]
  have hadd : addHeader ((store mem 0 first).drop (0 + (linesText ls).length)) (bad.length - 1 + 1)
      (ls.foldl (fun t l => addText t l.text) []) = .error .fault := by
    rw [hdrop, List.append_assoc, hline]
    exact addHeader_faults hbad _ _
  simp only [headerRound, hstr, hadd]

/-! ### The lines of a block are proper -/

theorem isFieldChar_of_isOws {c : UInt8} (h : isOws c = true) : isFieldChar c = true := by
  simp only [isFieldChar, h, or_true, decide_true]

theorem HttpField.rest_chars (f : HttpField) : ∀ c ∈ f.rest, isFieldChar c = true := by
  intro c hc
  simp only [HttpField.rest, List.mem_append] at hc
  rcases hc with (hc | hc) | hc
  · exact isFieldChar_of_isOws (f.beforeOk c hc)
  · exact f.valueOk c hc
  · exact isFieldChar_of_isOws (f.afterOk c hc)

/-- Text without NUL and CR: every character satisfies a test that they fail. -/
theorem not_mem_of_chars {p : UInt8 → Bool} {l : Bytes} (h : ∀ c ∈ l, p c = true) {d : UInt8}
    (hd : p d = false) : d ∉ l := by
  intro hmem
  rw [h d hmem] at hd
  cases hd

theorem HttpField.proper (f : HttpField) : ProperLine f.text := by
  have hmem : ∀ d, isTchar d = false → isFieldChar d = false → d ≠ COLON → d ∉ f.text := by
    intro d htoken hfield hcolon hd
    rcases List.mem_append.mp hd with hd | hd
    · exact not_mem_of_chars f.nameOk.2 htoken hd
    · rcases List.mem_cons.mp hd with hd | hd
      · exact hcolon hd
      · exact not_mem_of_chars f.rest_chars hfield hd
  refine ⟨?_, hmem CR (by decide) (by decide) (by decide), hmem 0 (by decide) (by decide) (by decide)⟩
  exact List.append_ne_nil_of_left_ne_nil f.nameOk.1 _

theorem HttpHead.statusText_chars (h : HttpHead) : ∀ c ∈ h.statusText, isFieldChar c = true := by
  have hdigit : ∀ c, isDigit 10 c = true → isFieldChar c = true := by
    intro c hc
    have hge := digit_ge (by decide) hc
    have h33 : 33 ≤ c := UInt8.le_trans (by decide) hge
    have h127 : c ≠ 127 := by
      rintro rfl
      exact absurd hc (by decide)
    simp only [isFieldChar, h33, h127, ne_eq, not_false_eq_true, and_self, true_or, decide_true]
  intro c hc
  simp only [HttpHead.statusText, List.mem_append, List.mem_cons] at hc
  rcases hc with hc | ((rfl | rfl | rfl | rfl | hc) | rfl | hc)
  · revert c
    decide +kernel
  · exact hdigit _ h.versionOk.1
  · decide
  · exact hdigit _ h.versionOk.2
  · decide
  · exact hdigit _ (h.codeOk.2 c hc)
  · decide
  · exact h.reasonOk c hc

theorem HttpHead.texts_proper (h : HttpHead) : ∀ t ∈ h.texts, ProperLine t := by
  rw [HttpHead.texts, List.forall_mem_cons]
  refine ⟨⟨?_, not_mem_of_chars h.statusText_chars (by decide),
    not_mem_of_chars h.statusText_chars (by decide)⟩, ?_⟩
  · exact List.append_ne_nil_of_left_ne_nil (by decide) _
  · intro t ht
    obtain ⟨f, -, rfl⟩ := List.mem_map.mp ht
    exact f.proper

/-! ### The table of a block -/

/-- No character of a token is a `/`, in either case. -/
theorem toLower_ne_slash {c : UInt8} (h : isTchar c = true) : toLower c ≠ 47 := by
  unfold toLower
  split
  · next hupper =>
    intro heq
    have hc : c = 15 := by
      have hsub := congrArg (· - 32) heq
      simpa using hsub
    rw [hc] at hupper
    exact absurd hupper.1 (by decide)
  · rintro rfl
    exact absurd h (by decide)

/-- A text with a `/` is no token, whatever the case. -/
theorem not_eqIgnoreCase_slash {key name : Bytes} (hname : IsToken name) (h0 : 0 ∉ key)
    (hslash : 47 ∈ key) : eqIgnoreCase key name = false := by
  by_contra heq
  rw [Bool.not_eq_false, eqIgnoreCase, decide_eq_true_eq, cstr_of_not_mem h0] at heq
  have hmem : toLower 47 ∈ (cstr name).map toLower := heq ▸ List.mem_map_of_mem hslash
  obtain ⟨c, hc, hlower⟩ := List.mem_map.mp hmem
  have hin : c ∈ name := (List.takeWhile_prefix _).subset hc
  exact toLower_ne_slash (hname.2 c hin) (hlower.trans (by decide))

/-- The status line adds nothing under the name of a field. -/
theorem tableGet_status (h : HttpHead) {name : Bytes} (hname : IsToken name) (t : Table) :
    tableGet (addText t h.statusText) name = tableGet t name := by
  unfold addText
  split
  · rfl
  · next k hk =>
    have hkey : 47 ∈ h.statusText.take k := by
      have hno : (bytes "HTTP/").findIdx? (· = COLON) = none := by decide
      rw [HttpHead.statusText, List.findIdx?_append, hno, Option.none_or,
        Option.map_eq_some_iff] at hk
      obtain ⟨j, -, rfl⟩ := hk
      rw [HttpHead.statusText, Nat.add_comm, List.take_length_add_append]
      exact List.mem_append_left _ (by decide)
    have h0 : 0 ∉ h.statusText.take k := fun hmem =>
      (h.texts_proper _ List.mem_cons_self).2.2 ((List.take_prefix _ _).subset hmem)
    rw [tableGet_tableSet, not_eqIgnoreCase_slash hname h0 hkey]
    rfl

/-- A field sets its name to what stands two bytes behind it. -/
theorem addText_httpField (t : Table) (f : HttpField) :
    addText t f.text = tableSet t f.name (f.rest.drop 1) := by
  have hcolon : f.text.findIdx? (· = COLON) = some f.name.length :=
    findIdx?_append_of_not_mem COLON f.name _ (not_mem_of_chars f.nameOk.2 (by decide))
  have hkey : f.text.take f.name.length = f.name := List.take_left
  have hval : f.text.drop (f.name.length + 2) = f.rest.drop 1 := by
    rw [← List.drop_drop, HttpField.text, List.drop_left]
    rfl
  simp only [addText, hcolon, hkey, hval]

theorem lastField_append (fs : List HttpField) (f : HttpField) (name : Bytes) :
    lastField (fs ++ [f]) name =
      if eqIgnoreCase f.name name then some f else lastField fs name := by
  rw [lastField, List.reverse_append, List.reverse_singleton, List.singleton_append,
    List.find?_cons]
  cases eqIgnoreCase f.name name <;> rfl

theorem tableGet_fields (fs : List HttpField) (t : Table) (name : Bytes) :
    tableGet ((fs.map HttpField.text).foldl addText t) name =
      ((lastField fs name).map fun f => f.rest.drop 1).or (tableGet t name) := by
  induction fs using List.reverseRecOn with
  | nil => rfl
  | append_singleton fs f ih =>
    rw [List.map_append, List.map_singleton, List.foldl_append, List.foldl_cons, List.foldl_nil,
      addText_httpField, tableGet_tableSet, ih, lastField_append]
    cases eqIgnoreCase f.name name <;> rfl

/-- **What the table holds for a token**: what stands two bytes behind its last field's name. -/
theorem tableGet_texts (h : HttpHead) {name : Bytes} (hname : IsToken name) :
    tableGet (textsTable h.texts) name =
      (lastField h.fields name).map fun f => f.rest.drop 1 := by
  rw [textsTable, HttpHead.texts, List.foldl_cons, tableGet_fields, tableGet_status h hname]
  exact Option.or_none

/-! ### When the values are kept -/

/-- **The byte behind the colon is dropped**, and what is left is the value exactly if that byte is the
only white space. -/
theorem HttpField.drop_eq_value_iff (f : HttpField) (hne : f.rest ≠ []) :
    f.rest.drop 1 = f.value ↔ f.OneSpace := by
  have hpos := List.length_pos_iff.mpr hne
  have hlen : f.rest.length = f.before.length + f.value.length + f.after.length := by
    simp only [HttpField.rest, List.length_append]
  unfold HttpField.OneSpace
  constructor
  · intro heq
    have hdrop := congrArg List.length heq
    rw [List.length_drop] at hdrop
    have hone : f.before.length + f.after.length = 1 := by omega
    split
    · rw [List.length_append, hone]
    · next hvalue =>
      rcases Nat.eq_zero_or_pos f.before.length with hzero | hbefore
      · -- the white space would stand behind the value, and be its last character
        have hnil := List.length_eq_zero_iff.mp hzero
        obtain ⟨w, hw⟩ : ∃ w, f.after = [w] := List.length_eq_one_iff.mp (by omega)
        obtain ⟨c, v, hv⟩ := List.exists_cons_of_ne_nil hvalue
        have hlast : v ++ [w] = f.value := by
          rw [← heq, HttpField.rest, hnil, hw, hv]
          rfl
        have hws := f.endOk w (by rw [← hlast, List.getLast?_concat]; rfl)
        rw [f.afterOk w (by rw [hw]; exact List.mem_singleton.mpr rfl)] at hws
        cases hws
      · exact ⟨by omega, List.length_eq_zero_iff.mp (by omega)⟩
  · intro h
    split at h
    · next hvalue =>
      rw [List.length_append] at h
      rw [hvalue] at hlen ⊢
      rw [List.length_nil] at hlen
      exact List.drop_eq_nil_of_le (by omega)
    · obtain ⟨hbefore, hafter⟩ := h
      rw [HttpField.rest, hafter, List.append_nil, ← hbefore, List.drop_left]

theorem HttpField.rest_ne_nil {f : HttpField} (h : ¬ EndsAtColon f.text) : f.rest ≠ [] := by
  intro hnil
  refine h ⟨f.name.length,
    findIdx?_append_of_not_mem COLON f.name _ (not_mem_of_chars f.nameOk.2 (by decide)), ?_⟩
  rw [HttpField.text, hnil, List.length_append, List.length_singleton]
  omega

theorem mem_of_lastField {fields : List HttpField} {name : Bytes} {f : HttpField}
    (h : lastField fields name = some f) : f ∈ fields :=
  List.mem_reverse.mp (List.mem_of_find?_eq_some h)

/-- The first line that ends with its first colon, if there is one. -/
theorem texts_split {ts : List Bytes} (h : ¬ ∀ t ∈ ts, ¬ EndsAtColon t) :
    ∃ good bad rest, ts = good ++ bad :: rest ∧ (∀ t ∈ good, ¬ EndsAtColon t) ∧
      EndsAtColon bad := by
  induction ts with
  | nil =>
    refine absurd ?_ h
    intro t ht
    cases ht
  | cons t ts ih =>
    by_cases ht : EndsAtColon t
    · refine ⟨[], t, ts, rfl, ?_, ht⟩
      intro t' ht'
      cases ht'
    · obtain ⟨good, bad, rest, hts, hgood, hbad⟩ :=
        ih fun hall => h (List.forall_mem_cons.mpr ⟨ht, hall⟩)
      exact ⟨t :: good, bad, rest, by rw [hts]; rfl, List.forall_mem_cons.mpr ⟨ht, hgood⟩, hbad⟩

theorem noColonEnd_of_kept {h : HttpHead} {body mem : Bytes} (hkept : HeadersKept h body mem) :
    ∀ t ∈ h.texts, ¬ EndsAtColon t := by
  obtain ⟨t, hhalts, -⟩ := hkept
  by_contra hsome
  obtain ⟨good, bad, rest, htexts, hgood, hbad⟩ := texts_split hsome
  have hproper := h.texts_proper
  rw [htexts, List.forall_mem_append, List.forall_mem_cons] at hproper
  have hfaults := headerLoop_faults hproper.1 hgood hproper.2.1 hbad
    (show textsBlock h.texts ++ CRLF ++ body =
        textsBlock good ++ (bad ++ CRLF ++ (textsBlock rest ++ CRLF ++ body)) by
      rw [htexts]
      simp [textsBlock]) mem
  cases hfaults.unique hhalts

theorem plain_of_kept {h : HttpHead} {body mem : Bytes} (hkept : HeadersKept h body mem) :
    h.Plain := by
  have hcolon := noColonEnd_of_kept hkept
  refine ⟨hcolon, fun name f hlast => ?_⟩
  obtain ⟨t, hhalts, hvalues⟩ := hkept
  have hends := (headerLoop_texts h.texts_proper hcolon rfl mem).unique hhalts
  cases hends
  have hsame : lastField h.fields f.name = some f := by
    rw [← hlast]
    have hmatch := List.find?_some hlast
    unfold lastField
    congr 1
    funext g
    rw [Bool.eq_iff_iff]
    exact ⟨fun hg => eqIgnoreCase_trans hg hmatch,
      fun hg => eqIgnoreCase_trans hg (eqIgnoreCase_comm f.name name ▸ hmatch)⟩
  have hvalue := hvalues f.name f.nameOk
  rw [tableGet_texts h f.nameOk, hsame] at hvalue
  have hrest : f.rest ≠ [] := HttpField.rest_ne_nil (hcolon _
    (List.mem_cons_of_mem _ (List.mem_map_of_mem (mem_of_lastField hlast))))
  exact (f.drop_eq_value_iff hrest).mp (Option.some.inj hvalue)

theorem kept_of_plain {h : HttpHead} (hplain : h.Plain) (body mem : Bytes) :
    HeadersKept h body mem := by
  obtain ⟨hcolon, hone⟩ := hplain
  refine ⟨textsTable h.texts, headerLoop_texts h.texts_proper hcolon rfl mem, ?_⟩
  intro name hname
  rw [tableGet_texts h hname]
  cases hlast : lastField h.fields name with
  | none => rfl
  | some f =>
    have hrest : f.rest ≠ [] := HttpField.rest_ne_nil (hcolon _
      (List.mem_cons_of_mem _ (List.mem_map_of_mem (mem_of_lastField hlast))))
    exact congrArg some ((f.drop_eq_value_iff hrest).mpr (hone name f hlast))

/-- **The header loop keeps every value** if and only if no line ends with its first colon and the
last field of each name has exactly one byte of white space. -/
theorem headersKept_iff (h : HttpHead) (body mem : Bytes) : HeadersKept h body mem ↔ h.Plain :=
  ⟨plain_of_kept, fun hplain => kept_of_plain hplain body mem⟩

/-- `Content-Length:3`, without white space. -/
def tightField : HttpField where
  name := bytes "Content-Length"
  before := []
  value := bytes "3"
  after := []
  nameOk := ⟨by decide +kernel, by decide +kernel⟩
  beforeOk := by decide +kernel
  valueOk := by decide +kernel
  startOk := by decide +kernel
  endOk := by decide +kernel
  afterOk := by decide +kernel

def tightHead : HttpHead where
  major := 49
  minor := 49
  code := bytes "200"
  reason := bytes "OK"
  fields := [tightField]
  versionOk := by decide +kernel
  codeOk := ⟨by decide +kernel, by decide +kernel⟩
  reasonOk := by decide +kernel

/-- Without white space behind the colon the first byte of the value is lost. -/
theorem tightField_lost : ¬ ∀ (h : HttpHead) (body mem : Bytes), HeadersKept h body mem := by
  intro hall
  have hone := (plain_of_kept (hall tightHead [] [])).2 (bytes "Content-Length") tightField (by rfl)
  rw [HttpField.OneSpace, if_neg (show tightField.value ≠ [] by decide)] at hone
  exact absurd hone.1 (by decide)

end Flood.HttpHeaders
