import Flood.Subst

/-!
# The lines of a substitution file

`subst_file_entry_get` seeks to an offset, drops what is left of the line there and takes the next
one, or at the end of the file the first; whatever it has read, it cuts off the last character.

* `countP_pieceAt` — the offsets into a list of pieces, counted by the piece they lie in.
* `substFileEntryGet_eq` — the call reads the line behind the one that holds the offset.
* `entryGet_cyclic` — in a file of whole lines every line comes up, as often as the line in front of
  it is long.
* `entryGet_complete_iff` — which lines come back complete in any file of lines.
-/

namespace Flood.SubstLines

open Flood.CString Flood.Net Flood.Subst

/-! ### Pieces of a list -/

section Pieces

variable {α : Type*}

/-- The number of the piece that holds an offset. -/
def pieceAt : List (List α) → ℕ → ℕ
  | [], _ => 0
  | p :: ps, o => if o < p.length then 0 else pieceAt ps (o - p.length) + 1

theorem pieceAt_lt {ps : List (List α)} {o : ℕ} (h : o < ps.flatten.length) :
    pieceAt ps o < ps.length := by
  induction ps generalizing o with
  | nil => cases h
  | cons p ps ih =>
    rw [List.flatten_cons, List.length_append] at h
    rw [pieceAt, List.length_cons]
    split
    · omega
    · have := ih (o := o - p.length) (by omega)
      omega

/-- From an offset on stand the rest of its piece and the pieces behind. -/
theorem drop_flatten {ps : List (List α)} {o : ℕ} (h : o < ps.flatten.length) :
    ∃ p q, ps[pieceAt ps o]? = some p ∧ q <:+ p ∧ q ≠ [] ∧
      ps.flatten.drop o = q ++ (ps.drop (pieceAt ps o + 1)).flatten := by
  induction ps generalizing o with
  | nil => cases h
  | cons p ps ih =>
    rw [List.flatten_cons, List.length_append] at h
    rw [pieceAt]
    by_cases ho : o < p.length
    · rw [if_pos ho]
      refine ⟨p, p.drop o, rfl, List.drop_suffix o p, ?_, ?_⟩
      · rw [ne_eq, List.drop_eq_nil_iff]
        omega
      · rw [List.flatten_cons, List.drop_append_of_le_length ho.le]
        rfl
    · rw [if_neg ho]
      obtain ⟨p', q, hp', hq, hne, hdrop⟩ := ih (o := o - p.length) (by omega)
      refine ⟨p', q, hp', hq, hne, ?_⟩
      have hsplit : o = p.length + (o - p.length) := by omega
      rw [List.flatten_cons, hsplit, List.drop_length_add_append, Nat.add_sub_cancel_left, hdrop]
      rfl

/-- **Every piece holds as many offsets as it is long.** -/
theorem countP_pieceAt (ps : List (List α)) (j : ℕ) :
    (List.range ps.flatten.length).countP (fun o => pieceAt ps o = j) = (ps.getD j []).length := by
  induction ps generalizing j with
  | nil => rfl
  | cons p ps ih =>
    rw [List.flatten_cons, List.length_append, List.range_add, List.countP_append, List.countP_map]
    have hfirst : (List.range p.length).countP (fun o => pieceAt (p :: ps) o = j) =
        if j = 0 then p.length else 0 := by
      have hzero : ∀ o ∈ List.range p.length, pieceAt (p :: ps) o = 0 := by
        intro o ho
        rw [pieceAt, if_pos (List.mem_range.mp ho)]
      split
      · next hj =>
        subst hj
        rw [List.countP_eq_length.mpr fun o ho => by simp [hzero o ho], List.length_range]
      · next hj =>
        exact List.countP_eq_zero.mpr fun o ho => by simp [hzero o ho, Ne.symm hj]
    have hrest : ∀ o, pieceAt (p :: ps) (p.length + o) = pieceAt ps o + 1 := by
      intro o
      rw [pieceAt, if_neg (by omega), Nat.add_sub_cancel_left]
    rw [hfirst]
    simp only [Function.comp_def, hrest]
    cases j with
    | zero => simp
    | succ j =>
      have hih := ih j
      simp only [Nat.add_right_cancel_iff, hih]
      simp

end Pieces

/-! ### Files of lines -/

/-- The bytes of each line, the last one with a newline only if the file ends in one. -/
def pieces (ended : Bool) : List Bytes → List Bytes
  | [] => []
  | l :: ls => (if ended || !ls.isEmpty then l ++ [LF] else l) :: pieces ended ls

/-- A text file: its lines, and whether a newline ends the last one. -/
structure TextFile where
  lines : List Bytes
  ended : Bool
  someLine : lines ≠ []
  noLF : ∀ l ∈ lines, LF ∉ l
  lastLine : ended = true ∨ lines.getLast? ≠ some []

namespace TextFile

/-- The content of the file. -/
def text (f : TextFile) : Bytes := (pieces f.ended f.lines).flatten

/-- A newline ends the line. -/
def Closed (f : TextFile) (i : ℕ) : Prop := f.ended = true ∨ i + 1 < f.lines.length

instance (f : TextFile) (i : ℕ) : Decidable (f.Closed i) :=
  inferInstanceAs (Decidable (_ ∨ _))

/-- Each line is shorter than `line_size - 1`. -/
def Fits (f : TextFile) (lineSize : ℕ) : Prop := ∀ l ∈ f.lines, l.length < lineSize - 1

/-- The number of the line that holds an offset. -/
def lineAt (f : TextFile) (o : ℕ) : ℕ := pieceAt (pieces f.ended f.lines) o

/-- The number of the line behind it, the first line being behind the last. -/
def lineBehind (f : TextFile) (o : ℕ) : ℕ := (f.lineAt o + 1) % f.lines.length

def line (f : TextFile) (i : ℕ) : Bytes := f.lines.getD i []

end TextFile

/-- The record is opened on the file. -/
structure Holds (r : SubstRec) (f : TextFile) : Prop where
  file : r.file = f.text
  fsize : r.fsize = f.text.length

theorem pieces_getElem? (ended : Bool) (ls : List Bytes) (i : ℕ) :
    (pieces ended ls)[i]? =
      ls[i]?.map fun l => if ended = true ∨ i + 1 < ls.length then l ++ [LF] else l := by
  induction ls generalizing i with
  | nil => rfl
  | cons l ls ih =>
    cases i with
    | zero =>
      cases ls with
      | nil => cases ended <;> rfl
      | cons l' ls => simp [pieces]
    | succ i =>
      simp only [pieces, List.getElem?_cons_succ, ih, List.length_cons, Nat.add_lt_add_iff_right]

theorem pieces_length (ended : Bool) (ls : List Bytes) : (pieces ended ls).length = ls.length := by
  induction ls with
  | nil => rfl
  | cons l ls ih => rw [pieces, List.length_cons, ih, List.length_cons]

namespace TextFile

variable (f : TextFile)

theorem length_pos : 0 < f.lines.length := List.length_pos_iff.mpr f.someLine

theorem lines_getElem? {i : ℕ} (h : i < f.lines.length) : f.lines[i]? = some (f.line i) := by
  rw [line, List.getD_eq_getElem?_getD, List.getElem?_eq_getElem h]
  rfl

theorem line_mem {i : ℕ} (h : i < f.lines.length) : f.line i ∈ f.lines :=
  List.mem_of_getElem? (f.lines_getElem? h)

theorem piece_eq {i : ℕ} (h : i < f.lines.length) :
    (pieces f.ended f.lines)[i]? = some (if f.Closed i then f.line i ++ [LF] else f.line i) := by
  rw [pieces_getElem?, f.lines_getElem? h]
  rfl

/-- A line without a newline is the last one. -/
theorem last_of_not_closed {i : ℕ} (h : i < f.lines.length) (hc : ¬ f.Closed i) :
    i + 1 = f.lines.length := by
  rw [Closed, not_or] at hc
  omega

theorem line_ne_nil_of_not_closed {i : ℕ} (h : i < f.lines.length) (hc : ¬ f.Closed i) :
    f.line i ≠ [] := by
  have hlast := f.last_of_not_closed h hc
  have hline : f.lines.getLast? = some (f.line i) := by
    rw [List.getLast?_eq_getElem?, ← hlast, Nat.add_sub_cancel]
    exact f.lines_getElem? h
  intro hnil
  rcases f.lastLine with hend | hne
  · exact hc (.inl hend)
  · rw [hline, hnil] at hne
    exact hne rfl

theorem piece_ne_nil {i : ℕ} (h : i < f.lines.length) :
    (if f.Closed i then f.line i ++ [LF] else f.line i) ≠ [] := by
  split
  · simp
  · next hc => exact f.line_ne_nil_of_not_closed h hc

theorem text_ne_nil : f.text ≠ [] := by
  intro h
  have hmem := List.mem_of_getElem? (f.piece_eq f.length_pos)
  exact f.piece_ne_nil f.length_pos (List.flatten_eq_nil_iff.mp h _ hmem)

theorem lineAt_lt {o : ℕ} (h : o < f.text.length) : f.lineAt o < f.lines.length := by
  rw [← pieces_length f.ended]
  exact pieceAt_lt h

theorem lineBehind_lt (o : ℕ) : f.lineBehind o < f.lines.length := Nat.mod_lt _ f.length_pos

end TextFile

/-! ### Reading the next line -/

variable {f : TextFile} {lineSize : ℕ}

/-- From inside a line `apr_file_gets` reads to its end. -/
theorem gets_piece (hfit : f.Fits lineSize) {i : ℕ} (hi : i < f.lines.length) {q : Bytes}
    (hq : q <:+ if f.Closed i then f.line i ++ [LF] else f.line i) (hne : q ≠ []) :
    aprFileGets (lineSize - 1) (q ++ ((pieces f.ended f.lines).drop (i + 1)).flatten) =
      (q, ((pieces f.ended f.lines).drop (i + 1)).flatten) := by
  have hlf := f.noLF _ (f.line_mem hi)
  have hlen := hfit _ (f.line_mem hi)
  split at hq
  · rcases List.suffix_concat_iff.mp hq with rfl | ⟨t, rfl, ht⟩
    · exact absurd rfl hne
    · have htlen := ht.length_le
      rw [List.append_assoc]
      exact aprFileGets_line (fun h => hlf (ht.subset h)) (by omega) _
  · next hc =>
    have hqlen := hq.length_le
    have hdrop : (pieces f.ended f.lines).drop (i + 1) = [] := by
      rw [List.drop_eq_nil_iff, pieces_length, f.last_of_not_closed hi hc]
    rw [hdrop, List.flatten_nil, List.append_nil]
    exact aprFileGets_rest (fun h => hlf (hq.subset h)) (by omega)

/-- From the start of a line it reads that line. -/
theorem gets_line (hfit : f.Fits lineSize) {i : ℕ} (hi : i < f.lines.length) :
    aprFileGets (lineSize - 1) ((pieces f.ended f.lines).drop i).flatten =
      (if f.Closed i then f.line i ++ [LF] else f.line i,
        ((pieces f.ended f.lines).drop (i + 1)).flatten) := by
  have hget := gets_piece hfit hi List.suffix_rfl (f.piece_ne_nil hi)
  have hlen : i < (pieces f.ended f.lines).length := by rwa [pieces_length]
  have hpiece := f.piece_eq hi
  rw [List.getElem?_eq_getElem hlen, Option.some.injEq] at hpiece
  rw [List.drop_eq_getElem_cons hlen, List.flatten_cons, hpiece, hget]

/-- Behind the rest of the line at an offset stands the next line; at the end of the file the first
one is read instead. -/
theorem next_line (hfit : f.Fits lineSize) {o : ℕ} (ho : o < f.text.length) :
    (let behind := (aprFileGets (lineSize - 1) (f.text.drop o)).2
      let next := (aprFileGets (lineSize - 1) behind).1
      if next = [] then (aprFileGets (lineSize - 1) f.text).1 else next) =
      if f.Closed (f.lineBehind o) then f.line (f.lineBehind o) ++ [LF]
        else f.line (f.lineBehind o) := by
  have hk := f.lineAt_lt ho
  have hbehind : (aprFileGets (lineSize - 1) (f.text.drop o)).2 =
      ((pieces f.ended f.lines).drop (f.lineAt o + 1)).flatten := by
    obtain ⟨p, q, hp, hq, hne, hdrop⟩ := drop_flatten ho
    rw [show pieceAt (pieces f.ended f.lines) o = f.lineAt o from rfl, f.piece_eq hk,
      Option.some.injEq] at hp
    rw [← hp] at hq
    rw [TextFile.text, hdrop]
    exact congrArg Prod.snd (gets_piece hfit hk hq hne)
  simp only [hbehind]
  by_cases hlast : f.lineAt o + 1 < f.lines.length
  · have hnum : f.lineBehind o = f.lineAt o + 1 := Nat.mod_eq_of_lt hlast
    rw [gets_line hfit hlast, hnum, if_neg (f.piece_ne_nil hlast)]
  · have hnum : f.lineBehind o = 0 := by
      rw [TextFile.lineBehind, show f.lineAt o + 1 = f.lines.length by omega, Nat.mod_self]
    have hnil : (pieces f.ended f.lines).drop (f.lineAt o + 1) = [] := by
      rw [List.drop_eq_nil_iff, pieces_length]
      omega
    have hempty : (aprFileGets (lineSize - 1) []).1 = [] := by
      cases lineSize - 1 <;> rfl
    have hfirst := gets_line hfit f.length_pos
    rw [List.drop_zero] at hfirst
    rw [hnil, List.flatten_nil, if_pos hempty, hnum, TextFile.text, hfirst]

/-- What `subst_file_entry_get` makes of the bytes read: their C string without its last character,
whichever that is. -/
def strip (bs : Bytes) : Except Abort Bytes :=
  if cstr bs = [] then .error .fault else .ok (cstr bs).dropLast

/-- **The line that is read** is the one behind the line that holds the offset. -/
theorem substFileEntryGet_eq (hfit : f.Fits lineSize) {r : SubstRec} (hr : Holds r f) (random : ℕ) :
    substFileEntryGet r random lineSize =
      let i := f.lineBehind (random % r.fsize)
      strip (if f.Closed i then f.line i ++ [LF] else f.line i) := by
  have hpos : 0 < f.text.length := List.length_pos_iff.mpr f.text_ne_nil
  have hsize := hfit _ (f.line_mem f.length_pos)
  have hlineSize : ¬ (lineSize = 0 ∨ r.fsize = 0) := by
    rw [hr.fsize]
    omega
  have ho : random % r.fsize < f.text.length := by
    rw [hr.fsize]
    exact Nat.mod_lt _ hpos
  have hnext := next_line hfit ho
  simp only [← hr.file] at hnext
  simp only [substFileEntryGet, if_neg hlineSize, hnext]
  rfl

/-- A line without a NUL comes back whole if a newline ends it. -/
theorem strip_closed {l : Bytes} (hnul : 0 ∉ l) : strip (l ++ [LF]) = .ok l := by
  have hcstr : cstr (l ++ [LF]) = l ++ [LF] := cstr_of_not_mem (by simpa [LF] using hnul)
  rw [strip, hcstr, if_neg (by simp), List.dropLast_concat]

/-! ### A file of whole lines -/

/-- **Every line in turn**: in a file of whole lines the call returns the line behind the one that
holds the offset. -/
theorem entryGet_line (hend : f.ended = true) (hnul : ∀ l ∈ f.lines, 0 ∉ l)
    (hfit : f.Fits lineSize) {r : SubstRec} (hr : Holds r f) (random : ℕ) :
    substFileEntryGet r random lineSize = .ok (f.line (f.lineBehind (random % r.fsize))) := by
  have hi := f.lineBehind_lt (random % r.fsize)
  rw [substFileEntryGet_eq hfit hr]
  show strip (if f.Closed _ then _ else _) = _
  rw [if_pos (.inl hend), strip_closed (hnul _ (f.line_mem hi))]

/-- The line behind line `i` is line `j` exactly when line `i` is in front of line `j`. -/
theorem succ_mod_eq_iff {i j n : ℕ} (hi : i < n) (hj : j < n) :
    (i + 1) % n = j ↔ i = (j + (n - 1)) % n := by
  rcases Nat.lt_or_ge (i + 1) n with h | h
  · rw [Nat.mod_eq_of_lt h]
    rcases Nat.eq_zero_or_pos j with rfl | hj0
    · rw [Nat.zero_add, Nat.mod_eq_of_lt (by omega)]
      omega
    · rw [show j + (n - 1) = j - 1 + n by omega, Nat.add_mod_right, Nat.mod_eq_of_lt (by omega)]
      omega
  · rw [show i + 1 = n by omega, Nat.mod_self]
    rcases Nat.eq_zero_or_pos j with rfl | hj0
    · rw [Nat.zero_add, Nat.mod_eq_of_lt (by omega)]
      omega
    · rw [show j + (n - 1) = j - 1 + n by omega, Nat.add_mod_right, Nat.mod_eq_of_lt (by omega)]
      omega

/-- **How often a line comes up**: for as many offsets as the line in front of it has bytes. -/
theorem countP_lineBehind (hend : f.ended = true) {j : ℕ} (hj : j < f.lines.length) :
    (List.range f.text.length).countP (fun o => f.lineBehind o = j) =
      (f.line ((j + (f.lines.length - 1)) % f.lines.length)).length + 1 := by
  have hprev : (j + (f.lines.length - 1)) % f.lines.length < f.lines.length :=
    Nat.mod_lt _ f.length_pos
  have hcongr : (List.range f.text.length).countP (fun o => f.lineBehind o = j) =
      (List.range f.text.length).countP
        (fun o => f.lineAt o = (j + (f.lines.length - 1)) % f.lines.length) := by
    refine List.countP_congr fun o ho => ?_
    have hlt := f.lineAt_lt (List.mem_range.mp ho)
    simp only [decide_eq_true_eq]
    exact succ_mod_eq_iff hlt hj
  have hpiece := f.piece_eq hprev
  rw [if_pos (.inl hend)] at hpiece
  rw [hcongr]
  refine (countP_pieceAt (pieces f.ended f.lines) _).trans ?_
  rw [List.getD_eq_getElem?_getD, hpiece, Option.getD_some, List.length_append,
    List.length_singleton]

/-- **Every line of a file of whole lines comes up**, in cyclic order and as often as the line in
front of it is long. -/
theorem entryGet_cyclic (hend : f.ended = true) (hnul : ∀ l ∈ f.lines, 0 ∉ l)
    (hfit : f.Fits lineSize) {r : SubstRec} (hr : Holds r f) :
    (∀ random, substFileEntryGet r random lineSize =
      .ok (f.line ((f.lineAt (random % r.fsize) + 1) % f.lines.length))) ∧
    (∀ j < f.lines.length, ∃ o < r.fsize, (f.lineAt o + 1) % f.lines.length = j ∧
      substFileEntryGet r o lineSize = .ok (f.line j)) ∧
    ∀ j < f.lines.length,
      (List.range r.fsize).countP (fun o => (f.lineAt o + 1) % f.lines.length = j) =
        (f.line ((j + (f.lines.length - 1)) % f.lines.length)).length + 1 := by
  refine ⟨entryGet_line hend hnul hfit hr, ?_, ?_⟩
  · intro j hj
    have hcount := countP_lineBehind hend hj
    have hpos : 0 < (List.range f.text.length).countP (fun o => f.lineBehind o = j) := by
      omega
    obtain ⟨o, ho, hline⟩ := List.countP_pos_iff.mp hpos
    rw [decide_eq_true_eq] at hline
    have hlt : o < r.fsize := by
      rw [hr.fsize]
      exact List.mem_range.mp ho
    have hget := entryGet_line hend hnul hfit hr o
    rw [Nat.mod_eq_of_lt hlt, hline] at hget
    exact ⟨o, hlt, hline, hget⟩
  · intro j hj
    rw [hr.fsize]
    exact countP_lineBehind hend hj

/-- The record of a text file. -/
def TextFile.record (f : TextFile) : SubstRec := ⟨none, none, f.text, f.text.length, true⟩

theorem TextFile.holds_record (f : TextFile) : Holds f.record f := ⟨rfl, rfl⟩

/-- The file of the lines `a` and `bc`, with or without the last newline. -/
def twoLines (ended : Bool) : TextFile where
  lines := [bytes "a", bytes "bc"]
  ended := ended
  someLine := by simp
  noLF := by decide +kernel
  lastLine := .inr (by decide +kernel)

theorem twoLines_fits (ended : Bool) : (twoLines ended).Fits 8096 := by
  intro l hl
  have hlen : ∀ l ∈ [bytes "a", bytes "bc"], l.length < 8095 := by decide +kernel
  exact hlen l hl

/-- With both newlines `bc` comes up for the two offsets in the line `a`. -/
theorem entryGet_cyclic_twoLines :
    (∀ random, substFileEntryGet (twoLines true).record random 8096 =
      .ok ((twoLines true).line (((twoLines true).lineAt (random % 5) + 1) % 2))) ∧
    (∀ j < 2, ∃ o < 5, ((twoLines true).lineAt o + 1) % 2 = j ∧
      substFileEntryGet (twoLines true).record o 8096 = .ok ((twoLines true).line j)) ∧
    ∀ j < 2, (List.range 5).countP (fun o => ((twoLines true).lineAt o + 1) % 2 = j) =
      ((twoLines true).line ((j + 1) % 2)).length + 1 :=
  entryGet_cyclic rfl (by decide +kernel) (twoLines_fits true) (twoLines true).holds_record

/-! ### Any file of lines -/

/-- A line that holds a NUL, or that no newline ends, loses what stands from the NUL on and one
character more. -/
theorem strip_of_not_whole {i : ℕ} (h : ¬ (0 ∉ f.line i ∧ f.Closed i)) :
    strip (if f.Closed i then f.line i ++ [LF] else f.line i) =
      if cstr (f.line i) = [] then .error .fault else .ok (cstr (f.line i)).dropLast := by
  split
  · next hc =>
    have hnul : 0 ∈ f.line i := by
      by_contra hnul
      exact h ⟨hnul, hc⟩
    have hcstr : cstr (f.line i ++ [LF]) = cstr (f.line i) := by
      rw [cstr, cstr, List.takeWhile_append, if_neg]
      intro hlen
      have hall := List.takeWhile_eq_self_iff.mp
        ((List.takeWhile_prefix (p := (· ≠ (0 : UInt8))) (l := f.line i)).eq_of_length hlen)
      simpa using hall 0 hnul
    rw [strip, hcstr]
  · rfl

/-- **Which lines come back complete**: the line that is read comes back as it is exactly when it
holds no NUL and a newline ends it; else the call returns a line of the file only if what is left
behind the cut happens to be one. -/
theorem entryGet_complete_iff (hne : ∀ l ∈ f.lines, l ≠ []) (hfit : f.Fits lineSize)
    {r : SubstRec} (hr : Holds r f) (random : ℕ) :
    let i := f.lineBehind (random % r.fsize)
    (substFileEntryGet r random lineSize = .ok (f.line i) ↔ 0 ∉ f.line i ∧ f.Closed i) ∧
    ((∃ l ∈ f.lines, l ≠ [] ∧ substFileEntryGet r random lineSize = .ok l) ↔
      (0 ∉ f.line i ∧ f.Closed i) ∨
        (cstr (f.line i) ≠ [] ∧ (cstr (f.line i)).dropLast ∈ f.lines)) := by
  intro i
  have hi : i < f.lines.length := f.lineBehind_lt _
  have hmem := f.line_mem hi
  have hget : substFileEntryGet r random lineSize =
      strip (if f.Closed i then f.line i ++ [LF] else f.line i) := substFileEntryGet_eq hfit hr random
  by_cases hwhole : 0 ∉ f.line i ∧ f.Closed i
  · rw [if_pos hwhole.2, strip_closed hwhole.1] at hget
    exact ⟨iff_of_true hget hwhole,
      iff_of_true ⟨f.line i, hmem, hne _ hmem, hget⟩ (.inl hwhole)⟩
  · rw [strip_of_not_whole hwhole] at hget
    constructor
    · refine iff_of_false ?_ hwhole
      rw [hget]
      intro h
      split at h
      · cases h
      · next hcstr =>
        have hlen : (cstr (f.line i)).length ≤ (f.line i).length :=
          (List.takeWhile_prefix _).length_le
        have hpos : 0 < (cstr (f.line i)).length := List.length_pos_iff.mpr hcstr
        rw [Except.ok.injEq] at h
        have hdrop := congrArg List.length h
        rw [List.length_dropLast] at hdrop
        omega
    · rw [or_iff_right hwhole, hget]
      split
      · next hcstr =>
        refine iff_of_false ?_ fun h => h.1 hcstr
        intro h
        obtain ⟨l, -, -, h⟩ := h
        cases h
      · next hcstr =>
        constructor
        · intro h
          obtain ⟨l, hl, -, h⟩ := h
          rw [Except.ok.injEq] at h
          exact ⟨hcstr, h ▸ hl⟩
        · intro h
          exact ⟨_, h.2, hne _ h.2, rfl⟩

/-- Without the last newline the line `a` still comes back. -/
theorem entryGet_complete_twoLines :
    (substFileEntryGet (twoLines false).record 3 8096 = .ok (bytes "a") ↔
      0 ∉ bytes "a" ∧ (twoLines false).Closed 0) ∧
    ((∃ l ∈ (twoLines false).lines, l ≠ [] ∧
        substFileEntryGet (twoLines false).record 3 8096 = .ok l) ↔
      (0 ∉ bytes "a" ∧ (twoLines false).Closed 0) ∨
        (cstr (bytes "a") ≠ [] ∧ (cstr (bytes "a")).dropLast ∈ (twoLines false).lines)) :=
  entryGet_complete_iff (by decide +kernel) (twoLines_fits false) (twoLines false).holds_record 3

/-- Without the last newline the call returns `b`, which is no line of the file. -/
theorem noNewline_truncates :
    ¬ ∀ (f : TextFile) (lineSize : ℕ), (∀ l ∈ f.lines, l ≠ []) → f.Fits lineSize →
      ∀ r, Holds r f → ∀ random, ∃ l ∈ f.lines, substFileEntryGet r random lineSize = .ok l := by
  intro h
  obtain ⟨l, hl, hget⟩ := h (twoLines false) 8096 (by decide +kernel) (twoLines_fits false)
    (twoLines false).record (twoLines false).holds_record 0
  have hshort : substFileEntryGet (twoLines false).record 0 8096 = .ok (bytes "b") := by
    decide +kernel
  rw [hshort, Except.ok.injEq] at hget
  have hno : bytes "b" ∉ (twoLines false).lines := by decide +kernel
  exact hno (hget ▸ hl)

end Flood.SubstLines
