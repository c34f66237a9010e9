import Flood.Loop
import Flood.Pieces
import Flood.ProfileInit

/-!
# The items of a sequence list

`parse_xml_seq_info` counts the commas of a `sequencelist`, and copies what stands between them into
an array of that many cells and one; `count_xml_seq_child` counts the same commas for the number of
slots.  Here the code runs on memory that ends with the terminator of the text: a read behind it is a
fault, and so is a copy whose end stands in front of its start.

* `strchrReads_eq`, `spacesReads_eq`, `pstrdupReads_eq` — what is read of a terminated string.
* `countReads_from` — the counter goes from comma to comma, and stops at the terminator.
* `splitReads_eq` — with `cur` and `end` inside the text the copies stay inside it, and are those of
  `splitLoop`.
* `seqlist_items` — the items of a list, as they are counted and as they are copied.
-/

namespace Flood.SequenceItems

open Flood.CString Flood.Loop Flood.Net Flood.Config Flood.ProfileInit Flood.Pieces

/-! ### Reading a string -/

/-- `strchr(s, c)`; `s` is the memory from the pointer on, and what is not there is not read. -/
def strchrReads (c : UInt8) : Bytes → Except Abort (Option ℕ)
  | [] => .error .fault
  | d :: s =>
    if d = c then .ok (some 0)
    else if d = 0 then .ok none
    else (strchrReads c s).map (Option.map (· + 1))

/-- `while (apr_isspace(*cur)) cur++`: by how much `cur` moves. -/
def spacesReads : Bytes → Except Abort ℕ
  | [] => .error .fault
  | d :: s => if isSpace d then (spacesReads s).map (· + 1) else .ok 0

/-- `apr_pstrmemdup(pool, s, n)` -/
def pstrmemdupReads (s : Bytes) (n : ℕ) : Except Abort Bytes :=
  if n ≤ s.length then .ok (s.take n) else .error .fault

/-- `apr_pstrdup(pool, s)` -/
def pstrdupReads : Bytes → Except Abort Bytes
  | [] => .error .fault
  | d :: s => if d = 0 then .ok [] else (pstrdupReads s).map (d :: ·)

/-! ### The loops over a list -/

/-- `while (*end && (end = strchr(end, ',')))` with what the body does to `end` and to the counter. -/
def countRound (m : Bytes) : ℕ × ℕ → (Except Abort ℕ) ⊕ (ℕ × ℕ)
  | (endp, count) =>
    match m[endp]? with
    | none => .inl (.error .fault)
    | some c =>
      if c = 0 then .inl (.ok count)
      else
        match strchrReads COMMA (m.drop endp) with
        | .error a => .inl (.error a)
        | .ok none => .inl (.ok count)
        | .ok (some i) => .inr (endp + i + 1, count + 1)

/-- The counter of a list, from the start of its text; it is 1 in `parse_xml_seq_info`, and the
`list_count` so far and 1 in `count_xml_seq_child`. -/
def countReads (m : Bytes) (count fuel : ℕ) : Option (Except Abort ℕ) :=
  runLoop (countRound m) fuel (0, count)

/-- `for (num = 0; num < count; num++)`, with the rounds that are left. -/
def splitReads (m : Bytes) : ℕ → ℕ → Option ℕ → List Bytes → Except Abort (List Bytes)
  | 0, _, _, seqlist => .ok seqlist
  | num + 1, cur, endp, seqlist =>
    match spacesReads (m.drop cur) with
    | .error a => .error a
    | .ok n =>
      let cur := cur + n
      match endp with
      | some e =>
        if e < cur then .error .fault
        else
          match pstrmemdupReads (m.drop cur) (e - cur), strchrReads COMMA (m.drop (e + 1)) with
          | .ok item, .ok next =>
            splitReads m num (e + 1) (next.map (e + 1 + ·)) (seqlist ++ [item])
          | .error a, _ => .error a
          | _, .error a => .error a
      | none =>
        match pstrdupReads (m.drop cur) with
        | .error a => .error a
        | .ok item => splitReads m num cur none (seqlist ++ [item])

/-- The copies of the items, into an array of `count` cells. -/
def copyReads (m : Bytes) (count : ℕ) : Except Abort (List Bytes) :=
  match strchrReads COMMA m with
  | .error a => .error a
  | .ok endp => splitReads m count 0 endp []

/-- The items of a `sequencelist`. -/
def seqlistReads (m : Bytes) (fuel : ℕ) : Option (Except Abort (List Bytes)) :=
  (countReads m 1 fuel).map (Except.bind · (copyReads m))

/-- The memory of a string, with its terminator and nothing behind it. -/
def withNUL (value : Bytes) : Bytes := cstr value ++ [0]

/-! ### What is read of a terminated string -/

theorem strchrReads_eq {c : UInt8} {t : Bytes} (hc : c ≠ 0) (ht : 0 ∉ t) :
    strchrReads c (t ++ [0]) = .ok (strchr c t) := by
  rw [strchr, cstr_of_not_mem ht]
  induction t with
  | nil => simp [strchrReads, hc.symm]
  | cons d t ih =>
    rw [List.mem_cons, not_or] at ht
    rw [List.cons_append, strchrReads, List.findIdx?_cons, ih ht.2]
    by_cases hd : d = c
    · rw [if_pos hd, if_pos (by simpa using hd)]
    · rw [if_neg hd, if_neg (Ne.symm ht.1), if_neg (by simpa using hd)]
      rfl

theorem pstrdupReads_eq {t : Bytes} (ht : 0 ∉ t) : pstrdupReads (t ++ [0]) = .ok t := by
  induction t with
  | nil => rfl
  | cons d t ih =>
    rw [List.mem_cons, not_or] at ht
    rw [List.cons_append, pstrdupReads, if_neg (Ne.symm ht.1), ih ht.2]
    rfl

theorem spacesReads_eq (t : Bytes) : spacesReads (t ++ [0]) = .ok (t.takeWhile isSpace).length := by
  induction t with
  | nil => rfl
  | cons d t ih =>
    rw [List.cons_append, spacesReads, ih, List.takeWhile_cons]
    split
    · rfl
    · rfl

theorem drop_terminated {t : Bytes} {p : ℕ} (hp : p ≤ t.length) :
    (t ++ [0]).drop p = t.drop p ++ [0] :=
  List.drop_append_of_le_length hp

/-- A string with its terminator is the same string. -/
theorem cstr_terminator {t : Bytes} (ht : 0 ∉ t) : cstr (t ++ [0]) = t := by
  rw [cstr_append_of_not_mem ht]
  exact List.append_nil t

theorem strchr_terminator {c : UInt8} {t : Bytes} (ht : 0 ∉ t) : strchr c (t ++ [0]) = strchr c t := by
  rw [strchr, cstr_terminator ht, strchr, cstr_of_not_mem ht]

theorem not_mem_drop {t : Bytes} (ht : 0 ∉ t) (p : ℕ) : 0 ∉ t.drop p :=
  fun hmem => ht (List.mem_of_mem_drop hmem)

/-! ### Counting -/

/-- One round of the counter: to the next comma, if there is one. -/
theorem countRound_eq (pre : Bytes) {r : Bytes} (hr : 0 ∉ r) (count : ℕ) :
    countRound (pre ++ (r ++ [0])) (pre.length, count) =
      match strchr COMMA r with
      | none => .inl (.ok count)
      | some i => .inr (pre.length + i + 1, count + 1) := by
  have hbyte : (pre ++ (r ++ [0]))[pre.length]? = (r ++ [0])[0]? := by
    rw [List.getElem?_append_right le_rfl, Nat.sub_self]
  rw [countRound, hbyte, List.drop_left, strchrReads_eq (by decide) hr]
  cases r with
  | nil => rfl
  | cons d r =>
    have hd : d ≠ 0 := fun h => hr (h ▸ List.mem_cons_self)
    show (if d = 0 then _ else _) = _
    rw [if_neg hd]
    cases strchr COMMA (d :: r) with
    | none => rfl
    | some i => rfl

/-- **The counter** goes from comma to comma, and reads nothing behind the terminator. -/
theorem countReads_from (pre : Bytes) {r : Bytes} (hr : 0 ∉ r) (count : ℕ) :
    Halts (fun n => runLoop (countRound (pre ++ (r ++ [0]))) n (pre.length, count))
      (.ok (count + r.count COMMA)) := by
  induction r using pieces_rec COMMA generalizing pre count with
  | last r h =>
    refine halts_inl ?_
    rw [countRound_eq pre hr, strchr, cstr_of_not_mem hr, findIdx?_of_not_mem COMMA r h,
      List.count_eq_zero.mpr h]
    rfl
  | cut first rest h ih =>
    have hround : countRound (pre ++ (first ++ COMMA :: rest ++ [0])) (pre.length, count) =
        .inr (pre.length + first.length + 1, count + 1) := by
      rw [countRound_eq pre hr, strchr, cstr_of_not_mem hr,
        findIdx?_append_of_not_mem COMMA first _ h]
    have hrest := ih (pre ++ first ++ [COMMA]) (fun hmem => hr (by simp [hmem])) (count + 1)
    have hpre : pre ++ first ++ [COMMA] ++ (rest ++ [0]) =
        pre ++ (first ++ COMMA :: rest ++ [0]) := by simp
    have hlen : (pre ++ first ++ [COMMA]).length = pre.length + first.length + 1 := by
      simp only [List.length_append, List.length_singleton]
    have hcount : count + 1 + rest.count COMMA = count + (first ++ COMMA :: rest).count COMMA := by
      rw [List.count_append, List.count_cons_self, List.count_eq_zero.mpr h]
      omega
    rw [hpre, hlen, hcount] at hrest
    exact halts_inr hround hrest

/-! ### Copying -/

/-- **The copies** read nothing behind the terminator, as long as `cur` is inside the text and `end`
at one of its bytes, and are those of the loop on a memory of any length. -/
theorem splitReads_eq {t : Bytes} (ht : 0 ∉ t) (num : ℕ) {cur : ℕ} {endp : Option ℕ}
    (hcur : cur ≤ t.length) (hend : ∀ e, endp = some e → e < t.length) (seqlist : List Bytes) :
    splitReads (t ++ [0]) num cur endp seqlist = splitLoop (t ++ [0]) num cur endp seqlist := by
  induction num generalizing cur endp seqlist with
  | zero => rfl
  | succ num ih =>
    have hspace : cur + ((t.drop cur).takeWhile isSpace).length ≤ t.length := by
      have hprefix := (List.takeWhile_prefix isSpace (l := t.drop cur)).length_le
      rw [List.length_drop] at hprefix
      omega
    rw [splitReads]
    unfold splitLoop
    rw [drop_terminated hcur, spacesReads_eq, cstr_terminator (not_mem_drop ht cur)]
    dsimp only
    generalize cur + ((t.drop cur).takeWhile isSpace).length = start at hspace ⊢
    rw [drop_terminated hspace]
    cases endp with
    | none =>
      dsimp only
      rw [pstrdupReads_eq (not_mem_drop ht start), cstr_terminator (not_mem_drop ht start)]
      exact ih hspace (by simp) _
    | some e =>
      have he := hend e rfl
      dsimp only
      by_cases hback : e < start
      · rw [if_pos hback, if_pos hback]
      · have hroom : e - start ≤ (t.drop start ++ [0]).length := by
          rw [List.length_append, List.length_drop, List.length_singleton]
          omega
        rw [if_neg hback, if_neg hback, drop_terminated he,
          strchrReads_eq (by decide) (not_mem_drop ht (e + 1)),
          strchr_terminator (not_mem_drop ht (e + 1)), pstrmemdupReads, if_pos hroom,
          fetch_of_le hroom]
        refine ih he (fun next hnext => ?_) _
        obtain ⟨i, hi, rfl⟩ := Option.map_eq_some_iff.mp hnext
        have hlt := strchr_lt hi
        rw [cstr_of_not_mem (not_mem_drop ht (e + 1)), List.length_drop] at hlt
        omega

/-! ### The items of a list -/

theorem cstr_withNUL (value : Bytes) : cstr (withNUL value) = cstr value :=
  cstr_terminator (cstr_noNUL value)

theorem countReads_commas (value : Bytes) (count : ℕ) :
    Halts (countReads (withNUL value) count) (.ok (count + (cstr value).count COMMA)) :=
  countReads_from [] (cstr_noNUL value) count

theorem seqItems_length (value : Bytes) :
    (seqItems value).length = (cstr value).count COMMA + 1 := by
  rw [seqItems, List.length_map, length_splitOn]

/-- **The copies of the items**, for as many cells as the text has commas and one. -/
theorem copyReads_items (value : Bytes) :
    copyReads (withNUL value) (1 + (cstr value).count COMMA) = .ok (seqItems value) := by
  have ht : 0 ∉ cstr value := cstr_noNUL value
  have hcount : listCount (withNUL value) = 1 + (cstr value).count COMMA := by
    rw [listCount_eq, seqItems_length, cstr_withNUL, Nat.add_comm]
  have hcopies : splitReads (withNUL value) (1 + (cstr value).count COMMA) 0
      (strchr COMMA (cstr value)) [] = splitSeqlist (withNUL value) := by
    rw [splitSeqlist, hcount, withNUL, strchr_terminator ht]
    refine splitReads_eq ht _ (Nat.zero_le _) (fun e he => ?_) []
    have hlt := strchr_lt he
    rwa [cstr_of_not_mem ht] at hlt
  rw [copyReads, withNUL, strchrReads_eq (by decide) ht]
  refine hcopies.trans ?_
  rw [splitSeqlist_eq, seqItems, cstr_withNUL]
  rfl

/-- **Counting and copying** read the text and its terminator, and nothing else. -/
theorem seqlistReads_items (value : Bytes) :
    Halts (seqlistReads (withNUL value)) (.ok (seqItems value)) := by
  have h := (countReads_commas value 1).map (Except.bind · (copyReads (withNUL value)))
  rwa [show Except.bind (.ok (1 + (cstr value).count COMMA)) (copyReads (withNUL value)) = _ from
    copyReads_items value] at h

/-- The items that a text stands for: one more than it has commas, each what is between two of them
without the white space in front. -/
structure ItemsOf (text : Bytes) (items : List Bytes) : Prop where
  number : items.length = text.count COMMA + 1
  pieces : ∀ k item, items[k]? = some item ↔
    ∃ piece, IsPiece COMMA text k piece ∧ item = trimLeft piece

theorem itemsOf_seqItems (value : Bytes) : ItemsOf (cstr value) (seqItems value) where
  number := seqItems_length value
  pieces k item := by
    rw [seqItems, List.getElem?_map, Option.map_eq_some_iff]
    constructor
    · rintro ⟨piece, hpiece, rfl⟩
      exact ⟨piece, getElem?_splitOn.mp hpiece, rfl⟩
    · rintro ⟨piece, hpiece, rfl⟩
      exact ⟨piece, getElem?_splitOn.mpr hpiece, rfl⟩

/-! ### Joining and splitting -/

/-- An item as it is written into a list. -/
structure Listed (item : Bytes) : Prop where
  noNUL : 0 ∉ item
  noComma : COMMA ∉ item
  noSpace : ∀ c, item.head? = some c → isSpace c = false

/-- Items joined with a comma and a blank. -/
def joined (items : List Bytes) : Bytes := (bytes ", ").intercalate items

theorem Listed.trimLeft_eq {item : Bytes} (h : Listed item) : trimLeft item = item := by
  cases item with
  | nil => rfl
  | cons c item => exact List.dropWhile_cons_of_neg (by simp [h.noSpace c rfl])

theorem Listed.trimLeft_blank {item : Bytes} (h : Listed item) : trimLeft (32 :: item) = item :=
  h.trimLeft_eq

/-- **Splitting what was joined** gives the items back. -/
theorem seqItems_joined {items : List Bytes} (hne : items ≠ []) (h : ∀ item ∈ items, Listed item) :
    seqItems (joined items) = items := by
  obtain ⟨first, items, rfl⟩ := List.exists_cons_of_ne_nil hne
  obtain ⟨hfirst, hrest⟩ := List.forall_mem_cons.mp h
  have hnul : 0 ∉ joined (first :: items) :=
    not_mem_intercalate (by decide) fun item hmem => (h item hmem).noNUL
  have hsplit : (joined (first :: items)).splitOn COMMA = first :: items.map ([32] ++ ·) :=
    splitOn_filled (by decide) hfirst.noComma fun item hmem => (hrest item hmem).noComma
  rw [seqItems, cstr_of_not_mem hnul, hsplit, List.map_cons, List.map_map, hfirst.trimLeft_eq]
  congr 1
  refine (List.map_congr_left fun item hmem => ?_).trans (List.map_id items)
  exact (hrest item hmem).trimLeft_blank

/-! ### The list as a whole -/

/-- There are no more items than bytes, the terminator among them. -/
theorem seqItems_length_le (value : Bytes) : (seqItems value).length ≤ (cstr value).length + 1 := by
  rw [seqItems_length]
  exact Nat.succ_le_succ List.count_le_length

/-- **The items of a `sequencelist`**, for every text.  They are what stands between its commas; the
copies of `parse_xml_seq_info` are these items, with no read behind the terminator and no `end` in
front of `cur`; `count_xml_seq_child` adds their number, and an `int` holds it; and a list that was
joined from items is split into them again. -/
theorem seqlist_items :
    (∀ value : Bytes, ∃ items, ItemsOf (cstr value) items ∧
      splitSeqlist value = .ok items ∧ Halts (seqlistReads (withNUL value)) (.ok items) ∧
      (∀ (a : XmlAttr) (attr : List XmlAttr) (count : ℕ), a.value = value →
        sameName a.name XML_URLLIST_SEQUENCE_LIST = true →
        seqListCount (a :: attr) count = seqListCount attr (count + items.length)) ∧
      (∀ count, Halts (countReads (withNUL value) (count + 1)) (.ok (count + items.length))) ∧
      ((cstr value).length + 1 < 2 ^ 31 → wrapInt 32 items.length = items.length)) ∧
    ∀ items, items ≠ [] → (∀ item ∈ items, Listed item) →
      splitSeqlist (joined items) = .ok items ∧
        Halts (seqlistReads (withNUL (joined items))) (.ok items) := by
  constructor
  · intro value
    refine ⟨seqItems value, itemsOf_seqItems value, splitSeqlist_eq value, seqlistReads_items value,
      ?_, fun count => ?_, fun hsmall => ?_⟩
    · rintro a attr count rfl hname
      exact seqListCount_cons hname attr count
    · have h := countReads_commas value (count + 1)
      rwa [Nat.add_right_comm, Nat.add_assoc, ← seqItems_length] at h
    · have hle := seqItems_length_le value
      exact wrapInt_of_lt (by omega) (by omega)
  · intro items hne hlisted
    have hitems := seqItems_joined hne hlisted
    refine ⟨?_, ?_⟩
    · rw [splitSeqlist_eq, hitems]
    · have h := seqlistReads_items (joined items)
      rwa [hitems] at h

/-- Three items, one of them empty and one with white space behind its first letter. -/
theorem seqlist_items_three :
    splitSeqlist (bytes "a b, , c") = .ok [bytes "a b", [], bytes "c"] :=
  (seqlist_items.2 [bytes "a b", [], bytes "c"] (by decide) (by
    simp only [List.forall_mem_cons]
    refine ⟨⟨by decide, by decide, fun c hc => ?_⟩, ⟨by decide, by decide, fun c hc => ?_⟩,
      ⟨by decide, by decide, fun c hc => ?_⟩, List.forall_mem_nil _⟩
    · obtain rfl : 97 = c := Option.some.inj hc
      decide
    · cases hc
    · obtain rfl : 99 = c := Option.some.inj hc
      decide)).1

end Flood.SequenceItems
