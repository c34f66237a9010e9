import Flood.Config

/-!
# Starting the farmers of a farm

`run_farm` walks the children of its farm element twice: the first pass adds up how many farmers
there are to be, the second writes their names into an array of that size.  Then it starts the
farmers, one for each entry of the array.

* `countingPass_eq`, `namingPass_wrote` — what the passes compute, in terms of the counts that the
  elements ask for.
* `startLoop_starts` — which farmers the loop starts, and under which names.
* `namesMatch_iff` — the names written are those of the farmers started exactly when the counts that
  are not positive do not show in the total.
-/

namespace Flood.Farm

open Flood.CString Flood.Net Flood.Config

def XML_FARM_USEFARMER : Bytes := bytes "usefarmer"
def XML_FARM_USEFARMER_COUNT : Bytes := bytes "count"
def XML_FARM_USEFARMER_DELAY : Bytes := bytes "startdelay"
def XML_FARM_USEFARMER_START : Bytes := bytes "startcount"

/-! ### The counting pass -/

/-- The attributes of one `usefarmer`: the count, and whether one was found. -/
def countAttrs : List XmlAttr → ℤ → Bool → ℤ × Bool
  | [], usefarmerCount, foundCount => (usefarmerCount, foundCount)
  | a :: attr, usefarmerCount, foundCount =>
    if sameName a.name XML_FARM_USEFARMER_COUNT then
      countAttrs attr (wrapInt 32 (usefarmerCount + (strtol 10 a.value).1)) true
    else countAttrs attr usefarmerCount foundCount

/-- The first walk over the children of the farm. -/
def countingPass : XmlElem → ℤ → ℤ
  | .null, usefarmerCount => usefarmerCount
  | .elem name _ attr _ next, usefarmerCount =>
    if sameName name XML_FARM_USEFARMER then
      match countAttrs attr usefarmerCount false with
      | (usefarmerCount, true) => countingPass next usefarmerCount
      | (usefarmerCount, false) => countingPass next (wrapInt 32 (usefarmerCount + 1))
    else countingPass next usefarmerCount

/-- `usefarmer_count` behind the first pass. -/
def usefarmerCount (farmElem : XmlElem) : ℤ :=
  let count := countingPass farmElem.firstChild 0
  if count = 0 then 1 else count

/-! ### The naming pass -/

/-- What the second pass works on; `writes` are the entries of `usefarmer_names` written, each with
its index. -/
structure Naming where
  i : ℤ
  writes : List (ℤ × Bytes)
  farmerStartDelay : ℤ
  farmerStartCount : ℤ
  deriving DecidableEq

/-- `usefarmer_names[i++] = apr_pstrdup(pool, e->first_cdata.first->text)` -/
def writeName (cdata : List Bytes) (n : Naming) : Except Abort Naming :=
  match cdata with
  | [] => .error .fault
  | text :: _ => .ok { n with i := wrapInt 32 (n.i + 1), writes := n.writes ++ [(n.i, cstr text)] }

/-- `writeName`, `j` times. -/
def writeNames (cdata : List Bytes) : ℕ → Naming → Except Abort Naming
  | 0, n => .ok n
  | j + 1, n =>
    match writeName cdata n with
    | .error a => .error a
    | .ok n => writeNames cdata j n

/-- The attributes of one `usefarmer`; a delay or a start count with something behind the number is
an error.  The flag says whether a count was found. -/
def nameAttrs (cdata : List Bytes) : List XmlAttr → Naming → Bool →
    Except Abort (Status × Naming × Bool)
  | [], n, handled => .ok (.success, n, handled)
  | a :: attr, n, handled =>
    if sameName a.name XML_FARM_USEFARMER_COUNT then
      match writeNames cdata (wrapInt 32 (strtol 10 a.value).1).toNat n with
      | .error a => .error a
      | .ok n => nameAttrs cdata attr n true
    else if sameName a.name XML_FARM_USEFARMER_DELAY then
      if (strtol 10 a.value).2 ≠ [] then .ok (.egeneral, n, handled)
      else
        let delay := wrapInt 64 ((strtol 10 a.value).1 * APR_USEC_PER_SEC)
        nameAttrs cdata attr { n with farmerStartDelay := delay } handled
    else if sameName a.name XML_FARM_USEFARMER_START then
      if (strtol 10 a.value).2 ≠ [] then .ok (.egeneral, n, handled)
      else nameAttrs cdata attr { n with farmerStartCount := (strtol 10 a.value).1 } handled
    else nameAttrs cdata attr n handled

/-- The second walk over the children of the farm. -/
def namingPass : XmlElem → Naming → Except Abort (Status × Naming)
  | .null, n => .ok (.success, n)
  | .elem name cdata attr _ next, n =>
    if sameName name XML_FARM_USEFARMER then
      match nameAttrs cdata attr n false with
      | .error a => .error a
      | .ok (stat, n, handled) =>
        if stat ≠ .success then .ok (stat, n)
        else if handled then namingPass next n
        else
          match writeName cdata n with
          | .error a => .error a
          | .ok n => namingPass next n
    else namingPass next n

/-- The second pass over the children of a farm. -/
def nameFarmers (farmElem : XmlElem) : Except Abort (Status × Naming) :=
  namingPass farmElem.firstChild ⟨0, [], 0, 1⟩

/-! ### Starting the farmers -/

/-- `usefarmer_names[i]`, where it was written. -/
def nameAt (writes : List (ℤ × Bytes)) (i : ℤ) : Option Bytes :=
  (writes.reverse.find? fun w => w.1 = i).map Prod.snd

/-- What the start loop does: it starts a farmer with the name found in the array, or sleeps. -/
inductive FarmEvent where
  | start (i : ℤ) (name : Option Bytes)
  | sleep (delay : ℤ)
  deriving DecidableEq

/-- The start loop from `i` on; `create` is the status with which a thread is created. -/
def startLoop (create : ℤ → Status) (n : Naming) : ℕ → ℤ → List FarmEvent →
    Except Abort (Status × List FarmEvent)
  | 0, _, log => .ok (.success, log)
  | left + 1, i, log =>
    let log := log ++ [.start i (nameAt n.writes i)]
    if create i ≠ .success then .ok (create i, log)
    else if n.farmerStartDelay = 0 then startLoop create n left (i + 1) log
    else if n.farmerStartCount = 0 then .error .fault
    else if (i + 1).tmod n.farmerStartCount = 0 then
      startLoop create n left (i + 1) (log ++ [.sleep n.farmerStartDelay])
    else startLoop create n left (i + 1) log

/-- `run_farm`, up to the point where all farmers are started.  The array of names gets one entry
more than `usefarmer_count`, a number computed as an `int`; where it is not positive, the sentinel is
written outside of the array. -/
def runFarm (create : ℤ → Status) (farmElem : XmlElem) : Except Abort (Status × List FarmEvent) :=
  if wrapInt 32 (usefarmerCount farmElem + 1) ≤ 0 then .error .fault
  else
    match nameFarmers farmElem with
    | .error a => .error a
    | .ok (stat, n) =>
      if stat ≠ .success then .ok (stat, [])
      else startLoop create n (usefarmerCount farmElem).toNat 0 []

/-! ### What the elements ask for -/

/-- The numbers in the count attributes of one `usefarmer`, each as an `int`. -/
def attrCounts (attr : List XmlAttr) : List ℤ :=
  (attr.filter fun a => sameName a.name XML_FARM_USEFARMER_COUNT).map fun a =>
    wrapInt 32 (strtol 10 a.value).1

/-- What one `usefarmer` asks for: its counts, or 1 without any. -/
def elementCounts (attr : List XmlAttr) : List ℤ :=
  if attrCounts attr = [] then [1] else attrCounts attr

/-- The counts of the `usefarmer` elements among an element and its siblings. -/
def farmCounts : XmlElem → List ℤ
  | .null => []
  | .elem name _ attr _ next =>
    (if sameName name XML_FARM_USEFARMER then elementCounts attr else []) ++ farmCounts next

theorem attrCounts_cons (a : XmlAttr) (attr : List XmlAttr) :
    attrCounts (a :: attr) =
      (if sameName a.name XML_FARM_USEFARMER_COUNT then [wrapInt 32 (strtol 10 a.value).1]
        else []) ++ attrCounts attr := by
  unfold attrCounts
  rw [List.filter_cons]
  split
  · rfl
  · rfl

/-! ### The first pass -/

theorem countAttrs_eq (attr : List XmlAttr) (x : ℤ) (found : Bool) :
    countAttrs attr (wrapInt 32 x) found =
      (wrapInt 32 (x + (attrCounts attr).sum), found || attrCounts attr ≠ []) := by
  induction attr generalizing x found with
  | nil => simp [countAttrs, attrCounts]
  | cons a attr ih =>
    rw [countAttrs, attrCounts_cons]
    split
    · rw [wrapInt_add_wrapInt, ih]
      simp only [List.singleton_append, List.sum_cons, ← Int.add_assoc]
      rw [Int.add_right_comm x (wrapInt 32 _), wrapInt_add_right, Int.add_right_comm]
      simp
    · rw [ih, List.nil_append]

/-- **The counting pass** adds up the counts in the arithmetic of an `int`. -/
theorem countingPass_eq (e : XmlElem) (x : ℤ) :
    countingPass e (wrapInt 32 x) = wrapInt 32 (x + (farmCounts e).sum) := by
  induction e generalizing x with
  | null => simp [countingPass, farmCounts]
  | elem name cdata attr firstChild next _ ih =>
    rw [countingPass, farmCounts]
    split
    · rw [countAttrs_eq, elementCounts]
      by_cases hnone : attrCounts attr = []
      · simp only [hnone, ne_eq, not_true_eq_false, decide_false, Bool.or_self, if_true,
          List.sum_nil, Int.add_zero]
        rw [wrapInt_add_wrapInt, ih, List.sum_append, List.sum_singleton, Int.add_assoc]
      · simp only [hnone, ne_eq, not_false_eq_true, decide_true, Bool.or_true, if_false]
        rw [ih, List.sum_append, Int.add_assoc]
    · rw [ih, List.nil_append]

/-! ### The second pass -/

/-- The names are written one behind the other; the index is an `int`. -/
structure Numbered (n : Naming) : Prop where
  next : n.i = wrapInt 32 n.writes.length
  indices : n.writes.map Prod.fst = (List.range n.writes.length).map fun k : ℕ => wrapInt 32 k

/-- What a part of the second pass leaves behind: `k` more names. -/
structure Wrote (k : ℕ) (n n' : Naming) : Prop where
  numbered : Numbered n'
  length : n'.writes.length = n.writes.length + k

theorem writeName_wrote {cdata : List Bytes} {n n' : Naming} (hn : Numbered n)
    (h : writeName cdata n = .ok n') : Wrote 1 n n' := by
  unfold writeName at h
  cases cdata with
  | nil => cases h
  | cons text cdata =>
    cases h
    refine ⟨⟨?_, ?_⟩, by simp⟩
    · show wrapInt 32 (n.i + 1) = _
      rw [hn.next, wrapInt_add_wrapInt]
      simp
    · simp [hn.indices, hn.next, List.range_succ]

theorem writeNames_wrote {cdata : List Bytes} {j : ℕ} {n n' : Naming} (hn : Numbered n)
    (h : writeNames cdata j n = .ok n') : Wrote j n n' := by
  induction j generalizing n with
  | zero =>
    cases h
    exact ⟨hn, rfl⟩
  | succ j ih =>
    rw [writeNames] at h
    cases hone : writeName cdata n with
    | error a => rw [hone] at h; cases h
    | ok n₁ =>
      rw [hone] at h
      have hone' := writeName_wrote hn hone
      have hrest := ih hone'.numbered h
      exact ⟨hrest.numbered, by rw [hrest.length, hone'.length]; omega⟩

/-- The names that the counts ask for. -/
def named (counts : List ℤ) : ℕ := (counts.map Int.toNat).sum

theorem named_append (cs ds : List ℤ) : named (cs ++ ds) = named cs + named ds := by
  simp [named]

theorem nameAttrs_wrote {cdata : List Bytes} {attr : List XmlAttr} {n n' : Naming}
    {handled handled' : Bool} (hn : Numbered n)
    (h : nameAttrs cdata attr n handled = .ok (.success, n', handled')) :
    Wrote (named (attrCounts attr)) n n' ∧ handled' = (handled || attrCounts attr ≠ []) := by
  induction attr generalizing n handled with
  | nil =>
    cases h
    exact ⟨⟨hn, rfl⟩, by simp [attrCounts]⟩
  | cons a attr ih =>
    rw [nameAttrs] at h
    rw [attrCounts_cons]
    by_cases hcount : sameName a.name XML_FARM_USEFARMER_COUNT
    · rw [if_pos hcount] at h ⊢
      cases hnames : writeNames cdata (wrapInt 32 (strtol 10 a.value).1).toNat n with
      | error e => rw [hnames] at h; cases h
      | ok n₁ =>
        rw [hnames] at h
        have hone := writeNames_wrote hn hnames
        obtain ⟨hrest, hhandled⟩ := ih hone.numbered h
        refine ⟨⟨hrest.numbered, ?_⟩, by simp [hhandled]⟩
        rw [hrest.length, hone.length, named_append]
        simp [named, Nat.add_assoc]
    · -- neither a delay nor a start count writes a name
      rw [if_neg hcount] at h ⊢
      rw [List.nil_append]
      split at h
      · split at h
        · cases h
        · have hn₁ : Numbered { n with
              farmerStartDelay := wrapInt 64 ((strtol 10 a.value).1 * APR_USEC_PER_SEC) } :=
            ⟨hn.next, hn.indices⟩
          obtain ⟨hrest, hhandled⟩ := ih hn₁ h
          exact ⟨⟨hrest.numbered, hrest.length⟩, hhandled⟩
      · split at h
        · split at h
          · cases h
          · have hn₁ : Numbered { n with farmerStartCount := (strtol 10 a.value).1 } :=
              ⟨hn.next, hn.indices⟩
            obtain ⟨hrest, hhandled⟩ := ih hn₁ h
            exact ⟨⟨hrest.numbered, hrest.length⟩, hhandled⟩
        · exact ih hn h

/-- **The naming pass** writes as many names as the positive counts ask for. -/
theorem namingPass_wrote {e : XmlElem} {n n' : Naming} (hn : Numbered n)
    (h : namingPass e n = .ok (.success, n')) : Wrote (named (farmCounts e)) n n' := by
  induction e generalizing n with
  | null =>
    cases h
    exact ⟨hn, rfl⟩
  | elem name cdata attr firstChild next _ ih =>
    rw [namingPass] at h
    rw [farmCounts]
    split at h
    · next huse =>
      rw [if_pos huse, named_append, elementCounts]
      cases hattrs : nameAttrs cdata attr n false with
      | error a => rw [hattrs] at h; cases h
      | ok p =>
        obtain ⟨stat, n₁, handled⟩ := p
        simp only [hattrs] at h
        split at h
        · next hstat =>
          cases h
          exact absurd rfl hstat
        · next hstat =>
          rw [not_not] at hstat
          subst hstat
          obtain ⟨hwrote, hhandled⟩ := nameAttrs_wrote hn hattrs
          by_cases hnone : attrCounts attr = []
          · rw [hhandled, hnone] at h
            simp only [ne_eq, not_true_eq_false, decide_false, Bool.or_self, Bool.false_eq_true,
              if_false] at h
            cases hname : writeName cdata n₁ with
            | error a => rw [hname] at h; cases h
            | ok n₂ =>
              rw [hname] at h
              have hone := writeName_wrote hwrote.numbered hname
              have hrest := ih hone.numbered h
              refine ⟨hrest.numbered, ?_⟩
              rw [hrest.length, hone.length, hwrote.length, hnone, if_pos rfl]
              simp [named, Nat.add_assoc]
          · rw [hhandled] at h
            simp only [ne_eq, hnone, not_false_eq_true, decide_true, Bool.or_true, if_true] at h
            have hrest := ih hwrote.numbered h
            refine ⟨hrest.numbered, ?_⟩
            rw [hrest.length, hwrote.length, if_neg hnone, Nat.add_assoc]
    · next huse =>
      rw [if_neg huse, List.nil_append]
      exact ih hn h

/-! ### The start loop -/

/-- **The start loop** starts the farmers of a range, each under the name of its entry. -/
theorem startLoop_starts {create : ℤ → Status} {n : Naming} {left : ℕ} {i : ℤ} {stat : Status}
    {log log' : List FarmEvent} (h : startLoop create n left i log = .ok (stat, log')) {j : ℤ}
    {name : Option Bytes} (hstart : .start j name ∈ log') :
    .start j name ∈ log ∨ i ≤ j ∧ j < i + left ∧ name = nameAt n.writes j := by
  induction left generalizing i log with
  | zero =>
    cases h
    exact .inl hstart
  | succ left ih =>
    rw [startLoop] at h
    -- what is on the log behind the start of farmer `i`, whether or not the loop goes on
    have hfirst : .start j name ∈ log ++ [.start i (nameAt n.writes i)] →
        .start j name ∈ log ∨ i ≤ j ∧ j < i + (left + 1 : ℕ) ∧ name = nameAt n.writes j := by
      intro hmem
      rcases List.mem_append.mp hmem with hlog | hone
      · exact .inl hlog
      · simp only [List.mem_singleton, FarmEvent.start.injEq] at hone
        obtain ⟨rfl, rfl⟩ := hone
        exact .inr ⟨Int.le_refl _, by omega, rfl⟩
    have hwider : i + 1 ≤ j ∧ j < i + 1 + left ∧ name = nameAt n.writes j →
        .start j name ∈ log ∨ i ≤ j ∧ j < i + (left + 1 : ℕ) ∧ name = nameAt n.writes j := by
      rintro ⟨hfrom, hto, hname⟩
      exact .inr ⟨by omega, by omega, hname⟩
    split at h
    · cases h
      exact hfirst hstart
    · split at h
      · exact (ih h).elim hfirst hwider
      · split at h
        · cases h
        · split at h
          · refine (ih h).elim (fun hmem => hfirst ?_) hwider
            simpa using hmem
          · exact (ih h).elim hfirst hwider

/-- An entry that was written is found. -/
theorem nameAt_of_mem {writes : List (ℤ × Bytes)} {i : ℤ} (h : i ∈ writes.map Prod.fst) :
    ∃ text, nameAt writes i = some text ∧ (i, text) ∈ writes := by
  obtain ⟨w, hw, hi⟩ := List.mem_map.mp h
  cases hfind : writes.reverse.find? fun w => w.1 = i with
  | none => exact absurd hi (by simpa using List.find?_eq_none.mp hfind w (List.mem_reverse.mpr hw))
  | some found =>
    have hindex : found.1 = i := by simpa using List.find?_some hfind
    refine ⟨found.2, by rw [nameAt, hfind]; rfl, ?_⟩
    rw [← hindex]
    exact List.mem_reverse.mp (List.mem_of_find?_eq_some hfind)

/-! ### The two passes together -/

/-- The numbers that the negative counts take away. -/
def withdrawn (counts : List ℤ) : ℕ := (counts.map fun c => (-c).toNat).sum

theorem sum_eq (counts : List ℤ) : counts.sum = named counts - withdrawn counts := by
  induction counts with
  | nil => rfl
  | cons c counts ih =>
    simp only [named, withdrawn, List.map_cons, List.sum_cons] at ih ⊢
    omega

/-- The names written are those of the farmers that are started. -/
structure NamesMatch (farmElem : XmlElem) (n : Naming) : Prop where
  number : (n.writes.length : ℤ) = usefarmerCount farmElem
  below : ∀ w ∈ n.writes, 0 ≤ w.1 ∧ w.1 < usefarmerCount farmElem
  written : ∀ create stat log, runFarm create farmElem = .ok (stat, log) →
    ∀ i name, .start i name ∈ log → ∃ text, name = some text ∧ (i, text) ∈ n.writes

/-- The counts that are not positive do not show in the total: they add up to a multiple of `2^32`,
or to one that the farmer of an empty farm makes up for. -/
def CountsAgree (counts : List ℤ) : Prop :=
  0 < named counts ∧ named counts < 2 ^ 31 ∧ withdrawn counts % 2 ^ 32 = 0 ∨
    named counts = 1 ∧ withdrawn counts % 2 ^ 32 = 1

instance (counts : List ℤ) : Decidable (CountsAgree counts) :=
  inferInstanceAs (Decidable (_ ∨ _))

theorem wrapInt_emod (v : ℤ) : wrapInt 32 v % 4294967296 = v % 4294967296 := Int.bmod_emod

/-- The first pass arrives at the number of names exactly when the counts agree. -/
theorem named_eq_usefarmerCount_iff (farmElem : XmlElem) :
    (named (farmCounts farmElem.firstChild) : ℤ) = usefarmerCount farmElem ↔
      CountsAgree (farmCounts farmElem.firstChild) := by
  have hcount : countingPass farmElem.firstChild 0 =
      wrapInt 32 (farmCounts farmElem.firstChild).sum := by
    have h := countingPass_eq farmElem.firstChild 0
    rwa [Int.zero_add] at h
  rw [usefarmerCount, hcount, CountsAgree]
  rw [sum_eq]
  generalize named (farmCounts farmElem.firstChild) = pos
  generalize withdrawn (farmCounts farmElem.firstChild) = neg
  have hmod := wrapInt_emod ((pos : ℤ) - neg)
  have hlow : -2147483648 ≤ wrapInt 32 ((pos : ℤ) - neg) := le_wrapInt 31 _
  have hhigh : wrapInt 32 ((pos : ℤ) - neg) < 2147483648 := wrapInt_lt 31 _
  generalize wrapInt 32 ((pos : ℤ) - neg) = total at hmod hlow hhigh
  split
  · omega
  · omega

/-- The indices written, where there are fewer than `2^31`. -/
theorem Numbered.index {n : Naming} (hn : Numbered n) (hlt : n.writes.length < 2 ^ 31) :
    n.writes.map Prod.fst = (List.range n.writes.length).map fun k : ℕ => (k : ℤ) := by
  rw [hn.indices]
  apply List.map_congr_left
  intro k hk
  have hk' : k < 2 ^ 31 := Nat.lt_trans (List.mem_range.mp hk) hlt
  exact wrapInt_of_lt (Int.natCast_nonneg k) (by exact_mod_cast hk')

/-- **The two passes agree** exactly when the counts that are not positive do not show in the
total. -/
theorem namesMatch_iff (farmElem : XmlElem) (n : Naming)
    (h : nameFarmers farmElem = .ok (.success, n)) :
    NamesMatch farmElem n ↔ CountsAgree (farmCounts farmElem.firstChild) := by
  have hwrote : Wrote (named (farmCounts farmElem.firstChild)) ⟨0, [], 0, 1⟩ n :=
    namingPass_wrote ⟨rfl, rfl⟩ h
  have hlen : n.writes.length = named (farmCounts farmElem.firstChild) := by
    rw [hwrote.length]
    exact Nat.zero_add _
  rw [← named_eq_usefarmerCount_iff, ← hlen]
  constructor
  · exact NamesMatch.number
  · intro hnumber
    have hagree := (named_eq_usefarmerCount_iff farmElem).mp (by rw [← hlen, hnumber])
    have hlt : n.writes.length < 2 ^ 31 := by
      rw [hlen]
      rcases hagree with ⟨-, hlt, -⟩ | ⟨hone, -⟩
      · exact hlt
      · rw [hone]
        decide
    have hindex := hwrote.numbered.index hlt
    refine ⟨hnumber, ?_, ?_⟩
    · intro w hw
      have hmem : w.1 ∈ n.writes.map Prod.fst := List.mem_map_of_mem hw
      rw [hindex, List.mem_map] at hmem
      obtain ⟨k, hk, hwk⟩ := hmem
      have hk' := List.mem_range.mp hk
      omega
    · intro create stat log hrun i name hstart
      rw [runFarm, h] at hrun
      split at hrun
      · cases hrun
      · rcases startLoop_starts hrun hstart with hnil | ⟨hfrom, hto, rfl⟩
        · cases hnil
        · apply nameAt_of_mem
          rw [hindex, List.mem_map]
          exact ⟨i.toNat, List.mem_range.mpr (by omega), by omega⟩

/-! ### The schedule -/

/-- The attributes of the `usefarmer` elements among an element and its siblings. -/
def usefarmerAttrs : XmlElem → List XmlAttr
  | .null => []
  | .elem name _ attr _ next =>
    (if sameName name XML_FARM_USEFARMER then attr else []) ++ usefarmerAttrs next

/-- The delay that is kept of the value of an attribute. -/
def storedDelay (value : Bytes) : ℤ := wrapInt 64 ((strtol 10 value).1 * APR_USEC_PER_SEC)

/-- The delay and the start count that some attributes leave, where there were others. -/
def scheduleOf (attr : List XmlAttr) (old : ℤ × ℤ) : ℤ × ℤ :=
  (((lastNamed XML_FARM_USEFARMER_DELAY attr).map storedDelay).getD old.1,
    ((lastNamed XML_FARM_USEFARMER_START attr).map fun value => (strtol 10 value).1).getD old.2)

/-- The delay and the start count. -/
def Naming.schedule (n : Naming) : ℤ × ℤ := (n.farmerStartDelay, n.farmerStartCount)

theorem scheduleOf_append (as bs : List XmlAttr) (old : ℤ × ℤ) :
    scheduleOf (as ++ bs) old = scheduleOf bs (scheduleOf as old) := by
  unfold scheduleOf
  rw [lastNamed_append, lastNamed_append, Option.map_or, Option.map_or, Option.getD_or,
    Option.getD_or]

theorem writeName_schedule {cdata : List Bytes} {n n' : Naming} (h : writeName cdata n = .ok n') :
    n'.schedule = n.schedule := by
  unfold writeName at h
  split at h
  · cases h
  · cases h
    rfl

theorem writeNames_schedule {cdata : List Bytes} {j : ℕ} {n n' : Naming}
    (h : writeNames cdata j n = .ok n') : n'.schedule = n.schedule := by
  induction j generalizing n with
  | zero =>
    cases h
    rfl
  | succ j ih =>
    rw [writeNames] at h
    split at h
    · cases h
    · next hone => rw [ih h, writeName_schedule hone]

theorem nameAttrs_schedule {cdata : List Bytes} {attr : List XmlAttr} {n n' : Naming}
    {handled handled' : Bool} (h : nameAttrs cdata attr n handled = .ok (.success, n', handled')) :
    n'.schedule = scheduleOf attr n.schedule := by
  induction attr generalizing n handled with
  | nil =>
    cases h
    rfl
  | cons a attr ih =>
    -- what is left is a schedule behind that of the first attribute
    have hrest : ∀ {n₁ : Naming} {handled₁ : Bool},
        nameAttrs cdata attr n₁ handled₁ = .ok (.success, n', handled') →
        n₁.schedule = scheduleOf [a] n.schedule → n'.schedule = scheduleOf (a :: attr) n.schedule := by
      intro n₁ handled₁ hrun hfirst
      rw [ih hrun, hfirst, ← scheduleOf_append]
      rfl
    rw [nameAttrs] at h
    split at h
    · next hcount =>
      split at h
      · cases h
      · next n₁ hnames =>
        refine hrest h ?_
        rw [writeNames_schedule hnames]
        unfold scheduleOf lastNamed
        simp only [sameName_congr hcount]
        rfl
    · next hcount =>
      split at h
      · next hdelay =>
        split at h
        · cases h
        · refine hrest h ?_
          unfold scheduleOf lastNamed
          simp only [sameName_congr hdelay]
          rfl
      · next hdelay =>
        split at h
        · next hstart =>
          split at h
          · cases h
          · refine hrest h ?_
            unfold scheduleOf lastNamed
            simp only [sameName_congr hstart]
            rfl
        · next hstart =>
          refine hrest h ?_
          unfold scheduleOf lastNamed
          rw [if_neg hdelay, if_neg hstart]
          rfl

theorem namingPass_schedule {e : XmlElem} {n n' : Naming}
    (h : namingPass e n = .ok (.success, n')) :
    n'.schedule = scheduleOf (usefarmerAttrs e) n.schedule := by
  induction e generalizing n with
  | null =>
    cases h
    rfl
  | elem name cdata attr firstChild next _ ih =>
    rw [namingPass] at h
    rw [usefarmerAttrs, scheduleOf_append]
    split at h
    · next huse =>
      rw [if_pos huse]
      split at h
      · cases h
      · next stat n₁ handled hattrs =>
        split at h
        · next hstat =>
          cases h
          exact absurd rfl hstat
        · next hstat =>
          rw [not_not] at hstat
          subst hstat
          have hn₁ := nameAttrs_schedule hattrs
          split at h
          · rw [ih h, hn₁]
          · split at h
            · cases h
            · next hname => rw [ih h, writeName_schedule hname, hn₁]
    · next huse =>
      rw [if_neg huse]
      exact ih h

/-- **The schedule of a farm** is that of its last attributes, without a delay and one farmer at a time
where there are none. -/
theorem nameFarmers_schedule {farmElem : XmlElem} {n : Naming}
    (h : nameFarmers farmElem = .ok (.success, n)) :
    n.schedule = scheduleOf (usefarmerAttrs farmElem.firstChild) (0, 1) :=
  namingPass_schedule h

/-- A farm of two farmers. -/
def twoFarmers : XmlElem :=
  .elem (bytes "farm") [] []
    (.elem XML_FARM_USEFARMER [bytes "Joe"] [⟨0, XML_FARM_USEFARMER_COUNT, bytes "2"⟩]
      .null .null)
    .null

theorem namesMatch_twoFarmers :
    NamesMatch twoFarmers ⟨2, [(0, bytes "Joe"), (1, bytes "Joe")], 0, 1⟩ ↔
      CountsAgree (farmCounts twoFarmers.firstChild) :=
  namesMatch_iff twoFarmers _ (by decide)

/-- A farm without a `usefarmer`. -/
def noFarmers : XmlElem :=
  .elem (bytes "farm") [] [] (.elem (bytes "name") [bytes "Bingo"] [] .null .null) .null

/-- The farm without a `usefarmer` starts one farmer, and its name was never written. -/
theorem noFarmers_unnamed :
    nameFarmers noFarmers = .ok (.success, ⟨0, [], 0, 1⟩) ∧
      usefarmerCount noFarmers = 1 ∧
      runFarm (fun _ => .success) noFarmers = .ok (.success, [.start 0 none]) ∧
      ¬ NamesMatch noFarmers ⟨0, [], 0, 1⟩ := by
  refine ⟨by decide, by decide, by decide, ?_⟩
  intro h
  exact absurd h.number (by decide)

end Flood.Farm
