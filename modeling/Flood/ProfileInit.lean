import Flood.InTurn
import Flood.UrlElement

/-!
# Initialising the round-robin profile

`round_robin_profile_init` finds the urllist of a profile, counts its urls with those that the
sequences expand to, and fills one slot for each: it goes through the children in document order, and
through the children of a sequence once for every item of its list, with the item bound to the name
of the sequence.  The templates of the urls in a sequence are expanded on the way.  Last it reads the
substitution list.

* `splitSeqlist_eq` — the items of a list are the pieces between its commas, without the white space
  in front.
* `parseSeqChildren_eq`, `parseUrllist_eq` — the traversal does the steps of a list, in turn.
-/

namespace Flood.ProfileInit

open Flood.CString Flood.Net Flood.Subst Flood.Template Flood.RoundRobin Flood.Config
open Flood.UrlElement Flood.InTurn

def XML_PROFILE_COUNT : Bytes := bytes "count"
def XML_PROFILE_USEURLLIST : Bytes := bytes "useurllist"
def XML_URLLIST : Bytes := bytes "urllist"
def XML_URLLIST_NAME : Bytes := bytes "name"
def XML_URLLIST_BASE_URL : Bytes := bytes "baseurl"
def XML_URLLIST_PROXY_URL : Bytes := bytes "proxyurl"
def XML_URLLIST_URL : Bytes := bytes "url"
def XML_URLLIST_SEQUENCE : Bytes := bytes "sequence"
def XML_URLLIST_SEQUENCE_NAME : Bytes := bytes "sequencename"
def XML_URLLIST_SEQUENCE_LIST : Bytes := bytes "sequencelist"
def XML_SUBST_LIST : Bytes := bytes "subst_list"
def XML_SUBST_ENTRY : Bytes := bytes "subst_entry"
def XML_SUBST_VAR : Bytes := bytes "subst_var"
def XML_SUBST_FILE : Bytes := bytes "subst_file"

/-- The character `,`. -/
def COMMA : UInt8 := 44

/-! ### The attributes of a sequence -/

/-- `while (*end && (end = strchr(end, ',')))`, from a string on.  An attribute is shorter than
`2^31` bytes, so the counter does not overflow. -/
def countItems : ℕ → Bytes → ℕ → ℕ
  | 0, _, count => count
  | n + 1, s, count =>
    match strchr COMMA s with
    | none => count
    | some i => countItems n (s.drop (i + 1)) (count + 1)

/-- The number of items of a list. -/
def listCount (value : Bytes) : ℕ := countItems value.length value 1

/-- The loop that copies the items: `cur` and `end` are offsets into the value, and `end` is NULL
behind the last comma. -/
def splitLoop (value : Bytes) : ℕ → ℕ → Option ℕ → List Bytes → Except Abort (List Bytes)
  | 0, _, _, seqlist => .ok seqlist
  | num + 1, cur, endp, seqlist =>
    let cur := cur + ((cstr (value.drop cur)).takeWhile isSpace).length
    match endp with
    | some e =>
      if e < cur then .error .fault
      else
        splitLoop value num (e + 1) ((strchr COMMA (value.drop (e + 1))).map (e + 1 + ·))
          (seqlist ++ [fetch (value.drop cur) (e - cur)])
    | none => splitLoop value num cur none (seqlist ++ [cstr (value.drop cur)])

/-- The items of a `sequencelist`. -/
def splitSeqlist (value : Bytes) : Except Abort (List Bytes) :=
  splitLoop value (listCount value) 0 (strchr COMMA value) []

/-- The loop over the attributes of a sequence: `seqname` and `seqlist`, where they are set. -/
def seqAttrs : List XmlAttr → Option Bytes → Option (List Bytes) →
    Except Abort (Option Bytes × Option (List Bytes))
  | [], seqname, seqlist => .ok (seqname, seqlist)
  | a :: attr, seqname, seqlist =>
    if sameName a.name XML_URLLIST_SEQUENCE_NAME then seqAttrs attr (some (cstr a.value)) seqlist
    else if sameName a.name XML_URLLIST_SEQUENCE_LIST then
      match splitSeqlist a.value with
      | .error e => .error e
      | .ok seqlist => seqAttrs attr seqname (some seqlist)
    else seqAttrs attr seqname seqlist

/-! ### Filling the slots -/

/-- What the traversal works on: `slots` are the slots that were filled, each with its index. -/
structure ParseState where
  slots : List (ℤ × Url)
  currentUrl : ℤ
  state : Vars
  draws : Draws
  values : Values

/-- A part of the traversal stops with a status other than `APR_SUCCESS`, or with the end of the
process. -/
abbrev Parse := Action ParseState (Except Abort Status)

/-- One template of a slot; the profile has no substitution list yet. -/
def expandTemplate (template : Option Bytes) (state : Vars) (draws : Draws) :
    Except Abort (Option Bytes × Vars × Draws) :=
  match template with
  | none => .ok (none, state, draws)
  | some t =>
    match handleParamString none .passthrough (cstr t) state draws with
    | .error a => .error a
    | .ok (s, state, draws) => .ok (some (cstr s), state, draws)

/-- The templates of a slot. -/
def expandUrl (u : Url) (state : Vars) (draws : Draws) : Except Abort (Url × Vars × Draws) :=
  match expandTemplate u.payloadtemplate state draws with
  | .error a => .error a
  | .ok (payloadtemplate, state, draws) =>
    match expandTemplate u.requesttemplate state draws with
    | .error a => .error a
    | .ok (requesttemplate, state, draws) =>
      match expandTemplate u.responsetemplate state draws with
      | .error a => .error a
      | .ok (responsetemplate, state, draws) =>
        .ok ({ u with
          payloadtemplate := payloadtemplate, requesttemplate := requesttemplate
          responsetemplate := responsetemplate }, state, draws)

/-- A `url` element: the current slot is filled, and in a sequence its templates are expanded.  The
array has a slot more than `urls`; behind it nothing may be written.  (Outside of a sequence the
source counts up before it fills the slot; after a failure the counter is not looked at.) -/
def fillSlot (files : Files) (urls : ℤ) (inSequence : Bool) (cdata : List Bytes)
    (attr : List XmlAttr) : Parse := fun st =>
  let i := st.currentUrl
  if i < 0 ∨ urls < i then (some (.error .fault), { st with slots := st.slots ++ [(i, {})] })
  else
    match parseXmlUrlInfo files cdata attr {} st.values with
    | (stat, u, values) =>
      let filled := { st with slots := st.slots ++ [(i, u)], values := values }
      if stat ≠ .success then (some (.ok stat), filled)
      else if inSequence then
        match expandUrl u st.state st.draws with
        | .error a => (some (.error a), filled)
        | .ok (u, state, draws) =>
          (none, ⟨st.slots ++ [(i, u)], wrapInt 32 (i + 1), state, draws, values⟩)
      else (none, { filled with currentUrl := wrapInt 32 (i + 1) })

/-- `apr_hash_set(p->state, seqname, seqnamelen, seqlist[curseq])` -/
def bindItem (seqname item : Bytes) : Parse := fun st =>
  (none, { st with state := Function.update st.state seqname (some item) })

/-- The loop over the items of a sequence. -/
def forItems (seqname : Bytes) (children : Parse) : List Bytes → Parse
  | [] => skip
  | item :: seqlist =>
    andThen (bindItem seqname item) (andThen children (forItems seqname children seqlist))

/-- `parse_xml_seq_info`, over what it does with the children. -/
def parseSequence (attr : List XmlAttr) (children : Parse) : Parse := fun st =>
  match seqAttrs attr none none with
  | .error a => (some (.error a), st)
  | .ok (some seqname, some seqlist) => forItems seqname children seqlist st
  | .ok _ => (some (.error .unset), st)

/-- The children of a sequence. -/
def parseSeqChildren (files : Files) (urls : ℤ) : XmlElem → Parse
  | .null => skip
  | .elem name cdata attr firstChild next =>
    andThen
      (if sameName name XML_URLLIST_SEQUENCE then
        parseSequence attr (parseSeqChildren files urls firstChild)
      else if sameName name XML_URLLIST_URL then fillSlot files urls true cdata attr
      else skip)
      (parseSeqChildren files urls next)

/-- The children of the urllist. -/
def parseUrllist (files : Files) (urls : ℤ) : XmlElem → Parse
  | .null => skip
  | .elem name cdata attr firstChild next =>
    andThen
      (if sameName name XML_URLLIST_SEQUENCE then
        parseSequence attr (parseSeqChildren files urls firstChild)
      else skip)
      (andThen
        (if sameName name XML_URLLIST_URL then fillSlot files urls false cdata attr else skip)
        (parseUrllist files urls next))

/-! ### Counting the slots -/

/-- `list_count` of a sequence. -/
def seqListCount : List XmlAttr → ℕ → ℕ
  | [], count => count
  | a :: attr, count =>
    if sameName a.name XML_URLLIST_SEQUENCE_LIST then
      seqListCount attr (countItems a.value.length a.value (count + 1))
    else seqListCount attr count

/-- The loop of `count_xml_seq_child` over an element and its siblings. -/
def countSeqs : XmlElem → ℤ → ℤ
  | .null, items => items
  | .elem name _ attr firstChild next, items =>
    if sameName name XML_URLLIST_SEQUENCE then
      if seqListCount attr 0 = 0 then 0
      else
        let childrenUrls := wrapInt 32 (countSeqs firstChild 0 +
          wrapInt 32 (countNamed XML_URLLIST_URL firstChild))
        countSeqs next (wrapInt 32 (items + seqListCount attr 0 * childrenUrls))
    else countSeqs next items

/-- `count_xml_seq_child` -/
def countXmlSeqChild (urllistElem : XmlElem) : ℤ := countSeqs urllistElem.firstChild 0

/-- `p->urls` -/
def urlCount (urllistElem : XmlElem) : ℤ :=
  wrapInt 32 (countXmlSeqChild urllistElem + countXmlElemChild urllistElem XML_URLLIST_URL)

/-- The slots of a urllist: they are counted, allocated and filled.  The array is allocated for one
slot more, a number computed as an `int`. -/
def parseUrls (files : Files) (urllistElem : XmlElem) : Parse := fun st =>
  if urlCount urllistElem ≤ 0 then (some (.ok .egeneral), st)
  else if wrapInt 32 (urlCount urllistElem + 1) ≤ 0 then (some (.error .fault), st)
  else parseUrllist files (urlCount urllistElem) urllistElem.firstChild st

/-- `p->url`: the slots that were filled, in an array of zeros. -/
def slotArray (urls : ℤ) (slots : List (ℤ × Url)) : List Url :=
  slots.foldl (fun array slot => array.set slot.1.toNat slot.2)
    (List.replicate (urls + 1).toNat {})

/-! ### The substitution list -/

/-- The children of a `subst_entry`; one without text leaves the record alone. -/
def parseSubstEntry : XmlElem → SubstRec → SubstRec
  | .null, r => r
  | .elem name cdata _ _ next, r =>
    let r := if sameName name XML_SUBST_VAR ∧ cdata ≠ [] then { r with substVar := cdata.head? }
      else r
    let r := if sameName name XML_SUBST_FILE ∧ cdata ≠ [] then
        { r with substFileName := cdata.head? }
      else r
    parseSubstEntry next r

/-- The loop over the children of the list, with the index of the current record: every child moves on
to the next record, whatever it is. -/
def substEntries : XmlElem → ℕ → List SubstRec → Except Abort (ℕ × List SubstRec)
  | .null, validSubsts, list => .ok (validSubsts, list)
  | .elem name _ _ firstChild next, validSubsts, list =>
    match list[validSubsts]? with
    | none => .error .fault
    | some r =>
      let r := if sameName name XML_SUBST_ENTRY then parseSubstEntry firstChild r else r
      let r := if r.substVar ≠ none ∧ r.substFileName ≠ none then { r with valid := true } else r
      substEntries next (validSubsts + 1) (list.set validSubsts r)

/-- `while (subst_rec_p->valid)`: the files are opened, up to the first record that is not valid. -/
def openSubsts (files : Files) : List SubstRec → Except Abort (List SubstRec)
  | [] => .error .fault
  | r :: list =>
    if ¬ r.valid then .ok (r :: list)
    else
      let fname := r.substFileName.getD []
      if files.fileOpen fname ≠ .success ∨ (files.stat fname).1 ≠ .success then .error .exit
      else
        match openSubsts files list with
        | .error a => .error a
        | .ok list =>
          .ok ({ r with file := files.content fname, fsize := (files.stat fname).2 } :: list)

/-- The substitution list of the configuration, if it has one. -/
def parseSubstList (files : Files) (rootElem : XmlElem) :
    Except Abort (Status × Option (List SubstRec)) :=
  match retrieveXmlElemChild rootElem XML_SUBST_LIST with
  | .null => .ok (.success, none)
  | .elem name cdata attr firstChild next =>
    let substCount := countXmlElemChild (.elem name cdata attr firstChild next) XML_SUBST_ENTRY
    match substEntries firstChild 0
        (List.replicate (substCount + 1).toNat ⟨none, none, [], 0, false⟩) with
    | .error a => .error a
    | .ok (validSubsts, list) =>
      if (validSubsts : ℤ) ≠ substCount then .ok (.egeneral, some list)
      else
        match openSubsts files list with
        | .error a => .error a
        | .ok list => .ok (.success, some list)

/-! ### The initialisation -/

def LONG_MAX : ℤ := 2 ^ 63 - 1
def LONG_MIN : ℤ := -2 ^ 63
def ERANGE : ℕ := 34

/-- `p->execute_rounds`, an `int` that is compared with the limits of a `long`. -/
def executeRounds (profileElem : XmlElem) : Status × ℤ :=
  match retrieveXmlElemChild profileElem XML_PROFILE_COUNT with
  | .null => (.success, 1)
  | .elem _ [] _ _ _ => (.success, 1)
  | .elem _ (text :: _) _ _ _ =>
    let rounds := wrapInt 32 (strtol 10 text).1
    if rounds = LONG_MAX ∨ rounds = LONG_MIN then (.errno ERANGE, rounds) else (.success, rounds)

/-- The text of a child that may be missing; one without text ends the process. -/
def optionalText (elem : XmlElem) (name : Bytes) : Except Abort (Option Bytes) :=
  match retrieveXmlElemChild elem name with
  | .null => .ok none
  | .elem _ [] _ _ _ => .error .fault
  | .elem _ (text :: _) _ _ _ => .ok (some text)

/-- The first part of `round_robin_profile_init`: the number of rounds and the urllist of a
profile. -/
def findUrllist (profileName : Bytes) (rootElem : XmlElem) : Except Abort (Status × ℤ × XmlElem) :=
  match retrieveXmlElemWithChildmatch rootElem XML_PROFILE (bytes "name") profileName with
  | .error a => .error a
  | .ok .null => .ok (.egeneral, 0, .null)
  | .ok profileElem =>
    match executeRounds profileElem with
    | (stat, rounds) =>
      if stat ≠ .success then .ok (stat, rounds, .null)
      else
        match retrieveXmlElemChild profileElem XML_PROFILE_USEURLLIST with
        | .null => .ok (.egeneral, rounds, .null)
        | .elem _ [] _ _ _ => .error .fault
        | .elem _ (urllistName :: _) _ _ _ =>
          match retrieveXmlElemWithChildmatch rootElem XML_URLLIST XML_URLLIST_NAME
              urllistName with
          | .error a => .error a
          | .ok .null => .ok (.egeneral, rounds, .null)
          | .ok urllistElem => .ok (.success, rounds, urllistElem)

/-- The state of the traversal in front of the first child. -/
def ParseState.start (values : Values) (draws : Draws) : ParseState :=
  ⟨[], 0, fun _ => none, draws, values⟩

/-- `round_robin_profile_init`: the profile, where one is handed over, and the state of the traversal
at the end, with the draws and the memory of the values left behind. -/
def roundRobinProfileInit (uriParse : Bytes → Uri) (files : Files) (profileName : Bytes)
    (rootElem : XmlElem) (values : Values) (draws : Draws) :
    Except Abort (Status × Option RoundRobinProfile) × ParseState :=
  let st := ParseState.start values draws
  match findUrllist profileName rootElem with
  | .error a => (.error a, st)
  | .ok (stat, rounds, urllistElem) =>
    if stat ≠ .success then (.ok (stat, none), st)
    else
      match optionalText urllistElem XML_URLLIST_BASE_URL with
      | .error a => (.error a, st)
      | .ok baseurl =>
        match optionalText urllistElem XML_URLLIST_PROXY_URL with
        | .error a => (.error a, st)
        | .ok proxyurl =>
          match parseUrls files urllistElem st with
          | (some (.error a), st) => (.error a, st)
          | (some (.ok stat), st) => (.ok (stat, none), st)
          | (none, st) =>
            match parseSubstList files rootElem with
            | .error a => (.error a, st)
            | .ok (stat, substList) =>
              if stat ≠ .success then (.ok (stat, none), st)
              else
                (.ok (.success, some {
                  executeRounds := rounds
                  urls := urlCount urllistElem
                  url := slotArray (urlCount urllistElem) st.slots
                  baseurl := baseurl
                  proxyUrl := proxyurl.map uriParse
                  cookie := []
                  state := st.state
                  substList := substList
                  currentRound := 0
                  currentUrl := 0 }), st)

/-- A urllist that is found is that of a profile that is found, whose rounds could be read. -/
theorem findUrllist_success {profileName : Bytes} {rootElem urllistElem : XmlElem} {rounds : ℤ}
    (h : findUrllist profileName rootElem = .ok (.success, rounds, urllistElem)) :
    ∃ profileElem urllistName,
      retrieveXmlElemWithChildmatch rootElem XML_PROFILE (bytes "name") profileName =
        .ok profileElem ∧
      executeRounds profileElem = (.success, rounds) ∧
      retrieveXmlElemWithChildmatch rootElem XML_URLLIST XML_URLLIST_NAME urllistName =
        .ok urllistElem := by
  unfold findUrllist at h
  split at h
  · cases h
  · cases h
  · next profileElem _ hprofile =>
    split at h
    next stat rounds' hrounds =>
    split at h
    · next hstat =>
      cases h
      exact absurd rfl hstat
    · next hstat =>
      rw [not_not] at hstat
      subst hstat
      split at h
      · cases h
      · cases h
      · next urllistName _ _ _ _ _ =>
        split at h
        · cases h
        · cases h
        · next hurllist =>
          cases h
          exact ⟨profileElem, urllistName, hprofile, hrounds, hurllist⟩

/-- **What an initialisation does with the slots**, once the urllist is known: it ends before there are
any, or they are those of the urllist, and a profile that is handed over has them. -/
theorem roundRobinProfileInit_slots (uriParse : Bytes → Uri) (files : Files) {profileName : Bytes}
    {rootElem urllistElem : XmlElem} {rounds : ℤ} (values : Values) (draws : Draws)
    (hfound : findUrllist profileName rootElem = .ok (.success, rounds, urllistElem)) :
    ((roundRobinProfileInit uriParse files profileName rootElem values draws).2 =
        ParseState.start values draws ∧
      ∀ profile, (roundRobinProfileInit uriParse files profileName rootElem values draws).1 ≠
        .ok (.success, some profile)) ∨
    ((roundRobinProfileInit uriParse files profileName rootElem values draws).2 =
        (parseUrls files urllistElem (ParseState.start values draws)).2 ∧
      ∀ profile, (roundRobinProfileInit uriParse files profileName rootElem values draws).1 =
        .ok (.success, some profile) →
        (parseUrls files urllistElem (ParseState.start values draws)).1 = none ∧
          profile.urls = urlCount urllistElem ∧
          profile.url = slotArray (urlCount urllistElem)
            (parseUrls files urllistElem (ParseState.start values draws)).2.slots) := by
  unfold roundRobinProfileInit
  rw [hfound]
  dsimp only
  rw [if_neg (not_not.mpr rfl)]
  cases optionalText urllistElem XML_URLLIST_BASE_URL with
  | error a => exact .inl ⟨rfl, fun profile h => by cases h⟩
  | ok baseurl =>
    cases optionalText urllistElem XML_URLLIST_PROXY_URL with
    | error a => exact .inl ⟨rfl, fun profile h => by cases h⟩
    | ok proxyurl =>
      right
      dsimp only
      cases parseUrls files urllistElem (ParseState.start values draws) with
      | mk r st =>
        cases r with
        | some r =>
          cases r with
          | error a => exact ⟨rfl, fun profile h => by cases h⟩
          | ok stat => exact ⟨rfl, fun profile h => by cases h⟩
        | none =>
          dsimp only
          cases parseSubstList files rootElem with
          | error a => exact ⟨rfl, fun profile h => by cases h⟩
          | ok found =>
            obtain ⟨stat, substList⟩ := found
            dsimp only
            split
            · exact ⟨rfl, fun profile h => by cases h⟩
            · refine ⟨rfl, fun profile h => ?_⟩
              simp only [Except.ok.injEq, Prod.mk.injEq, Option.some.injEq, true_and] at h
              subst h
              exact ⟨rfl, rfl, rfl⟩

/-! ### The items of a list -/

/-- A text without the white space in front. -/
def trimLeft (t : Bytes) : Bytes := t.dropWhile isSpace

/-- The pieces between the commas of a list, without the white space in front. -/
def seqItems (value : Bytes) : List Bytes := ((cstr value).splitOn COMMA).map trimLeft

theorem strchr_none {c : UInt8} {s : Bytes} (h : strchr c s = none) : c ∉ cstr s := by
  intro hmem
  have hall := List.findIdx?_eq_none_iff.mp h c hmem
  simp at hall

theorem strchr_some {c : UInt8} {s : Bytes} {i : ℕ} (h : strchr c s = some i) :
    ∃ item m, s = item ++ c :: m ∧ item.length = i ∧ c ∉ item ∧ 0 ∉ item ∧
      cstr s = item ++ c :: cstr m := by
  obtain ⟨hi, hat, hbefore⟩ := List.findIdx?_eq_some_iff_getElem.mp h
  have hc : (cstr s)[i] = c := by simpa using hat
  have hsplit : cstr s = (cstr s).take i ++ c :: (cstr s).drop (i + 1) := by
    conv_lhs => rw [← List.take_append_drop i (cstr s)]
    rw [List.drop_eq_getElem_cons hi, hc]
  have h0 := cstr_noNUL s
  have h0item : 0 ∉ (cstr s).take i := fun hmem => h0 (List.mem_of_mem_take hmem)
  have hc0 : c ≠ 0 := by
    intro heq
    exact h0 (heq ▸ hc ▸ List.getElem_mem hi)
  have hs : s = (cstr s).take i ++ c :: ((cstr s).drop (i + 1) ++ s.dropWhile (· ≠ 0)) := by
    conv_lhs => rw [← List.takeWhile_append_dropWhile (p := fun x : UInt8 => decide (x ≠ 0)) (l := s)]
    show cstr s ++ _ = _
    conv_lhs => rw [hsplit]
    simp
  refine ⟨(cstr s).take i, (cstr s).drop (i + 1) ++ s.dropWhile (· ≠ 0), hs, ?_, ?_, h0item, ?_⟩
  · rw [List.length_take, Nat.min_eq_left (Nat.le_of_lt hi)]
  · intro hmem
    obtain ⟨j, hj, hcj⟩ := List.mem_take_iff_getElem.mp hmem
    have hji : j < i := by omega
    have hne := hbefore j hji
    simp [hcj] at hne
  · conv_lhs => rw [hs]
    rw [cstr_append_of_not_mem h0item]
    congr 1
    simp [cstr, hc0]

theorem strchr_lt {c : UInt8} {s : Bytes} {i : ℕ} (h : strchr c s = some i) :
    i < (cstr s).length :=
  (List.findIdx?_eq_some_iff_getElem.mp h).1

theorem seqItems_last {s : Bytes} (h : COMMA ∉ cstr s) : seqItems s = [trimLeft (cstr s)] := by
  rw [seqItems, List.splitOn_eq_singleton h]
  rfl

theorem seqItems_comma {s item m : Bytes} (hs : cstr s = item ++ COMMA :: cstr m)
    (hitem : COMMA ∉ item) : seqItems s = trimLeft item :: seqItems m := by
  rw [seqItems, hs, List.splitOn_append_cons_self_of_not_mem hitem]
  rfl

/-- **The counter** of a list arrives at the number of its items. -/
theorem countItems_eq (n : ℕ) (s : Bytes) (count : ℕ) (hn : s.length ≤ n) :
    countItems n s count + 1 = count + (seqItems s).length := by
  induction n generalizing s count with
  | zero =>
    have hnil : s = [] := List.length_eq_zero_iff.mp (Nat.le_zero.mp hn)
    subst hnil
    rfl
  | succ n ih =>
    rw [countItems]
    cases hcomma : strchr COMMA s with
    | none => rw [seqItems_last (strchr_none hcomma), List.length_singleton]
    | some i =>
      obtain ⟨item, m, hs, hi, hitem, -, hcstr⟩ := strchr_some hcomma
      have hdrop : s.drop (i + 1) = m := by
        rw [hs, ← hi, ← List.drop_drop, List.drop_left]
        rfl
      have hlen : m.length ≤ n := by
        rw [hs] at hn
        simp only [List.length_append, List.length_cons] at hn
        omega
      show countItems n (s.drop (i + 1)) (count + 1) + 1 = _
      rw [hdrop, ih m (count + 1) hlen, seqItems_comma hcstr hitem, List.length_cons]
      omega

theorem seqItems_ne_nil (value : Bytes) : seqItems value ≠ [] := by
  intro h
  rw [seqItems, List.map_eq_nil_iff] at h
  exact List.splitOn_ne_nil _ _ h

theorem listCount_eq (value : Bytes) : listCount value = (seqItems value).length := by
  have h := countItems_eq value.length value 1 (Nat.le_refl _)
  rw [listCount]
  omega

/-- What `count_xml_seq_child` adds for an attribute that is a list. -/
theorem seqListCount_cons {a : XmlAttr} (h : sameName a.name XML_URLLIST_SEQUENCE_LIST = true)
    (attr : List XmlAttr) (count : ℕ) :
    seqListCount (a :: attr) count = seqListCount attr (count + (seqItems a.value).length) := by
  have hcount := countItems_eq a.value.length a.value (count + 1) le_rfl
  rw [seqListCount, if_pos h]
  congr 1
  omega

theorem trimLeft_eq_drop (t : Bytes) : trimLeft t = t.drop (t.takeWhile isSpace).length := by
  have hsplit : t.takeWhile isSpace ++ trimLeft t = t := List.takeWhile_append_dropWhile
  conv_rhs => arg 2; rw [← hsplit]
  rw [List.drop_left]

/-- A string from an offset within it on. -/
theorem cstr_drop {s : Bytes} {k : ℕ} (h : k ≤ (cstr s).length) : cstr (s.drop k) = (cstr s).drop k := by
  have hs : s = cstr s ++ s.dropWhile (· ≠ 0) := List.takeWhile_append_dropWhile.symm
  have h0 : 0 ∉ (cstr s).drop k := fun hmem => cstr_noNUL s (List.mem_of_mem_drop hmem)
  have hrest : cstr (s.dropWhile (· ≠ 0)) = [] := by
    have hall : cstr s ++ cstr (s.dropWhile (· ≠ 0)) = cstr s := by
      rw [← cstr_append_of_not_mem (cstr_noNUL s), ← hs]
    exact List.append_right_eq_self.mp hall
  conv_lhs => rw [hs]
  rw [List.drop_append_of_le_length h, cstr_append_of_not_mem h0, hrest, List.append_nil]

theorem takeWhile_append_stop {c : UInt8} (item m : Bytes) (hc : isSpace c = false) :
    (item ++ c :: m).takeWhile isSpace = item.takeWhile isSpace := by
  induction item with
  | nil => simp [hc]
  | cons d item ih =>
    rw [List.cons_append, List.takeWhile_cons, List.takeWhile_cons, ih]

/-- **The loop that copies the items** of a list. -/
theorem splitLoop_eq (pre r : Bytes) (acc : List Bytes) :
    splitLoop (pre ++ r) (seqItems r).length pre.length
      ((strchr COMMA r).map (pre.length + ·)) acc = .ok (acc ++ seqItems r) := by
  induction hn : (seqItems r).length generalizing pre r acc with
  | zero => exact absurd (List.length_eq_zero_iff.mp hn) (seqItems_ne_nil r)
  | succ n ih =>
    unfold splitLoop
    rw [List.drop_left]
    cases hcomma : strchr COMMA r with
    | none =>
      have hlast := seqItems_last (strchr_none hcomma)
      have hzero : n = 0 := by
        rw [hlast, List.length_singleton] at hn
        omega
      subst hzero
      have hspace : ((cstr r).takeWhile isSpace).length ≤ (cstr r).length :=
        (List.takeWhile_prefix _).length_le
      show Except.ok (acc ++ [cstr ((pre ++ r).drop _)]) = _
      rw [← List.drop_drop, List.drop_left, cstr_drop hspace, hlast, trimLeft_eq_drop]
    | some i =>
      obtain ⟨item, m, hr, hi, hitem, -, hcstr⟩ := strchr_some hcomma
      have hspace : (cstr r).takeWhile isSpace = item.takeWhile isSpace := by
        rw [hcstr]
        exact takeWhile_append_stop item (cstr m) (by decide)
      have hle : (item.takeWhile isSpace).length ≤ i := hi ▸ (List.takeWhile_prefix _).length_le
      have hfetch : fetch ((pre ++ r).drop (pre.length + (item.takeWhile isSpace).length))
          (pre.length + i - (pre.length + (item.takeWhile isSpace).length)) = trimLeft item := by
        have hlen : (item.drop (item.takeWhile isSpace).length).length =
            pre.length + i - (pre.length + (item.takeWhile isSpace).length) := by
          rw [List.length_drop]
          omega
        rw [← List.drop_drop, List.drop_left, hr, List.drop_append_of_le_length (hi ▸ hle),
          ← hlen, trimLeft_eq_drop]
        rw [fetch_append (Nat.le_refl _), List.take_length]
      have hrest : (pre ++ r).drop (pre.length + i + 1) = m := by
        rw [Nat.add_assoc, ← List.drop_drop, List.drop_left, hr, ← hi, ← List.drop_drop,
          List.drop_left]
        rfl
      have hpre : pre ++ r = (pre ++ item ++ [COMMA]) ++ m := by
        rw [hr]
        simp
      have hprelen : (pre ++ item ++ [COMMA]).length = pre.length + i + 1 := by
        simp only [List.length_append, List.length_singleton, hi]
      have hcount : (seqItems m).length = n := by
        rw [seqItems_comma hcstr hitem, List.length_cons] at hn
        omega
      have hloop := ih (pre ++ item ++ [COMMA]) m (acc ++ [trimLeft item]) hcount
      rw [← hpre, hprelen] at hloop
      simp only [Option.map_some, hspace]
      rw [if_neg (by omega), hfetch, hrest, hloop, seqItems_comma hcstr hitem]
      simp

/-- **The items of a sequence**: one more than the list has commas, each without the white space in
front. -/
theorem splitSeqlist_eq (value : Bytes) : splitSeqlist value = .ok (seqItems value) := by
  have hloop := splitLoop_eq [] value []
  have hzero : (strchr COMMA value).map (([] : Bytes).length + ·) = strchr COMMA value := by
    cases strchr COMMA value with
    | none => rfl
    | some i => simp
  rw [hzero] at hloop
  rw [splitSeqlist, listCount_eq]
  exact hloop

/-! ### What the substitution list becomes -/

/-- A record of zeros. -/
def emptyRec : SubstRec := ⟨none, none, [], 0, false⟩

/-- The record that the loop makes of a child of the list. -/
def entryRec (n : Node) : SubstRec :=
  let r := if sameName n.name XML_SUBST_ENTRY then parseSubstEntry n.firstChild emptyRec
    else emptyRec
  if r.substVar ≠ none ∧ r.substFileName ≠ none then { r with valid := true } else r

/-- **The loop over the children** makes a record of each, as long as there is room. -/
theorem substEntries_eq (e : XmlElem) (pre : List SubstRec) (m : ℕ) :
    substEntries e pre.length (pre ++ List.replicate m emptyRec) =
      if e.siblings.length ≤ m then
        .ok (pre.length + e.siblings.length,
          pre ++ e.siblings.map entryRec ++ List.replicate (m - e.siblings.length) emptyRec)
      else .error .fault := by
  induction e generalizing pre m with
  | null => simp [substEntries, XmlElem.siblings]
  | elem name cdata attr firstChild next _ ih =>
    rw [substEntries, XmlElem.siblings, List.length_cons]
    cases m with
    | zero =>
      rw [List.replicate_zero, List.append_nil, List.getElem?_eq_none (Nat.le_refl _),
        if_neg (by omega)]
    | succ m =>
      have hat : (pre ++ List.replicate (m + 1) emptyRec)[pre.length]? = some emptyRec := by
        rw [List.getElem?_append_right (Nat.le_refl _), Nat.sub_self]
        rfl
      have hset : ∀ r, (pre ++ List.replicate (m + 1) emptyRec).set pre.length r =
          pre ++ [r] ++ List.replicate m emptyRec := by
        intro r
        rw [List.set_append_right _ _ (Nat.le_refl _), Nat.sub_self, List.append_assoc]
        rfl
      have hlen : ∀ r : SubstRec, pre.length + 1 = (pre ++ [r]).length := by
        intro r
        rw [List.length_append, List.length_singleton]
      rw [hat]
      dsimp only
      rw [hset, hlen (entryRec ⟨name, cdata, attr, firstChild⟩)]
      refine (ih _ m).trans ?_
      simp only [Nat.add_le_add_iff_right, List.length_append, List.length_singleton,
        List.map_cons, List.append_assoc, List.singleton_append, Nat.add_sub_add_right]
      rw [Nat.add_assoc, Nat.add_comm 1]

/-- The record with its file opened. -/
def opened (files : Files) (r : SubstRec) : SubstRec :=
  { r with file := files.content (r.substFileName.getD [])
           fsize := (files.stat (r.substFileName.getD [])).2 }

/-- The file of a record can be opened, and its size is known. -/
def Opens (files : Files) (r : SubstRec) : Prop :=
  files.fileOpen (r.substFileName.getD []) = .success ∧
    (files.stat (r.substFileName.getD [])).1 = .success

instance (files : Files) (r : SubstRec) : Decidable (Opens files r) :=
  inferInstanceAs (Decidable (_ ∧ _))

/-- **The files are opened** up to the first record that is not valid. -/
theorem openSubsts_eq (files : Files) {rs behind : List SubstRec} {stop : SubstRec}
    (hvalid : ∀ r ∈ rs, r.valid = true) (hstop : stop.valid = false) :
    openSubsts files (rs ++ stop :: behind) =
      if ∀ r ∈ rs, Opens files r then .ok (rs.map (opened files) ++ stop :: behind)
      else .error .exit := by
  induction rs with
  | nil =>
    rw [List.nil_append, openSubsts, if_pos (by simp [hstop])]
    rfl
  | cons r rs ih =>
    obtain ⟨hr, hrs⟩ := List.forall_mem_cons.mp hvalid
    rw [List.cons_append, openSubsts, if_neg (not_not.mpr hr), ih hrs]
    simp only [List.forall_mem_cons]
    by_cases hopens : Opens files r
    · have hfile : ¬ (files.fileOpen (r.substFileName.getD []) ≠ .success ∨
          (files.stat (r.substFileName.getD [])).1 ≠ .success) := by
        rw [not_or, not_not, not_not]
        exact hopens
      rw [if_neg hfile]
      by_cases hall : ∀ r ∈ rs, Opens files r
      · rw [if_pos hall, if_pos ⟨hopens, hall⟩]
        rfl
      · rw [if_neg hall, if_neg fun h => hall h.2]
    · have hfile : files.fileOpen (r.substFileName.getD []) ≠ .success ∨
          (files.stat (r.substFileName.getD [])).1 ≠ .success := by
        by_contra h
        rw [not_or, not_not, not_not] at h
        exact hopens h
      rw [if_pos hfile, if_neg fun h => hopens h.1]

theorem countNamed_le (name : Bytes) (e : XmlElem) : countNamed name e ≤ e.siblings.length := by
  induction e with
  | null => exact Nat.le_refl 0
  | elem n cdata attr firstChild next _ ih =>
    rw [countNamed, XmlElem.siblings, List.length_cons]
    split
    · omega
    · omega

theorem countXmlElemChild_le (elem : XmlElem) (name : Bytes) :
    countXmlElemChild elem name ≤ elem.firstChild.siblings.length :=
  Int.le_trans (wrapInt_le 32 (Int.natCast_nonneg _))
    (Int.ofNat_le.mpr (countNamed_le name elem.firstChild))

theorem countXmlElemChild_empty (elem : XmlElem) (name : Bytes)
    (h : elem.firstChild.siblings.length = 0) : countXmlElemChild elem name = 0 := by
  have hcount := countNamed_le name elem.firstChild
  rw [countXmlElemChild, show countNamed name elem.firstChild = 0 by omega]
  rfl

/-- What becomes of the children of the list, for a number of entries that was counted. -/
theorem substEntries_count (e : XmlElem) {count : ℤ} (hle : count ≤ e.siblings.length)
    (hempty : e.siblings.length = 0 → count = 0) :
    substEntries e 0 (List.replicate (count + 1).toNat emptyRec) =
      if (e.siblings.length : ℤ) = count then
        .ok (e.siblings.length, e.siblings.map entryRec ++ [emptyRec])
      else if (e.siblings.length : ℤ) = count + 1 then
        .ok (e.siblings.length, e.siblings.map entryRec)
      else .error .fault := by
  have hentries := substEntries_eq e [] (count + 1).toNat
  simp only [List.length_nil, List.nil_append, Nat.zero_add] at hentries
  rw [hentries]
  by_cases hsame : (e.siblings.length : ℤ) = count
  · rw [if_pos (by omega), if_pos hsame,
      show (count + 1).toNat - e.siblings.length = 1 by omega, List.replicate_one]
  · rw [if_neg hsame]
    by_cases hmore : (e.siblings.length : ℤ) = count + 1
    · rw [if_pos (by omega), if_pos hmore,
        show (count + 1).toNat - e.siblings.length = 0 by omega, List.replicate_zero,
        List.append_nil]
    · rw [if_neg (by omega), if_neg hmore]

/-- **The substitution list**: its children must be as many as its entries; one more is noticed, more
than that do not fit into the array. -/
theorem parseSubstList_eq (files : Files) {rootElem e : XmlElem}
    (hlist : retrieveXmlElemChild rootElem XML_SUBST_LIST = e) (hne : e ≠ .null) :
    parseSubstList files rootElem =
      if (e.firstChild.siblings.length : ℤ) = countXmlElemChild e XML_SUBST_ENTRY then
        (openSubsts files (e.firstChild.siblings.map entryRec ++ [emptyRec])).map fun list =>
          (.success, some list)
      else if (e.firstChild.siblings.length : ℤ) = countXmlElemChild e XML_SUBST_ENTRY + 1 then
        .ok (.egeneral, some (e.firstChild.siblings.map entryRec))
      else .error .fault := by
  have hle := countXmlElemChild_le e XML_SUBST_ENTRY
  have hempty := countXmlElemChild_empty e XML_SUBST_ENTRY
  obtain _ | ⟨name, cdata, attr, firstChild, next⟩ := e
  · exact absurd rfl hne
  rw [show XmlElem.firstChild (.elem name cdata attr firstChild next) = firstChild from rfl]
    at hle hempty ⊢
  rw [parseSubstList, hlist]
  dsimp only
  generalize countXmlElemChild (.elem name cdata attr firstChild next) XML_SUBST_ENTRY = count
    at hle hempty ⊢
  rw [show (⟨none, none, [], 0, false⟩ : SubstRec) = emptyRec from rfl,
    substEntries_count firstChild hle hempty]
  by_cases hsame : (firstChild.siblings.length : ℤ) = count
  · rw [if_pos hsame, if_pos hsame]
    dsimp only
    rw [if_neg (not_not.mpr hsame)]
    cases openSubsts files (firstChild.siblings.map entryRec ++ [emptyRec]) with
    | error a => rfl
    | ok list => rfl
  · rw [if_neg hsame, if_neg hsame]
    by_cases hmore : (firstChild.siblings.length : ℤ) = count + 1
    · rw [if_pos hmore, if_pos hmore]
      exact if_pos hsame
    · rw [if_neg hmore, if_neg hmore]

end Flood.ProfileInit
