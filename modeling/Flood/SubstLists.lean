import Flood.UnknownNames
import Flood.UnlistedSequences

/-!
# Substitution lists of any length

`round_robin_profile_init` counts the entries of the substitution list, makes a record of every child,
marks the complete ones and opens the files up to the first record that is not marked;
`subst_file_get` looks through a fixed number of records.

* `parseSubstList_success_iff` — when a list is handed over, and with which records.
* `substFileGet_entry_iff` — the entries that are found in a list without gaps.
* `entries_ready_iff` — when every entry has become an opened record.
-/

namespace Flood.SubstLists

open Flood.CString Flood.Net Flood.Subst Flood.Template Flood.RoundRobin Flood.Config
open Flood.UrlElement Flood.InTurn Flood.ProfileInit Flood.SlotCount Flood.UrllistExpansion
open Flood.UnlistedSequences Flood.UnknownNames

/-! ### Entries -/

/-- One of the children has the name, and text. -/
def hasText (name : Bytes) (e : XmlElem) : Bool :=
  e.siblings.any fun n => sameName n.name name && n.cdata ≠ []

/-- The entry has its `subst_var` and its `subst_file`. -/
def complete (n : Node) : Bool :=
  hasText XML_SUBST_VAR n.firstChild && hasText XML_SUBST_FILE n.firstChild

theorem head?_ne_none_iff (cdata : List Bytes) : cdata.head? ≠ none ↔ cdata ≠ [] := by
  cases cdata with
  | nil => exact iff_of_false (fun h => h rfl) fun h => h rfl
  | cons text cdata => exact iff_of_true nofun nofun

/-- What one child of an entry does to the record. -/
def readChild (r : SubstRec) (n : Node) : SubstRec :=
  let r := if sameName n.name XML_SUBST_VAR ∧ n.cdata ≠ [] then { r with substVar := n.cdata.head? }
    else r
  if sameName n.name XML_SUBST_FILE ∧ n.cdata ≠ [] then { r with substFileName := n.cdata.head? } else r

theorem parseSubstEntry_eq (e : XmlElem) (r : SubstRec) :
    parseSubstEntry e r = e.siblings.foldl readChild r := by
  induction e generalizing r with
  | null => rfl
  | elem name cdata attr firstChild next _ ih => exact ih _

theorem readChild_substVar (r : SubstRec) (n : Node) :
    (readChild r n).substVar ≠ none ↔
      r.substVar ≠ none ∨ (sameName n.name XML_SUBST_VAR && n.cdata ≠ []) = true := by
  have hread : (readChild r n).substVar =
      if sameName n.name XML_SUBST_VAR ∧ n.cdata ≠ [] then n.cdata.head? else r.substVar := by
    unfold readChild
    dsimp only
    split
    · split
      · rfl
      · rfl
    · split
      · rfl
      · rfl
  rw [hread, Bool.and_eq_true, decide_eq_true_iff]
  by_cases hvar : sameName n.name XML_SUBST_VAR = true ∧ n.cdata ≠ []
  · rw [if_pos hvar]
    exact iff_of_true ((head?_ne_none_iff n.cdata).mpr hvar.2) (.inr hvar)
  · rw [if_neg hvar, or_iff_left hvar]

theorem readChild_substFileName (r : SubstRec) (n : Node) :
    (readChild r n).substFileName ≠ none ↔
      r.substFileName ≠ none ∨ (sameName n.name XML_SUBST_FILE && n.cdata ≠ []) = true := by
  rw [Bool.and_eq_true, decide_eq_true_iff]
  unfold readChild
  dsimp only
  by_cases hfile : sameName n.name XML_SUBST_FILE = true ∧ n.cdata ≠ []
  · rw [if_pos hfile]
    exact iff_of_true ((head?_ne_none_iff n.cdata).mpr hfile.2) (.inr hfile)
  · rw [if_neg hfile, or_iff_left hfile]
    split
    · exact Iff.rfl
    · exact Iff.rfl

theorem readChild_valid (r : SubstRec) (n : Node) : (readChild r n).valid = r.valid := by
  unfold readChild
  dsimp only
  split
  · split
    · rfl
    · rfl
  · split
    · rfl
    · rfl

/-- A property that holds behind a step where it held before, or where the element has its mark, holds
behind a fold where one of the elements has it. -/
theorem foldl_or_any {σ α : Type*} {f : σ → α → σ} {P : σ → Prop} {q : α → Bool}
    (h : ∀ s a, P (f s a) ↔ P s ∨ q a = true) (l : List α) (s : σ) :
    P (l.foldl f s) ↔ P s ∨ l.any q = true := by
  induction l generalizing s with
  | nil => exact (or_iff_left Bool.false_ne_true).symm
  | cons a l ih => rw [List.foldl_cons, ih, h, List.any_cons, Bool.or_eq_true, or_assoc]

theorem parseSubstEntry_substVar (e : XmlElem) (r : SubstRec) :
    (parseSubstEntry e r).substVar ≠ none ↔ r.substVar ≠ none ∨ hasText XML_SUBST_VAR e = true := by
  rw [parseSubstEntry_eq]
  exact foldl_or_any (P := fun r => r.substVar ≠ none) readChild_substVar e.siblings r

theorem parseSubstEntry_substFileName (e : XmlElem) (r : SubstRec) :
    (parseSubstEntry e r).substFileName ≠ none ↔
      r.substFileName ≠ none ∨ hasText XML_SUBST_FILE e = true := by
  rw [parseSubstEntry_eq]
  exact foldl_or_any (P := fun r => r.substFileName ≠ none) readChild_substFileName e.siblings r

theorem parseSubstEntry_valid (e : XmlElem) (r : SubstRec) :
    (parseSubstEntry e r).valid = r.valid := by
  rw [parseSubstEntry_eq]
  generalize e.siblings = l
  induction l generalizing r with
  | nil => rfl
  | cons n l ih => rw [List.foldl_cons, ih, readChild_valid]

/-- A record that is marked has a variable and a file. -/
theorem entryRec_named {n : Node} (h : (entryRec n).valid = true) :
    (entryRec n).substVar ≠ none ∧ (entryRec n).substFileName ≠ none := by
  have hunmarked : (if sameName n.name XML_SUBST_ENTRY then parseSubstEntry n.firstChild emptyRec
      else emptyRec).valid = false := by
    split
    · exact parseSubstEntry_valid n.firstChild emptyRec
    · rfl
  rw [entryRec] at h ⊢
  generalize (if sameName n.name XML_SUBST_ENTRY then parseSubstEntry n.firstChild emptyRec
    else emptyRec) = r at *
  by_cases hnamed : r.substVar ≠ none ∧ r.substFileName ≠ none
  · rw [if_pos hnamed]
    exact hnamed
  · rw [if_neg hnamed, hunmarked] at h
    cases h

/-- **The record of an entry is marked** just where the entry is complete. -/
theorem entryRec_valid {n : Node} (hentry : sameName n.name XML_SUBST_ENTRY = true) :
    (entryRec n).valid = complete n := by
  have hnamed : ((parseSubstEntry n.firstChild emptyRec).substVar ≠ none ∧
      (parseSubstEntry n.firstChild emptyRec).substFileName ≠ none) ↔ complete n = true := by
    rw [parseSubstEntry_substVar, parseSubstEntry_substFileName, complete, Bool.and_eq_true]
    refine and_congr (or_iff_right ?_) (or_iff_right ?_)
    · exact fun h => h rfl
    · exact fun h => h rfl
  rw [entryRec, if_pos hentry]
  split
  · next h => exact (hnamed.mp h).symm
  · next h =>
    rw [parseSubstEntry_valid, Bool.eq_false_of_not_eq_true fun hc => h (hnamed.mpr hc)]
    rfl

theorem countNamed_all {name : Bytes} {e : XmlElem} (h : countNamed name e = e.siblings.length) :
    ∀ n ∈ e.siblings, sameName n.name name = true := by
  induction e with
  | null => exact fun n hn => by cases hn
  | elem n cdata attr firstChild next _ ih =>
    rw [countNamed, XmlElem.siblings, List.length_cons] at h
    have hle := countNamed_le name next
    rw [XmlElem.siblings, List.forall_mem_cons]
    split at h
    · next hn => exact ⟨hn, ih (by omega)⟩
    · omega

/-- Where the children are as many as the entries, they all are entries. -/
theorem countXmlElemChild_all {elem : XmlElem} {name : Bytes}
    (h : (elem.firstChild.siblings.length : ℤ) = countXmlElemChild elem name) :
    ∀ n ∈ elem.firstChild.siblings, sameName n.name name = true := by
  have hwrap : countXmlElemChild elem name ≤ (countNamed name elem.firstChild : ℤ) :=
    wrapInt_le 32 (Int.natCast_nonneg _)
  have hle := countNamed_le name elem.firstChild
  exact countNamed_all (by omega)

/-! ### The list that is handed over -/

/-- The children of the substitution list. -/
def substChildren (rootElem : XmlElem) : List Node :=
  (retrieveXmlElemChild rootElem XML_SUBST_LIST).firstChild.siblings

/-- The children of the list are as many as its entries. -/
def OnlyEntries (rootElem : XmlElem) : Prop :=
  ((substChildren rootElem).length : ℤ) =
    countXmlElemChild (retrieveXmlElemChild rootElem XML_SUBST_LIST) XML_SUBST_ENTRY

instance (rootElem : XmlElem) : Decidable (OnlyEntries rootElem) :=
  inferInstanceAs (Decidable (_ = _))

theorem OnlyEntries.all {rootElem : XmlElem} (h : OnlyEntries rootElem) :
    ∀ n ∈ substChildren rootElem, sameName n.name XML_SUBST_ENTRY = true :=
  countXmlElemChild_all h

/-- **A list is handed over** where its children are as many as its entries and the files of the
leading marked records can be opened. -/
theorem parseSubstList_success_iff (files : Files) (rootElem : XmlElem)
    (substList : Option (List SubstRec)) :
    parseSubstList files rootElem = .ok (.success, substList) ↔
      (retrieveXmlElemChild rootElem XML_SUBST_LIST = .null ∧ substList = none) ∨
      (retrieveXmlElemChild rootElem XML_SUBST_LIST ≠ .null ∧ OnlyEntries rootElem ∧
        ∃ list, substList = some list ∧
          openSubsts files ((substChildren rootElem).map entryRec ++ [emptyRec]) = .ok list) := by
  unfold OnlyEntries substChildren
  generalize hsubst : retrieveXmlElemChild rootElem XML_SUBST_LIST = e
  by_cases hnull : e = .null
  · subst hnull
    rw [parseSubstList, hsubst]
    constructor
    · intro h
      cases h
      exact .inl ⟨rfl, rfl⟩
    · rintro (⟨-, rfl⟩ | ⟨h, -⟩)
      · rfl
      · exact absurd rfl h
  · rw [parseSubstList_eq files hsubst hnull]
    by_cases hsame : (e.firstChild.siblings.length : ℤ) = countXmlElemChild e XML_SUBST_ENTRY
    · rw [if_pos hsame]
      cases hopen : openSubsts files (e.firstChild.siblings.map entryRec ++ [emptyRec]) with
      | error a =>
        constructor
        · intro h
          cases h
        · rintro (⟨h, -⟩ | ⟨-, -, list, -, h⟩)
          · exact absurd h hnull
          · cases h
      | ok list =>
        constructor
        · intro h
          cases h
          exact .inr ⟨hnull, hsame, list, rfl, rfl⟩
        · rintro (⟨h, -⟩ | ⟨-, -, list', rfl, h⟩)
          · exact absurd h hnull
          · cases h
            rfl
    · rw [if_neg hsame]
      constructor
      · intro h
        split at h
        · cases h
        · cases h
      · rintro (⟨h, -⟩ | ⟨-, h, -⟩)
        · exact absurd h hnull
        · exact absurd h hsame

/-- What opening the files leaves alone. -/
def key (r : SubstRec) : Option Bytes × Option Bytes × Bool := (r.substVar, r.substFileName, r.valid)

theorem openSubsts_keys {files : Files} {list list' : List SubstRec}
    (h : openSubsts files list = .ok list') : list'.map key = list.map key := by
  induction list generalizing list' with
  | nil => cases h
  | cons r list ih =>
    rw [openSubsts] at h
    by_cases hvalid : ¬ r.valid = true
    · rw [if_pos hvalid] at h
      cases h
      rfl
    · rw [if_neg hvalid] at h
      dsimp only at h
      split at h
      · cases h
      · cases hrest : openSubsts files list with
        | error a =>
          rw [hrest] at h
          cases h
        | ok rest =>
          rw [hrest] at h
          cases h
          rw [List.map_cons, List.map_cons, ih hrest]
          rfl

/-- The initialisation comes to the substitution list: nothing fails in front of it. -/
def Reaches (files : Files) (profileName : Bytes) (rootElem : XmlElem) (values : Values)
    (draws : Draws) : Prop :=
  ∃ rounds urllistElem, findUrllist profileName rootElem = .ok (.success, rounds, urllistElem) ∧
    TextIfAny urllistElem XML_URLLIST_BASE_URL ∧ TextIfAny urllistElem XML_URLLIST_PROXY_URL ∧
    (parseUrls files urllistElem (ParseState.start values draws)).1 = none

variable {uriParse : Bytes → Uri} {files : Files} {profileName : Bytes} {rootElem : XmlElem}
  {values : Values} {draws : Draws}

/-- **A profile is handed over** where the initialisation comes to the substitution list and that one
is handed over. -/
theorem init_success_iff (uriParse : Bytes → Uri) (substList : Option (List SubstRec)) :
    (∃ profile, (roundRobinProfileInit uriParse files profileName rootElem values draws).1 =
        .ok (.success, some profile) ∧ profile.substList = substList) ↔
      Reaches files profileName rootElem values draws ∧
        parseSubstList files rootElem = .ok (.success, substList) := by
  unfold roundRobinProfileInit Reaches
  rcases hfound : findUrllist profileName rootElem with a | ⟨stat, rounds, urllistElem⟩
  · refine iff_of_false ?_ ?_
    · rintro ⟨profile, h, -⟩
      cases h
    · rintro ⟨⟨rounds, urllistElem, h, -⟩, -⟩
      cases h
  · dsimp only
    by_cases hstat : stat = .success
    · subst hstat
      rw [if_neg (not_not.mpr rfl)]
      have hreach : (∃ rounds' urllistElem', Except.ok (Status.success, rounds, urllistElem) =
            (Except.ok (Status.success, rounds', urllistElem') : Except Abort _) ∧
            TextIfAny urllistElem' XML_URLLIST_BASE_URL ∧
            TextIfAny urllistElem' XML_URLLIST_PROXY_URL ∧
            (parseUrls files urllistElem' (ParseState.start values draws)).1 = none) ↔
          (∃ text, optionalText urllistElem XML_URLLIST_BASE_URL = .ok text) ∧
          (∃ text, optionalText urllistElem XML_URLLIST_PROXY_URL = .ok text) ∧
          (parseUrls files urllistElem (ParseState.start values draws)).1 = none := by
        rw [optionalText_ok_iff, optionalText_ok_iff]
        constructor
        · rintro ⟨rounds', urllistElem', h, hrest⟩
          cases h
          exact hrest
        · intro hrest
          exact ⟨rounds, urllistElem, rfl, hrest⟩
      rw [hreach]
      cases optionalText urllistElem XML_URLLIST_BASE_URL with
      | error a =>
        refine iff_of_false ?_ ?_
        · rintro ⟨profile, h, -⟩
          cases h
        · rintro ⟨⟨⟨text, h⟩, -⟩, -⟩
          cases h
      | ok baseurl =>
        cases optionalText urllistElem XML_URLLIST_PROXY_URL with
        | error a =>
          refine iff_of_false ?_ ?_
          · rintro ⟨profile, h, -⟩
            cases h
          · rintro ⟨⟨-, ⟨text, h⟩, -⟩, -⟩
            cases h
        | ok proxyurl =>
          dsimp only
          rcases parseUrls files urllistElem (ParseState.start values draws) with ⟨_ | r, st⟩
          · rw [and_iff_right ⟨⟨baseurl, rfl⟩, ⟨proxyurl, rfl⟩, rfl⟩]
            dsimp only
            rcases parseSubstList files rootElem with a | ⟨stat, list⟩
            · refine iff_of_false ?_ nofun
              rintro ⟨profile, h, -⟩
              cases h
            · dsimp only
              by_cases hstat : stat = .success
              · subst hstat
                rw [if_neg (not_not.mpr rfl)]
                constructor
                · rintro ⟨profile, h, rfl⟩
                  cases h
                  rfl
                · intro h
                  cases h
                  exact ⟨_, rfl, rfl⟩
              · rw [if_pos hstat]
                refine iff_of_false ?_ ?_
                · rintro ⟨profile, h, -⟩
                  cases h
                · intro h
                  cases h
                  exact hstat rfl
          · refine iff_of_false ?_ ?_
            · rintro ⟨profile, h, -⟩
              cases r with
              | error a => cases h
              | ok stat => cases h
            · rintro ⟨⟨-, -, h⟩, -⟩
              cases h
    · rw [if_pos hstat]
      refine iff_of_false ?_ ?_
      · rintro ⟨profile, h, -⟩
        cases h
      · rintro ⟨⟨rounds', urllistElem', h, -⟩, -⟩
        cases h
        exact hstat rfl

/-! ### Finding an entry -/

/-- The list ends with a record that is not marked, and a marked one has a variable. -/
theorem openSubsts_ends {children : List Node} {list : List SubstRec}
    (h : openSubsts files (children.map entryRec ++ [emptyRec]) = .ok list) :
    ∃ entries last, list = entries ++ [last] ∧ last.valid = false ∧
      ∀ r ∈ entries, r.valid = true → r.substVar ≠ none := by
  have hkeys := openSubsts_keys h
  rw [List.map_append, List.map_map] at hkeys
  have hne : list ≠ [] := by
    rintro rfl
    simp at hkeys
  refine ⟨list.dropLast, list.getLast hne, (List.dropLast_concat_getLast hne).symm, ?_⟩
  rw [← List.dropLast_concat_getLast hne, List.map_append] at hkeys
  obtain ⟨hentries, hlast⟩ := List.append_inj' hkeys rfl
  simp only [List.map_cons, List.map_nil, List.cons.injEq, and_true] at hlast
  refine ⟨congrArg (·.2.2) hlast, ?_⟩
  intro r hr hvalid
  obtain ⟨n, -, hn⟩ := List.mem_map.mp (hentries ▸ List.mem_map_of_mem (f := key) hr)
  have hvar : (entryRec n).substVar = r.substVar := congrArg (·.1) hn
  have hmark : (entryRec n).valid = r.valid := congrArg (·.2.2) hn
  rw [← hvar]
  exact (entryRec_named (hmark.trans hvalid)).1

/-- **The entries that are found** in a list whose entries are all valid and have distinct variables:
those among the first `SUBST_FILE_ARR_MAX`. -/
theorem substFileGet_entry_iff {profile : RoundRobinProfile} {list : List SubstRec}
    (hinit : (roundRobinProfileInit uriParse files profileName rootElem values draws).1 =
      .ok (.success, some profile))
    (hlist : profile.substList = some list)
    (hvalid : ∀ r ∈ list.dropLast, r.valid = true)
    (hdistinct : (list.dropLast.map SubstRec.substVar).Nodup)
    {i : ℕ} {r : SubstRec} {name : Bytes} (hi : list.dropLast[i]? = some r)
    (hname : r.substVar = some name) :
    substFileGet name (some list) = .ok (some r) ↔ i < SUBST_FILE_ARR_MAX := by
  obtain ⟨-, hparse⟩ := (init_success_iff uriParse (some list)).mp ⟨profile, hinit, hlist⟩
  rcases (parseSubstList_success_iff files rootElem (some list)).mp hparse with
    ⟨-, hnone⟩ | ⟨-, -, list', heq, hopen⟩
  · cases hnone
  · cases heq
    obtain ⟨entries, last, rfl, hlast, hnamed⟩ := openSubsts_ends hopen
    rw [List.dropLast_concat] at hvalid hdistinct hi
    have hlt : i < entries.length := (List.getElem?_eq_some_iff.mp hi).1
    have hat : ∀ j b, entries[j]? = some b → b.substVar = some name → j = i := by
      intro j b hj hb
      have hjlt : j < (entries.map SubstRec.substVar).length := by
        rw [List.length_map]
        exact (List.getElem?_eq_some_iff.mp hj).1
      refine (List.getElem?_inj hjlt hdistinct).mp ?_
      rw [List.getElem?_map, List.getElem?_map, hj, hi, Option.map_some, Option.map_some, hb, hname]
    rw [substFileGet_iff]
    constructor
    · intro h
      obtain ⟨before, behind, hsplit, hbound, -, -, hmark⟩ := h
      rw [Option.some.injEq] at hsplit
      have hpos : (entries ++ [last])[before.length]? = some r := by
        rw [hsplit, List.getElem?_append_right (Nat.le_refl _), Nat.sub_self]
        rfl
      have hinside : before.length < entries.length := by
        by_contra hge
        rw [List.getElem?_append_right (by omega), List.getElem?_singleton] at hpos
        split at hpos
        · rw [Option.some.injEq] at hpos
          rw [← hpos, hlast] at hmark
          cases hmark
        · cases hpos
      rw [List.getElem?_append_left hinside] at hpos
      rw [← hat _ _ hpos hname]
      exact hbound
    · intro hbound
      have hsplit : entries ++ [last] = entries.take i ++ r :: (entries.drop (i + 1) ++ [last]) := by
        conv_lhs => rw [← List.take_append_drop i entries]
        rw [List.drop_eq_getElem_cons hlt, (List.getElem?_eq_some_iff.mp hi).2, List.append_assoc]
        rfl
      refine ⟨entries.take i, _, congrArg some hsplit, ?_, ?_, hname, ?_⟩
      · rw [List.length_take]
        omega
      · intro b hb
        obtain ⟨j, hj, hbj⟩ := List.mem_take_iff_getElem.mp hb
        have hmem := List.mem_of_mem_take hb
        refine ⟨hnamed b hmem (hvalid b hmem), fun h => ?_⟩
        have hji := hat j b (List.getElem?_eq_some_iff.mpr ⟨by omega, hbj⟩) h.1
        omega
      · exact hvalid r (List.mem_of_getElem? hi)

/-- Every file can be opened and holds the line `a`. -/
def lineFiles : Files where
  stat _ := (.success, 2)
  fileOpen _ := .success
  content _ := bytes "a\n"
  readFull _ _ := (.errno 5, [])
  readFull_short _ _ _ := by decide

/-- An entry with its variable and its file, in front of others. -/
def substEntry (var : Bytes) (next : XmlElem) : XmlElem :=
  .elem XML_SUBST_ENTRY [] []
    (.elem XML_SUBST_VAR [var] [] .null (.elem XML_SUBST_FILE [bytes "f"] [] .null .null)) next

/-- A configuration with a urllist of one url and a substitution list of given children. -/
def listConfig (entries : XmlElem) : XmlElem :=
  .elem (bytes "flood") [] []
    (.elem XML_SUBST_LIST [] [] entries
      (configOf (.elem XML_URLLIST_URL [] [⟨0, XML_URLLIST_REQUEST_TEMPLATE, bytes "/"⟩] .null
        .null)).firstChild)
    .null

/-- What is handed over for such a configuration. -/
def listInit (entries : XmlElem) : Except Abort (Status × Option RoundRobinProfile) :=
  (roundRobinProfileInit (fun _ => ⟨none, none, 0, none, none, none, none, none⟩) lineFiles
    (bytes "p") (listConfig entries) (fun _ => none) (fun _ => 0)).1

theorem listInit_list (entries : XmlElem) (list : List SubstRec)
    (hover : (handedOver (listInit entries)).isSome = true)
    (hparse : parseSubstList lineFiles (listConfig entries) = .ok (.success, some list)) :
    ∃ profile, listInit entries = .ok (.success, some profile) ∧ profile.substList = some list := by
  obtain ⟨profile, hinit⟩ := eq_of_handedOver hover
  obtain ⟨-, hlist⟩ := (init_success_iff _ profile.substList).mp ⟨profile, hinit, rfl⟩
  rw [hparse] at hlist
  simp only [Except.ok.injEq, Prod.mk.injEq, true_and] at hlist
  exact ⟨profile, hinit, hlist.symm⟩

/-- The record of such an entry. -/
def lineRec (var : Bytes) : SubstRec := ⟨some var, some (bytes "f"), bytes "a\n", 2, true⟩

theorem substFileGet_entry_two : ∃ profile,
    listInit (substEntry (bytes "a") (substEntry (bytes "b") .null)) =
      .ok (.success, some profile) ∧
    (substFileGet (bytes "b") (some [lineRec (bytes "a"), lineRec (bytes "b"), emptyRec]) =
      .ok (some (lineRec (bytes "b"))) ↔ 1 < SUBST_FILE_ARR_MAX) := by
  obtain ⟨profile, hinit, hlist⟩ := listInit_list
    (substEntry (bytes "a") (substEntry (bytes "b") .null))
    [lineRec (bytes "a"), lineRec (bytes "b"), emptyRec] (by decide +kernel) (by decide +kernel)
  exact ⟨profile, hinit, substFileGet_entry_iff hinit hlist (by decide +kernel)
    (by decide +kernel) rfl rfl⟩

/-- Eleven variables. -/
def elevenVars : List Bytes := (bytes "abcdefghijk").map fun c => [c]

/-- The eleventh entry of a list is not found. -/
theorem eleventh_not_found :
    ¬ ∀ (uriParse : Bytes → Uri) (files : Files) (profileName : Bytes) (rootElem : XmlElem)
      (values : Values) (draws : Draws) (profile : RoundRobinProfile) (list : List SubstRec),
      (roundRobinProfileInit uriParse files profileName rootElem values draws).1 =
        .ok (.success, some profile) → profile.substList = some list →
      (∀ r ∈ list.dropLast, r.valid = true) → (list.dropLast.map SubstRec.substVar).Nodup →
      ∀ (i : ℕ) (r : SubstRec) (name : Bytes), list.dropLast[i]? = some r →
        r.substVar = some name → substFileGet name (some list) = .ok (some r) := by
  intro h
  obtain ⟨profile, hinit, hlist⟩ := listInit_list (elevenVars.foldr substEntry .null)
    (elevenVars.map lineRec ++ [emptyRec]) (by decide +kernel) (by decide +kernel)
  have hget := h _ _ _ _ _ _ profile _ hinit hlist (by decide +kernel) (by decide +kernel) 10
    (lineRec (bytes "k")) (bytes "k") (by decide +kernel) rfl
  have hnone : substFileGet (bytes "k") (some (elevenVars.map lineRec ++ [emptyRec])) = .ok none := by
    decide +kernel
  rw [hnone] at hget
  cases hget

/-! ### Every entry -/

/-- The records of entries: those of the leading complete ones are opened. -/
def entryRecs (files : Files) (children : List Node) : List SubstRec :=
  (children.takeWhile complete).map (fun n => opened files (entryRec n)) ++
    ((children.dropWhile complete).map entryRec ++ [emptyRec])

/-- Opening the files of a list of entries. -/
theorem openSubsts_entries (files : Files) {children : List Node}
    (hall : ∀ n ∈ children, sameName n.name XML_SUBST_ENTRY = true) :
    openSubsts files (children.map entryRec ++ [emptyRec]) =
      if ∀ n ∈ children.takeWhile complete, Opens files (entryRec n) then
        .ok (entryRecs files children)
      else .error .exit := by
  have hvalid : ∀ r ∈ (children.takeWhile complete).map entryRec, r.valid = true := by
    intro r hr
    obtain ⟨n, hn, rfl⟩ := List.mem_map.mp hr
    rw [entryRec_valid (hall n ((List.takeWhile_sublist _).subset hn))]
    exact List.all_eq_true.mp List.all_takeWhile n hn
  have hsplit : children.map entryRec ++ [emptyRec] = (children.takeWhile complete).map entryRec ++
      ((children.dropWhile complete).map entryRec ++ [emptyRec]) := by
    rw [← List.append_assoc, ← List.map_append, List.takeWhile_append_dropWhile]
  -- the first record that is not marked
  obtain ⟨stop, behind, hrest, hstop⟩ : ∃ stop behind,
      (children.dropWhile complete).map entryRec ++ [emptyRec] = stop :: behind ∧
        stop.valid = false := by
    have hhead := List.head?_dropWhile_not complete children
    have hsub := (List.dropWhile_sublist (p := complete) (l := children)).subset
    cases hdrop : children.dropWhile complete with
    | nil => exact ⟨emptyRec, [], rfl, rfl⟩
    | cons n rest =>
      rw [hdrop] at hhead hsub
      exact ⟨entryRec n, _, rfl, (entryRec_valid (hall n (hsub List.mem_cons_self))).trans hhead⟩
  rw [hsplit, entryRecs, hrest, openSubsts_eq files hvalid hstop, List.map_map]
  simp only [List.forall_mem_map]
  rfl

/-- **When the initialisation succeeds**, as far as the substitution list is concerned, and what the
list is then. -/
theorem init_entries_iff (uriParse : Bytes → Uri) (files : Files) (profileName : Bytes)
    (rootElem : XmlElem) (values : Values) (draws : Draws) :
    (∃ profile, (roundRobinProfileInit uriParse files profileName rootElem values draws).1 =
        .ok (.success, some profile)) ↔
      Reaches files profileName rootElem values draws ∧ OnlyEntries rootElem ∧
        ∀ n ∈ (substChildren rootElem).takeWhile complete, Opens files (entryRec n) := by
  constructor
  · rintro ⟨profile, hinit⟩
    obtain ⟨hreach, hparse⟩ := (init_success_iff uriParse profile.substList).mp ⟨profile, hinit, rfl⟩
    refine ⟨hreach, ?_⟩
    rcases (parseSubstList_success_iff files rootElem profile.substList).mp hparse with
      ⟨hnull, -⟩ | ⟨-, honly, list, -, hopen⟩
    · rw [OnlyEntries, substChildren, hnull]
      exact ⟨rfl, nofun⟩
    · rw [openSubsts_entries files honly.all] at hopen
      refine ⟨honly, ?_⟩
      by_contra hclosed
      rw [if_neg hclosed] at hopen
      cases hopen
  · rintro ⟨hreach, honly, hopens⟩
    by_cases hnull : retrieveXmlElemChild rootElem XML_SUBST_LIST = .null
    · obtain ⟨profile, hinit, -⟩ := (init_success_iff uriParse none).mpr ⟨hreach,
        (parseSubstList_success_iff files rootElem none).mpr (.inl ⟨hnull, rfl⟩)⟩
      exact ⟨profile, hinit⟩
    · have hopen := openSubsts_entries files honly.all
      rw [if_pos hopens] at hopen
      obtain ⟨profile, hinit, -⟩ := (init_success_iff uriParse _).mpr ⟨hreach,
        (parseSubstList_success_iff files rootElem _).mpr (.inr ⟨hnull, honly, _, rfl, hopen⟩)⟩
      exact ⟨profile, hinit⟩

theorem init_entryRecs {profile : RoundRobinProfile}
    (hinit : (roundRobinProfileInit uriParse files profileName rootElem values draws).1 =
      .ok (.success, some profile)) (hsome : substChildren rootElem ≠ []) :
    profile.substList = some (entryRecs files (substChildren rootElem)) := by
  obtain ⟨-, hparse⟩ := (init_success_iff uriParse profile.substList).mp ⟨profile, hinit, rfl⟩
  rcases (parseSubstList_success_iff files rootElem profile.substList).mp hparse with
    ⟨hnull, -⟩ | ⟨-, honly, list, hlist, hopen⟩
  · rw [substChildren, hnull] at hsome
    exact absurd rfl hsome
  · rw [openSubsts_entries files honly.all] at hopen
    split at hopen
    · cases hopen
      exact hlist
    · cases hopen

/-- The entry has become a valid record of the list, with its variable, its file opened and the size
of the file. -/
def EntryReady (files : Files) (profile : RoundRobinProfile) (k : ℕ) (n : Node) : Prop :=
  ∃ list r fname, profile.substList = some list ∧ list[k]? = some r ∧ r.valid = true ∧
    r.substVar = (parseSubstEntry n.firstChild emptyRec).substVar ∧
    (parseSubstEntry n.firstChild emptyRec).substFileName = some fname ∧
    r.substFileName = some fname ∧ files.fileOpen fname = .success ∧
    r.file = files.content fname ∧ files.stat fname = (.success, r.fsize)

/-- The record of an entry has the entry's variable and file. -/
theorem entryRec_key {n : Node} (hentry : sameName n.name XML_SUBST_ENTRY = true) :
    (entryRec n).substVar = (parseSubstEntry n.firstChild emptyRec).substVar ∧
      (entryRec n).substFileName = (parseSubstEntry n.firstChild emptyRec).substFileName := by
  rw [entryRec, if_pos hentry]
  split
  · exact ⟨rfl, rfl⟩
  · exact ⟨rfl, rfl⟩

/-- In a list of complete entries each becomes a record. -/
theorem entryReady_of_complete {children : List Node} {profile : RoundRobinProfile}
    (hcomplete : ∀ n ∈ children, complete n = true)
    (hopens : ∀ n ∈ children.takeWhile complete, Opens files (entryRec n))
    (hlist : profile.substList = some (entryRecs files children)) {k : ℕ} {n : Node}
    (hk : children[k]? = some n) (hentry : sameName n.name XML_SUBST_ENTRY = true) :
    EntryReady files profile k n := by
  have hmem := List.mem_of_getElem? hk
  have htake : children.takeWhile complete = children := List.takeWhile_eq_self_iff.mpr hcomplete
  have hat : (entryRecs files children)[k]? = some (opened files (entryRec n)) := by
    have hlt : k < (children.map fun n => opened files (entryRec n)).length := by
      rw [List.length_map]
      exact (List.getElem?_eq_some_iff.mp hk).1
    rw [entryRecs, htake, List.getElem?_append_left hlt, List.getElem?_map, hk]
    rfl
  have hvalid : (entryRec n).valid = true := (entryRec_valid hentry).trans (hcomplete n hmem)
  obtain ⟨fname, hfname⟩ := Option.ne_none_iff_exists'.mp (entryRec_named hvalid).2
  obtain ⟨hvar, hname⟩ := entryRec_key hentry
  rw [htake] at hopens
  have hopen := hopens n hmem
  rw [Opens, hfname, Option.getD_some] at hopen
  refine ⟨_, _, fname, hlist, hat, hvalid, hvar, hname.symm.trans hfname, hfname, hopen.1, ?_, ?_⟩
  · rw [opened, hfname, Option.getD_some]
  · rw [opened, hfname, Option.getD_some]
    exact Prod.ext hopen.2 rfl

/-- An entry that has become a record is complete. -/
theorem EntryReady.complete {profile : RoundRobinProfile} {k : ℕ} {n : Node}
    (hready : EntryReady files profile k n)
    (hlist : profile.substList = some (entryRecs files (substChildren rootElem)))
    (hk : (substChildren rootElem)[k]? = some n)
    (hentry : sameName n.name XML_SUBST_ENTRY = true) : complete n = true := by
  obtain ⟨list, r, fname, hlist', hat, hvalid, -⟩ := hready
  rw [hlist, Option.some.injEq] at hlist'
  subst hlist'
  have hkeys : ((entryRecs files (substChildren rootElem)).map SubstRec.valid)[k]? =
      some (entryRec n).valid := by
    have hmap : (entryRecs files (substChildren rootElem)).map SubstRec.valid =
        ((substChildren rootElem).map fun n => (entryRec n).valid) ++ [false] := by
      rw [entryRecs, List.map_append, List.map_append, List.map_map, List.map_map,
        ← List.append_assoc]
      show (List.map (fun n => (entryRec n).valid) _ ++ List.map (fun n => (entryRec n).valid) _) ++
        _ = _
      rw [← List.map_append, List.takeWhile_append_dropWhile]
      rfl
    have hlt : k < ((substChildren rootElem).map fun n => (entryRec n).valid).length := by
      rw [List.length_map]
      exact (List.getElem?_eq_some_iff.mp hk).1
    rw [hmap, List.getElem?_append_left hlt, List.getElem?_map, hk]
    rfl
  rw [List.getElem?_map, hat, Option.map_some, hvalid, Option.some.injEq] at hkeys
  rw [← entryRec_valid hentry, ← hkeys]

/-- **When every entry has become an opened record**, and an incomplete one makes the initialisation
fail: where there is no incomplete entry, or the initialisation fails for another reason, with a
failure in front of the substitution list, a child of it that is no entry, or a file in front of the
first incomplete entry that cannot be opened. -/
theorem entries_ready_iff (uriParse : Bytes → Uri) (files : Files) (profileName : Bytes)
    (rootElem : XmlElem) (values : Values) (draws : Draws) :
    let init := (roundRobinProfileInit uriParse files profileName rootElem values draws).1
    ((∀ profile, init = .ok (.success, some profile) →
        ∀ (k : ℕ) n, (substChildren rootElem)[k]? = some n →
          sameName n.name XML_SUBST_ENTRY = true → EntryReady files profile k n) ∧
      ((∃ n ∈ substChildren rootElem, sameName n.name XML_SUBST_ENTRY = true ∧
          complete n = false) → ∀ profile, init ≠ .ok (.success, some profile))) ↔
      (∀ n ∈ substChildren rootElem, sameName n.name XML_SUBST_ENTRY = true → complete n = true) ∨
        ¬ Reaches files profileName rootElem values draws ∨ ¬ OnlyEntries rootElem ∨
        ∃ n ∈ (substChildren rootElem).takeWhile complete, ¬ Opens files (entryRec n) := by
  intro init
  have hsuccess := init_entries_iff uriParse files profileName rootElem values draws
  by_cases hover : ∃ profile, init = .ok (.success, some profile)
  · obtain ⟨profile, hinit⟩ := hover
    obtain ⟨hreach, honly, hopens⟩ := hsuccess.mp ⟨profile, hinit⟩
    have hlist := fun n (hn : n ∈ substChildren rootElem) =>
      init_entryRecs hinit (List.ne_nil_of_mem hn)
    constructor
    · intro h
      left
      intro n hn hentry
      obtain ⟨k, hk⟩ := List.mem_iff_getElem?.mp hn
      exact (h.1 profile hinit k n hk hentry).complete (hlist n hn) hk hentry
    · intro h
      have hcomplete : ∀ n ∈ substChildren rootElem, complete n = true := by
        rcases h with h | h | h | ⟨n, hn, hclosed⟩
        · exact fun n hn => h n hn (honly.all n hn)
        · exact absurd hreach h
        · exact absurd honly h
        · exact absurd (hopens n hn) hclosed
      refine ⟨fun profile hinit k n hk hentry => ?_, fun hgap => ?_⟩
      · have hn := List.mem_of_getElem? hk
        exact entryReady_of_complete hcomplete hopens
          (init_entryRecs hinit (List.ne_nil_of_mem hn)) hk hentry
      · obtain ⟨n, hn, -, hfalse⟩ := hgap
        rw [hcomplete n hn] at hfalse
        cases hfalse
  · have hnever : ∀ profile, init ≠ .ok (.success, some profile) :=
      fun profile h => hover ⟨profile, h⟩
    refine iff_of_true ⟨fun profile h => absurd h (hnever profile), fun _ => hnever⟩ (.inr ?_)
    by_contra hnone
    rw [not_or, not_or, not_not, not_not, not_exists] at hnone
    obtain ⟨hreach, honly, hopens⟩ := hnone
    exact hover (hsuccess.mpr ⟨hreach, honly, fun n hn => by
      by_contra hclosed
      exact hopens n ⟨hn, hclosed⟩⟩)

/-- An entry without its file, in front of another. -/
def gapEntries : XmlElem :=
  .elem XML_SUBST_ENTRY [] [] (.elem XML_SUBST_VAR [bytes "a"] [] .null .null)
    (substEntry (bytes "b") .null)

/-- With an incomplete entry in front of a good one the initialisation succeeds, and the good one is
not opened. -/
theorem gapEntries_accepted : ∃ profile,
    listInit gapEntries = .ok (.success, some profile) ∧
    profile.substList = some [⟨some (bytes "a"), none, [], 0, false⟩,
      ⟨some (bytes "b"), some (bytes "f"), [], 0, true⟩, emptyRec] ∧
    ∃ (k : ℕ) (n : Node), (substChildren (listConfig gapEntries))[k]? = some n ∧
      sameName n.name XML_SUBST_ENTRY = true ∧ complete n = false ∧
      ¬ EntryReady lineFiles profile k n := by
  obtain ⟨profile, hinit, hlist⟩ := listInit_list gapEntries
    [⟨some (bytes "a"), none, [], 0, false⟩,
      ⟨some (bytes "b"), some (bytes "f"), [], 0, true⟩, emptyRec] (by decide +kernel) (by decide +kernel)
  refine ⟨profile, hinit, hlist, 0,
    ⟨XML_SUBST_ENTRY, [], [], .elem XML_SUBST_VAR [bytes "a"] [] .null .null⟩,
    by decide +kernel, by decide +kernel, by decide +kernel, ?_⟩
  rintro ⟨list, r, fname, hlist', hat, hvalid, -⟩
  rw [hlist, Option.some.injEq] at hlist'
  subst hlist'
  cases hat
  cases hvalid

end Flood.SubstLists
