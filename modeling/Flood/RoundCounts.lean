import Flood.DecimalText
import Flood.Farmer
import Flood.SlotCount

/-!
# The counts of profiles and farmers

A profile and a farmer read their counts in the same way: `strtol` reads a `long` from the first piece
of the text, an `int` keeps it, and the `int` is compared with the limits of a `long`.

* `farmerCount_iff` — the count is the integer that the text denotes exactly where its first piece has
  all of the value and an `int` holds it.
* `counts_iff` — the same for the rounds of a profile that is handed over, and for the rounds that a
  farmer completes.
-/

namespace Flood.RoundCounts

open Flood.CString Flood.Net Flood.Config Flood.RoundRobin Flood.UrlElement Flood.ProfileInit
open Flood.DecimalText
open Flood.Template (Draws)
open Flood.SlotCount (noFiles)
open Flood.Farmer (farmerCount runFarmer FarmerEnv FarmerRun XML_FARMER XML_FARMER_NAME
  XML_FARMER_COUNT XML_FARMER_USEPROFILE runFarmer_success countLoop_rounds)

/-- The first child of the name holds a decimal integer, in these pieces. -/
structure HoldsInt (elem : XmlElem) (name : Bytes) (cdata : List Bytes) (t : IntText) : Prop where
  child : ∃ n attr firstChild next,
    retrieveXmlElemChild elem name = .elem n cdata attr firstChild next
  text : (cdata.map cstr).flatten = t.text

/-- The first piece of a text has all of the value, and an `int` holds it. -/
def Counted (cdata : List Bytes) (v : ℤ) : Prop := leading (cdata.headD []) = v ∧ Fits 31 v

/-! ### Reading a count -/

/-- A text comes in at least one piece. -/
theorem HoldsInt.pieces {elem : XmlElem} {name : Bytes} {cdata : List Bytes} {t : IntText}
    (h : HoldsInt elem name cdata t) : ∃ first rest, cdata = first :: rest := by
  cases cdata with
  | nil =>
    have hnil : t.sign ++ t.digits = [] := h.text.symm
    exact absurd (List.append_eq_nil_iff.mp hnil).2 t.digits_ne
  | cons first rest => exact ⟨first, rest, rfl⟩

/-- The `int` is never a limit of a `long`. -/
theorem int_ne_limit (v : ℤ) :
    ¬ (wrapInt 32 v = CString.LONG_MAX ∨ wrapInt 32 v = CString.LONG_MIN) := by
  have hlow : -2147483648 ≤ wrapInt 32 v := le_wrapInt 31 v
  have hhigh : wrapInt 32 v < 2147483648 := wrapInt_lt 31 v
  unfold CString.LONG_MAX CString.LONG_MIN
  omega

/-- **A count is the integer denoted** exactly where its first piece has all of it and an `int` holds
it. -/
theorem farmerCount_iff {elem : XmlElem} {cdata : List Bytes} {t : IntText}
    (h : HoldsInt elem XML_FARMER_COUNT cdata t) :
    (farmerCount elem).2 = t.value ↔ Counted cdata t.value := by
  obtain ⟨first, rest, rfl⟩ := h.pieces
  obtain ⟨n, attr, firstChild, next, hchild⟩ := h.child
  have hcount : (farmerCount elem).2 = wrapInt 32 (saturate (leading first)) := by
    unfold farmerCount
    rw [hchild]
    dsimp only
    rw [if_neg (int_ne_limit _), strtol_leading]
  have hstored := stored_iff (w := 31) (by decide) (k := 1) (by decide) (leading_first h.text)
  rw [Int.mul_one, Int.mul_one] at hstored
  rw [hcount]
  exact hstored

/-- A profile reads its count as a farmer does. -/
theorem executeRounds_eq (elem : XmlElem) : executeRounds elem = farmerCount elem := rfl

/-- The rounds of a profile that is handed over are those of its element. -/
theorem init_rounds {uriParse : Bytes → Uri} {files : Files} {profileName : Bytes}
    {rootElem profileElem : XmlElem} {values : Values} {draws : Draws} {profile : RoundRobinProfile}
    (hprofile : retrieveXmlElemWithChildmatch rootElem XML_PROFILE (bytes "name") profileName =
      .ok profileElem)
    (h : (roundRobinProfileInit uriParse files profileName rootElem values draws).1 =
      .ok (.success, some profile)) : profile.executeRounds = (executeRounds profileElem).2 := by
  unfold roundRobinProfileInit at h
  cases hfound : findUrllist profileName rootElem with
  | error a =>
    rw [hfound] at h
    cases h
  | ok found =>
    obtain ⟨stat, rounds, urllistElem⟩ := found
    rw [hfound] at h
    dsimp only at h
    split at h
    · cases h
    · next hstat =>
      rw [not_not] at hstat
      subst hstat
      obtain ⟨elem, urllistName, helem, hrounds, -⟩ := findUrllist_success hfound
      rw [hprofile] at helem
      cases helem
      rw [hrounds]
      split at h
      · cases h
      · split at h
        · cases h
        · split at h
          · cases h
          · cases h
          · split at h
            · cases h
            · split at h
              · cases h
              · cases h
                rfl

/-! ### The counts -/

/-- **The counts are the integers denoted** exactly where the first piece of the text has all of the
value and an `int` holds it: the rounds of a profile that is handed over, and the rounds completed by
a farmer that has no time and succeeds. -/
theorem counts_iff (t : IntText) :
    (∀ uriParse files profileName rootElem values draws profileElem cdata profile,
      retrieveXmlElemWithChildmatch rootElem XML_PROFILE (bytes "name") profileName =
        .ok profileElem →
      HoldsInt profileElem XML_PROFILE_COUNT cdata t →
      (roundRobinProfileInit uriParse files profileName rootElem values draws).1 =
        .ok (.success, some profile) →
      (profile.executeRounds = t.value ↔ Counted cdata t.value)) ∧
    (∀ (σ : Type) (env : FarmerEnv σ) rootElem farmerName fuel s farmerElem cdata run,
      retrieveXmlElemWithChildmatch rootElem XML_FARMER XML_FARMER_NAME farmerName =
        .ok farmerElem →
      HoldsInt farmerElem XML_FARMER_COUNT cdata t →
      runFarmer env rootElem farmerName fuel s = some (.ok (.success, some run)) →
      run.stopTime = -1 →
      (run.count = t.value ∧ run.rounds = t.value.toNat ↔ Counted cdata t.value)) := by
  constructor
  · intro uriParse files profileName rootElem values draws profileElem cdata profile hfound hholds hinit
    rw [init_rounds hfound hinit, executeRounds_eq]
    exact farmerCount_iff hholds
  · intro σ env rootElem farmerName fuel s farmerElem cdata run hfound hholds hrun hstop
    obtain ⟨hcount, -, names, -, hloop⟩ := runFarmer_success hfound hrun
    rw [if_pos hstop] at hloop
    have hrounds := countLoop_rounds hloop
    have hiff := farmerCount_iff hholds
    rw [hcount] at hiff
    rw [← hiff]
    constructor
    · exact And.left
    · intro hvalue
      have hvalue' : run.count = t.value := hvalue
      exact ⟨hvalue', by rw [hrounds, hvalue', Nat.zero_add]⟩

/-! ### Some counts -/

/-- The text of a number. -/
def intText (digits : Bytes) (hne : digits ≠ []) (hall : ∀ c ∈ digits, isDigit 10 c) : IntText :=
  ⟨[], digits, .inl rfl, hne, hall⟩

/-- A configuration with a profile and a farmer, both with this count. -/
def countConfig (count : Bytes) : XmlElem :=
  .elem (bytes "flood") [] []
    (.elem XML_FARMER [] []
      (.elem XML_FARMER_NAME [bytes "f"] [] .null
        (.elem XML_FARMER_COUNT [count] [] .null
          (.elem XML_FARMER_USEPROFILE [bytes "p"] [] .null .null)))
      (.elem XML_PROFILE [] []
        (.elem (bytes "name") [bytes "p"] [] .null
          (.elem XML_PROFILE_COUNT [count] [] .null
            (.elem XML_PROFILE_USEURLLIST [bytes "u"] [] .null .null)))
        (.elem XML_URLLIST [] []
          (.elem XML_URLLIST_NAME [bytes "u"] [] .null
            (.elem XML_URLLIST_URL [bytes "/"] [] .null .null))
          .null)))
    .null

/-- Every pool is created and every run of a profile succeeds. -/
def calmEnv : FarmerEnv Unit where
  poolCreate s := (.success, s)
  runProfile _ s := some (.ok (.success, s))
  timeNow s := (0, s)

/-- The start of the profile of such a configuration. -/
def countInit (count : Bytes) : Except Abort (Status × Option RoundRobinProfile) :=
  (roundRobinProfileInit (fun _ => ⟨none, none, 0, none, none, none, none, none⟩) noFiles (bytes "p")
    (countConfig count) (fun _ => none) (fun _ => 0)).1

def three : IntText := intText (bytes "3") (by decide) (by decide +kernel)

theorem counts_iff_three :
    (∃ profile, countInit (bytes "3") = .ok (.success, some profile) ∧
      (profile.executeRounds = three.value ↔ Counted [bytes "3"] three.value)) ∧
    ((3 : ℤ) = three.value ∧ 3 = three.value.toNat ↔ Counted [bytes "3"] three.value) := by
  constructor
  · have hinit : ∃ profile, countInit (bytes "3") = .ok (.success, some profile) := ⟨_, rfl⟩
    obtain ⟨profile, hinit⟩ := hinit
    refine ⟨profile, hinit, ?_⟩
    exact (counts_iff three).1 _ noFiles _ (countConfig (bytes "3")) _ _ _ _ profile rfl
      ⟨⟨_, _, _, _, rfl⟩, by decide⟩ hinit
  · have hrun : runFarmer calmEnv (countConfig (bytes "3")) (bytes "f") 0 () =
        some (.ok (.success, some ⟨3, -1, 3, ()⟩)) := by decide +kernel
    exact (counts_iff three).2 Unit calmEnv _ _ _ _ _ _ _ rfl ⟨⟨_, _, _, _, rfl⟩, by decide⟩ hrun rfl

/-- The text of `2^32 + 1`. -/
def tooMany : IntText := intText (bytes "4294967297") (by decide) (by decide +kernel)

/-- A count that no `int` holds is run as another number. -/
theorem tooMany_runsOnce :
    tooMany.value = 4294967297 ∧
    (∃ profile, countInit tooMany.text = .ok (.success, some profile) ∧
      profile.executeRounds = 1) ∧
    runFarmer calmEnv (countConfig tooMany.text) (bytes "f") 0 () =
      some (.ok (.success, some ⟨1, -1, 1, ()⟩)) := by
  refine ⟨by decide, ⟨_, rfl, rfl⟩, by decide +kernel⟩

end Flood.RoundCounts
