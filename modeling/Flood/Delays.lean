import Flood.Farm
import Flood.RoundCounts

/-!
# Delays and times

Six texts give a number of seconds that is kept in microseconds: the four delays of a url, the start
delay of a farm and the time of a farmer.  Each is accepted where nothing is left behind the number.

* `parseXmlUrlInfo_delay` — a delay of a slot that was filled without an error.
* `delays_iff` — what is kept is the number of microseconds exactly where it fits 64 bits.
-/

namespace Flood.Delays

open Flood.CString Flood.Net Flood.Config Flood.RoundRobin Flood.UrlElement Flood.DecimalText
open Flood.Farm (Naming nameFarmers usefarmerAttrs storedDelay nameFarmers_schedule
  XML_FARM_USEFARMER XML_FARM_USEFARMER_DELAY)
open Flood.Farmer (farmerTime XML_FARMER_TIME)
open Flood.RoundCounts (HoldsInt intText)
open Flood.SlotCount (noFiles)

/-- The delays of a url. -/
inductive UrlDelay where
  | predelay | predelayprecision | postdelay | postdelayprecision

namespace UrlDelay

def name : UrlDelay → Bytes
  | predelay => XML_URLLIST_PREDELAY
  | predelayprecision => XML_URLLIST_PREDELAYPRECISION
  | postdelay => XML_URLLIST_POSTDELAY
  | postdelayprecision => XML_URLLIST_POSTDELAYPRECISION

/-- The field of a slot. -/
def field : UrlDelay → Url → ℤ
  | predelay => Url.predelay
  | predelayprecision => Url.predelayprecision
  | postdelay => Url.postdelay
  | postdelayprecision => Url.postdelayprecision

def part : UrlDelay → SlotPart
  | predelay => .predelay
  | predelayprecision => .predelayprecision
  | postdelay => .postdelay
  | postdelayprecision => .postdelayprecision

/-- A slot with another value of the delay. -/
def set (d : UrlDelay) (u : Url) (usec : ℤ) : Url :=
  match d with
  | predelay => { u with predelay := usec }
  | predelayprecision => { u with predelayprecision := usec }
  | postdelay => { u with postdelay := usec }
  | postdelayprecision => { u with postdelayprecision := usec }

theorem field_set (d : UrlDelay) (u : Url) (usec : ℤ) : d.field (d.set u usec) = usec := by
  cases d
  · rfl
  · rfl
  · rfl
  · rfl

theorem field_reads (d : UrlDelay) : SlotPart.Reads [d.part] d.field := by
  intro part hpart v u
  cases d
  all_goals
    cases part
    all_goals first | rfl | exact absurd List.mem_cons_self hpart

theorem names_part (d : UrlDelay) : d.part.names = [d.name] := by
  cases d
  · rfl
  · rfl
  · rfl
  · rfl

end UrlDelay

/-! ### The delays of a url -/

/-- An attribute of the name of a delay. -/
theorem parseUrlAttr_delay (d : UrlDelay) {files : Files} {a : XmlAttr} {u : Url} {values : Values}
    (h : sameName a.name d.name = true) :
    parseUrlAttr files a u values =
      ((parseDelay (d.set u) a.value).1, (parseDelay (d.set u) a.value).2, values) := by
  cases d
  all_goals
    unfold parseUrlAttr
    simp only [sameName_congr h]
    rfl

theorem parseDelay_stored {set : ℤ → Url} {value : Bytes} (h : (parseDelay set value).1 = none) :
    (parseDelay set value).2 = set (storedDelay value) := by
  unfold parseDelay at h ⊢
  dsimp only at h ⊢
  split at h
  · cases h
  · next hend =>
    rw [if_neg hend]
    rfl

/-- **A delay of a slot** that was filled without an error. -/
theorem parseXmlUrlInfo_delay (d : UrlDelay) {files : Files} {cdata : List Bytes}
    {attr : List XmlAttr} {values : Values} {value : Bytes}
    (hlast : lastNamed d.name attr = some value)
    (h : (parseXmlUrlInfo files cdata attr {} values).1 = .success) :
    d.field (parseXmlUrlInfo files cdata attr {} values).2.1 = storedDelay value := by
  have hattr : attr ≠ [] := by
    rintro rfl
    cases hlast
  have hsets : ∀ a u values, sameName a.name d.name = true →
      (parseUrlAttr files a u values).1 = none →
      d.field (parseUrlAttr files a u values).2.1 = storedDelay a.value := by
    intro a u values hnamed hnone
    rw [parseUrlAttr_delay d hnamed] at hnone ⊢
    show d.field (parseDelay (d.set u) a.value).2 = _
    rw [parseDelay_stored hnone, UrlDelay.field_set]
  have hurl : ∀ u url, d.field { u with url := url } = d.field u := by
    intro u url
    cases d
    · rfl
    · rfl
    · rfl
    · rfl
  rw [parseXmlUrlInfo_named d.names_part d.field_reads hurl hsets hattr h, hlast]
  rfl

/-! ### What is kept -/

/-- The number of microseconds of a number of seconds. -/
def usecOf (v : ℤ) : ℤ := v * 1000000

/-- What is kept of an attribute is the number of microseconds exactly where it fits. -/
theorem storedDelay_iff {t : IntText} {value : Bytes} (h : cstr value = t.text) :
    storedDelay value = usecOf t.value ↔ Fits 63 (usecOf t.value) := by
  have hread : (strtol 10 value).1 = saturate t.value := by
    rw [← strtol_cstr, h, strtol_text]
  have hself : Toward t.value t.value := by
    unfold Toward
    omega
  have hstored := stored_iff (w := 63) (by decide) (k := 1000000) (by decide) hself
  unfold storedDelay usecOf
  rw [hread]
  exact hstored.trans (and_iff_right rfl)

/-- What is kept of a time that is accepted. -/
theorem farmerTime_iff {farmerElem : XmlElem} {cdata : List Bytes} {t : IntText} {stopTime : ℤ}
    (hholds : HoldsInt farmerElem XML_FARMER_TIME cdata t)
    (h : farmerTime farmerElem = (.success, stopTime)) :
    stopTime = usecOf t.value ↔
      leading (cdata.headD []) = t.value ∧ Fits 63 (usecOf t.value) := by
  obtain ⟨first, rest, rfl⟩ := hholds.pieces
  obtain ⟨n, attr, firstChild, next, hchild⟩ := hholds.child
  have hstop : stopTime = wrapInt 64 (saturate (leading first) * 1000000) := by
    unfold farmerTime at h
    rw [hchild] at h
    dsimp only at h
    split at h
    · cases h
    · rw [← strtol_leading]
      cases h
      rfl
  rw [hstop]
  exact stored_iff (w := 63) (by decide) (by decide) (leading_first hholds.text)

/-- **What is kept is the number of microseconds exactly where it fits 64 bits**: of the last delay of
each kind that a url has, of the last start delay of a farm, and of the time of a farmer, where the
first piece of its text has all of the number. -/
theorem delays_iff (t : IntText) :
    (∀ (d : UrlDelay) files cdata attr values value, lastNamed d.name attr = some value →
      cstr value = t.text → (parseXmlUrlInfo files cdata attr {} values).1 = .success →
      (d.field (parseXmlUrlInfo files cdata attr {} values).2.1 = usecOf t.value ↔
        Fits 63 (usecOf t.value))) ∧
    (∀ farmElem value n,
      lastNamed XML_FARM_USEFARMER_DELAY (usefarmerAttrs farmElem.firstChild) = some value →
      cstr value = t.text → nameFarmers farmElem = .ok (.success, n) →
      (n.farmerStartDelay = usecOf t.value ↔ Fits 63 (usecOf t.value))) ∧
    (∀ farmerElem cdata stopTime, HoldsInt farmerElem XML_FARMER_TIME cdata t →
      farmerTime farmerElem = (.success, stopTime) →
      (stopTime = usecOf t.value ↔
        leading (cdata.headD []) = t.value ∧ Fits 63 (usecOf t.value))) := by
  refine ⟨?_, ?_, ?_⟩
  · intro d files cdata attr values value hlast htext h
    rw [parseXmlUrlInfo_delay d hlast h]
    exact storedDelay_iff htext
  · intro farmElem value n hlast htext h
    have hdelay : n.farmerStartDelay = storedDelay value := by
      have hschedule := congrArg Prod.fst (nameFarmers_schedule h)
      unfold Farm.scheduleOf at hschedule
      rw [hlast] at hschedule
      exact hschedule
    rw [hdelay]
    exact storedDelay_iff htext
  · intro farmerElem cdata stopTime hholds h
    exact farmerTime_iff hholds h

/-! ### Some delays -/

def five : IntText := intText (bytes "5") (by decide) (by decide +kernel)

/-- The attributes of a url with a delay. -/
def delayed (value : Bytes) : List XmlAttr := [⟨0, XML_URLLIST_PREDELAY, value⟩]

/-- A farm whose farmer is started with a delay. -/
def delayedFarm (value : Bytes) : XmlElem :=
  .elem (bytes "farm") [] []
    (.elem XML_FARM_USEFARMER [bytes "Joe"] [⟨0, XML_FARM_USEFARMER_DELAY, value⟩] .null .null) .null

/-- A farmer with a time. -/
def timedFarmer (value : Bytes) : XmlElem :=
  .elem (bytes "farmer") [] [] (.elem XML_FARMER_TIME [value] [] .null .null) .null

theorem delays_iff_five :
    ((parseXmlUrlInfo noFiles [] (delayed five.text) {} fun _ => none).2.1.predelay =
        usecOf five.value ↔ Fits 63 (usecOf five.value)) ∧
    ((⟨1, [(0, bytes "Joe")], 5000000, 1⟩ : Naming).farmerStartDelay = usecOf five.value ↔
      Fits 63 (usecOf five.value)) ∧
    (5000000 = usecOf five.value ↔
      leading ([five.text].headD []) = five.value ∧ Fits 63 (usecOf five.value)) := by
  refine ⟨?_, ?_, ?_⟩
  · exact (delays_iff five).1 .predelay noFiles [] (delayed five.text) (fun _ => none) five.text
      (by decide) (by decide) (by decide)
  · exact (delays_iff five).2.1 (delayedFarm five.text) five.text _ (by decide) (by decide) (by decide)
  · exact (delays_iff five).2.2 (timedFarmer five.text) [five.text] 5000000
      ⟨⟨_, _, _, _, rfl⟩, by decide⟩ (by decide)

/-- The first number of seconds that does not fit. -/
def tooLong : IntText := intText (bytes "9223372036855") (by decide) (by decide +kernel)

/-- A delay that does not fit is accepted and becomes a negative one, and so do a start delay and a
time. -/
theorem tooLong_wraps :
    usecOf tooLong.value = 9223372036855000000 ∧
    (parseXmlUrlInfo noFiles [] (delayed tooLong.text) {} fun _ => none).1 = .success ∧
    (parseXmlUrlInfo noFiles [] (delayed tooLong.text) {} fun _ => none).2.1.predelay =
      -9223372036854551616 ∧
    nameFarmers (delayedFarm tooLong.text) =
      .ok (.success, ⟨1, [(0, bytes "Joe")], -9223372036854551616, 1⟩) ∧
    farmerTime (timedFarmer tooLong.text) = (.success, -9223372036854551616) := by
  refine ⟨by decide, by decide, by decide, by decide +kernel, by decide +kernel⟩

end Flood.Delays
