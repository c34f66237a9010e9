import Flood.CreateReq
import Flood.SlotCount

/-!
# The payload from a file

The content of a payload file is read into memory that has room for a terminator, which is never
written.  The functions that make a request of it take it for a C string.

* `parseXmlUrlInfo_payload` — the payload of a slot is that of the last attribute about it.
* `payloadFile_iff` — a POST sends the content and states its size exactly where the content holds no
  NUL and the memory behind it happens to begin with one.
-/

namespace Flood.PayloadFile

open Flood.CString Flood.Net Flood.Config Flood.RoundRobin Flood.CreateReq Flood.UrlElement
open Flood.Template (Draws decimal decimal_denotes)
open Flood.SlotCount (noFiles)

/-! ### The payload of a slot -/

/-- What an attribute about the payload leaves in a slot. -/
def storedPayload (files : Files) (a : XmlAttr) : Option Payload :=
  if sameName a.name XML_URLLIST_PAYLOAD then some (.text a.value)
  else some (.file (files.readFull a.value (files.stat a.value).2).2)

theorem payload_reads : SlotPart.Reads [.payload] Url.payload := by
  intro part hpart v u
  cases part
  all_goals first | rfl | exact absurd List.mem_cons_self hpart

theorem parsePayloadFile_stored {files : Files} {fname : Bytes} {u : Url}
    (h : (parsePayloadFile files fname u).1 = none) :
    (parsePayloadFile files fname u).2.payload =
      some (.file (files.readFull fname (files.stat fname).2).2) := by
  unfold parsePayloadFile at h ⊢
  split at h
  · cases h
  · next hstat =>
    rw [if_neg hstat]
    split at h
    · cases h
    · next hopen =>
      rw [if_neg hopen]
      dsimp only at h ⊢
      split at h
      · cases h
      · next hfull => rw [if_neg hfull]

/-- **The payload of a slot** is that of the last attribute about it. -/
theorem parseXmlUrlInfo_payload {files : Files} {cdata : List Bytes} {attr : List XmlAttr}
    {values : Values} {a : XmlAttr} (hlast : SlotPart.payload.last attr = some a)
    (h : (parseXmlUrlInfo files cdata attr {} values).1 = .success) :
    (parseXmlUrlInfo files cdata attr {} values).2.1.payload = storedPayload files a := by
  have hattr : attr ≠ [] := by
    rintro rfl
    cases hlast
  have hsets : ∀ a u values, SlotPart.payload.named a = true →
      (parseUrlAttr files a u values).1 = none →
      (parseUrlAttr files a u values).2.1.payload = storedPayload files a := by
    intro a u values hnamed hnone
    obtain ⟨name, hname, hsame⟩ := List.any_eq_true.mp hnamed
    obtain rfl | hname := List.mem_cons.mp hname
    · unfold parseUrlAttr storedPayload
      simp only [sameName_congr hsame]
      rfl
    · rw [List.mem_singleton.mp hname] at hsame
      have hrun : parseUrlAttr files a u values = ((parsePayloadFile files a.value u).1,
          (parsePayloadFile files a.value u).2, values) := by
        unfold parseUrlAttr
        simp only [sameName_congr hsame]
        rfl
      rw [hrun] at hnone ⊢
      unfold storedPayload
      simp only [sameName_congr hsame]
      exact parsePayloadFile_stored hnone
  rw [parseXmlUrlInfo_part payload_reads (fun _ _ => rfl) hsets hattr h, hlast]
  rfl

/-! ### The request -/

/-- The file exists, can be opened and has the content. -/
structure HasContent (files : Files) (fname content : Bytes) : Prop where
  stat : files.stat fname = (.success, content.length)
  fileOpen : files.fileOpen fname = .success
  readFull : (files.readFull fname content.length).2 = content

/-- A slot for a POST of a url element that is accepted and whose payload is the content of a file. -/
structure FilePost (files : Files) (content : Bytes) (u : Url) : Prop where
  element : ∃ cdata attr values a, (parseXmlUrlInfo files cdata attr {} values).1 = .success ∧
    SlotPart.payload.last attr = some a ∧ sameName a.name XML_URLLIST_PAYLOAD_FILE = true ∧
    HasContent files a.value content ∧
    u.payload = (parseXmlUrlInfo files cdata attr {} values).2.1.payload
  post : u.method = .POST

/-- The line about the type of a payload. -/
def contenttypeLine (r : Request) : Bytes :=
  bytes "Content-Type: " ++
    (if r.contenttype ≠ none then fmtS r.contenttype
      else bytes "application/x-www-form-urlencoded") ++ CRLF

/-- A request whose payload is the content: its length is stated, and it is what stands behind the
empty line. -/
def postText (rp : RoundRobinProfile) (u : Url) (r : Request) (authz content : Bytes) : Bytes :=
  requestStart rp u r ++ bytes "Content-Length: " ++ decimal content.length ++ CRLF ++
    (contenttypeLine r ++ extraHdr u ++ authz ++ cookieHeader rp.cookie ++ CRLF) ++ content

/-- The bytes that are sent are a request with the content. -/
def SendsContent (base64 : Bytes → Bytes) (rp : RoundRobinProfile) (u : Url) (r r' : Request)
    (content : Bytes) : Prop :=
  ∃ authz, authzHdr base64 u = some authz ∧
    r'.rbuf.take r'.rbufsize = postText rp u r authz content

theorem FilePost.payload {files : Files} {content : Bytes} {u : Url}
    (h : FilePost files content u) : u.payload = some (.file content) := by
  obtain ⟨cdata, attr, values, a, haccepted, hlast, hname, hcontent, hpayload⟩ := h.element
  rw [hpayload, parseXmlUrlInfo_payload hlast haccepted]
  unfold storedPayload
  rw [sameName_congr hname, hcontent.stat, hcontent.readFull]
  rfl

/-- What a request for such a slot carries. -/
theorem FilePost.request {files : Files} {content : Bytes} {u : Url} (h : FilePost files content u)
    {env : Env} {rp rp' : RoundRobinProfile} {draws d : Draws} {r : Request}
    (hslot : urlSlot rp.url rp.currentUrl = some u)
    (hnext : roundRobinGetNextUrl env rp draws = .ok (r, rp', d)) :
    r.method = .POST ∧ r.payload = some (cstr (content ++ env.behind)) ∧
      r.payloadsize = (cstr (content ++ env.behind)).length := by
  obtain ⟨hmethod, state, draws₁, state', draws₂, hpayload⟩ := roundRobinGetNextUrl_slot hslot hnext
  have hsize := (getNextUrl_parts hnext).1
  unfold requestPayload at hpayload
  rw [h.payload] at hpayload
  have hsome : r.payload = some (cstr (content ++ env.behind)) := by
    simp only [Except.ok.injEq, Prod.mk.injEq] at hpayload
    exact hpayload.1.symm
  refine ⟨hmethod.trans h.post, hsome, ?_⟩
  rw [hsize, hsome]
  rfl

theorem fmtD_noCR (n : ℕ) : CR ∉ fmtD n := by
  intro h
  obtain h | h := List.mem_append.mp h
  · split at h
    · exact absurd h (by decide)
    · cases h
  · exact digit_ne (by decide) ((decimal_denotes _).2.1 CR h) (d := CR) (by decide) rfl

/-- What stands in front of the first CR of two texts is the same, and so is what follows. -/
theorem line_inj {a b x y : Bytes} (ha : CR ∉ a) (hb : CR ∉ b)
    (h : a ++ CRLF ++ x = b ++ CRLF ++ y) : a = b ∧ x = y := by
  have htake : ∀ {c z : Bytes}, CR ∉ c → (c ++ CRLF ++ z).takeWhile (· ≠ CR) = c := by
    intro c z hc
    have hall : ∀ d ∈ c, decide (d ≠ CR) = true :=
      fun d hd => decide_eq_true fun hcr => hc (hcr ▸ hd)
    rw [List.append_assoc, List.takeWhile_append_of_pos hall]
    show c ++ [] = c
    rw [List.append_nil]
  have hab : a = b := by
    rw [← htake (z := x) ha, h, htake hb]
  subst hab
  exact ⟨rfl, List.append_cancel_left h⟩

/-- A string is the content and nothing behind it. -/
theorem cstr_append_iff {content behind : Bytes} :
    cstr (content ++ behind) = content ↔ 0 ∉ content ∧ byteAt behind 0 = 0 := by
  have hend : cstr behind = [] ↔ byteAt behind 0 = 0 := by
    cases behind with
    | nil => exact iff_of_true rfl rfl
    | cons c m =>
      show (c :: m).takeWhile (· ≠ 0) = [] ↔ c = 0
      rw [List.takeWhile_eq_nil_iff]
      simp
  constructor
  · intro h
    have hnul : 0 ∉ content := h ▸ cstr_noNUL _
    refine ⟨hnul, hend.mp ?_⟩
    rw [cstr_append_of_not_mem hnul] at h
    exact List.append_right_eq_self.mp h
  · rintro ⟨hnul, hbehind⟩
    rw [cstr_append_of_not_mem hnul, hend.mpr hbehind, List.append_nil]

/-- **A POST sends the content of the file**, and states its size, exactly where the content holds no
NUL and the byte behind it in the memory is one. -/
theorem payloadFile_iff {files : Files} {content : Bytes} {u : Url} (hpost : FilePost files content u)
    (hsize : content.length < 2 ^ 31) {env : Env} {rp rp' : RoundRobinProfile} {draws d : Draws}
    {r r' : Request} (hslot : urlSlot rp.url rp.currentUrl = some u)
    (hnext : roundRobinGetNextUrl env rp draws = .ok (r, rp', d)) {base64 : Bytes → Bytes}
    {keepalive : Bool}
    (hcreate : roundRobinCreateReq base64 rp' { r with keepalive := keepalive } =
      .ok (.success, r')) :
    SendsContent base64 rp' u { r with keepalive := keepalive } r' content ↔
      0 ∉ content ∧ byteAt env.behind 0 = 0 := by
  obtain ⟨hmethod, hpayload, hpayloadsize⟩ := hpost.request hslot hnext
  obtain ⟨u', authz, hslot', hauthz, hrbuf, hrbufsize⟩ := createReq_text hcreate
  have hprofile := roundRobinGetNextUrl_profile hnext
  have hu : u' = u := by
    rw [hprofile] at hslot'
    exact Option.some.inj (hslot'.symm.trans hslot)
  subst hu
  -- what is sent has the shape of a request with the content, with its own length and body
  have hsent : r'.rbuf.take r'.rbufsize =
      requestStart rp' u' { r with keepalive := keepalive } ++ bytes "Content-Length: " ++
        fmtD (cstr (content ++ env.behind)).length ++ CRLF ++
        (contenttypeLine { r with keepalive := keepalive } ++ extraHdr u' ++ authz ++
          cookieHeader rp'.cookie ++ CRLF) ++ cstr (content ++ env.behind) := by
    rw [hrbufsize, List.take_length, hrbuf, requestHead, payloadPart, requestBody]
    simp only [hmethod, hpayload]
    rw [cstr_of_not_mem (cstr_noNUL _), payloadLines, contenttypeLine, hpayloadsize]
    simp only [List.append_assoc]
  rw [← cstr_append_iff]
  constructor
  · rintro ⟨authz', hauthz', htext⟩
    rw [hauthz] at hauthz'
    cases hauthz'
    rw [hsent, postText] at htext
    simp only [List.append_assoc] at htext
    have hlines := List.append_cancel_left (List.append_cancel_left htext)
    rw [← List.append_assoc, ← List.append_assoc (decimal content.length)] at hlines
    have hrest := (line_inj (fmtD_noCR _) (by rw [← fmtD_of_lt hsize]; exact fmtD_noCR _) hlines).2
    simpa using hrest
  · intro hwhole
    refine ⟨authz, hauthz, ?_⟩
    rw [hsent, hwhole, fmtD_of_lt hsize, postText]

/-! ### Some files -/

/-- Every file has this content. -/
def oneFile (content : Bytes) : Files where
  stat _ := (.success, content.length)
  fileOpen _ := .success
  content _ := content
  readFull _ n := if n = content.length then (.success, content) else (.errno 5, [])
  readFull_short fname n h := by
    split at h
    · next hn => exact absurd hn.symm h
    · next hn =>
      rw [if_neg hn]
      decide

/-- A url whose payload is posted from a file. -/
def fileAttrs : List XmlAttr :=
  [⟨0, XML_URLLIST_METHOD, bytes "POST"⟩, ⟨1, XML_URLLIST_PAYLOAD_FILE, bytes "f"⟩]

def fileSlot (content : Bytes) : Url where
  url := some (bytes "http://h/")
  method := .POST
  methodString := some (bytes "POST")
  payload := some (.file content)

/-- A server, and memory behind the content of a file. -/
def fileEnv (behind : Bytes) : Env where
  uriParse _ := { scheme := some (bytes "http"), hostname := some (bytes "h"), port := 80
                  path := some (bytes "/"), hostinfo := some (bytes "h") }
  portOfScheme _ := 80
  behind := behind
  jitter _ _ _ := 0

def fileProfile (content : Bytes) : RoundRobinProfile where
  executeRounds := 1
  urls := 1
  url := [fileSlot content]
  baseurl := none
  proxyUrl := none
  cookie := []
  state := fun _ => none
  substList := none
  currentRound := 0
  currentUrl := 0

/-- The request with a payload. -/
def fileRequest (payload : Bytes) : Request where
  uri := bytes "http://h/"
  method := .POST
  payload := some payload
  payloadsize := payload.length
  parsedUri := { scheme := some (bytes "http"), hostname := some (bytes "h"), port := 80
                 path := some (bytes "/"), hostinfo := some (bytes "h") }

theorem filePost_hi : FilePost (oneFile (bytes "hi")) (bytes "hi") (fileSlot (bytes "hi")) where
  element := ⟨[bytes "http://h/"], fileAttrs, fun _ => none, ⟨1, XML_URLLIST_PAYLOAD_FILE, bytes "f"⟩,
    by decide, by decide, by decide, ⟨rfl, rfl, rfl⟩, by decide⟩
  post := rfl

theorem payloadFile_iff_hi : ∃ r',
    roundRobinGetNextUrl (fileEnv [0]) (fileProfile (bytes "hi")) (fun _ => 0) =
      .ok (fileRequest (bytes "hi"), fileProfile (bytes "hi"), fun _ => 0) ∧
    roundRobinCreateReq (fun _ => []) (fileProfile (bytes "hi")) (fileRequest (bytes "hi")) =
      .ok (.success, r') ∧
    (SendsContent (fun _ => []) (fileProfile (bytes "hi")) (fileSlot (bytes "hi"))
        (fileRequest (bytes "hi")) r' (bytes "hi") ↔
      0 ∉ bytes "hi" ∧ byteAt (fileEnv [0]).behind 0 = 0) := by
  have hnext : roundRobinGetNextUrl (fileEnv [0]) (fileProfile (bytes "hi")) (fun _ => 0) =
      .ok (fileRequest (bytes "hi"), fileProfile (bytes "hi"), fun _ => 0) := rfl
  have hcreate : ∃ r', roundRobinCreateReq (fun _ => []) (fileProfile (bytes "hi"))
      (fileRequest (bytes "hi")) = .ok (.success, r') := ⟨_, rfl⟩
  obtain ⟨r', hr'⟩ := hcreate
  refine ⟨r', hnext, hr', ?_⟩
  exact payloadFile_iff filePost_hi (by decide) rfl hnext hr'

/-- A file with a NUL between two letters. -/
def binaryContent : Bytes := [97, 0, 98]

/-- Of a file with a NUL only the first byte is sent, even where the memory behind it is clear. -/
theorem binaryContent_cut : ∃ r',
    roundRobinGetNextUrl (fileEnv [0]) (fileProfile binaryContent) (fun _ => 0) =
      .ok (fileRequest (bytes "a"), fileProfile binaryContent, fun _ => 0) ∧
    roundRobinCreateReq (fun _ => []) (fileProfile binaryContent) (fileRequest (bytes "a")) =
      .ok (.success, r') ∧
    FilePost (oneFile binaryContent) binaryContent (fileSlot binaryContent) ∧
    bytes "Content-Length: 1" <:+: r'.rbuf ∧
    ¬ SendsContent (fun _ => []) (fileProfile binaryContent) (fileSlot binaryContent)
      (fileRequest (bytes "a")) r' binaryContent := by
  have hpost : FilePost (oneFile binaryContent) binaryContent (fileSlot binaryContent) :=
    ⟨⟨[bytes "http://h/"], fileAttrs, fun _ => none, ⟨1, XML_URLLIST_PAYLOAD_FILE, bytes "f"⟩,
      by decide, by decide, by decide, ⟨rfl, rfl, rfl⟩, by decide⟩, rfl⟩
  let text := requestText (fileProfile binaryContent) (fileSlot binaryContent)
    (fileRequest (bytes "a")) []
  refine ⟨{ fileRequest (bytes "a") with rbuf := text, rbufsize := strlen text }, rfl, rfl, hpost,
    by decide +kernel, ?_⟩
  rintro ⟨authz, hauthz, htext⟩
  cases hauthz
  exact absurd htext (by decide +kernel)

end Flood.PayloadFile
