import Flood.Config
import Flood.ExtraHeaders

/-!
# A url element

`parse_xml_url_info` fills a url slot from the text and the attributes of a `url` element.  Most
handlers keep a pointer to the value of their attribute; the one for `extraheader` writes to it.

* `parseXmlUrlInfo_templates` — the templates of the slot are the values of the last attributes of
  their names.
-/

namespace Flood.UrlElement

open Flood.CString Flood.Net Flood.RoundRobin Flood.Config Flood.ExtraHeaders

def XML_URLLIST_METHOD : Bytes := bytes "method"
def XML_URLLIST_METHOD_GET : Bytes := bytes "get"
def XML_URLLIST_METHOD_POST : Bytes := bytes "post"
def XML_URLLIST_METHOD_HEAD : Bytes := bytes "head"
def XML_URLLIST_PAYLOAD : Bytes := bytes "payload"
def XML_URLLIST_PAYLOAD_FILE : Bytes := bytes "payloadfile"
def XML_URLLIST_PAYLOAD_TEMPLATE : Bytes := bytes "payloadtemplate"
def XML_URLLIST_CONTENT_TYPE : Bytes := bytes "content-type"
def XML_URLLIST_EXTRA_HEADERS : Bytes := bytes "extraheader"
def XML_URLLIST_REQUEST_TEMPLATE : Bytes := bytes "requesttemplate"
def XML_URLLIST_RESPONSE_TEMPLATE : Bytes := bytes "responsetemplate"
def XML_URLLIST_RESPONSE_SCRIPT : Bytes := bytes "responsescript"
def XML_URLLIST_RESPONSE_NAME : Bytes := bytes "responsename"
def XML_URLLIST_PREDELAY : Bytes := bytes "predelay"
def XML_URLLIST_PREDELAYPRECISION : Bytes := bytes "predelayprecision"
def XML_URLLIST_POSTDELAY : Bytes := bytes "postdelay"
def XML_URLLIST_POSTDELAYPRECISION : Bytes := bytes "postdelayprecision"
def XML_URLLIST_USER : Bytes := bytes "user"
def XML_URLLIST_PASSWORD : Bytes := bytes "password"

/-- What the program sees of the files: the status and the size that `apr_stat` gives, the status of
`apr_file_open` and the content of what was opened, and what `apr_file_read_full` reads of a number of
bytes.  Fewer bytes are read only with an error. -/
structure Files where
  stat : Bytes → Status × ℕ
  fileOpen : Bytes → Status
  content : Bytes → Bytes
  readFull : Bytes → ℕ → Status × Bytes
  readFull_short : ∀ fname n, (readFull fname n).2.length ≠ n → (readFull fname n).1 ≠ .success

/-- The memory of the attribute values: at an address, what was written there since the document was
parsed. -/
abbrev Values := ℕ → Option Bytes

/-- The memory at `attr->value`. -/
def Values.at (values : Values) (a : XmlAttr) : Bytes := (values a.addr).getD a.value

/-! ### The attributes -/

/-- The branches for a method. -/
def parseMethod (value : Bytes) (u : Url) : Url :=
  if eqIgnoreCaseN 4 value XML_URLLIST_METHOD_POST then
    { u with method := .POST, methodString := some (bytes "POST") }
  else if eqIgnoreCaseN 4 value XML_URLLIST_METHOD_HEAD then
    { u with method := .HEAD, methodString := some (bytes "HEAD") }
  else if eqIgnoreCaseN 3 value XML_URLLIST_METHOD_GET then
    { u with method := .GET, methodString := some (bytes "GET") }
  else { u with method := .OTHER, methodString := some (cstr value) }

/-- The branch for a payload file. -/
def parsePayloadFile (files : Files) (fname : Bytes) (u : Url) : Option Status × Url :=
  if (files.stat fname).1 ≠ .success then (some (files.stat fname).1, u)
  else if files.fileOpen fname ≠ .success then (some (files.fileOpen fname), u)
  else
    let size := (files.stat fname).2
    let (status, content) := files.readFull fname size
    let u := { u with payload := some (.file content) }
    if content.length ≠ size then (some status, u) else (none, u)

/-- The branch for a delay or a precision, in seconds; `set` is its field. -/
def parseDelay (set : ℤ → Url) (value : Bytes) : Option Status × Url :=
  let (seconds, endptr) := strtol 10 value
  if endptr ≠ [] then (some .egeneral, set seconds)
  else (none, set (wrapInt 64 (seconds * APR_USEC_PER_SEC)))

/-- One attribute: the status, where the function returns there, the slot, and the memory of the
values. -/
def parseUrlAttr (files : Files) (a : XmlAttr) (u : Url) (values : Values) :
    Option Status × Url × Values :=
  if sameName a.name XML_URLLIST_METHOD then (none, parseMethod a.value u, values)
  else if sameName a.name XML_URLLIST_PAYLOAD then
    (none, { u with payload := some (.text a.value) }, values)
  else if sameName a.name XML_URLLIST_PAYLOAD_FILE then
    let (stat, u) := parsePayloadFile files a.value u
    (stat, u, values)
  else if sameName a.name XML_URLLIST_CONTENT_TYPE then
    (none, { u with contenttype := some a.value }, values)
  else if sameName a.name XML_URLLIST_EXTRA_HEADERS then
    let (buf, extra) := parseExtraHeaders (values.at a) u.extraHeaders
    (none, { u with extraHeaders := extra }, Function.update values a.addr (some buf))
  else if sameName a.name XML_URLLIST_PREDELAY then
    let (stat, u) := parseDelay (fun d => { u with predelay := d }) a.value
    (stat, u, values)
  else if sameName a.name XML_URLLIST_PREDELAYPRECISION then
    let (stat, u) := parseDelay (fun d => { u with predelayprecision := d }) a.value
    (stat, u, values)
  else if sameName a.name XML_URLLIST_POSTDELAY then
    let (stat, u) := parseDelay (fun d => { u with postdelay := d }) a.value
    (stat, u, values)
  else if sameName a.name XML_URLLIST_POSTDELAYPRECISION then
    let (stat, u) := parseDelay (fun d => { u with postdelayprecision := d }) a.value
    (stat, u, values)
  else if sameName a.name XML_URLLIST_PAYLOAD_TEMPLATE then
    (none, { u with payloadtemplate := some a.value }, values)
  else if sameName a.name XML_URLLIST_REQUEST_TEMPLATE then
    (none, { u with requesttemplate := some a.value }, values)
  else if sameName a.name XML_URLLIST_RESPONSE_TEMPLATE then
    (none, { u with responsetemplate := some a.value }, values)
  else if sameName a.name XML_URLLIST_RESPONSE_SCRIPT then
    (none, { u with responsescript := some a.value }, values)
  else if sameName a.name XML_URLLIST_RESPONSE_NAME then
    (none, { u with
      responsename := some a.value
      responselen := wrapInt 32 (strlen a.value) }, values)
  else if sameName a.name XML_URLLIST_USER then (none, { u with user := some a.value }, values)
  else if sameName a.name XML_URLLIST_PASSWORD then
    (none, { u with password := some a.value }, values)
  else (none, u, values)

/-- The loop over the attributes. -/
def parseUrlAttrs (files : Files) : List XmlAttr → Url → Values → Status × Url × Values
  | [], u, values => (.success, u, values)
  | a :: attr, u, values =>
    match parseUrlAttr files a u values with
    | (some stat, u, values) => (stat, u, values)
    | (none, u, values) => parseUrlAttrs files attr u values

/-- `parse_xml_url_info` -/
def parseXmlUrlInfo (files : Files) (cdata : List Bytes) (attr : List XmlAttr) (u : Url)
    (values : Values) : Status × Url × Values :=
  let u := if cdata ≠ [] then { u with url := some (cdata.map cstr).flatten } else u
  if attr = [] then
    (.success, { u with
      method := .GET, methodString := some (bytes "GET"), payload := none, contenttype := none },
      values)
  else parseUrlAttrs files attr u values

/-! ### The parts of a slot -/

/-- The parts of a slot that the attributes set. -/
inductive SlotPart where
  | method | payload | contenttype | extraHeaders
  | predelay | predelayprecision | postdelay | postdelayprecision
  | payloadtemplate | requesttemplate | responsetemplate | responsescript | responsename
  | user | password
  deriving DecidableEq

namespace SlotPart

/-- The names of the attributes that set a part. -/
def names : SlotPart → List Bytes
  | method => [XML_URLLIST_METHOD]
  | payload => [XML_URLLIST_PAYLOAD, XML_URLLIST_PAYLOAD_FILE]
  | contenttype => [XML_URLLIST_CONTENT_TYPE]
  | extraHeaders => [XML_URLLIST_EXTRA_HEADERS]
  | predelay => [XML_URLLIST_PREDELAY]
  | predelayprecision => [XML_URLLIST_PREDELAYPRECISION]
  | postdelay => [XML_URLLIST_POSTDELAY]
  | postdelayprecision => [XML_URLLIST_POSTDELAYPRECISION]
  | payloadtemplate => [XML_URLLIST_PAYLOAD_TEMPLATE]
  | requesttemplate => [XML_URLLIST_REQUEST_TEMPLATE]
  | responsetemplate => [XML_URLLIST_RESPONSE_TEMPLATE]
  | responsescript => [XML_URLLIST_RESPONSE_SCRIPT]
  | responsename => [XML_URLLIST_RESPONSE_NAME]
  | user => [XML_URLLIST_USER]
  | password => [XML_URLLIST_PASSWORD]

/-- An attribute has one of the names of a part. -/
def named (part : SlotPart) (a : XmlAttr) : Bool := part.names.any fun name => sameName a.name name

/-- A slot with one part of another slot. -/
def put (part : SlotPart) (v u : Url) : Url :=
  match part with
  | method => { u with method := v.method, methodString := v.methodString }
  | payload => { u with payload := v.payload }
  | contenttype => { u with contenttype := v.contenttype }
  | extraHeaders => { u with extraHeaders := v.extraHeaders }
  | predelay => { u with predelay := v.predelay }
  | predelayprecision => { u with predelayprecision := v.predelayprecision }
  | postdelay => { u with postdelay := v.postdelay }
  | postdelayprecision => { u with postdelayprecision := v.postdelayprecision }
  | payloadtemplate => { u with payloadtemplate := v.payloadtemplate }
  | requesttemplate => { u with requesttemplate := v.requesttemplate }
  | responsetemplate => { u with responsetemplate := v.responsetemplate }
  | responsescript => { u with responsescript := v.responsescript }
  | responsename => { u with responsename := v.responsename, responselen := v.responselen }
  | user => { u with user := v.user }
  | password => { u with password := v.password }

/-- The last attribute with one of the names of a part. -/
def last (part : SlotPart) : List XmlAttr → Option XmlAttr
  | [] => none
  | a :: attr => (part.last attr).or (if part.named a then some a else none)

/-- A view of a slot that looks at some of its parts only. -/
def Reads {β : Type} (parts : List SlotPart) (g : Url → β) : Prop :=
  ∀ part, part ∉ parts → ∀ v u, g (part.put v u) = g u

end SlotPart

theorem parseMethod_put (value : Bytes) (u : Url) :
    parseMethod value u = SlotPart.method.put (parseMethod value u) u := by
  unfold parseMethod
  split
  · rfl
  · split
    · rfl
    · split
      · rfl
      · rfl

theorem parsePayloadFile_put (files : Files) (fname : Bytes) (u : Url) :
    (parsePayloadFile files fname u).2 = SlotPart.payload.put (parsePayloadFile files fname u).2 u := by
  unfold parsePayloadFile
  split
  · rfl
  · split
    · rfl
    · dsimp only
      split
      · rfl
      · rfl

/-- A delay sets its part. -/
theorem parseDelay_put {part : SlotPart} {u : Url} {set : ℤ → Url}
    (h : ∀ d, set d = part.put (set d) u) (value : Bytes) :
    (parseDelay set value).2 = part.put (parseDelay set value).2 u := by
  unfold parseDelay
  dsimp only
  split
  · exact h _
  · exact h _

/-- One attribute changes a part that it names, or nothing. -/
def ChangesNamed (a : XmlAttr) (u u' : Url) : Prop :=
  u' = u ∨ ∃ part : SlotPart, part.named a = true ∧ u' = part.put u' u

theorem parsePayloadFile_fails {files : Files} {fname : Bytes} {u : Url} {stat : Status}
    (h : (parsePayloadFile files fname u).1 = some stat) : stat ≠ .success := by
  unfold parsePayloadFile at h
  split at h
  · next hstat =>
    cases h
    exact hstat
  · split at h
    · next hopen =>
      cases h
      exact hopen
    · dsimp only at h
      split at h
      · next hshort =>
        cases h
        exact files.readFull_short _ _ hshort
      · cases h

theorem parseDelay_fails {set : ℤ → Url} {value : Bytes} {stat : Status}
    (h : (parseDelay set value).1 = some stat) : stat ≠ .success := by
  unfold parseDelay at h
  dsimp only at h
  split at h
  · cases h
    decide
  · cases h

/-- What one attribute does: a return within the loop is an error, and of the slot only a part that
it names changes. -/
structure AttrStep (a : XmlAttr) (u : Url) (r : Option Status × Url × Values) : Prop where
  fails : ∀ stat, r.1 = some stat → stat ≠ .success
  changes : ChangesNamed a u r.2.1

theorem AttrStep.branch {a : XmlAttr} {u : Url} {name : Bytes}
    {x y : Option Status × Url × Values} (part : SlotPart) (hname : name ∈ part.names)
    (hfails : ∀ stat, x.1 = some stat → stat ≠ .success) (hx : x.2.1 = part.put x.2.1 u)
    (hy : AttrStep a u y) : AttrStep a u (if sameName a.name name then x else y) := by
  split
  · next h => exact ⟨hfails, .inr ⟨part, List.any_eq_true.mpr ⟨name, hname, h⟩, hx⟩⟩
  · exact hy

/-- **One attribute changes what it names.** -/
theorem parseUrlAttr_step (files : Files) (a : XmlAttr) (u : Url) (values : Values) :
    AttrStep a u (parseUrlAttr files a u values) := by
  have hone : ∀ name : Bytes, name ∈ [name] := fun _ => List.mem_cons_self
  have hfile : XML_URLLIST_PAYLOAD_FILE ∈ SlotPart.payload.names :=
    List.mem_cons_of_mem _ (hone _)
  unfold parseUrlAttr
  refine .branch .method (hone _) nofun (parseMethod_put _ _) ?_
  refine .branch .payload List.mem_cons_self nofun rfl ?_
  refine .branch .payload hfile (fun _ => parsePayloadFile_fails) (parsePayloadFile_put _ _ _) ?_
  refine .branch .contenttype (hone _) nofun rfl ?_
  refine .branch .extraHeaders (hone _) nofun rfl ?_
  refine .branch .predelay (hone _) (fun _ => parseDelay_fails) (parseDelay_put (fun _ => rfl) _) ?_
  refine .branch .predelayprecision (hone _) (fun _ => parseDelay_fails)
    (parseDelay_put (fun _ => rfl) _) ?_
  refine .branch .postdelay (hone _) (fun _ => parseDelay_fails) (parseDelay_put (fun _ => rfl) _) ?_
  refine .branch .postdelayprecision (hone _) (fun _ => parseDelay_fails)
    (parseDelay_put (fun _ => rfl) _) ?_
  refine .branch .payloadtemplate (hone _) nofun rfl ?_
  refine .branch .requesttemplate (hone _) nofun rfl ?_
  refine .branch .responsetemplate (hone _) nofun rfl ?_
  refine .branch .responsescript (hone _) nofun rfl ?_
  refine .branch .responsename (hone _) nofun (by dsimp only [SlotPart.put]) ?_
  refine .branch .user (hone _) nofun rfl ?_
  refine .branch .password (hone _) nofun rfl ?_
  exact ⟨nofun, .inl rfl⟩

/-- An attribute that names none of the parts a view reads leaves the view alone. -/
theorem parseUrlAttr_keeps {β : Type} {parts : List SlotPart} {g : Url → β}
    (hreads : SlotPart.Reads parts g) {a : XmlAttr} (hnone : ∀ part ∈ parts, part.named a = false)
    (files : Files) (u : Url) (values : Values) : g (parseUrlAttr files a u values).2.1 = g u := by
  obtain hsame | ⟨part, hnamed, hput⟩ := (parseUrlAttr_step files a u values).changes
  · rw [hsame]
  · rw [hput]
    refine hreads part (fun hmem => ?_) _ _
    rw [hnone part hmem] at hnamed
    cases hnamed

theorem SlotPart.named_one {part : SlotPart} {name : Bytes} (hone : part.names = [name])
    (a : XmlAttr) : part.named a = sameName a.name name := by
  unfold SlotPart.named
  rw [hone, List.any_cons, List.any_nil, Bool.or_false]

/-- The last attribute of a part that has one name. -/
theorem SlotPart.last_one {part : SlotPart} {name : Bytes} (hone : part.names = [name])
    (attr : List XmlAttr) : (part.last attr).map (·.value) = lastNamed name attr := by
  induction attr with
  | nil => rfl
  | cons a attr ih =>
    show ((part.last attr).or _).map _ = (lastNamed name attr).or _
    rw [Option.map_or, ih, SlotPart.named_one hone]
    split
    · rfl
    · rfl

/-- A loop that succeeds goes on behind its first attribute. -/
theorem parseUrlAttrs_cons {files : Files} {a : XmlAttr} {attr : List XmlAttr} {u : Url}
    {values : Values} (h : (parseUrlAttrs files (a :: attr) u values).1 = .success) :
    ∃ u₁ values₁, parseUrlAttr files a u values = (none, u₁, values₁) ∧
      parseUrlAttrs files (a :: attr) u values = parseUrlAttrs files attr u₁ values₁ := by
  rw [parseUrlAttrs] at h ⊢
  cases hrun : parseUrlAttr files a u values with
  | mk stat rest =>
    rw [hrun] at h
    cases stat with
    | some stat => exact absurd h ((parseUrlAttr_step files a u values).fails stat (by rw [hrun]))
    | none => exact ⟨rest.1, rest.2, rfl, rfl⟩

/-- **The last attribute of a part decides it**, where each sets the part without a look at what was
there. -/
theorem parseUrlAttrs_part {β : Type} {part : SlotPart} {g : Url → β} {f : XmlAttr → β}
    {files : Files} (hreads : SlotPart.Reads [part] g)
    (hsets : ∀ a u values, part.named a = true → (parseUrlAttr files a u values).1 = none →
      g (parseUrlAttr files a u values).2.1 = f a)
    {attr : List XmlAttr} {u : Url} {values : Values}
    (h : (parseUrlAttrs files attr u values).1 = .success) :
    g (parseUrlAttrs files attr u values).2.1 = ((part.last attr).map f).getD (g u) := by
  induction attr generalizing u values with
  | nil => rfl
  | cons a attr ih =>
    obtain ⟨u₁, values₁, hrun, hrest⟩ := parseUrlAttrs_cons h
    have hfirst : g u₁ = ((if part.named a then some a else none).map f).getD (g u) := by
      have hu₁ : u₁ = (parseUrlAttr files a u values).2.1 := by rw [hrun]
      rw [hu₁]
      split
      · next hnamed => exact hsets a u values hnamed (by rw [hrun])
      · next hother =>
        refine parseUrlAttr_keeps hreads (fun p hp => ?_) files u values
        rw [List.mem_singleton.mp hp]
        exact Bool.not_eq_true _ ▸ hother
    rw [hrest] at h ⊢
    rw [ih h, hfirst]
    show _ = (((part.last attr).or _).map f).getD _
    rw [Option.map_or, Option.getD_or]

/-- The parts of a slot that was filled from an element with attributes. -/
theorem parseXmlUrlInfo_part {β : Type} {part : SlotPart} {g : Url → β} {f : XmlAttr → β}
    {files : Files} (hreads : SlotPart.Reads [part] g) (hurl : ∀ u url, g { u with url := url } = g u)
    (hsets : ∀ a u values, part.named a = true → (parseUrlAttr files a u values).1 = none →
      g (parseUrlAttr files a u values).2.1 = f a)
    {cdata : List Bytes} {attr : List XmlAttr} {u : Url} {values : Values} (hattr : attr ≠ [])
    (h : (parseXmlUrlInfo files cdata attr u values).1 = .success) :
    g (parseXmlUrlInfo files cdata attr u values).2.1 = ((part.last attr).map f).getD (g u) := by
  unfold parseXmlUrlInfo at h ⊢
  rw [if_neg hattr] at h ⊢
  rw [parseUrlAttrs_part hreads hsets h]
  split
  · rw [hurl]
  · rfl

/-- The parts that have one name only. -/
theorem parseXmlUrlInfo_named {β : Type} {part : SlotPart} {name : Bytes} {g : Url → β}
    {f : Bytes → β} {files : Files} (hone : part.names = [name]) (hreads : SlotPart.Reads [part] g)
    (hurl : ∀ u url, g { u with url := url } = g u)
    (hsets : ∀ a u values, sameName a.name name = true → (parseUrlAttr files a u values).1 = none →
      g (parseUrlAttr files a u values).2.1 = f a.value)
    {cdata : List Bytes} {attr : List XmlAttr} {u : Url} {values : Values} (hattr : attr ≠ [])
    (h : (parseXmlUrlInfo files cdata attr u values).1 = .success) :
    g (parseXmlUrlInfo files cdata attr u values).2.1 = ((lastNamed name attr).map f).getD (g u) := by
  have hsets' : ∀ a u values, part.named a = true → (parseUrlAttr files a u values).1 = none →
      g (parseUrlAttr files a u values).2.1 = f a.value := by
    intro a u values hnamed
    rw [SlotPart.named_one hone] at hnamed
    exact hsets a u values hnamed
  rw [parseXmlUrlInfo_part hreads hurl hsets' hattr h, ← SlotPart.last_one hone, Option.map_map]
  rfl

/-! ### The templates of a slot -/

/-- The three templates: of the payload, of the request and of the response. -/
structure Templates where
  payload : Option Bytes
  request : Option Bytes
  response : Option Bytes
  deriving DecidableEq

/-- The templates that there are. -/
def Templates.toList (t : Templates) : List Bytes :=
  t.payload.toList ++ t.request.toList ++ t.response.toList

/-- The templates with a change to each. -/
def Templates.map (f : Bytes → Bytes) (t : Templates) : Templates :=
  ⟨t.payload.map f, t.request.map f, t.response.map f⟩

theorem Templates.map_map (f g : Bytes → Bytes) (t : Templates) :
    (t.map f).map g = t.map fun template => g (f template) := by
  unfold Templates.map
  congr 1
  · exact Option.map_map ..
  · exact Option.map_map ..
  · exact Option.map_map ..

theorem Templates.map_congr {f g : Bytes → Bytes} {t : Templates}
    (h : ∀ template ∈ t.toList, f template = g template) : t.map f = t.map g := by
  have hpart : ∀ part : Option Bytes, (∀ template ∈ part.toList, template ∈ t.toList) →
      part.map f = part.map g := by
    intro part hmem
    exact Option.map_congr fun template htemplate => h template (hmem template (by simpa using htemplate))
  unfold Templates.map
  congr 1
  · exact hpart _ fun template hmem => List.mem_append_left _ (List.mem_append_left _ hmem)
  · exact hpart _ fun template hmem => List.mem_append_left _ (List.mem_append_right _ hmem)
  · exact hpart _ fun template hmem => List.mem_append_right _ hmem

/-- The templates of a slot. -/
def slotTemplates (u : Url) : Templates := ⟨u.payloadtemplate, u.requesttemplate, u.responsetemplate⟩

/-- The templates of a url element. -/
def urlTemplates (attr : List XmlAttr) : Templates where
  payload := lastNamed XML_URLLIST_PAYLOAD_TEMPLATE attr
  request := lastNamed XML_URLLIST_REQUEST_TEMPLATE attr
  response := lastNamed XML_URLLIST_RESPONSE_TEMPLATE attr

/-- Templates, with others where there are none. -/
def Templates.orElse (t old : Templates) : Templates :=
  ⟨t.payload.or old.payload, t.request.or old.request, t.response.or old.response⟩

theorem slotTemplates_reads :
    SlotPart.Reads [.payloadtemplate, .requesttemplate, .responsetemplate] slotTemplates := by
  intro part hpart v u
  cases part
  all_goals first | rfl | exact absurd (by simp) hpart

theorem extraHeaders_reads : SlotPart.Reads [.extraHeaders] Url.extraHeaders := by
  intro part hpart v u
  cases part
  all_goals first | rfl | exact absurd List.mem_cons_self hpart

/-- What one attribute leaves alone, and that a return within the loop is an error. -/
structure AttrSpec (a : XmlAttr) (u : Url) (r : Option Status × Url × Values) : Prop where
  fails : ∀ stat, r.1 = some stat → stat ≠ .success
  templates : sameName a.name XML_URLLIST_PAYLOAD_TEMPLATE = false →
    sameName a.name XML_URLLIST_REQUEST_TEMPLATE = false →
    sameName a.name XML_URLLIST_RESPONSE_TEMPLATE = false → slotTemplates r.2.1 = slotTemplates u
  headers : sameName a.name XML_URLLIST_EXTRA_HEADERS = false →
    r.2.1.extraHeaders = u.extraHeaders

/-- **What one attribute does**: only a template changes the templates, and only an `extraheader` the
extra headers. -/
theorem parseUrlAttr_spec (files : Files) (a : XmlAttr) (u : Url) (values : Values) :
    AttrSpec a u (parseUrlAttr files a u values) where
  fails := (parseUrlAttr_step files a u values).fails
  templates hpayload hrequest hresponse := by
    refine parseUrlAttr_keeps slotTemplates_reads (fun part hmem => ?_) files u values
    simp only [List.mem_cons, List.not_mem_nil, or_false] at hmem
    obtain rfl | rfl | rfl := hmem
    · exact List.any_eq_false.mpr (by simpa [SlotPart.names] using hpayload)
    · exact List.any_eq_false.mpr (by simpa [SlotPart.names] using hrequest)
    · exact List.any_eq_false.mpr (by simpa [SlotPart.names] using hresponse)
  headers hextra := by
    refine parseUrlAttr_keeps extraHeaders_reads (fun part hmem => ?_) files u values
    rw [List.mem_singleton.mp hmem]
    exact List.any_eq_false.mpr (by simpa [SlotPart.names] using hextra)

/-- **One attribute** sets the template of its name. -/
theorem parseUrlAttr_templates (files : Files) (a : XmlAttr) (u : Url) (values : Values) :
    slotTemplates (parseUrlAttr files a u values).2.1 = (urlTemplates [a]).orElse (slotTemplates u) := by
  by_cases hpayload : sameName a.name XML_URLLIST_PAYLOAD_TEMPLATE = true
  · unfold parseUrlAttr urlTemplates lastNamed
    simp only [sameName_congr hpayload]
    rfl
  · by_cases hrequest : sameName a.name XML_URLLIST_REQUEST_TEMPLATE = true
    · unfold parseUrlAttr urlTemplates lastNamed
      simp only [sameName_congr hrequest]
      rfl
    · by_cases hresponse : sameName a.name XML_URLLIST_RESPONSE_TEMPLATE = true
      · unfold parseUrlAttr urlTemplates lastNamed
        simp only [sameName_congr hresponse]
        rfl
      · rw [Bool.not_eq_true] at hpayload hrequest hresponse
        rw [(parseUrlAttr_spec files a u values).templates hpayload hrequest hresponse]
        unfold urlTemplates lastNamed
        rw [hpayload, hrequest, hresponse]
        rfl

/-! ### A url element without an error -/

theorem orElse_cons (a : XmlAttr) (attr : List XmlAttr) (t : Templates) :
    (urlTemplates (a :: attr)).orElse t =
      (urlTemplates attr).orElse ((urlTemplates [a]).orElse t) := by
  have hlast : ∀ (name : Bytes) (old : Option Bytes),
      (lastNamed name (a :: attr)).or old = (lastNamed name attr).or ((lastNamed name [a]).or old) := by
    intro name old
    show ((lastNamed name attr).or _).or old = _
    rw [Option.or_assoc]
    rfl
  unfold Templates.orElse
  congr 1
  · exact hlast _ _
  · exact hlast _ _
  · exact hlast _ _

theorem parseUrlAttrs_templates {files : Files} {attr : List XmlAttr} {u : Url} {values : Values}
    (h : (parseUrlAttrs files attr u values).1 = .success) :
    slotTemplates (parseUrlAttrs files attr u values).2.1 =
      (urlTemplates attr).orElse (slotTemplates u) := by
  induction attr generalizing u values with
  | nil => rfl
  | cons a attr ih =>
    obtain ⟨u₁, values₁, hrun, hrest⟩ := parseUrlAttrs_cons h
    have hone := parseUrlAttr_templates files a u values
    rw [hrun] at hone
    rw [hrest] at h ⊢
    rw [ih h, orElse_cons, ← hone]

/-- **The templates of a slot** that was filled without an error. -/
theorem parseXmlUrlInfo_templates {files : Files} {cdata : List Bytes} {attr : List XmlAttr}
    {values : Values} (h : (parseXmlUrlInfo files cdata attr {} values).1 = .success) :
    slotTemplates (parseXmlUrlInfo files cdata attr {} values).2.1 = urlTemplates attr := by
  have hempty : ∀ t : Templates, t.orElse ⟨none, none, none⟩ = t := by
    intro t
    unfold Templates.orElse
    rw [Option.or_none, Option.or_none, Option.or_none]
  unfold parseXmlUrlInfo at h ⊢
  cases attr with
  | nil =>
    cases cdata with
    | nil => rfl
    | cons text cdata => rfl
  | cons a attr =>
    rw [if_neg (List.cons_ne_nil a attr)] at h ⊢
    rw [parseUrlAttrs_templates h]
    cases cdata with
    | nil => exact hempty _
    | cons text cdata => exact hempty _

end Flood.UrlElement
