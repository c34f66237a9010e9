import Flood.CreateReq
import Flood.HeaderMemory
import Flood.Pieces
import Flood.SlotCount

/-!
# The extra headers in a request

The tokens of the `extraheader` attributes of a url become lines of every request for that url.  A
token that is white space only becomes an empty line, which ends the head of the request.

* `addHeaders_unlines` — the headers are the collapsed tokens, each closed by CRLF.
* `createReq_message` — a request made of clean texts and proper lines is a message.
* `extraHeaders_wellFormed_iff` — the headers of a url element are proper lines, and its requests are
  cut at the end of their heads only, exactly when no token is white space only.
-/

namespace Flood.ExtraHeaderLines

open Flood.CString Flood.Net Flood.RoundRobin Flood.HttpText Flood.CreateReq Flood.Config
open Flood.ExtraHeaders Flood.UrlElement Flood.HeaderMemory Flood.SlotCount

/-! ### The headers as lines -/

/-- **The headers of a list of tokens** are the collapsed tokens as lines, behind what there was. -/
theorem addHeaders_unlines (extra : Option Bytes) (tokens : List Bytes) :
    (addHeaders extra tokens).getD [] = extra.getD [] ++ unlines (tokens.map collapse) := by
  induction tokens generalizing extra with
  | nil => exact (List.append_nil _).symm
  | cons t tokens ih =>
    rw [addHeaders_cons, ih, List.map_cons, unlines_cons, Option.getD_some]
    simp only [List.append_assoc]

/-- White space includes CR and LF. -/
theorem isLine_collapse (t : Bytes) : IsLine (collapse t) := by
  constructor
  · intro hmem
    exact absurd (List.mem_filter.mp hmem).2 (by decide)
  · intro hmem
    exact absurd (List.mem_filter.mp hmem).2 (by decide)

theorem collapse_ne_nil_iff (t : Bytes) : collapse t ≠ [] ↔ ∃ c ∈ t, isSpace c = false := by
  simp [collapse, List.filter_eq_nil_iff]

/-- The bytes of a token are bytes of the text. -/
theorem mem_of_mem_headerTokens {s t : Bytes} (ht : t ∈ headerTokens s) {c : UInt8} (hc : c ∈ t) :
    c ∈ s :=
  Pieces.mem_of_mem_splitOn (List.mem_filter.mp ht).1 hc

theorem noNUL_settled {s : Bytes} (h : 0 ∉ s) : 0 ∉ settled s := by
  intro hmem
  rcases List.mem_append.mp hmem with hseps | htoken
  · exact h ((List.takeWhile_prefix _).subset hseps)
  · have htake := (List.mem_filter.mp htoken).1
    exact h ((List.dropWhile_suffix _).subset ((List.takeWhile_prefix _).subset htake))

/-- The tokens of strings hold no NUL. -/
theorem noNUL_readTokens {texts : Texts} (h : ∀ a, 0 ∉ texts a) (extras : List XmlAttr) :
    ∀ t ∈ readTokens extras texts, 0 ∉ t := by
  induction extras generalizing texts with
  | nil =>
    intro t ht
    cases ht
  | cons a extras ih =>
    have hread : ∀ b, 0 ∉ texts.read a b := by
      intro b
      unfold Texts.read
      split
      · exact noNUL_settled (h a)
      · exact h b
    intro t ht h0
    rcases List.mem_append.mp ht with hhere | hrest
    · exact h a (mem_of_mem_headerTokens hhere h0)
    · exact ih hread t hrest h0

theorem noNUL_unlines {ls : List Bytes} (h : ∀ l ∈ ls, 0 ∉ l) : 0 ∉ unlines ls := by
  intro hmem
  obtain ⟨l, hl, h0⟩ := List.mem_flatMap.mp hmem
  rcases List.mem_append.mp h0 with h0 | h0
  · exact h l hl h0
  · exact absurd h0 (by decide)

/-! ### The lines of a request -/

/-- The lines that every request begins with. -/
def startLines (rp : RoundRobinProfile) (u : Url) (r : Request) : List Bytes :=
  [fmtS u.methodString ++ bytes " " ++ fmtS (requestPath rp r) ++
      (if r.parsedUri.query ≠ none then bytes "?" else []) ++
      (if r.parsedUri.query ≠ none then fmtS r.parsedUri.query else []) ++ bytes " HTTP/1.1",
    bytes "User-Agent: Flood/" ++ FLOOD_VERSION,
    bytes "Connection: " ++ (if r.keepalive then bytes "Keep-Alive" else bytes "Close"),
    bytes "Host: " ++ fmtS r.parsedUri.hostinfo]

/-- The length and the type of a payload. -/
def payloadFields (r : Request) : List Bytes :=
  [bytes "Content-Length: " ++ fmtD r.payloadsize,
    bytes "Content-Type: " ++
      (if r.contenttype ≠ none then fmtS r.contenttype
        else bytes "application/x-www-form-urlencoded")]

/-- The lines about a payload that is sent. -/
def payloadHeads (r : Request) : List Bytes :=
  match r.method, r.payload with
  | .POST, some _ | .OTHER, some _ => payloadFields r
  | _, _ => []

/-- What `base64` makes of the credentials of a url. -/
def credentials (base64 : Bytes → Bytes) (u : Url) : Option Bytes :=
  match u.user, u.password with
  | some user, some password => some (cstr (base64 (cstr user ++ bytes ":" ++ cstr password)))
  | _, _ => none

/-- The lines of the head of a request with these extra headers. -/
def headLines (base64 : Bytes → Bytes) (rp : RoundRobinProfile) (u : Url) (r : Request)
    (extra : List Bytes) : List Bytes :=
  startLines rp u r ++ payloadHeads r ++ extra ++
    (credentials base64 u).toList.map (bytes "Authorization: Basic " ++ ·) ++
    cookieLines (rp.cookie.map Cookie.printed)

/-- The texts of a request, other than its extra headers, hold no CR and no LF. -/
structure CleanTexts (base64 : Bytes → Bytes) (rp : RoundRobinProfile) (u : Url) (r : Request) :
    Prop where
  method : IsLine (fmtS u.methodString)
  path : IsLine (fmtS (requestPath rp r))
  query : IsLine (fmtS r.parsedUri.query)
  host : IsLine (fmtS r.parsedUri.hostinfo)
  contenttype : IsLine (fmtS r.contenttype)
  credentials : ∀ c, credentials base64 u = some c → IsLine c
  cookies : ∀ c ∈ rp.cookie, IsLine (cstr c.name) ∧ IsLine (cstr c.value)

theorem requestStart_unlines (rp : RoundRobinProfile) (u : Url) (r : Request) :
    requestStart rp u r = unlines (startLines rp u r) := by
  simp [requestStart, startLines, unlines]

theorem payloadPart_unlines (r : Request) : payloadPart r = unlines (payloadHeads r) := by
  have hfields : payloadLines r = unlines (payloadFields r) := by
    simp [payloadLines, payloadFields, unlines]
  cases hm : r.method <;> cases hp : r.payload <;>
    simp only [payloadPart, payloadHeads, hm, hp, hfields] <;> rfl

theorem authzHdr_unlines {base64 : Bytes → Bytes} {u : Url} {authz : Bytes}
    (h : authzHdr base64 u = some authz) :
    authz = unlines ((credentials base64 u).toList.map (bytes "Authorization: Basic " ++ ·)) := by
  unfold authzHdr at h
  unfold credentials
  split at h
  · next huser =>
    cases h
    rw [huser]
    rfl
  · cases h
  · next user password huser hpassword =>
    have hbasic : cstr (bytes "Authorization: Basic ") = bytes "Authorization: Basic " := by decide
    have hcolon : cstr (bytes ":") = bytes ":" := by decide
    cases h
    rw [huser, hpassword]
    simp [pstrcat, unlines, hbasic, hcolon, cstr_CRLF]

/-- The head of a request is its lines. -/
theorem requestHead_unlines {base64 : Bytes → Bytes} {rp : RoundRobinProfile} {u : Url} {r : Request}
    {authz : Bytes} {extra : List Bytes} (hauthz : authzHdr base64 u = some authz)
    (hextra : extraHdr u = unlines extra) :
    requestHead rp u r authz ++ cookieHeader rp.cookie =
      unlines (headLines base64 rp u r extra) := by
  rw [requestHead, headLines, requestStart_unlines, payloadPart_unlines, hextra,
    authzHdr_unlines hauthz, cookieHeader_eq]
  simp only [unlines_append]

/-- A name that is not empty makes a line that is not empty. -/
theorem line_named {name value : Bytes} (hne : name ≠ []) (hname : IsLine name)
    (hvalue : IsLine value) : name ++ value ≠ [] ∧ IsLine (name ++ value) :=
  ⟨List.append_ne_nil_of_left_ne_nil hne value, isLine_append.mpr ⟨hname, hvalue⟩⟩

theorem isLine_fmtD (n : ℕ) : IsLine (fmtD n) := by
  rw [fmtD, isLine_append]
  refine ⟨?_, isLine_decimal _⟩
  split
  · decide
  · decide

theorem startLines_lines {base64 : Bytes → Bytes} {rp : RoundRobinProfile} {u : Url} {r : Request}
    (h : CleanTexts base64 rp u r) : ∀ l ∈ startLines rp u r, l ≠ [] ∧ IsLine l := by
  have hquery : IsLine (if r.parsedUri.query ≠ none then fmtS r.parsedUri.query else []) := by
    split
    · exact h.query
    · decide
  have hmark : IsLine (if r.parsedUri.query ≠ none then bytes "?" else []) := by
    split
    · decide
    · decide
  have hconnection : IsLine (if r.keepalive then bytes "Keep-Alive" else bytes "Close") := by
    split
    · decide
    · decide
  simp only [startLines, List.forall_mem_cons]
  refine ⟨⟨?_, ?_⟩, line_named (by decide) (by decide) (by decide),
    line_named (by decide) (by decide) hconnection, line_named (by decide) (by decide) h.host, ?_⟩
  · exact List.append_ne_nil_of_right_ne_nil _ (by decide)
  · simp only [isLine_append]
    exact ⟨⟨⟨⟨⟨h.method, by decide⟩, h.path⟩, hmark⟩, hquery⟩, by decide⟩
  · intro l hl
    cases hl

theorem payloadHeads_lines {base64 : Bytes → Bytes} {rp : RoundRobinProfile} {u : Url} {r : Request}
    (h : CleanTexts base64 rp u r) : ∀ l ∈ payloadHeads r, l ≠ [] ∧ IsLine l := by
  have htype : IsLine (if r.contenttype ≠ none then fmtS r.contenttype
      else bytes "application/x-www-form-urlencoded") := by
    split
    · exact h.contenttype
    · decide
  have hboth : ∀ l ∈ payloadFields r, l ≠ [] ∧ IsLine l := by
    simp only [payloadFields, List.forall_mem_cons]
    refine ⟨line_named (by decide) (by decide) (isLine_fmtD _),
      line_named (by decide) (by decide) htype, ?_⟩
    intro l hl
    cases hl
  unfold payloadHeads
  split
  · exact hboth
  · exact hboth
  · intro l hl
    cases hl

/-- The lines of a request are proper lines where its extra headers are. -/
theorem headLines_lines {base64 : Bytes → Bytes} {rp : RoundRobinProfile} {u : Url} {r : Request}
    (h : CleanTexts base64 rp u r) {extra : List Bytes} (hextra : ∀ l ∈ extra, l ≠ [] ∧ IsLine l) :
    ∀ l ∈ headLines base64 rp u r extra, l ≠ [] ∧ IsLine l := by
  have hcookies : ∀ c ∈ rp.cookie.map Cookie.printed, IsLine c.1 ∧ IsLine c.2 := by
    intro c hc
    obtain ⟨cookie, hcookie, rfl⟩ := List.mem_map.mp hc
    exact h.cookies cookie hcookie
  intro l hl
  simp only [headLines, List.mem_append] at hl
  rcases hl with (((hl | hl) | hl) | hl) | hl
  · exact startLines_lines h l hl
  · exact payloadHeads_lines h l hl
  · exact hextra l hl
  · obtain ⟨c, hc, rfl⟩ := List.mem_map.mp hl
    exact line_named (by decide) (by decide) (h.credentials c (by simpa using hc))
  · exact isLine_cookieLines hcookies l hl

/-- **A request made of clean texts and proper lines is a message**: its first empty line is the one
behind its head, and the head falls apart into its lines. -/
theorem createReq_message {base64 : Bytes → Bytes} {rp : RoundRobinProfile} {u : Url}
    {r r' : Request} (hslot : urlSlot rp.url rp.currentUrl = some u) (h : CleanTexts base64 rp u r)
    {extra : List Bytes} (hextra : extraHdr u = unlines extra)
    (hlines : ∀ l ∈ extra, l ≠ [] ∧ IsLine l)
    (hcreate : roundRobinCreateReq base64 rp r = .ok (.success, r')) :
    ∃ head, splitHead r'.rbuf = some (head, requestBody r) ∧
      lines head = headLines base64 rp u r extra := by
  have hproper := headLines_lines h hlines
  have hne : headLines base64 rp u r extra ≠ [] := by
    simp [headLines, startLines]
  simp only [roundRobinCreateReq, hslot] at hcreate
  split at hcreate
  · cases hcreate
  · next authz hauthz =>
    cases hcreate
    refine ⟨joinWith CRLF (headLines base64 rp u r extra), ?_,
      lines_joinWith hne fun l hl => (hproper l hl).2⟩
    show splitHead (requestText rp u { r with wantresponse := u.responsetemplate.isSome } authz) = _
    rw [requestText_eq, requestHead_unlines hauthz hextra]
    exact splitHead_message hne hproper (requestBody r)

/-! ### Proper extra headers -/

/-- The block is made of non-empty lines, each closed by CRLF, and where the other texts of a request
hold no CR and no LF, the first empty line of the request is the one behind its head, whose lines are
the request line, the configured headers and the lines of this block, each in its place. -/
def WellFormed (block : Bytes) : Prop :=
  ∃ extra, block = unlines extra ∧ (∀ l ∈ extra, l ≠ [] ∧ IsLine l) ∧
    ∀ base64 rp u r r', urlSlot rp.url rp.currentUrl = some u → u.extraHeaders.getD [] = block →
      CleanTexts base64 rp u r → roundRobinCreateReq base64 rp r = .ok (.success, r') →
      ∃ head, splitHead r'.rbuf = some (head, requestBody r) ∧
        lines head = headLines base64 rp u r extra

theorem wellFormed_unlines_iff {tokens : List Bytes} (h0 : ∀ t ∈ tokens, 0 ∉ t) :
    WellFormed (unlines (tokens.map collapse)) ↔ ∀ t ∈ tokens, ∃ c ∈ t, isSpace c = false := by
  have hall : ∀ l ∈ tokens.map collapse, IsLine l := by
    intro l hl
    obtain ⟨t, -, rfl⟩ := List.mem_map.mp hl
    exact isLine_collapse t
  constructor
  · rintro ⟨extra, hblock, hproper, -⟩ t ht
    have hsame := unlines_injective hall (fun l hl => (hproper l hl).2) hblock
    rw [← collapse_ne_nil_iff]
    exact (hproper _ (hsame ▸ List.mem_map_of_mem ht)).1
  · intro h
    have hproper : ∀ l ∈ tokens.map collapse, l ≠ [] ∧ IsLine l := by
      intro l hl
      obtain ⟨t, ht, rfl⟩ := List.mem_map.mp hl
      exact ⟨(collapse_ne_nil_iff t).mpr (h t ht), isLine_collapse t⟩
    refine ⟨tokens.map collapse, rfl, hproper, ?_⟩
    intro base64 rp u r r' hslot hblock hclean hcreate
    refine createReq_message hslot hclean ?_ hproper hcreate
    have hnul : 0 ∉ unlines (tokens.map collapse) := by
      refine noNUL_unlines fun l hl => ?_
      obtain ⟨t, ht, rfl⟩ := List.mem_map.mp hl
      exact zero_notMem_collapse (h0 t ht)
    unfold extraHdr
    cases hextra : u.extraHeaders with
    | none =>
      rw [hextra] at hblock
      simpa using hblock
    | some block =>
      rw [hextra] at hblock
      have hsame : block = unlines (tokens.map collapse) := hblock
      rw [if_pos (Option.some_ne_none block), fmtS_some, hsame, cstr_of_not_mem hnul]

/-- The block of a url element, as lines. -/
theorem parseXmlUrlInfo_block {files : Files} {cdata : List Bytes} {attr : List XmlAttr}
    {values : Values} (h : (parseXmlUrlInfo files cdata attr {} values).1 = .success) :
    (parseXmlUrlInfo files cdata attr {} values).2.1.extraHeaders.getD [] =
      unlines ((readTokens (attr.filter isExtra) (textsOf values)).map collapse) := by
  rw [(parseXmlUrlInfo_headers h).2, addHeaders_unlines]
  rfl

/-- The tokens of a url element hold no NUL. -/
theorem noNUL_elementTokens (values : Values) (extras : List XmlAttr) :
    ∀ t ∈ readTokens extras (textsOf values), 0 ∉ t :=
  noNUL_readTokens (fun _ => cstr_noNUL _) extras

/-- **The extra headers of a url element are proper lines**, and its requests are cut behind their
heads only, if and only if every token of its `extraheader` attributes has a character that is not
white space. -/
theorem extraHeaders_wellFormed_iff {files : Files} {cdata : List Bytes} {attr : List XmlAttr}
    {values : Values} (h : (parseXmlUrlInfo files cdata attr {} values).1 = .success) :
    WellFormed ((parseXmlUrlInfo files cdata attr {} values).2.1.extraHeaders.getD []) ↔
      ∀ t ∈ readTokens (attr.filter isExtra) (textsOf values), ∃ c ∈ t, isSpace c = false := by
  rw [parseXmlUrlInfo_block h]
  exact wellFormed_unlines_iff (noNUL_elementTokens values _)

/-- A url element with one `extraheader`. -/
def oneExtra (text : Bytes) : List XmlAttr := [⟨0, XML_URLLIST_EXTRA_HEADERS, text⟩]

theorem extraHeaders_wellFormed_two :
    WellFormed ((parseXmlUrlInfo noFiles [] (oneExtra (bytes "A: 1; B: 2")) {}
      fun _ => none).2.1.extraHeaders.getD []) :=
  (extraHeaders_wellFormed_iff (by decide +kernel)).mpr (by decide +kernel)

/-- A blank between two semicolons makes an empty line: the block is not made of proper lines. -/
theorem blankToken_cuts :
    ¬ ∀ (files : Files) (cdata : List Bytes) (attr : List XmlAttr) (values : Values),
      (parseXmlUrlInfo files cdata attr {} values).1 = .success →
      WellFormed ((parseXmlUrlInfo files cdata attr {} values).2.1.extraHeaders.getD []) := by
  intro h
  have hrun : (parseXmlUrlInfo noFiles [] (oneExtra (bytes "A: 1; ;B: 2")) {} fun _ => none).1 =
      .success := by decide +kernel
  have hwell := h noFiles [] (oneExtra (bytes "A: 1; ;B: 2")) (fun _ => none) hrun
  rw [parseXmlUrlInfo_block hrun, wellFormed_unlines_iff (noNUL_elementTokens _ _)] at hwell
  obtain ⟨c, hc, hspace⟩ := hwell [32] (by decide +kernel)
  rw [List.mem_singleton.mp hc] at hspace
  exact absurd hspace (by decide)

end Flood.ExtraHeaderLines
