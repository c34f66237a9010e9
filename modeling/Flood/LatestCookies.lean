import Flood.CookieRun

/-!
# Every cookie once, with its latest value

Responses with any number of `Set-Cookie: ` lines.  Of each response only the first such line reaches
the jar, and the jar never replaces an entry.

* `taken_answers` — the cookie taken from a response is that of its first `Set-Cookie: ` line.
* `jar_latest_iff` — a request lists every name set so far once, with the value set last, if and
  only if the first lines of the responses suffice for that.
-/

namespace Flood.LatestCookies

open Flood.CString Flood.Loop Flood.Net Flood.RoundRobin Flood.RoundRobinRun Flood.HttpText Flood.CreateReq
  Flood.Postprocess Flood.CookieRun

/-! ### Responses with any number of cookies -/

/-- A header line of a response. -/
inductive Field where
  | other (line : Bytes)
  | setCookie (name value : Bytes) (attributes : Option Bytes)
  deriving DecidableEq

def Field.line : Field → Bytes
  | .other line => line
  | .setCookie name value attributes =>
    SET_COOKIE ++ name ++ bytes "=" ++ value ++
      match attributes with
      | none => []
      | some attributes => bytes ";" ++ attributes

def Field.cookie : Field → Option (Bytes × Bytes)
  | .other _ => none
  | .setCookie name value _ => some (name, value)

/-- A response as the server sends it. -/
structure Reply where
  status : Bytes
  fields : List Field
  body : Bytes
  deriving DecidableEq

namespace Reply

def text (r : Reply) : Bytes := message (r.status :: r.fields.map Field.line) r.body

/-- The cookies that the response sets, in the order of its lines. -/
def cookies (r : Reply) : List (Bytes × Bytes) := r.fields.filterMap Field.cookie

/-- What stands in front of the first `Set-Cookie: ` line. -/
def front (r : Reply) : Bytes :=
  unlines (r.status :: (r.fields.takeWhile fun f => f.cookie = none).map Field.line)

/-- Header lines are lines, those that begin with `Set-Cookie: ` set a cookie, names end at a `=`
and values at a `;`. -/
structure WellFormed (r : Reply) : Prop where
  lines : ∀ f ∈ r.fields, IsLine f.line
  others : ∀ line, .other line ∈ r.fields → ¬ SET_COOKIE <+: line
  cookies : ∀ c ∈ r.cookies, 61 ∉ c.1 ∧ 59 ∉ c.2
  noNUL : 0 ∉ r.text
  small : r.text.length < 2 ^ 63

end Reply

/-- The buffer holds the reply, and nothing in front of its first `Set-Cookie: ` line looks like
one. -/
structure Answers (resp : Response) (r : Reply) : Prop where
  wellFormed : r.WellFormed
  memory : ∃ behind, resp.rbuf = r.text ++ behind
  size : resp.rbufsize = r.text.length
  front : r.cookies ≠ [] → ∀ i < r.front.length, ¬ SET_COOKIE <+: resp.rbuf.drop i
  none : r.cookies = [] → NoCookie resp

/-- A reply with cookies has a first one, behind lines that set none. -/
theorem exists_first {r : Reply} (h : r.cookies ≠ []) :
    ∃ name value attributes after, r.cookies.head? = some (name, value) ∧
      r.fields = (r.fields.takeWhile fun f => f.cookie = none) ++
        .setCookie name value attributes :: after := by
  have hgeneral : ∀ fields : List Field, fields.filterMap Field.cookie ≠ [] →
      ∃ name value attributes after,
        (fields.filterMap Field.cookie).head? = some (name, value) ∧
        fields = (fields.takeWhile fun f => f.cookie = none) ++
          .setCookie name value attributes :: after := by
    intro fields hne
    induction fields with
    | nil => exact absurd rfl hne
    | cons f fields ih =>
      cases f with
      | other line =>
        obtain ⟨name, value, attributes, after, hhead, hfields⟩ := ih hne
        refine ⟨name, value, attributes, after, hhead, ?_⟩
        have htake : (Field.other line :: fields).takeWhile (fun f => f.cookie = none) =
            Field.other line :: fields.takeWhile fun f => f.cookie = none := rfl
        rw [htake, List.cons_append, ← hfields]
      | setCookie name value attributes =>
        exact ⟨name, value, attributes, fields, rfl, rfl⟩
  exact hgeneral r.fields h

/-- **The cookie taken from a response** is the first that it sets. -/
theorem firstCookie_answers {resp : Response} {r : Reply} (h : Answers resp r)
    (hne : r.cookies ≠ []) :
    ∃ name value, r.cookies.head? = some (name, value) ∧ FirstCookie resp name value := by
  obtain ⟨name, value, attributes, after, hhead, hfields⟩ := exists_first hne
  obtain ⟨behind, hmemory⟩ := h.memory
  have hmem : .setCookie name value attributes ∈ r.fields := by
    rw [hfields]
    simp
  have hline := h.wellFormed.lines _ hmem
  have hcookie := h.wellFormed.cookies (name, value) (List.mem_of_mem_head? hhead)
  have hcr : CR ∉ value := by
    have hno := hline.1
    simp only [Field.line, List.mem_append, not_or] at hno
    exact hno.1.2
  let tail := unlines (after.map Field.line) ++ CRLF ++ r.body
  have htext : ∀ closing, Field.line (.setCookie name value attributes) =
      SET_COOKIE ++ name ++ bytes "=" ++ value ++ closing →
      r.text = r.front ++ SET_COOKIE ++ name ++ bytes "=" ++ value ++ (closing ++ CRLF ++ tail) := by
    intro closing hclosing
    rw [Reply.text, message, Reply.front]
    nth_rewrite 1 [hfields]
    simp only [List.map_append, List.map_cons, hclosing, unlines_cons, unlines_append,
      List.append_assoc, tail]
  have hclosed : ∃ rest, r.text = r.front ++ SET_COOKIE ++ name ++ bytes "=" ++ value ++ rest ∧
      ((∃ post, rest = CRLF ++ post) ∨
        ∃ attributes post, rest = bytes ";" ++ attributes ++ CRLF ++ post) := by
    cases attributes with
    | none => exact ⟨CRLF ++ tail, by simpa using htext [] rfl, .inl ⟨tail, rfl⟩⟩
    | some attributes =>
      exact ⟨bytes ";" ++ attributes ++ CRLF ++ tail, htext (bytes ";" ++ attributes) rfl,
        .inr ⟨attributes, tail, rfl⟩⟩
  obtain ⟨rest, hrest, hclosed⟩ := hclosed
  refine ⟨name, value, hhead, r.front, rest, behind, ?_, h.front hne⟩
  exact ⟨by rw [hmemory, hrest], by rw [h.size, hrest], by rw [h.size]; exact h.wellFormed.small,
    by rw [← hrest]; exact h.wellFormed.noNUL, hcookie.1, ⟨hcookie.2, hcr⟩, hclosed⟩

theorem taken_answers {resp : Response} {r : Reply} (h : Answers resp r) :
    (taken resp).map Cookie.printed = r.cookies.head?.toList := by
  by_cases hne : r.cookies = []
  · rw [taken_none (h.none hne), hne]
    rfl
  · obtain ⟨name, value, hhead, hfirst⟩ := firstCookie_answers h hne
    rw [taken_first hfirst, hhead, List.map_singleton, printed_first hfirst]
    rfl

/-! ### The latest values -/

/-- The value that the last cookie of this name sets. -/
def latest (sent : List (Bytes × Bytes)) (name : Bytes) : Option Bytes :=
  (sent.reverse.find? fun c => c.1 = name).map Prod.snd

/-- Every name set is listed once, with the value set last. -/
def ListsLatest (listed sent : List (Bytes × Bytes)) : Prop :=
  (listed.map Prod.fst).Nodup ∧
    ∀ name value, (name, value) ∈ listed ↔ latest sent name = some value

/-- The first cookies of the responses. -/
def firsts (groups : List (List (Bytes × Bytes))) : List (Bytes × Bytes) :=
  groups.filterMap List.head?

/-- The first cookies of the responses have different names, there is one for every name set, and
none of them is overruled. -/
structure FirstsSuffice (groups : List (List (Bytes × Bytes))) : Prop where
  distinct : ((firsts groups).map Prod.fst).Nodup
  covered : ∀ c ∈ groups.flatten, ∃ f ∈ firsts groups, f.1 = c.1
  last : ∀ f ∈ firsts groups, latest groups.flatten f.1 = some f.2

theorem latest_mem {sent : List (Bytes × Bytes)} {name value : Bytes}
    (h : latest sent name = some value) : (name, value) ∈ sent := by
  obtain ⟨c, hc, rfl⟩ := Option.map_eq_some_iff.mp h
  have hname : c.1 = name := by simpa using List.find?_some hc
  rw [← hname]
  simpa using List.mem_of_find?_eq_some hc

theorem latest_of_mem {sent : List (Bytes × Bytes)} {c : Bytes × Bytes} (h : c ∈ sent) :
    ∃ value, latest sent c.1 = some value := by
  obtain ⟨d, hd⟩ : ∃ d, (sent.reverse.find? fun x => x.1 = c.1) = some d := by
    rw [← Option.isSome_iff_exists, List.find?_isSome]
    exact ⟨c, by simpa using h, by simp⟩
  exact ⟨d.2, by rw [latest, hd]; rfl⟩

/-- **The first cookies list the latest values** exactly when they suffice. -/
theorem listsLatest_iff (groups : List (List (Bytes × Bytes))) :
    ListsLatest (firsts groups).reverse groups.flatten ↔ FirstsSuffice groups := by
  have hnodup : ((firsts groups).reverse.map Prod.fst).Nodup ↔
      ((firsts groups).map Prod.fst).Nodup := by
    simp only [List.map_reverse, List.Nodup, List.pairwise_reverse, ne_comm]
  constructor
  · rintro ⟨honce, hlisted⟩
    refine ⟨hnodup.mp honce, fun c hc => ?_, fun f hf => ?_⟩
    · obtain ⟨value, hvalue⟩ := latest_of_mem hc
      have hmem := (hlisted c.1 value).mpr hvalue
      exact ⟨(c.1, value), List.mem_reverse.mp hmem, rfl⟩
    · exact (hlisted f.1 f.2).mp (List.mem_reverse.mpr hf)
  · intro h
    refine ⟨hnodup.mpr h.distinct, fun name value => ?_⟩
    rw [List.mem_reverse]
    constructor
    · intro hmem
      exact h.last (name, value) hmem
    · intro hlatest
      obtain ⟨f, hf, hname⟩ := h.covered (name, value) (latest_mem hlatest)
      have hlast := h.last f hf
      rw [hname, hlatest, Option.some.injEq] at hlast
      have hpair : f = (name, value) := Prod.ext hname hlast.symm
      exact hpair ▸ hf

/-! ### The cookies of a request -/

/-- The jar that replies leave. -/
theorem jarOf_answers {received : List Response} {replies : List Reply}
    (h : List.Forall₂ Answers received replies) :
    (jarOf received).map Cookie.printed = (firsts (replies.map Reply.cookies)).reverse := by
  induction h with
  | nil => rfl
  | @cons resp r received replies hresp _ ih =>
    have hcons : jarOf (resp :: received) = jarOf received ++ taken resp := by simp [jarOf]
    have hfirsts : firsts ((r :: replies).map Reply.cookies) =
        r.cookies.head?.toList ++ firsts (replies.map Reply.cookies) := by
      rw [firsts, firsts, List.map_cons, List.filterMap_cons]
      cases r.cookies.head? <;> rfl
    have hone : r.cookies.head?.toList.reverse = r.cookies.head?.toList := by
      cases r.cookies.head? <;> rfl
    rw [hcons, List.map_append, ih, taken_answers hresp, hfirsts, List.reverse_append, hone]

section Requests

variable {β : Type} {env : Env} {base64 : Bytes → Bytes} {out : Outside} {hold : Holder β}
  {o : OtherEvents β}

/-- **The cookies of a request** are those of the jar, and they list every name that the responses
set so far exactly once, with the value set last, if and only if the first `Set-Cookie: ` lines of
the responses suffice. -/
theorem jar_latest_iff {s₀ s : RobinRun (Recorded β)} {replies : List Reply}
    (hjar : s₀.rp.cookie = []) (hnone : s₀.rest.received = [])
    (h : RequestBuilt env base64 out hold o s₀ s)
    (hreplies : List.Forall₂ Answers s.rest.received replies) :
    (∃ u r r' authz, s.rest.built = some r' ∧ urlSlot s.rp.url s.rp.currentUrl = some u ∧
      r'.rbuf = requestHead s.rp u r authz ++ cookieHeader s.rp.cookie ++ CRLF ++
        requestBody r) ∧
    (ListsLatest (s.rp.cookie.map Cookie.printed) (replies.map Reply.cookies).flatten ↔
      FirstsSuffice (replies.map Reply.cookies)) := by
  have hs₀ : Collected s₀ := by rw [Collected, hjar, hnone]; rfl
  have hs : Collected s := behind_collected hs₀ ⟨_, rfl⟩ h
  obtain ⟨u, r, r', authz, hbuilt, hslot, -, -, htext⟩ := built_cookies hs₀ h
  rw [← hs] at htext
  refine ⟨⟨u, r, r', authz, hbuilt, hslot, htext⟩, ?_⟩
  rw [hs, jarOf_answers hreplies]
  exact listsLatest_iff (replies.map Reply.cookies)

end Requests

/-- A response that sets one cookie. -/
def oneCookie : Reply := ⟨bytes "HTTP/1.1 200", [.setCookie (bytes "a") (bytes "1") none], []⟩

/-- A response that sets two cookies. -/
def twoCookies : Reply :=
  ⟨bytes "HTTP/1.1 200",
    [.setCookie (bytes "a") (bytes "1") none, .setCookie (bytes "b") (bytes "2") none], []⟩

/-- The buffer of a response that nothing follows. -/
theorem answers_text {r : Reply} (hr : r.WellFormed) (hne : r.cookies ≠ [])
    (hfront : ∀ i < r.front.length, ¬ SET_COOKIE <+: r.text.drop i) :
    Answers (textResponse r.text) r :=
  ⟨hr, ⟨[], by simp [textResponse]⟩, rfl, fun _ => hfront, fun h => absurd h hne⟩

theorem oneCookie_answers : Answers (textResponse oneCookie.text) oneCookie :=
  answers_text ⟨by decide, by simp [oneCookie], by decide, by decide, by decide⟩ (by decide) (by decide)

theorem twoCookies_answers : Answers (textResponse twoCookies.text) twoCookies :=
  answers_text ⟨by decide, by simp [twoCookies], by decide, by decide, by decide⟩ (by decide) (by decide)

theorem jar_latest_oneCookie : ∃ s : RobinRun (Recorded Response),
    RequestBuilt oneHost (fun _ => []) noMatch sameResponse quietEvents
      (answeredBy oneCookie.text) s ∧
    ListsLatest (s.rp.cookie.map Cookie.printed) [(bytes "a", bytes "1")] := by
  obtain ⟨s, hs, hreceived⟩ : ∃ s, RequestBuilt oneHost (fun _ => []) noMatch sameResponse
      quietEvents (answeredBy oneCookie.text) s ∧
      s.rest.received = [textResponse oneCookie.text] :=
    ⟨_, ⟨_, Steps.single rfl, rfl⟩, rfl⟩
  have hreplies : List.Forall₂ Answers s.rest.received [oneCookie] := by
    rw [hreceived]
    exact .cons oneCookie_answers .nil
  have hsuffice : FirstsSuffice ([oneCookie].map Reply.cookies) :=
    ⟨by decide, by decide, by decide⟩
  exact ⟨s, hs, (jar_latest_iff rfl rfl hs hreplies).2.mpr hsuffice⟩

/-- The second cookie of a response is lost. -/
theorem twoCookies_lost : ¬ ∀ (env : Env) (base64 : Bytes → Bytes) (out : Outside)
    (hold : Holder Response) (o : OtherEvents Response) (s₀ s : RobinRun (Recorded Response))
    (replies : List Reply), s₀.rp.cookie = [] → s₀.rest.received = [] →
    RequestBuilt env base64 out hold o s₀ s → List.Forall₂ Answers s.rest.received replies →
    ListsLatest (s.rp.cookie.map Cookie.printed) (replies.map Reply.cookies).flatten := by
  intro h
  obtain ⟨s, hs, hreceived⟩ : ∃ s, RequestBuilt oneHost (fun _ => []) noMatch sameResponse
      quietEvents (answeredBy twoCookies.text) s ∧
      s.rest.received = [textResponse twoCookies.text] :=
    ⟨_, ⟨_, Steps.single rfl, rfl⟩, rfl⟩
  have hreplies : List.Forall₂ Answers s.rest.received [twoCookies] := by
    rw [hreceived]
    exact .cons twoCookies_answers .nil
  have hlists := h _ _ _ _ _ _ s [twoCookies] rfl rfl hs hreplies
  have hempty : Collected (answeredBy twoCookies.text) := rfl
  have hjar : s.rp.cookie = jarOf s.rest.received := behind_collected hempty ⟨_, rfl⟩ hs
  have hlost : (bytes "b", bytes "2") ∈ (jarOf s.rest.received).map Cookie.printed :=
    hjar ▸ (hlists.2 (bytes "b") (bytes "2")).mpr (by decide)
  rw [jarOf_answers hreplies] at hlost
  exact absurd hlost (by decide)

end Flood.LatestCookies
