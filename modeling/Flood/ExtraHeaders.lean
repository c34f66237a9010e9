import Flood.RoundRobin

/-!
# The extra headers of a url

`parse_xml_url_info` cuts the text of an `extraheader` attribute into tokens, collapses the white
space of each and strings them together.  It does both in the memory of the attribute.

* `extraHeadersLoop_spec` — the headers that come of a text, and what the text is afterwards.
* `headerTokens_settled` — a second pass over the same memory finds the first token only.
* `addHeaders_settled`, `headersLength_settled` — when that makes no difference.
-/

namespace Flood.ExtraHeaders

open Flood.CString Flood.Net Flood.RoundRobin

/-- The character `;`. -/
def SEMICOLON : UInt8 := 59

/-- `apr_collapse_spaces` on the string at an offset, in place. -/
def collapseSpacesAt (buf : Bytes) (off : ℕ) : Bytes :=
  store buf off ((cstr (buf.drop off)).filter (!isSpace ·) ++ [0])

/-- The loop over the tokens of an `extraheader`: the memory of the attribute and
`url->extra_headers`.  A token has at least one character, so the length of the text bounds their
number. -/
def extraHeadersLoop : ℕ → Bytes → ℕ → Option Bytes → Bytes × Option Bytes
  | 0, buf, _, extra => (buf, extra)
  | n + 1, buf, pos, extra =>
    match aprStrtok [SEMICOLON] buf pos with
    | none => (buf, extra)
    | some t =>
      let buf := collapseSpacesAt t.buf t.start
      let header := cstr (buf.drop t.start)
      extraHeadersLoop n buf t.last (some (extra.getD [] ++ header ++ CRLF))

/-- The branch for an `extraheader` attribute with this memory. -/
def parseExtraHeaders (buf : Bytes) (extra : Option Bytes) : Bytes × Option Bytes :=
  extraHeadersLoop buf.length buf 0 extra

/-! ### What the headers are -/

/-- The tokens of a text. -/
def headerTokens (s : Bytes) : List Bytes := (s.splitOn SEMICOLON).filter (· ≠ [])

/-- A text without its white space. -/
def collapse (t : Bytes) : Bytes := t.filter (!isSpace ·)

/-- The headers behind those that are there already. -/
def addHeaders (extra : Option Bytes) (tokens : List Bytes) : Option Bytes :=
  tokens.foldl (fun extra t => some (extra.getD [] ++ collapse t ++ CRLF)) extra

/-- What is left of a text: the separators in front and the first token, collapsed. -/
def settled (s : Bytes) : Bytes :=
  s.takeWhile (· = SEMICOLON) ++ collapse ((s.dropWhile (· = SEMICOLON)).takeWhile (· ≠ SEMICOLON))

/-! ### Tokens -/

theorem headerTokens_nil : headerTokens [] = [] := rfl

theorem headerTokens_semicolon (s : Bytes) : headerTokens (SEMICOLON :: s) = headerTokens s := by
  have hsplit : (SEMICOLON :: s).splitOn SEMICOLON = [] :: s.splitOn SEMICOLON :=
    List.splitOn_append_cons_self [] s
  rw [headerTokens, hsplit]
  exact List.filter_cons_of_neg (by simp)

theorem headerTokens_semicolons {seps : Bytes} (h : ∀ c ∈ seps, c = SEMICOLON) (s : Bytes) :
    headerTokens (seps ++ s) = headerTokens s := by
  induction seps with
  | nil => rfl
  | cons c seps ih =>
    rw [List.forall_mem_cons] at h
    rw [List.cons_append, h.1, headerTokens_semicolon, ih h.2]

theorem headerTokens_token {tok : Bytes} (hne : tok ≠ []) (h : SEMICOLON ∉ tok) (s : Bytes) :
    headerTokens (tok ++ SEMICOLON :: s) = tok :: headerTokens s := by
  rw [headerTokens, List.splitOn_append_cons_self, List.splitOn_eq_singleton h,
    List.singleton_append]
  exact List.filter_cons_of_pos (by simpa using hne)

theorem headerTokens_last {tok : Bytes} (hne : tok ≠ []) (h : SEMICOLON ∉ tok) :
    headerTokens tok = [tok] := by
  rw [headerTokens, List.splitOn_eq_singleton h]
  exact List.filter_cons_of_pos (by simpa using hne)

/-- A text is separators only, or separators and a token with the end or a separator behind. -/
theorem text_cases (s : Bytes) :
    (∀ c ∈ s, c = SEMICOLON) ∨
    ∃ seps tok rest, s = seps ++ tok ++ rest ∧ (∀ c ∈ seps, c = SEMICOLON) ∧ tok ≠ [] ∧
      SEMICOLON ∉ tok ∧ (rest = [] ∨ ∃ rest', rest = SEMICOLON :: rest') := by
  induction s with
  | nil => exact .inl fun c hc => absurd hc List.not_mem_nil
  | cons c s ih =>
    by_cases hc : c = SEMICOLON
    · rcases ih with hall | ⟨seps, tok, rest, hs, hseps, htok⟩
      · exact .inl (List.forall_mem_cons.mpr ⟨hc, hall⟩)
      · exact .inr ⟨c :: seps, tok, rest, by rw [hs]; rfl, List.forall_mem_cons.mpr ⟨hc, hseps⟩,
          htok⟩
    · refine .inr ⟨[], c :: s.takeWhile (· ≠ SEMICOLON), s.dropWhile (· ≠ SEMICOLON), ?_, ?_, ?_,
        ?_, ?_⟩
      · simp
      · intro c' hc'
        cases hc'
      · exact List.cons_ne_nil _ _
      · intro hmem
        rcases List.mem_cons.mp hmem with heq | hmem
        · exact hc heq.symm
        · simpa using List.mem_takeWhile_imp hmem
      · cases hdrop : s.dropWhile (· ≠ SEMICOLON) with
        | nil => exact .inl rfl
        | cons d rest =>
          have hne : s.dropWhile (· ≠ SEMICOLON) ≠ [] := by
            rw [hdrop]
            exact List.cons_ne_nil _ _
          have hd := List.head_dropWhile_not _ hne
          simp only [hdrop, List.head_cons, decide_eq_false_iff_not, not_not] at hd
          exact .inr ⟨rest, by rw [hd]⟩

theorem takeWhile_seps {seps : Bytes} (hseps : ∀ c ∈ seps, c = SEMICOLON) {m : Bytes}
    (hm : ∀ c ∈ m.head?, c ≠ SEMICOLON) :
    (seps ++ m).takeWhile (· = SEMICOLON) = seps ∧ (seps ++ m).dropWhile (· = SEMICOLON) = m := by
  have hpos : ∀ c ∈ seps, decide (c = SEMICOLON) = true := by simpa using hseps
  rw [List.takeWhile_append_of_pos hpos, List.dropWhile_append_of_pos hpos]
  cases m with
  | nil => exact ⟨List.append_nil seps, rfl⟩
  | cons d m =>
    have hd : d ≠ SEMICOLON := hm d rfl
    exact ⟨by simp [hd], by simp [hd]⟩

theorem takeWhile_token {tok rest : Bytes} (htok : SEMICOLON ∉ tok)
    (hrest : rest = [] ∨ ∃ rest', rest = SEMICOLON :: rest') :
    (tok ++ rest).takeWhile (· ≠ SEMICOLON) = tok := by
  have hpos : ∀ c ∈ tok, decide (c ≠ SEMICOLON) = true := by
    intro c hc
    simpa using fun heq : c = SEMICOLON => htok (heq ▸ hc)
  rw [List.takeWhile_append_of_pos hpos]
  rcases hrest with rfl | ⟨rest', rfl⟩
  · exact List.append_nil tok
  · rw [List.takeWhile_cons_of_neg (by simp), List.append_nil]

theorem head_token {tok : Bytes} (hne : tok ≠ []) (htok : SEMICOLON ∉ tok) (rest : Bytes) :
    ∀ c ∈ (tok ++ rest).head?, c ≠ SEMICOLON := by
  obtain ⟨d, tok, rfl⟩ := List.exists_cons_of_ne_nil hne
  intro c hc heq
  simp only [List.cons_append, List.head?_cons, Option.mem_def, Option.some.injEq] at hc
  exact htok (by rw [← heq, hc]; exact List.mem_cons_self)

/-! ### The loop -/

theorem drop_length_append (pre r : Bytes) : (pre ++ r).drop pre.length = r := List.drop_left

/-- `apr_strtok` where no token is left. -/
theorem aprStrtok_none {pre r : Bytes} (h : ∀ c ∈ cstr r, c = SEMICOLON) :
    aprStrtok [SEMICOLON] (pre ++ r) pre.length = none := by
  have hskip : (cstr r).takeWhile (fun c => decide (c ∈ [SEMICOLON])) = cstr r := by
    rw [List.takeWhile_eq_self_iff]
    simpa using h
  unfold aprStrtok
  simp only [drop_length_append, hskip, List.drop_length, List.takeWhile_nil, if_true]

/-- `apr_strtok` where a token is left. -/
theorem aprStrtok_token {pre r seps tok rest : Bytes} (hr : cstr r = seps ++ tok ++ rest)
    (hseps : ∀ c ∈ seps, c = SEMICOLON) (hne : tok ≠ []) (htok : SEMICOLON ∉ tok)
    (hrest : rest = [] ∨ ∃ rest', rest = SEMICOLON :: rest') :
    aprStrtok [SEMICOLON] (pre ++ r) pre.length =
      some (if rest = [] then
        ⟨pre.length + seps.length, pre.length + seps.length + tok.length, pre ++ r⟩
      else ⟨pre.length + seps.length, pre.length + seps.length + tok.length + 1,
        store (pre ++ r) (pre.length + seps.length + tok.length) [0]⟩) := by
  have hskip : (cstr r).takeWhile (fun c => decide (c ∈ [SEMICOLON])) = seps := by
    simp only [List.mem_singleton]
    rw [hr, List.append_assoc]
    exact (takeWhile_seps hseps (head_token hne htok rest)).1
  have htoken : ((cstr r).drop seps.length).takeWhile (fun c => decide (c ∉ [SEMICOLON])) = tok := by
    simp only [List.mem_singleton]
    rw [hr, List.append_assoc, List.drop_left]
    exact takeWhile_token htok hrest
  have hlen : (cstr r).length = seps.length + tok.length + rest.length := by
    rw [hr]
    simp [Nat.add_assoc]
  unfold aprStrtok
  simp only [drop_length_append, hskip, htoken, hne, if_false, hlen]
  by_cases hnil : rest = []
  · rw [if_pos hnil, if_neg (by rw [hnil, List.length_nil]; omega)]
  · have hpos : 0 < rest.length := List.length_pos_iff.mpr hnil
    rw [if_neg hnil, if_pos (by omega)]

/-- Bytes stored behind the first part of a memory. -/
theorem store_append (a m bs : Bytes) : store (a ++ m) a.length bs = a ++ bs ++ m.drop bs.length := by
  have hdrop : (a ++ m).drop (a.length + bs.length) = m.drop bs.length := by
    rw [List.drop_append, List.drop_of_length_le (Nat.le_add_right _ _), List.nil_append]
    congr 1
    omega
  rw [store, hdrop, fetch, List.take_left]
  simp

theorem collapse_length_le (t : Bytes) : (collapse t).length ≤ t.length := List.length_filter_le _ t

theorem zero_notMem_collapse {t : Bytes} (h : 0 ∉ t) : 0 ∉ collapse t := fun hmem =>
  h (List.mem_filter.mp hmem).1

/-- The white space of a token collapses in place. -/
theorem collapseSpacesAt_append {a tok m : Bytes} (h0 : 0 ∉ tok) (hm : cstr m = []) :
    collapseSpacesAt (a ++ (tok ++ m)) a.length =
      a ++ (collapse tok ++ [0]) ++ (tok ++ m).drop ((collapse tok).length + 1) := by
  have hhere : cstr ((a ++ (tok ++ m)).drop a.length) = tok := by
    rw [List.drop_left, cstr_append_of_not_mem h0, hm, List.append_nil]
  rw [collapseSpacesAt, hhere, store_append, List.length_append]
  rfl

theorem addHeaders_cons (extra : Option Bytes) (t : Bytes) (tokens : List Bytes) :
    addHeaders extra (t :: tokens) =
      addHeaders (some (extra.getD [] ++ collapse t ++ CRLF)) tokens := rfl

theorem settled_token {seps tok rest : Bytes} (hseps : ∀ c ∈ seps, c = SEMICOLON) (hne : tok ≠ [])
    (htok : SEMICOLON ∉ tok) (hrest : rest = [] ∨ ∃ rest', rest = SEMICOLON :: rest') :
    settled (seps ++ tok ++ rest) = seps ++ collapse tok := by
  obtain ⟨htake, hdrop⟩ := takeWhile_seps hseps (head_token hne htok rest)
  rw [settled, List.append_assoc, htake, hdrop, takeWhile_token htok hrest]

theorem settled_semicolons {s : Bytes} (h : ∀ c ∈ s, c = SEMICOLON) : settled s = s := by
  have hpos : ∀ c ∈ s, decide (c = SEMICOLON) = true := by simpa using h
  rw [settled, List.takeWhile_eq_self_iff.mpr hpos, List.dropWhile_eq_nil_iff.mpr hpos]
  exact List.append_nil s

theorem headerTokens_semicolons_only {s : Bytes} (h : ∀ c ∈ s, c = SEMICOLON) :
    headerTokens s = [] := by
  rw [← List.append_nil s, headerTokens_semicolons h]
  rfl

/-- No token is left where the string has ended. -/
theorem extraHeadersLoop_at_end (n : ℕ) {buf : Bytes} {pos : ℕ} (h : cstr (buf.drop pos) = [])
    (extra : Option Bytes) : extraHeadersLoop n buf pos extra = (buf, extra) := by
  cases n with
  | zero => rfl
  | succ n =>
    have hnone : aprStrtok [SEMICOLON] buf pos = none := by
      unfold aprStrtok
      simp [h]
    rw [extraHeadersLoop, hnone]

/-- Where a token ended, the string ends also when the token has collapsed. -/
theorem cstr_behind_collapsed (tok : Bytes) {m : Bytes} (hm : cstr m = []) :
    cstr ((collapse tok ++ [0] ++ (tok ++ m).drop ((collapse tok).length + 1)).drop tok.length) =
      [] := by
  rcases Nat.lt_or_ge (collapse tok).length tok.length with hlt | hge
  · have hlen : (collapse tok ++ [0]).length = (collapse tok).length + 1 := by simp
    have hsplit : tok.length = (collapse tok ++ [0]).length +
        (tok.length - ((collapse tok).length + 1)) := by omega
    rw [hsplit, ← List.drop_drop, List.drop_left, List.drop_drop]
    have hback : (collapse tok).length + 1 + (tok.length - ((collapse tok).length + 1)) =
        tok.length := by omega
    rw [hback, List.drop_left]
    exact hm
  · have heq : tok.length = (collapse tok).length :=
      Nat.le_antisymm hge (collapse_length_le tok)
    rw [heq, List.append_assoc, List.drop_left]
    simp [cstr]

/-- What stands behind a collapsed token that a separator ended. -/
theorem drop_collapsed (tok m : Bytes) :
    (tok ++ 0 :: m).drop ((collapse tok).length + 1) =
      (tok ++ [0]).drop ((collapse tok).length + 1) ++ m := by
  have hle := collapse_length_le tok
  have hsplit : tok ++ 0 :: m = (tok ++ [0]) ++ m := by simp
  rw [hsplit, List.drop_append_of_le_length]
  simp only [List.length_append, List.length_singleton]
  omega

/-- The bytes of a memory whose string is known. -/
theorem exists_of_cstr {r s : Bytes} (h : cstr r = s) :
    ∃ m, r = s ++ m ∧ cstr m = [] ∧ 0 ∉ s := by
  refine ⟨r.dropWhile (· ≠ 0), ?_, ?_, h ▸ cstr_noNUL r⟩
  · rw [← h]
    exact List.takeWhile_append_dropWhile.symm
  · cases hdrop : r.dropWhile (· ≠ 0) with
    | nil => rfl
    | cons d m =>
      have hne : r.dropWhile (· ≠ 0) ≠ [] := by
        rw [hdrop]
        exact List.cons_ne_nil _ _
      have hd := List.head_dropWhile_not _ hne
      simp only [hdrop, List.head_cons, decide_eq_false_iff_not, not_not] at hd
      simp [cstr, hd]

/-- **The loop over an `extraheader`** adds the collapsed tokens of the text, and leaves the first of
them in its memory. -/
theorem extraHeadersLoop_spec (n : ℕ) (pre r : Bytes) (extra : Option Bytes)
    (hn : (cstr r).length ≤ n) :
    ∃ r', extraHeadersLoop n (pre ++ r) pre.length extra =
        (pre ++ r', addHeaders extra (headerTokens (cstr r))) ∧ cstr r' = settled (cstr r) := by
  induction n generalizing pre r extra with
  | zero =>
    have hnil : cstr r = [] := List.length_eq_zero_iff.mp (Nat.le_zero.mp hn)
    exact ⟨r, by rw [hnil]; rfl, by rw [hnil]; rfl⟩
  | succ n ih =>
    rcases text_cases (cstr r) with hall | ⟨seps, tok, rest, hr, hseps, hne, htok, hrest⟩
    · refine ⟨r, ?_, (settled_semicolons hall).symm⟩
      rw [extraHeadersLoop, aprStrtok_none hall, headerTokens_semicolons_only hall]
      rfl
    · obtain ⟨m, hrm, hm, h0⟩ := exists_of_cstr hr
      have h0tok : 0 ∉ tok := fun h =>
        h0 (List.mem_append_left _ (List.mem_append_right _ h))
      have h0seps : 0 ∉ seps := fun h =>
        h0 (List.mem_append_left _ (List.mem_append_left _ h))
      have hsettled : ∀ more, cstr (seps ++ (collapse tok ++ 0 :: more)) = settled (cstr r) := by
        intro more
        rw [hr, settled_token hseps hne htok hrest, cstr_append_of_not_mem h0seps,
          cstr_append_of_not_mem (zero_notMem_collapse h0tok)]
        simp [cstr]
      have hheader : ∀ more,
          cstr ((pre ++ seps ++ (collapse tok ++ [0]) ++ more).drop (pre ++ seps).length) =
            collapse tok := by
        intro more
        rw [List.append_assoc (pre ++ seps), List.drop_left, List.append_assoc,
          cstr_append_of_not_mem (zero_notMem_collapse h0tok)]
        simp [cstr]
      rw [extraHeadersLoop, aprStrtok_token hr hseps hne htok hrest, ← List.length_append]
      rcases hrest with rfl | ⟨rest', rfl⟩
      · -- the last token: behind it the string has ended
        have hbuf : pre ++ r = (pre ++ seps) ++ (tok ++ m) := by
          rw [hrm]
          simp
        rw [if_pos rfl]
        dsimp only
        rw [hbuf, collapseSpacesAt_append h0tok hm, hheader]
        generalize hmore : (tok ++ m).drop ((collapse tok).length + 1) = more
        have hend := cstr_behind_collapsed tok hm
        rw [hmore] at hend
        have hlast : (pre ++ seps ++ (collapse tok ++ [0]) ++ more).drop
            ((pre ++ seps).length + tok.length) = (collapse tok ++ [0] ++ more).drop tok.length := by
          rw [List.append_assoc, ← List.drop_drop, List.drop_left]
        refine ⟨seps ++ (collapse tok ++ 0 :: more), ?_, hsettled more⟩
        have hloop := extraHeadersLoop_at_end n (hlast ▸ hend)
          (some (extra.getD [] ++ collapse tok ++ CRLF))
        rw [hloop, hr, List.append_nil, headerTokens_semicolons hseps, headerTokens_last hne htok,
          addHeaders_cons]
        simp [addHeaders]
      · -- a separator behind the token: the loop goes on behind it
        have hbuf : pre ++ r = (pre ++ seps ++ tok) ++ (SEMICOLON :: (rest' ++ m)) := by
          rw [hrm]
          simp
        rw [if_neg (List.cons_ne_nil _ _)]
        dsimp only
        rw [hbuf, ← List.length_append, store_append, List.length_singleton, List.drop_one,
          List.tail_cons, List.append_assoc (pre ++ seps), List.append_assoc (pre ++ seps),
          List.append_assoc tok, List.singleton_append,
          collapseSpacesAt_append h0tok (by simp [cstr]), hheader, drop_collapsed]
        generalize hmore : (tok ++ [0]).drop ((collapse tok).length + 1) = more
        have hpre : (pre ++ seps ++ (collapse tok ++ [0]) ++ more).length =
            (pre ++ seps ++ tok).length + 1 := by
          have hle := collapse_length_le tok
          rw [← hmore]
          simp only [List.length_append, List.length_drop, List.length_singleton]
          omega
        have h0rest : 0 ∉ rest' := fun h =>
          h0 (List.mem_append_right _ (List.mem_cons_of_mem _ h))
        have hcstr : cstr (rest' ++ m) = rest' := by
          rw [cstr_append_of_not_mem h0rest, hm, List.append_nil]
        have hlen : (cstr (rest' ++ m)).length ≤ n := by
          rw [hcstr]
          rw [hr] at hn
          simp only [List.length_append, List.length_cons] at hn
          omega
        obtain ⟨r', hloop, -⟩ := ih (pre ++ seps ++ (collapse tok ++ [0]) ++ more) (rest' ++ m)
          (some (extra.getD [] ++ collapse tok ++ CRLF)) hlen
        refine ⟨seps ++ (collapse tok ++ 0 :: (more ++ r')), ?_, hsettled _⟩
        rw [← hpre, ← List.append_assoc, hloop, hcstr, hr, List.append_assoc seps,
          headerTokens_semicolons hseps, headerTokens_token hne htok, addHeaders_cons]
        simp

/-- **One pass** over an attribute's memory. -/
theorem parseExtraHeaders_spec (buf : Bytes) (extra : Option Bytes) :
    cstr (parseExtraHeaders buf extra).1 = settled (cstr buf) ∧
      (parseExtraHeaders buf extra).2 = addHeaders extra (headerTokens (cstr buf)) := by
  obtain ⟨r', hloop, hr'⟩ := extraHeadersLoop_spec buf.length [] buf extra
    (List.takeWhile_prefix _).length_le
  rw [List.nil_append, List.nil_append, List.length_nil] at hloop
  rw [parseExtraHeaders, hloop]
  exact ⟨hr', rfl⟩

/-! ### A second pass -/

/-- The text has at most one token, and that is not white space only. -/
def Stable (s : Bytes) : Prop :=
  (headerTokens s).length ≤ 1 ∧ ∀ t ∈ headerTokens s, collapse t ≠ []

instance (s : Bytes) : Decidable (Stable s) := inferInstanceAs (Decidable (_ ∧ _))

theorem collapse_collapse (t : Bytes) : collapse (collapse t) = collapse t := by
  simp [collapse]

theorem semicolon_notMem_collapse {t : Bytes} (h : SEMICOLON ∉ t) : SEMICOLON ∉ collapse t :=
  fun hmem => h (List.mem_filter.mp hmem).1

/-- **The tokens of a second pass**: the first one, collapsed, if anything is left of it. -/
theorem headerTokens_settled (s : Bytes) :
    headerTokens (settled s) = (((headerTokens s).take 1).map collapse).filter (· ≠ []) := by
  rcases text_cases s with hall | ⟨seps, tok, rest, rfl, hseps, hne, htok, hrest⟩
  · rw [settled_semicolons hall, headerTokens_semicolons_only hall]
    rfl
  · have htokens : ∃ more, headerTokens (seps ++ tok ++ rest) = tok :: more := by
      rw [List.append_assoc, headerTokens_semicolons hseps]
      rcases hrest with rfl | ⟨rest', rfl⟩
      · rw [List.append_nil]
        exact ⟨[], headerTokens_last hne htok⟩
      · exact ⟨headerTokens rest', headerTokens_token hne htok rest'⟩
    obtain ⟨more, htokens⟩ := htokens
    rw [settled_token hseps hne htok hrest, headerTokens_semicolons hseps, htokens]
    by_cases hnil : collapse tok = []
    · simp [hnil, headerTokens_nil]
    · rw [headerTokens_last hnil (semicolon_notMem_collapse htok)]
      simp [hnil]

/-- The bytes that the tokens of a text add. -/
def headersLength (tokens : List Bytes) : ℕ := (tokens.map fun t => (collapse t).length + 2).sum

theorem addHeaders_length (extra : Option Bytes) (tokens : List Bytes) :
    ((addHeaders extra tokens).getD []).length = (extra.getD []).length + headersLength tokens := by
  induction tokens generalizing extra with
  | nil => rfl
  | cons t tokens ih =>
    rw [addHeaders_cons, ih, Option.getD_some]
    simp only [headersLength, List.map_cons, List.sum_cons, List.length_append, CRLF,
      List.length_cons, List.length_nil]
    omega

/-- A stable text gives the same headers in every pass. -/
theorem addHeaders_settled {s : Bytes} (h : Stable s) (extra : Option Bytes) :
    addHeaders extra (headerTokens (settled s)) = addHeaders extra (headerTokens s) := by
  rw [headerTokens_settled]
  obtain ⟨hlen, hall⟩ := h
  cases htokens : headerTokens s with
  | nil => rfl
  | cons t more =>
    rw [htokens] at hlen hall
    have hmore : more = [] := by
      apply List.length_eq_zero_iff.mp
      simp only [List.length_cons] at hlen
      omega
    subst hmore
    have ht : collapse t ≠ [] := hall t List.mem_cons_self
    simp [ht, addHeaders, collapse_collapse]

/-- **A second pass adds less**, unless the text is stable. -/
theorem headersLength_settled (s : Bytes) :
    headersLength (headerTokens (settled s)) ≤ headersLength (headerTokens s) ∧
      (headersLength (headerTokens (settled s)) = headersLength (headerTokens s) → Stable s) := by
  rw [headerTokens_settled, Stable]
  cases htokens : headerTokens s with
  | nil => exact ⟨Nat.le_refl _, fun _ => ⟨Nat.zero_le _, fun t ht => absurd ht List.not_mem_nil⟩⟩
  | cons t more =>
    have hlong : more ≠ [] → 0 < headersLength more := by
      intro hne
      obtain ⟨t', more, rfl⟩ := List.exists_cons_of_ne_nil hne
      simp only [headersLength, List.map_cons, List.sum_cons]
      omega
    have hcons : headersLength (t :: more) = (collapse t).length + 2 + headersLength more := rfl
    by_cases ht : collapse t = []
    · have hnone : (((t :: more).take 1).map collapse).filter (· ≠ []) = [] := by simp [ht]
      rw [hnone, hcons]
      refine ⟨Nat.zero_le _, fun heq => ?_⟩
      have hzero : headersLength [] = 0 := rfl
      omega
    · have hone : (((t :: more).take 1).map collapse).filter (· ≠ []) = [collapse t] := by
        simp [ht]
      have hval : headersLength [collapse t] = (collapse t).length + 2 := by
        simp [headersLength, collapse_collapse]
      rw [hone, hval, hcons]
      refine ⟨Nat.le_add_right _ _, fun heq => ?_⟩
      have hmore : more = [] := by
        by_contra hne
        have hpos := hlong hne
        omega
      subst hmore
      exact ⟨Nat.le_refl _, by simpa using ht⟩

/-- Later passes change nothing more. -/
theorem settled_settled (s : Bytes) : settled (settled s) = settled s := by
  rcases text_cases s with hall | ⟨seps, tok, rest, rfl, hseps, hne, htok, hrest⟩
  · rw [settled_semicolons hall, settled_semicolons hall]
  · rw [settled_token hseps hne htok hrest]
    by_cases hnil : collapse tok = []
    · rw [hnil, List.append_nil]
      exact settled_semicolons hseps
    · have h : settled (seps ++ collapse tok ++ []) = seps ++ collapse (collapse tok) :=
        settled_token hseps hnil (semicolon_notMem_collapse htok) (.inl rfl)
      rw [List.append_nil, collapse_collapse] at h
      exact h

end Flood.ExtraHeaders
