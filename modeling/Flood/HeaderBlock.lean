import Flood.SocketKeepalive

/-!
# Header blocks

What the header loop of `keepalive_recv_resp` makes of a block of header lines that lies wholly in
the first read: it stops at the empty line, and the table holds for every name the last value given
for it.

* `headerLoop_lines` — the loop on any block of lines it can take.
* `tableGet_lines` — the table as a function of the fields.
* `keepaliveRecvResp_headers` — `keepalive_recv_resp` up to the end of the headers.
-/

namespace Flood.HeaderBlock

open Flood.CString Flood.Loop Flood.Net Flood.SocketKeepalive

/-! ### Lines and fields -/

def COLON : UInt8 := 58

/-- A header line that the loop can take: not empty, free of CR and NUL, and not ended by its first
colon, behind which the code skips a byte without looking. -/
structure Line where
  text : Bytes
  ne : text ≠ []
  noCR : CR ∉ text
  noNUL : 0 ∉ text
  colon : ∀ k, text.findIdx? (· = COLON) = some k → k + 2 ≤ text.length

/-- A field as it is sent: `Key: Value`. -/
structure Field where
  key : Bytes
  value : Bytes
  keyOk : COLON ∉ key ∧ CR ∉ key ∧ 0 ∉ key
  valueOk : CR ∉ value ∧ 0 ∉ value

/-- A header block: a status line without a colon, and fields. -/
structure Headers where
  status : Bytes
  statusOk : status ≠ [] ∧ CR ∉ status ∧ 0 ∉ status ∧ COLON ∉ status
  fields : List Field

def Field.text (f : Field) : Bytes := f.key ++ COLON :: 32 :: f.value

theorem Field.text_colon (f : Field) : f.text.findIdx? (· = COLON) = some f.key.length :=
  findIdx?_append_of_not_mem COLON f.key _ f.keyOk.1

def Field.line (f : Field) : Line where
  text := f.text
  ne := by simp [Field.text]
  noCR := by
    simp only [Field.text, List.mem_append, List.mem_cons, not_or]
    exact ⟨f.keyOk.2.1, by decide, by decide, f.valueOk.1⟩
  noNUL := by
    simp only [Field.text, List.mem_append, List.mem_cons, not_or]
    exact ⟨f.keyOk.2.2, by decide, by decide, f.valueOk.2⟩
  colon := by
    intro k hk
    rw [f.text_colon, Option.some.injEq] at hk
    simp [Field.text, ← hk]

def Headers.statusLine (h : Headers) : Line where
  text := h.status
  ne := h.statusOk.1
  noCR := h.statusOk.2.1
  noNUL := h.statusOk.2.2.1
  colon := by
    intro k hk
    rw [findIdx?_of_not_mem COLON h.status h.statusOk.2.2.2] at hk
    cases hk

def Headers.lines (h : Headers) : List Line := h.statusLine :: h.fields.map Field.line

/-- The lines as they are sent, without the empty line that closes the block. -/
def linesText (ls : List Line) : Bytes := ls.flatMap fun l => l.text ++ CRLF

/-- The value a block gives for a name: the last one, the name compared without case. -/
def Headers.value (h : Headers) (name : Bytes) : Option Bytes :=
  (h.fields.reverse.find? fun f => eqIgnoreCase f.key name).map Field.value

/-! ### The table -/

/-- The table after a line with the text `l`. -/
def addText (t : Table) (l : Bytes) : Table :=
  match l.findIdx? (· = COLON) with
  | none => t
  | some k => tableSet t (l.take k) (l.drop (k + 2))

/-- The table of a list of lines. -/
def linesTable (ls : List Line) : Table := ls.foldl (fun t l => addText t l.text) []

theorem eqIgnoreCase_comm (a b : Bytes) : eqIgnoreCase a b = eqIgnoreCase b a := by
  simp only [eqIgnoreCase, eq_comm]

theorem eqIgnoreCase_trans {a b c : Bytes} (hab : eqIgnoreCase a b = true)
    (hbc : eqIgnoreCase b c = true) : eqIgnoreCase a c = true := by
  simp only [eqIgnoreCase, decide_eq_true_eq] at hab hbc ⊢
  exact hab.trans hbc

/-- Setting a name replaces every entry for it and leaves the others alone. -/
theorem tableGet_tableSet (t : Table) (key val name : Bytes) :
    tableGet (tableSet t key val) name =
      if eqIgnoreCase key name then some val else tableGet t name := by
  have hfilter : (t.filter fun e => !eqIgnoreCase e.1 key).find? (fun e => eqIgnoreCase e.1 name) =
      if eqIgnoreCase key name then none else t.find? fun e => eqIgnoreCase e.1 name := by
    rw [List.find?_filter]
    split
    · next hkey =>
      rw [List.find?_eq_none]
      intro e _ he
      rw [Bool.decide_and, Bool.and_eq_true, decide_eq_true_eq, decide_eq_true_eq] at he
      have := eqIgnoreCase_trans he.2 (eqIgnoreCase_comm key name ▸ hkey)
      simp [this] at he
    · next hkey =>
      congr 1
      funext e
      cases he : eqIgnoreCase e.1 name with
      | false => simp
      | true =>
        have hne : eqIgnoreCase e.1 key = false := by
          by_contra hk
          rw [Bool.not_eq_false] at hk
          exact hkey (eqIgnoreCase_trans (eqIgnoreCase_comm e.1 key ▸ hk) he)
        simp [hne]
  simp only [tableGet, tableSet, List.find?_append, hfilter]
  split
  · next hkey => simp [hkey]
  · next hkey =>
    cases hfind : t.find? fun e => eqIgnoreCase e.1 name with
    | none => simp [hkey]
    | some e => simp

theorem addText_field (t : Table) (f : Field) : addText t f.text = tableSet t f.key f.value := by
  simp only [addText, f.text_colon]
  simp [Field.text]

/-- **The table of a block holds the last value of every field.** -/
theorem tableGet_lines (h : Headers) (name : Bytes) :
    tableGet (linesTable h.lines) name = h.value name := by
  have hstatus : linesTable h.lines = (h.fields.map Field.line).foldl
      (fun t l => addText t l.text) [] := by
    have hnone : addText [] h.status = [] := by
      simp only [addText, findIdx?_of_not_mem COLON h.status h.statusOk.2.2.2]
    simp only [linesTable, Headers.lines, List.foldl_cons, Headers.statusLine, hnone]
  have hfields : ∀ fs : List Field, tableGet (fs.foldl (fun t f => addText t f.line.text) []) name =
      (fs.reverse.find? fun f => eqIgnoreCase f.key name).map Field.value := by
    intro fs
    induction fs using List.reverseRecOn with
    | nil => rfl
    | append_singleton fs f ih =>
      rw [List.foldl_append, List.foldl_cons, List.foldl_nil]
      show tableGet (addText _ f.text) name = _
      rw [addText_field, tableGet_tableSet, ih, List.reverse_append, List.reverse_singleton,
        List.singleton_append, List.find?_cons]
      cases eqIgnoreCase f.key name <;> rfl
  rw [hstatus, List.foldl_map, hfields, Headers.value]

/-! ### The header loop -/

theorem cstr_take {l : Bytes} (h : 0 ∉ l) (n : ℕ) : cstr (l.take n) = l.take n :=
  cstr_of_not_mem fun h0 => h (List.mem_of_mem_take h0)

/-- One line is added to the table as a whole. -/
theorem addHeader_line (l : Line) (m : Bytes) (t : Table) :
    addHeader (l.text ++ m) l.text.length t = .ok (addText t l.text) := by
  simp only [addHeader, addText]
  rw [show (58 : UInt8) = COLON from rfl, memchr_append]
  cases hk : l.text.findIdx? (· = COLON) with
  | none => rfl
  | some k =>
    have hlen := l.colon k hk
    have hval : fetch ((l.text ++ m).drop (k + 2)) (l.text.length - k - 2) =
        l.text.drop (k + 2) := by
      rw [List.drop_append_of_le_length hlen, fetch_append (by simp; omega)]
      exact List.take_of_length_le (by simp; omega)
    have hnul : 0 ∉ l.text.drop (k + 2) := fun h0 => l.noNUL (List.mem_of_mem_drop h0)
    simp only [if_neg (Nat.not_lt.mpr hlen), fetch_append (show k ≤ l.text.length by omega), hval,
      cstr_take l.noNUL, cstr_of_not_mem hnul]

theorem linesText_cons (l : Line) (ls : List Line) :
    linesText (l :: ls) = l.text ++ CRLF ++ linesText ls := by
  simp only [linesText, List.flatMap_cons]

/-- The search for the end of a line finds it. -/
theorem strstr_text (l : Line) (m : Bytes) : strstr CRLF (l.text ++ CRLF ++ m) = some l.text.length :=
  strstr_line l.text m l.noCR l.noNUL

/-- **The header loop goes through the lines**, with every line in the table, as long as there is
more of the buffer behind them. -/
theorem headerLoop_steps {rbuf : Bytes} {rbufsize : ℕ} (ls : List Line) (off : ℕ) (t : Table)
    (m : Bytes) (hbuf : rbuf.drop off = linesText ls ++ m)
    (hsize : off + (linesText ls).length < rbufsize) :
    Steps (headerRound rbuf rbufsize) ⟨off, t⟩
        ⟨off + (linesText ls).length, ls.foldl (fun t l => addText t l.text) t⟩ ∧
      rbuf.drop (off + (linesText ls).length) = m := by
  induction ls generalizing off t with
  | nil => exact ⟨.refl, hbuf⟩
  | cons l ls ih =>
    rw [linesText_cons] at hbuf hsize ⊢
    have hline : rbuf.drop off = l.text ++ CRLF ++ (linesText ls ++ m) := by
      rw [hbuf, List.append_assoc]
    obtain ⟨n, hn⟩ := Nat.exists_eq_succ_of_ne_zero (mt List.length_eq_zero_iff.mp l.ne)
    have hadd : addHeader (rbuf.drop off) (n + 1) t = .ok (addText t l.text) := by
      rw [← Nat.succ_eq_add_one, ← hn, hline, List.append_assoc]
      exact addHeader_line l (CRLF ++ (linesText ls ++ m)) t
    have hstr : strstr CRLF (rbuf.drop off) = some (n + 1) := by
      rw [hline, strstr_text, hn]
    have hend : off + (n + 1) + CRLF.length = off + (l.text ++ CRLF).length := by
      rw [List.length_append, hn]
      omega
    simp only [List.length_append] at hsize
    have hmore : off + (n + 1) + CRLF.length < rbufsize := by omega
    have hround : headerRound rbuf rbufsize ⟨off, t⟩ =
        .inr ⟨off + (n + 1) + CRLF.length, addText t l.text⟩ := by
      simp only [headerRound, hstr, hadd, if_pos hmore]
    obtain ⟨hsteps, hdrop⟩ := ih (off + (n + 1) + CRLF.length) (addText t l.text)
      (by rw [hend, ← List.drop_drop, hline, List.drop_left]) (by omega)
    rw [List.length_append, ← Nat.add_assoc, ← hend]
    exact ⟨Relation.ReflTransGen.head hround hsteps, hdrop⟩

/-- **The header loop stops at the empty line**, with every line in the table. -/
theorem headerLoop_lines {rbuf : Bytes} {rbufsize : ℕ} (ls : List Line) (off : ℕ) (t : Table)
    (m : Bytes) (hbuf : rbuf.drop off = linesText ls ++ CRLF ++ m)
    (hsize : off + (linesText ls).length < rbufsize) :
    Halts (fun n => runLoop (headerRound rbuf rbufsize) n ⟨off, t⟩)
      (.ok ⟨off + (linesText ls).length, ls.foldl (fun t l => addText t l.text) t⟩) := by
  rw [List.append_assoc] at hbuf
  obtain ⟨hsteps, hdrop⟩ := headerLoop_steps ls off t (CRLF ++ m) hbuf hsize
  refine halts_of_steps hsteps (halts_inl ?_)
  have hstr : strstr CRLF (rbuf.drop (off + (linesText ls).length)) = some 0 := by
    rw [hdrop]
    exact strstr_line [] m (by simp) (by simp)
  simp only [headerRound, hstr]

/-- What the first read stores in front of whatever the buffer held. -/
theorem store_zero (m bs : Bytes) : store m 0 bs = bs ++ m.drop bs.length := by
  simp [store, fetch]

/-- Behind a head that was read into the start of the buffer stands the body. -/
theorem store_body (mem head body : Bytes) :
    (store mem 0 (head ++ CRLF ++ body)).drop (head.length + CRLF.length) =
      body ++ mem.drop (head ++ CRLF ++ body).length := by
  rw [store_zero, ← List.length_append]
  conv_lhs => rw [List.append_assoc]
  rw [List.drop_left]

/-- **The header loop over a first read** that holds the whole block. -/
theorem headerLoop_first (mem : Bytes) {ls : List Line} {first body : Bytes}
    (hfirst : first = linesText ls ++ CRLF ++ body) :
    Halts (fun n => runLoop (headerRound (store mem 0 first) first.length) n ⟨0, []⟩)
      (.ok ⟨(linesText ls).length, linesTable ls⟩) := by
  have hbuf : (store mem 0 first).drop 0 = linesText ls ++ CRLF ++ (body ++ mem.drop first.length) := by
    rw [List.drop_zero, store_zero]
    conv_lhs => rw [hfirst]
    simp only [List.append_assoc, hfirst]
  have hloop := headerLoop_lines ls 0 [] _ hbuf
    (show 0 + (linesText ls).length < first.length by rw [hfirst]; simp [CRLF])
  rwa [Nat.zero_add] at hloop

/-- **`keepalive_recv_resp` up to the end of the headers**: when the first read holds the whole
block, what is left to do is what follows the header loop. -/
theorem keepaliveRecvResp_headers {σ : Type} {read : σ → ℕ → ReadResult × σ} {k : KeepaliveSocket}
    {mem b : Bytes} {c c' : σ} {ls : List Line} {first body : Bytes}
    (hfirst : first = linesText ls ++ CRLF ++ body)
    (hread : read c (MAX_DOC_LENGTH - 1) = (⟨.success, first.length, first⟩, c'))
    {r : Except Abort (Status × Option Response × σ)}
    (h : Halts (receiveMessage read k (store mem 0 first) first.length
      ⟨(linesText ls).length, linesTable ls⟩ .success b c') r) :
    Halts (keepaliveRecvResp read k mem b c) r := by
  show Halts (fun n => keepaliveRecvResp read k mem b c n) r
  simp only [keepaliveRecvResp, hread, ne_eq, not_true_eq_false, false_and, if_false]
  exact (headerLoop_first mem hfirst).bind h

end Flood.HeaderBlock
