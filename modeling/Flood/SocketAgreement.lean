import Flood.LoadedResponses
import Flood.Postprocess
import Flood.ReceiveBuffers

/-!
# What the two sockets keep of a response

A response that is kept whole can come from either socket.  `generic_recv_resp` reads it up to the end of
the connection, and grows its buffer as it goes; `keepalive_recv_resp` looks at the headers, and stops
where these say that the response ends.  The later handlers do not know which of the two they work for.

* `Appends.stream` — a loop that appends what it reads keeps the whole stream up to the end of the
  connection.
* `boundedLoad_stream` — the loop of `keepalive_load_resp` with a bound keeps as much of it as was
  announced, or all of it when the server closes the connection early.
* `sockets_agree` — both sockets return the same text, on which `round_robin_postprocess` does the same,
  exactly when the server sends no more than it announced or the first read holds all that it announced.
-/

namespace Flood.SocketAgreement

open Flood.CString Flood.Loop Flood.Net Flood.SocketGeneric Flood.SocketKeepalive Flood.HeaderBlock
open Flood.ContentLength Flood.LoadedResponses Flood.ReceiveBuffers Flood.RoundRobin Flood.Postprocess
open Flood.Template (Draws)

/-! ### Streams that end with their connection -/

/-- The server has closed the connection. -/
def ending : NetEvent := ⟨.success, .eof, []⟩

/-- These pieces are on their way, and the end of the connection behind them. -/
def closing (segs : List Bytes) (log : List Read) : Conn := ⟨segs.map arrival ++ [ending], log⟩

theorem readSocket_ending (log : List Read) (n : ℕ) :
    readSocket (closing [] log) n = (⟨.eof, 0, []⟩, ⟨[], log ++ [⟨n, []⟩]⟩) := by
  simp [closing, ending, readSocket, aprSocketRecv]

/-- **A read from a stream that is not at its end** takes between one byte and the number asked for. -/
theorem readSocket_closing {segs : List Bytes} (hsegs : ∀ s ∈ segs, s ≠ []) (hne : segs ≠ [])
    (log : List Read) {n : ℕ} (hn : 0 < n) :
    ∃ (got : Bytes) (segs' : List Bytes), readSocket (closing segs log) n =
        (⟨.success, got.length, got⟩, closing segs' (log ++ [⟨n, got⟩])) ∧
      got ≠ [] ∧ got.length ≤ n ∧ segs.flatten = got ++ segs'.flatten ∧ ∀ s ∈ segs', s ≠ [] := by
  obtain ⟨seg, segs, rfl⟩ := List.exists_cons_of_ne_nil hne
  rw [List.forall_mem_cons] at hsegs
  obtain ⟨hseg, hrest⟩ := hsegs
  by_cases hfit : seg.length ≤ n
  · exact ⟨seg, segs, readSocket_arrival hfit _ log, hseg, hfit, rfl, hrest⟩
  · rw [Nat.not_le] at hfit
    have hlen : (seg.take n).length = n := by rw [List.length_take]; omega
    refine ⟨seg.take n, seg.drop n :: segs, ?_, ?_, hlen.le, ?_, ?_⟩
    · rw [hlen]
      exact readSocket_arrival_split hfit _ log
    · exact List.length_pos_iff.mp (by omega)
    · rw [List.flatten_cons, List.flatten_cons, ← List.append_assoc, List.take_append_drop]
    · rw [List.forall_mem_cons]
      exact ⟨List.length_pos_iff.mp (by rw [List.length_drop]; omega), hrest⟩

/-- **A loop that appends what it reads** keeps the whole of a stream, from any segmentation. -/
theorem Appends.stream {τ ρ : Type} {goesOn : Status → Bool} {body : τ → (Except Abort ρ) ⊕ τ}
    {out : Status → τ → ρ} {conn : τ → Conn} {f : ℕ} {Inv : τ → Bytes → Prop}
    (h : Appends readSocket goesOn body out conn f Inv) (hgo : goesOn .success = true)
    (hstop : goesOn .eof = false) (segs : List Bytes) (hsegs : ∀ s ∈ segs, s ≠ []) (s : τ)
    (kept : Bytes) (hs : Inv s kept) (log : List Read) (hconn : conn s = closing segs log)
    (htotal : kept.length + segs.flatten.length < f + 2 ^ 30) :
    ∃ s', Halts (fun n => runLoop body n s) (.ok (out .eof s')) ∧ Inv s' (kept ++ segs.flatten) := by
  induction hlen : segs.flatten.length using Nat.strong_induction_on generalizing segs s kept log with
  | _ left ih =>
    subst hlen
    by_cases hnil : segs = []
    · subst hnil
      obtain ⟨s', hs', -, hround⟩ := h s kept _ _ hs (hconn ▸ readSocket_ending log _) rfl
        (Nat.zero_le _) htotal
      rw [hstop, if_neg Bool.false_ne_true] at hround
      exact ⟨s', halts_inl hround, hs'⟩
    · obtain ⟨got, segs', hread, hgot, hle, hflat, hsegs'⟩ :=
        readSocket_closing hsegs hnil log (show 0 < MAX_DOC_LENGTH - 1 by decide)
      have hpos := List.length_pos_iff.mpr hgot
      rw [hflat, List.length_append] at htotal ih
      obtain ⟨s', hs', hc, hround⟩ := h s kept _ _ hs (hconn ▸ hread) rfl hle
        (show kept.length + got.length < f + 2 ^ 30 by omega)
      rw [hgo, if_pos rfl] at hround
      have hkept : Inv s' (kept ++ got) := hs'
      obtain ⟨s'', hhalts, hall⟩ := ih _ (by omega) segs' hsegs' s' _ hkept _ hc
        (by rw [List.length_append]; omega) rfl
      refine ⟨s'', halts_inr hround hhalts, ?_⟩
      rwa [hflat, ← List.append_assoc]

/-! ### The loop with a bound -/

/-- One round, when the allocation has the size of what was read and what is to come. -/
theorem loadRound_bounded {rbuf got b : Bytes} {left : ℕ}
    (hfit : rbuf.length + left < 2 ^ 31) {c c' : Conn} {status : Status}
    (hread : readSocket c (min left (MAX_DOC_LENGTH - 1)) = (⟨status, got.length, got⟩, c'))
    (hgot : got.length ≤ left) :
    loadRound readSocket true ⟨rbuf, (rbuf.length + left : ℕ), left, b, c⟩ =
      if stops status = false ∧ got.length < left then
        .inr ⟨rbuf ++ got, ((rbuf ++ got).length + (left - got.length) : ℕ), left - got.length,
          store b 0 got, c'⟩
      else
        .inl (.ok (status, ⟨rbuf ++ got, ((rbuf ++ got).length + (left - got.length) : ℕ),
          left - got.length, store b 0 got, c'⟩)) := by
  have hrequest : (if true = false ∨ left > MAX_DOC_LENGTH - 1 then MAX_DOC_LENGTH - 1 else left) =
      min left (MAX_DOC_LENGTH - 1) := by
    by_cases hbig : left > MAX_DOC_LENGTH - 1
    · rw [if_pos (.inr hbig), min_eq_right hbig.le]
    · have hnot : ¬ (true = false ∨ left > MAX_DOC_LENGTH - 1) := by
        rintro (h | h)
        · cases h
        · exact hbig h
      rw [if_neg hnot, min_eq_left (not_lt.mp hbig)]
  have halloc : wrapNat 64 ((rbuf.length + left : ℕ) : ℤ) = rbuf.length + left :=
    wrapNat_of_lt (by omega)
  have hleft : wrapNat 64 ((left : ℤ) - (got.length : ℕ)) = left - got.length := by
    rw [show (left : ℤ) - (got.length : ℕ) = (left - got.length : ℕ) by omega]
    exact wrapNat_of_lt (by omega)
  have hloaded : loaded ⟨rbuf, (rbuf.length + left : ℕ), left, b, c⟩ ⟨status, got.length, got⟩ c' =
      ⟨rbuf ++ got, ((rbuf ++ got).length + (left - got.length) : ℕ), left - got.length,
        store b 0 got, c'⟩ := by
    unfold loaded
    dsimp only
    rw [halloc, if_neg (by omega), hleft, fetch_store, List.length_append,
      show rbuf.length + got.length + (left - got.length) = rbuf.length + left by omega]
  unfold loadRound
  dsimp only
  rw [hrequest, hread]
  dsimp only
  rw [hloaded]
  dsimp only
  rw [if_neg (by rw [List.length_append]; omega)]
  by_cases hgo : stops status = false ∧ got.length < left
  · rw [if_pos hgo, if_pos]
    rw [hgo.1]
    exact ⟨Bool.false_ne_true, .inr (by omega)⟩
  · rw [if_neg hgo, if_neg]
    rintro ⟨hstop, hmore⟩
    refine hgo ⟨Bool.not_eq_true _ ▸ hstop, ?_⟩
    rcases hmore with hfalse | hmore
    · cases hfalse
    · omega

/-- **The loop with a bound** keeps as much of a stream as is announced, or all of it. -/
theorem boundedLoad_stream (segs : List Bytes) (hsegs : ∀ s ∈ segs, s ≠ []) (rbuf b : Bytes) {left : ℕ}
    (hpos : 0 < left) (hfit : rbuf.length + left < 2 ^ 31) (log : List Read) :
    ∃ status s, Halts (fun n => runLoop (loadRound readSocket true) n
        ⟨rbuf, (rbuf.length + left : ℕ), left, b, closing segs log⟩) (.ok (status, s)) ∧
      s.rbuf = rbuf ++ segs.flatten.take left := by
  induction hlen : segs.flatten.length using Nat.strong_induction_on
    generalizing segs rbuf b left log with
  | _ len ih =>
    subst hlen
    have hask : 0 < min left (MAX_DOC_LENGTH - 1) := lt_min hpos (by decide)
    by_cases hnil : segs = []
    · subst hnil
      have hread : readSocket (closing [] log) (min left (MAX_DOC_LENGTH - 1)) =
          (⟨.eof, ([] : Bytes).length, []⟩, _) := readSocket_ending log _
      have hround := loadRound_bounded (b := b) hfit hread (Nat.zero_le left)
      rw [if_neg fun h => absurd h.1 (by decide)] at hround
      exact ⟨.eof, _, halts_inl hround, by rw [List.flatten_nil, List.take_nil]⟩
    · obtain ⟨got, segs', hread, hgot, hle, hflat, hsegs'⟩ := readSocket_closing hsegs hnil log hask
      have hgotpos := List.length_pos_iff.mpr hgot
      have hgotle : got.length ≤ left := le_trans hle (min_le_left _ _)
      have hround := loadRound_bounded (b := b) hfit hread hgotle
      by_cases hdone : got.length < left
      · rw [if_pos ⟨by decide, hdone⟩] at hround
        have hfit' : (rbuf ++ got).length + (left - got.length) < 2 ^ 31 := by
          rw [List.length_append]
          omega
        obtain ⟨status, s, hhalts, hkept⟩ := ih segs'.flatten.length
          (by rw [hflat, List.length_append]; omega) segs' hsegs' (rbuf ++ got) (store b 0 got)
          (Nat.sub_pos_of_lt hdone) hfit' _ rfl
        refine ⟨status, s, halts_inr hround hhalts, ?_⟩
        rw [hkept, hflat, List.take_append, List.take_of_length_le hgotle, List.append_assoc]
      · have hall : got.length = left := by omega
        rw [if_neg fun h => hdone h.2] at hround
        refine ⟨.success, _, halts_inl hround, ?_⟩
        show rbuf ++ got = rbuf ++ segs.flatten.take left
        rw [hflat, ← hall, List.take_left]

/-- What a load takes of a stream; with nothing announced it takes all. -/
def taken (left : ℕ) (stream : Bytes) : Bytes := if left = 0 then stream else stream.take left

/-- **`keepalive_load_resp` on a stream that ends with its connection.** -/
theorem loadResp_closing (resp : Response) (hsize : resp.rbufsize ≤ MAX_DOC_LENGTH - 1) {left : ℕ}
    (hfit : resp.rbufsize + left < 2 ^ 31) {segs : List Bytes} (hsegs : ∀ s ∈ segs, s ≠ [])
    (htotal : segs.flatten.length < 2 ^ 30) {kept : Bytes}
    (hkept : kept = fetch resp.rbuf resp.rbufsize ++ taken left segs.flatten) (b : Bytes)
    (log : List Read) :
    ∃ status c, Halts (keepaliveLoadResp readSocket resp left b (closing segs log))
      (.ok (status, { resp with rbuf := kept, rbufsize := kept.length }, c)) := by
  have hfetch : (fetch resp.rbuf resp.rbufsize).length = resp.rbufsize := fetch_length _ _
  by_cases hpos : 0 < left
  · have halloc : wrapInt 32 (((if left > 0 then left else MAX_DOC_LENGTH : ℕ) : ℤ) + resp.rbufsize) =
        (resp.rbufsize + left : ℕ) := by
      rw [if_pos hpos, show (left : ℤ) + resp.rbufsize = (resp.rbufsize + left : ℕ) by omega]
      exact keeps_int _ hfit
    obtain ⟨status, s, ⟨n, hn⟩, hs⟩ := boundedLoad_stream segs hsegs
      (fetch resp.rbuf resp.rbufsize) b hpos (by rw [hfetch]; exact hfit) log
    refine ⟨status, s.conn, n, fun m hm => ?_⟩
    have hloop := hn m hm
    dsimp only at hloop
    rw [hfetch] at hloop
    unfold keepaliveLoadResp
    dsimp only
    rw [halloc, if_neg (by omega), decide_eq_true hpos, hloop]
    rw [taken, if_neg (by omega), ← hs] at hkept
    rw [hkept]
    rfl
  · obtain rfl : left = 0 := by omega
    have halloc : wrapInt 32 (((if 0 > 0 then 0 else MAX_DOC_LENGTH : ℕ) : ℤ) + resp.rbufsize) =
        (MAX_DOC_LENGTH + resp.rbufsize : ℕ) := loadAlloc_eq hsize
    obtain ⟨s, ⟨n, hn⟩, hs, -⟩ := Appends.stream (loadRound_appends readSocket hsize) (by decide)
      (by decide) segs hsegs
      ⟨fetch resp.rbuf resp.rbufsize, (MAX_DOC_LENGTH + resp.rbufsize : ℕ), 0, b, closing segs log⟩
      (fetch resp.rbuf resp.rbufsize)
      ⟨rfl, _, rfl, doubled_first resp.rbufsize, by rw [hfetch]; exact Nat.le_add_left _ _⟩ log rfl
      (by rw [hfetch]; omega)
    refine ⟨.eof, s.conn, n, fun m hm => ?_⟩
    have hloop := hn m hm
    dsimp only at hloop
    unfold keepaliveLoadResp
    dsimp only
    rw [halloc, if_neg (by omega), decide_eq_false hpos, hloop]
    rw [taken, if_pos rfl, ← hs] at hkept
    rw [hkept]
    rfl

/-! ### A response from either socket -/

/-- A response that is not chunked and is followed by the end of its connection: its header block, the
part of the body that the first read brings with it, and the pieces behind. -/
structure ClosedReply where
  headers : Headers
  notChunked : ∀ v, headers.value (bytes "Transfer-Encoding") = some v →
    eqIgnoreCase v (bytes "Chunked") = false
  got : Bytes
  fits : (linesText headers.lines ++ CRLF ++ got).length ≤ MAX_DOC_LENGTH - 1
  later : List Bytes
  laterOk : ∀ s ∈ later, s ≠ []
  small : later.flatten.length < 2 ^ 29

/-- What the first read brings. -/
def ClosedReply.first (r : ClosedReply) : Bytes := linesText r.headers.lines ++ CRLF ++ r.got

/-- All that arrives. -/
def ClosedReply.text (r : ClosedReply) : Bytes := r.first ++ r.later.flatten

def ClosedReply.conn (r : ClosedReply) : Conn := closing (r.first :: r.later) []

/-- So many bytes are missing behind the first read, by what the headers say; none are where the end of
the response is that of the connection. -/
inductive Announces (r : ClosedReply) : ℕ → Prop
  | counted (m : LengthResponse) (hheaders : m.headers = r.headers) (hshort : m.Short)
    (hgot : r.got.length ≤ m.length) (hfit : r.first.length + m.length < 2 ^ 31) :
    Announces r (m.length - r.got.length)
  | unbounded (hends : (∃ v, r.headers.value (bytes "Connection") = some v ∧
      eqIgnoreCase v (bytes "Close") = true) ∨ r.headers.value (bytes "Content-Length") = none) :
    Announces r 0

theorem ClosedReply.first_ne (r : ClosedReply) : r.first ≠ [] := by
  intro hnil
  have hlen := congrArg List.length hnil
  have hcrlf : CRLF.length = 2 := rfl
  simp only [ClosedReply.first, List.length_append, hcrlf, List.length_nil] at hlen
  omega

/-- **The generic socket** keeps all that arrives. -/
theorem ClosedReply.generic_keeps (r : ClosedReply) (b mem : Bytes) :
    ∃ resp c, Halts (genericRecvResp readSocket true b mem r.conn) (.ok (.success, some resp, c)) ∧
      resp.rbuf = r.text ∧ resp.rbufsize = resp.rbuf.length := by
  have hfits : r.first.length ≤ MAX_DOC_LENGTH - 1 := r.fits
  have hsmall := r.small
  obtain ⟨s, ⟨n, hn⟩, hs, -⟩ := Appends.stream (fullRound_appends readSocket) (by decide) (by decide)
    (r.first :: r.later) (List.forall_mem_cons.mpr ⟨r.first_ne, r.laterOk⟩)
    ⟨[], MAX_DOC_LENGTH, b, r.conn⟩ [] ⟨rfl, Nat.zero_le _, le_rfl⟩ [] rfl (by
      simp only [MAX_DOC_LENGTH] at hfits
      rw [List.flatten_cons, List.length_append, List.length_nil]
      omega)
  refine ⟨⟨false, false, none, s.rbuf, s.rbuf.length, []⟩, s.conn, ⟨n, fun m hm => ?_⟩, hs, rfl⟩
  simp only [genericRecvResp, if_true, hn m hm, Option.bind_some]

/-- A header block that leaves the end of the response to the connection. -/
theorem identityBody_closes {h : Headers} (hends : (∃ v, h.value (bytes "Connection") = some v ∧
      eqIgnoreCase v (bytes "Close") = true) ∨ h.value (bytes "Content-Length") = none)
    (rbufsize currentLine : ℕ) :
    (identityBody (linesTable h.lines)
      (!headerIs (linesTable h.lines) (bytes "Connection") (bytes "Close")) rbufsize currentLine).1 =
      false := by
  unfold identityBody
  rw [tableGet_lines]
  rcases hends with ⟨v, hv, hclose⟩ | hnone
  · have hclosed : headerIs (linesTable h.lines) (bytes "Connection") (bytes "Close") = true := by
      rw [headerIs_eq, hv]
      exact hclose
    rw [hclosed]
    cases h.value (bytes "Content-Length") with
    | none => rfl
    | some v => rfl
  · rw [hnone]
    rfl

/-- Behind the headers of such a response there is a load. -/
theorem ClosedReply.keepalive_load (r : ClosedReply) {k : KeepaliveSocket} (mem b : Bytes) {left : ℕ}
    (hfit : r.first.length + left < 2 ^ 31) (kept : Bool) (contentLength : ℤ)
    (hmessage : ∀ c fuel, receiveMessage readSocket k (store mem 0 r.first) r.first.length
      ⟨(linesText r.headers.lines).length, linesTable r.headers.lines⟩ .success b c fuel =
        receiveBody readSocket true ⟨kept, false, none, store mem 0 r.first, r.first.length,
          linesTable r.headers.lines⟩ contentLength 0 .success b c fuel)
    (hleft : (if kept then wrapNat 64 contentLength else 0) = left) :
    ∃ resp c, Halts (keepaliveRecvResp readSocket k mem b r.conn) (.ok (.success, some resp, c)) ∧
      resp.rbuf = r.first ++ taken left r.later.flatten ∧ resp.rbufsize = resp.rbuf.length := by
  have hsmall := r.small
  let resp : Response :=
    ⟨kept, false, none, store mem 0 r.first, r.first.length, linesTable r.headers.lines⟩
  let text := r.first ++ taken left r.later.flatten
  obtain ⟨status, c, hload⟩ := loadResp_closing resp
    (show r.first.length ≤ MAX_DOC_LENGTH - 1 from r.fits) hfit r.laterOk (by omega)
    (show text = fetch (store mem 0 r.first) r.first.length ++ taken left r.later.flatten by
      rw [fetch_store]) b [⟨MAX_DOC_LENGTH - 1, r.first⟩]
  refine ⟨{ resp with rbuf := text, rbufsize := text.length }, c, keepaliveRecvResp_headers
    (show r.first = linesText r.headers.lines ++ CRLF ++ r.got from rfl)
    (readSocket_arrival r.fits (r.later.map arrival ++ [ending]) []) (Halts.congr (hmessage _) ?_), rfl, rfl⟩
  obtain ⟨n, hn⟩ := hload
  refine ⟨n, fun m hm => ?_⟩
  rw [receiveBody_want, hleft]
  exact congrArg (Option.map _) (hn m hm)

/-- **The keep-alive socket** keeps what the headers announce. -/
theorem ClosedReply.keepalive_keeps (r : ClosedReply) {left : ℕ} (hleft : Announces r left)
    {k : KeepaliveSocket} (hwant : k.wantresponse = true) (hmethod : k.method ≠ some .HEAD)
    (mem b : Bytes) :
    ∃ resp c, Halts (keepaliveRecvResp readSocket k mem b r.conn) (.ok (.success, some resp, c)) ∧
      resp.rbuf = r.first ++ taken left r.later.flatten ∧ resp.rbufsize = resp.rbuf.length := by
  cases hleft with
  | counted m hheaders hshort hgot hfit =>
    refine r.keepalive_load mem b (by omega) true (m.length - r.got.length : ℕ) (fun c fuel => ?_)
      (wrapNat_of_lt (by omega))
    have hmessage : receiveMessage readSocket k (store mem 0 r.first) _ _ _ b c fuel = _ :=
      receiveMessage_short hshort hmethod hgot b c fuel
    rw [hwant, LengthResponse.block, hheaders] at hmessage
    exact hmessage
  | unbounded hends =>
    have hchunked : headerIs (linesTable r.headers.lines) (bytes "Transfer-Encoding")
        (bytes "Chunked") = false := by
      rw [headerIs_eq]
      cases h : r.headers.value (bytes "Transfer-Encoding") with
      | none => rfl
      | some v => exact r.notChunked v h
    obtain ⟨contentLength, hbody⟩ : ∃ contentLength, identityBody (linesTable r.headers.lines)
        (!headerIs (linesTable r.headers.lines) (bytes "Connection") (bytes "Close")) r.first.length
        (linesText r.headers.lines).length = (false, contentLength) :=
      ⟨_, Prod.ext (identityBody_closes hends _ _) rfl⟩
    have hfits : r.first.length ≤ MAX_DOC_LENGTH - 1 := r.fits
    refine r.keepalive_load mem b (lt_of_le_of_lt hfits (by decide)) false contentLength
      (fun c fuel => ?_) rfl
    simp only [receiveMessage, hchunked, if_neg hmethod, hbody, hwant, Bool.false_eq_true, if_false]

/-! ### What the later handlers see -/

/-- `round_robin_postprocess` looks only at the text of a response. -/
theorem postprocess_sameText (out : Outside) (rp : RoundRobinProfile) {resp resp' : Response}
    (hbuf : resp.rbuf = resp'.rbuf) (hsize : resp.rbufsize = resp'.rbufsize) (draws : Draws) :
    roundRobinPostprocess out rp resp draws = roundRobinPostprocess out rp resp' draws := by
  simp only [roundRobinPostprocess, cookieStep, matchResponse, hbuf, hsize]

theorem taken_eq_iff (left : ℕ) (stream : Bytes) :
    taken left stream = stream ↔ left = 0 ∨ stream.length ≤ left := by
  unfold taken
  split
  · next h0 => exact ⟨fun _ => .inl h0, fun _ => rfl⟩
  · next hne => rw [List.take_eq_self_iff, or_iff_right hne]

/-- **The two sockets return the same text** of a response that is followed by the end of its connection,
cut in any pieces, exactly when the server sends no more than it announced, or the first read holds all
that it announced; a response that is cut off is returned by both as far as it came.  Otherwise the
keep-alive socket returns it as far as announced. -/
theorem sockets_agree (r : ClosedReply) {left : ℕ} (hleft : Announces r left) {k : KeepaliveSocket}
    (hwant : k.wantresponse = true) (hmethod : k.method ≠ some .HEAD) (mem b mem' b' : Bytes) :
    ∃ plain kept c c',
      Halts (genericRecvResp readSocket true b mem r.conn) (.ok (.success, some plain, c)) ∧
      Halts (keepaliveRecvResp readSocket k mem' b' r.conn) (.ok (.success, some kept, c')) ∧
      plain.rbuf = r.text ∧ kept.rbuf <+: plain.rbuf ∧
      (kept.rbuf = plain.rbuf ↔ left = 0 ∨ r.later.flatten.length ≤ left) ∧
      (kept.rbuf = plain.rbuf → ∀ out rp draws,
        roundRobinPostprocess out rp kept draws = roundRobinPostprocess out rp plain draws) := by
  obtain ⟨plain, c, hplain, htext, hsize⟩ := r.generic_keeps b mem
  obtain ⟨kept, c', hkept, htext', hsize'⟩ := r.keepalive_keeps hleft hwant hmethod mem' b'
  refine ⟨plain, kept, c, c', hplain, hkept, htext, ?_, ?_, fun heq out rp draws => ?_⟩
  · rw [htext, htext', ClosedReply.text, List.prefix_append_right_inj]
    unfold taken
    split
    · exact List.prefix_refl _
    · exact List.take_prefix _ _
  · rw [htext, htext', ClosedReply.text, List.append_cancel_left_eq, taken_eq_iff]
  · exact postprocess_sameText out rp heq (by rw [hsize, hsize', heq]) draws

/-- The body `ABC`, cut behind each byte. -/
def threeBytesReply : ClosedReply where
  headers := threeBytes.headers
  notChunked := threeBytes.notChunked
  got := [65]
  fits := by decide
  later := [[66], [67]]
  laterOk := by decide
  small := by decide

theorem sockets_agree_threeBytes : ∃ plain kept c c',
    Halts (genericRecvResp readSocket true [] [] threeBytesReply.conn)
      (.ok (.success, some plain, c)) ∧
    Halts (keepaliveRecvResp readSocket ⟨some 0, false, true, false, some .GET⟩ [] []
      threeBytesReply.conn) (.ok (.success, some kept, c')) ∧
    plain.rbuf = threeBytes.block ++ bytes "ABC" ∧ kept.rbuf = plain.rbuf := by
  have hleft : Announces threeBytesReply 2 :=
    .counted threeBytes rfl (by decide) (by decide) (by decide)
  obtain ⟨plain, kept, c, c', hplain, hkept, htext, -, hiff, -⟩ :=
    sockets_agree threeBytesReply hleft
      (show (⟨some 0, false, true, false, some .GET⟩ : KeepaliveSocket).wantresponse = true from rfl)
      (by decide) [] [] [] []
  exact ⟨plain, kept, c, c', hplain, hkept, by rw [htext]; decide, hiff.mpr (.inr (by decide))⟩

end Flood.SocketAgreement
