import Flood.CString

/-!
# The network layer

The status codes, the request and response records, and `read_socket` over a scripted connection.
A connection is the list of what the network will do to the reads still to come, in order: each
`NetEvent` is one outcome of `apr_poll` and, where that succeeds, of `apr_socket_recv`.  A read
that asks for less than an event holds leaves the rest for the next read, so every way of cutting a
stream into reads is some script.  When the script is used up the server stays silent and every
poll times out.  The reads made are recorded beside the script; no function looks at the record.
-/

namespace Flood.Net

open Flood.CString

/-- `apr_status_t`; `errno` stands for the operating system's own codes. -/
inductive Status where
  | success | eof | timeup | egeneral | enotimpl
  | errno (n : ℕ)
  deriving DecidableEq, Repr

/-- The ways in which the process can end inside a call. -/
inductive Abort where
  /-- a call of `exit` -/
  | exit
  /-- a failing `assert` -/
  | assertion
  /-- an access through NULL or outside the memory it was meant for -/
  | fault
  /-- a variable is used that was never set -/
  | unset
  deriving DecidableEq, Repr

def MAX_DOC_LENGTH : ℕ := 8192
def APR_USEC_PER_SEC : ℤ := 1000000

inductive Method where
  | GET | POST | HEAD | OTHER
  deriving DecidableEq, Repr

/-- The components of `apr_uri_t` that the program reads; `none` is a NULL pointer. -/
structure Uri where
  scheme : Option Bytes
  hostname : Option Bytes
  port : ℕ
  user : Option Bytes := none
  password : Option Bytes := none
  path : Option Bytes := none
  query : Option Bytes := none
  hostinfo : Option Bytes := none
  deriving DecidableEq

/-! ### Reading from a connection -/

/-- One outcome of `apr_poll` followed, where that succeeds, by `apr_socket_recv`. -/
structure NetEvent where
  poll : Status
  recv : Status
  bytes : Bytes
  deriving DecidableEq

/-- A read as it was made: the length asked for and the bytes stored. -/
structure Read where
  requested : ℕ
  received : Bytes
  deriving DecidableEq

structure Conn where
  pending : List NetEvent
  log : List Read
  deriving DecidableEq

/-- What a reader reports: its status, the value it leaves in `*buflen`, the bytes it stored. -/
structure ReadResult where
  status : Status
  buflen : ℕ
  data : Bytes

/-- `apr_socket_recv` sets the length to the number of bytes it stored on every return. -/
def aprSocketRecv (ev : NetEvent) (rest : List NetEvent) (log : List Read) (buflen : ℕ) :
    ReadResult × Conn :=
  if ev.bytes.length ≤ buflen then
    (⟨ev.recv, ev.bytes.length, ev.bytes⟩, ⟨rest, log ++ [⟨buflen, ev.bytes⟩]⟩)
  else
    let got := ev.bytes.take buflen
    (⟨.success, got.length, got⟩,
      ⟨{ ev with bytes := ev.bytes.drop buflen } :: rest, log ++ [⟨buflen, got⟩]⟩)

/-- `read_socket`: a failing poll returns at once and leaves `*buflen` as it was passed in. -/
def readSocket (c : Conn) (buflen : ℕ) : ReadResult × Conn :=
  match c.pending with
  | [] => (⟨.timeup, buflen, []⟩, ⟨[], c.log ++ [⟨buflen, []⟩]⟩)
  | ev :: rest =>
    if ev.poll ≠ .success then (⟨ev.poll, buflen, []⟩, ⟨rest, c.log ++ [⟨buflen, []⟩]⟩)
    else aprSocketRecv ev rest c.log buflen

/-- The bytes a connection has delivered so far. -/
def Conn.received (c : Conn) : Bytes := c.log.flatMap Read.received

/-- Data that arrives without incident. -/
def arrival (bs : Bytes) : NetEvent := ⟨.success, .success, bs⟩

/-! ### Requests and responses -/

/-- `request_t`, as `get_next_url`, `begin_conn` and `create_req` fill it in. -/
structure Request where
  uri : Bytes
  method : Method
  payload : Option Bytes := none
  payloadsize : ℕ := 0
  contenttype : Option Bytes := none
  contenttypesize : ℕ := 0
  parsedUri : Uri
  parsedProxyUri : Option Uri := none
  wantresponse : Bool := false
  keepalive : Bool := false
  rbuf : Bytes := []
  rbufsize : ℕ := 0
  deriving DecidableEq

/-- `apr_table_t`: the names are compared without case. -/
abbrev Table := List (Bytes × Bytes)

def tableSet (t : Table) (key val : Bytes) : Table :=
  t.filter (fun e => !eqIgnoreCase e.1 key) ++ [(key, val)]

def tableGet (t : Table) (key : Bytes) : Option Bytes :=
  (t.find? fun e => eqIgnoreCase e.1 key).map Prod.snd

/-- `response_t`; `rbuf` is the memory from the buffer's start on, `chunk` an offset into it. -/
structure Response where
  keepalive : Bool
  chunked : Bool
  chunk : Option ℕ
  rbuf : Bytes
  rbufsize : ℕ
  headers : Table
  deriving DecidableEq

/-! ### One read at a time -/

theorem readSocket_nil (log : List Read) (n : ℕ) :
    readSocket ⟨[], log⟩ n = (⟨.timeup, n, []⟩, ⟨[], log ++ [⟨n, []⟩]⟩) := rfl

theorem readSocket_poll {ev : NetEvent} (h : ev.poll ≠ .success) (rest : List NetEvent)
    (log : List Read) (n : ℕ) :
    readSocket ⟨ev :: rest, log⟩ n = (⟨ev.poll, n, []⟩, ⟨rest, log ++ [⟨n, []⟩]⟩) := by
  simp only [readSocket, ne_eq, h, not_false_eq_true, if_true]

/-- A read that is asked for at least what has arrived takes it all. -/
theorem readSocket_arrival {bs : Bytes} {n : ℕ} (h : bs.length ≤ n) (rest : List NetEvent)
    (log : List Read) :
    readSocket ⟨arrival bs :: rest, log⟩ n =
      (⟨.success, bs.length, bs⟩, ⟨rest, log ++ [⟨n, bs⟩]⟩) := by
  simp [readSocket, aprSocketRecv, arrival, h]

/-- A read that is asked for less leaves the rest of the arrival for the next read. -/
theorem readSocket_arrival_split {bs : Bytes} {n : ℕ} (h : n < bs.length) (rest : List NetEvent)
    (log : List Read) :
    readSocket ⟨arrival bs :: rest, log⟩ n =
      (⟨.success, n, bs.take n⟩, ⟨arrival (bs.drop n) :: rest, log ++ [⟨n, bs.take n⟩]⟩) := by
  have hlen : (bs.take n).length = n := by simp; omega
  simp [readSocket, aprSocketRecv, arrival, Nat.not_le.mpr h, hlen]

/-- **A read from a stream cut into non-empty arrivals** returns between one byte and the number
asked for, from the front of the stream. -/
theorem readSocket_segments {segs : List Bytes} (hsegs : ∀ s ∈ segs, s ≠ []) (hne : segs ≠ [])
    (log : List Read) {n : ℕ} (hn : 0 < n) :
    ∃ (got : Bytes) (segs' : List Bytes), readSocket ⟨segs.map arrival, log⟩ n =
        (⟨.success, got.length, got⟩, ⟨segs'.map arrival, log ++ [⟨n, got⟩]⟩) ∧
      got ≠ [] ∧ got.length ≤ n ∧ segs.flatten = got ++ segs'.flatten ∧ ∀ s ∈ segs', s ≠ [] := by
  obtain ⟨seg, segs, rfl⟩ := List.exists_cons_of_ne_nil hne
  have hseg : seg ≠ [] := hsegs seg (by simp)
  have hrest : ∀ s ∈ segs, s ≠ [] := fun s hs => hsegs s (List.mem_cons_of_mem _ hs)
  by_cases hfit : seg.length ≤ n
  · exact ⟨seg, segs, readSocket_arrival hfit _ log, hseg, hfit, rfl, hrest⟩
  · rw [Nat.not_le] at hfit
    have hlen : (seg.take n).length = n := by simp; omega
    refine ⟨seg.take n, seg.drop n :: segs, ?_, ?_, hlen.le, ?_, ?_⟩
    · rw [hlen]
      exact readSocket_arrival_split hfit _ log
    · exact List.length_pos_iff.mp (by omega)
    · rw [List.flatten_cons, List.flatten_cons, ← List.append_assoc, List.take_append_drop]
    · intro s hs
      rcases List.mem_cons.mp hs with rfl | hs
      · exact List.length_pos_iff.mp (by simp; omega)
      · exact hrest s hs

end Flood.Net
