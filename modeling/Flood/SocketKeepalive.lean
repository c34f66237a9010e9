import Flood.Loop
import Flood.Net

/-!
# The keep-alive socket

The handlers of `flood_socket_keepalive.c`.  A connection is kept open from one request to the next
unless the response or the liveness check says otherwise; in exchange the response has to be read up
to its own end, which the `Content-Length` or the chunk sizes announce.

The functions that read take the reader as a parameter, `read_socket` or its SSL counterpart.  The
memory behind the bytes a read delivered is whatever the buffer held before, and the `str` functions
run into it, so every buffer is passed on with all its known content.
-/

namespace Flood.SocketKeepalive

open Flood.CString Flood.Loop Flood.Net

/-- `keepalive_socket_t`; `s` is an index into the connections opened so far. -/
structure KeepaliveSocket where
  s : Option ℕ
  reopenSocket : Bool
  wantresponse : Bool
  ssl : Bool
  method : Option Method
  deriving DecidableEq

/-- A connection as the program uses it: the request it was opened for, whether
`ssl_open_socket` opened it, how often it was closed, and, for the record, how many bytes of the
responses read from it so far were left unread. -/
structure Connection where
  openedFor : Request
  ssl : Bool
  closed : ℕ
  owed : ℕ
  deriving DecidableEq

/-- How an attempt to open a connection ends: `open_socket` reports its failures, while a failing
`SSL_connect` returns NULL without a status, and `rv` holds what it happened to hold before. -/
inductive Opening where
  | opened
  | failed (rv : Status) (hrv : rv ≠ .success)
  | sslFailed (rv : Status)
  deriving DecidableEq

/-- `keepalive_socket_init`. -/
def keepaliveSocketInit : KeepaliveSocket := ⟨none, true, true, false, none⟩

/-! ### Opening and closing -/

/-- The part of `keepalive_begin_conn` that opens a connection.  `hasOpenssl` is the build flag.  Where
`SSL_connect` fails, the connection it was to run on stays open. -/
def openConn (hasOpenssl : Bool) (k : KeepaliveSocket) (conns : List Connection) (req : Request)
    (opening : Opening) : Except Abort (Status × KeepaliveSocket × List Connection × Request) :=
  match req.parsedUri.scheme with
  | none => .error .fault
  | some scheme =>
    let https := eqIgnoreCase scheme (bytes "https")
    if https ∧ ¬ hasOpenssl then .ok (.enotimpl, k, conns, req)
    else
      match opening, https with
      | .failed rv _, _ => .ok (rv, { k with ssl := https, s := none }, conns, req)
      | .sslFailed rv, true =>
        .ok (rv, { k with ssl := true, s := none }, conns ++ [⟨req, true, 0, 0⟩], req)
      | _, _ =>
        .ok (.success, { k with ssl := https, s := some conns.length, reopenSocket := false },
          conns ++ [⟨req, https, 0, 0⟩], { req with keepalive := true })

/-- `keepalive_begin_conn`; `check` is the outcome of the liveness check, if it is made. -/
def keepaliveBeginConn (hasOpenssl : Bool) (k : KeepaliveSocket) (conns : List Connection)
    (req : Request) (check : Status) (opening : Opening) :
    Except Abort (Status × KeepaliveSocket × List Connection × Request) :=
  let k :=
    if k.reopenSocket = false ∧ k.s ≠ none ∧ check ≠ .success then { k with reopenSocket := true }
    else k
  if k.reopenSocket = true ∨ k.s = none then openConn hasOpenssl k conns req opening
  else .ok (.success, k, conns, { req with keepalive := true })

/-- `keepalive_send_req`; `written` is what the write returns. -/
def keepaliveSendReq (k : KeepaliveSocket) (req : Request) (written : Status) :
    Except Abort (Status × KeepaliveSocket) :=
  if k.s = none then .error .fault
  else .ok (written, { k with wantresponse := req.wantresponse, method := some req.method })

/-- `close_socket` or `ssl_close_socket`. -/
def closeSocket (conns : List Connection) (i : ℕ) : List Connection :=
  conns.modify i fun c => { c with closed := c.closed + 1 }

/-- `keepalive_end_conn`. -/
def keepaliveEndConn (k : KeepaliveSocket) (conns : List Connection) (respKeepalive : Bool) :
    Except Abort (Status × KeepaliveSocket × List Connection) :=
  if respKeepalive then .ok (.success, k, conns)
  else
    match k.s with
    | none => .error .fault
    | some i => .ok (.success, { k with reopenSocket := true }, closeSocket conns i)

/-- The socket keeps the connection it has: it is not marked for reopening and passes the liveness
check. -/
def KeepaliveSocket.Keeps (k : KeepaliveSocket) (check : Status) : Prop :=
  k.reopenSocket = false ∧ k.s ≠ none ∧ check = .success

/-- A connection that is to be opened for this request is opened, be it that the SSL handshake fails
on it. -/
def Opens (hasOpenssl : Bool) (req : Request) (opening : Opening) : Prop :=
  (∃ scheme, req.parsedUri.scheme = some scheme ∧
    (eqIgnoreCase scheme (bytes "https") = true → hasOpenssl = true)) ∧
  ∀ rv hrv, opening ≠ .failed rv hrv

theorem keepaliveBeginConn_keeps {k : KeepaliveSocket} {check : Status} (h : k.Keeps check)
    (hasOpenssl : Bool) (conns : List Connection) (req : Request) (opening : Opening) :
    keepaliveBeginConn hasOpenssl k conns req check opening =
      .ok (.success, k, conns, { req with keepalive := true }) := by
  obtain ⟨hopen, hsome, hcheck⟩ := h
  simp [keepaliveBeginConn, hopen, hsome, hcheck]

/-- A connection that is not kept is replaced; the mark that the check may have set does not matter
for that. -/
theorem keepaliveBeginConn_opens {k : KeepaliveSocket} {check : Status} (h : ¬ k.Keeps check)
    (hasOpenssl : Bool) (conns : List Connection) (req : Request) (opening : Opening) :
    ∃ reopen, keepaliveBeginConn hasOpenssl k conns req check opening =
      openConn hasOpenssl { k with reopenSocket := reopen } conns req opening := by
  unfold keepaliveBeginConn
  dsimp only
  split
  · exact ⟨true, if_pos (.inl rfl)⟩
  · next hcheck =>
    refine ⟨k.reopenSocket, if_pos ?_⟩
    by_contra hkeep
    rw [not_or, Bool.not_eq_true] at hkeep
    exact h ⟨hkeep.1, hkeep.2, by_contra fun hne => hcheck ⟨hkeep.1, hkeep.2, hne⟩⟩

/-- **What `keepalive_begin_conn` can do.** -/
inductive Begins (hasOpenssl : Bool) (k : KeepaliveSocket) (conns : List Connection) (req : Request)
    (check : Status) (opening : Opening) :
    Status → KeepaliveSocket → List Connection → Request → Prop
  /-- It kept the connection it had. -/
  | kept (hkeep : k.Keeps check) :
    Begins hasOpenssl k conns req check opening .success k conns { req with keepalive := true }
  /-- It opened a connection for this request. -/
  | opened (https : Bool) (hkeep : ¬ k.Keeps check) (hopens : Opens hasOpenssl req opening) :
    Begins hasOpenssl k conns req check opening .success
      { k with ssl := https, s := some conns.length, reopenSocket := false }
      (conns ++ [⟨req, https, 0, 0⟩]) { req with keepalive := true }
  /-- It opened a connection on which the SSL handshake failed. -/
  | handshake (stat : Status) (k' : KeepaliveSocket) (hkeep : ¬ k.Keeps check)
    (hopens : Opens hasOpenssl req opening) (hopening : opening = .sslFailed stat)
    (hscheme : ∃ scheme, req.parsedUri.scheme = some scheme ∧
      eqIgnoreCase scheme (bytes "https") = true)
    (hnone : k'.s = none) :
    Begins hasOpenssl k conns req check opening stat k' (conns ++ [⟨req, true, 0, 0⟩]) req
  /-- It opened no connection, and said so. -/
  | refused (stat : Status) (k' : KeepaliveSocket) (hstat : stat ≠ .success) :
    Begins hasOpenssl k conns req check opening stat k' conns req

theorem keepaliveBeginConn_begins {hasOpenssl : Bool} {k k' : KeepaliveSocket}
    {conns conns' : List Connection} {req req' : Request} {check stat : Status} {opening : Opening}
    (h : keepaliveBeginConn hasOpenssl k conns req check opening =
      .ok (stat, k', conns', req')) :
    Begins hasOpenssl k conns req check opening stat k' conns' req' := by
  by_cases hkeep : k.Keeps check
  · rw [keepaliveBeginConn_keeps hkeep] at h
    cases h
    exact .kept hkeep
  · obtain ⟨reopen, ho⟩ := keepaliveBeginConn_opens hkeep hasOpenssl conns req opening
    rw [ho] at h
    unfold openConn at h
    split at h
    · cases h
    · next scheme hscheme =>
      dsimp only at h
      split at h
      · cases h
        exact .refused _ _ (by decide)
      · next hssl =>
        have huri : ∃ scheme, req.parsedUri.scheme = some scheme ∧
            (eqIgnoreCase scheme (bytes "https") = true → hasOpenssl = true) :=
          ⟨scheme, hscheme, fun hs => by_contra fun hno => hssl ⟨hs, hno⟩⟩
        split at h
        · next rv hrv =>
          cases h
          exact .refused _ _ hrv
        · next https =>
          cases h
          exact .handshake _ _ hkeep ⟨huri, by simp⟩ rfl ⟨scheme, hscheme, https⟩ rfl
        · next hnot _ =>
          cases h
          exact .opened _ hkeep ⟨huri, fun rv hrv heq => hnot rv hrv heq⟩

/-! ### The header block -/

/-- The locals of the header loop. -/
structure HeaderState where
  currentLine : ℕ
  headers : Table
  deriving DecidableEq

/-- One header line: `line` is the memory from its start on.  The value starts two bytes behind the
key; where the line ends before that, the length passed to the copy is negative. -/
def addHeader (line : Bytes) (lineLength : ℕ) (headers : Table) : Except Abort Table :=
  match memchr 58 lineLength line with
  | none => .ok headers
  | some keyLength =>
    if lineLength < keyLength + 2 then .error .fault
    else .ok (tableSet headers (cstr (fetch line keyLength))
      (cstr (fetch (line.drop (keyLength + 2)) (lineLength - keyLength - 2))))

/-- One round of the header loop. -/
def headerRound (rbuf : Bytes) (rbufsize : ℕ) (s : HeaderState) :
    (Except Abort HeaderState) ⊕ HeaderState :=
  let line := rbuf.drop s.currentLine
  match strstr CRLF line with
  | none => .inl (.ok s)
  | some 0 => .inl (.ok s)
  | some (n + 1) =>
    match addHeader line (n + 1) s.headers with
    | .error a => .inl (.error a)
    | .ok headers =>
      let s : HeaderState := ⟨s.currentLine + (n + 1) + CRLF.length, headers⟩
      if s.currentLine < rbufsize then .inr s else .inl (.ok s)

/-- The header is present with this value, up to case. -/
def headerIs (headers : Table) (key val : Bytes) : Bool :=
  (tableGet headers key).any fun v => eqIgnoreCase v val

/-! ### Chunks -/

/-- `keepalive_read_chunk_size`. -/
def keepaliveReadChunkSize (beginChunk : Bytes) : ℤ :=
  match strstr CRLF beginChunk with
  | none => 0
  | some n =>
    if n < 16 then
      let (chunkLength, endChunk) := strtol 16 (beginChunk.take n)
      if endChunk = [] then chunkLength else 0
    else 0

/-- The locals of the walk over the chunks of the first read. -/
structure Walk where
  chunk : Option ℕ
  chunkLength : ℤ
  remaining : ℤ
  deriving DecidableEq

/-- `do { body } while (remaining > chunk_length)`. -/
def Walk.again (w : Walk) : (Except Abort Walk) ⊕ Walk :=
  if w.remaining > w.chunkLength then .inr w else .inl (.ok w)

/-- The second half of the walk's body, with `new_resp->chunk` at the offset `chunk`.  The offset
is compared as an unsigned number, so that one before the buffer is not inside it. -/
def walkChunk (rbuf : Bytes) (rbufsize : ℕ) (chunk : ℤ) (w : Walk) : (Except Abort Walk) ⊕ Walk :=
  if 0 ≤ chunk ∧ chunk < rbufsize ∧ byteAt rbuf chunk.toNat ≠ 0 then
    let line := rbuf.drop chunk.toNat
    match strstr CRLF line with
    | none => .inl (.error .assertion)
    | some n =>
      let chunk := chunk.toNat + n + 2
      Walk.again ⟨some chunk, keepaliveReadChunkSize line, wrapInt 32 (rbufsize - wrapInt 32 chunk)⟩
  else Walk.again ⟨none, w.chunkLength, 0⟩

/-- The body of the walk; `cl` is where the chunks start. -/
def walkRound (rbuf : Bytes) (rbufsize cl : ℕ) (w : Walk) : (Except Abort Walk) ⊕ Walk :=
  match w.chunk with
  | none => walkChunk rbuf rbufsize cl w
  | some chunk =>
    if w.chunkLength + 2 ≤ w.remaining then
      walkChunk rbuf rbufsize (chunk + (w.chunkLength + 2)) w
    else .inl (.ok ⟨w.chunk, -(w.remaining - w.chunkLength), 0⟩)

/-- The walk over the chunks of the first read: `new_resp->chunk` and `chunk_length`. -/
def firstChunks (rbuf : Bytes) (rbufsize cl fuel : ℕ) : Option (Except Abort (Option ℕ × ℤ)) :=
  if byteAt rbuf cl ≠ 0 ∧ cl < rbufsize then
    (runLoop (walkRound rbuf rbufsize cl) fuel ⟨none, 0, 0⟩).map fun
      | .error a => .error a
      | .ok w => .ok (w.chunk, wrapInt 64 (w.chunkLength - w.remaining))
  else some (.ok (none, 0))

/-- **The length of a read** into the buffer: all that is missing, or as much as there is room for. -/
theorem readLength_eq {missing : ℤ} (h0 : 0 ≤ missing) (hlong : missing < 2 ^ 63) :
    ((if missing > (MAX_DOC_LENGTH - 1 : ℕ) then MAX_DOC_LENGTH - 1
      else wrapNat 64 missing : ℕ) : ℤ) = min missing (MAX_DOC_LENGTH - 1 : ℕ) := by
  obtain ⟨n, rfl⟩ := Int.eq_ofNat_of_zero_le h0
  split
  · next hcap => exact (min_eq_right hcap.le).symm
  · next hcap => rw [wrapNat_of_lt (by omega), min_eq_left (by omega)]

section Receive

variable {σ : Type} (read : σ → ℕ → ReadResult × σ)

/-- A read into a buffer of `MAX_DOC_LENGTH` bytes, `off` bytes behind its start. -/
def readInto (buf : Bytes) (off : ℕ) (c : σ) (len : ℕ) : Except Abort (ReadResult × Bytes × σ) :=
  let (r, c) := read c len
  if off + r.data.length > MAX_DOC_LENGTH then .error .fault else .ok (r, store buf off r.data, c)

/-- Where `keepalive_read_chunk` stands in its loops. -/
inductive ChunkPoint where
  /-- in `while (!blen)`, about to read into the start of the buffer -/
  | line (oldLength : ℤ)
  /-- at `start_chunk = b`, with `blen` bytes behind it -/
  | scan (b blen : ℕ) (oldLength : ℤ)
  /-- behind `while (!chunk_length)`, about to read data to `b` -/
  | data (chunkLength : ℤ) (b : ℕ) (oldLength : ℤ)
  /-- at the last chunk, about to read the rest of the trailer -/
  | trailer
  deriving DecidableEq

structure ChunkState (σ : Type) where
  point : ChunkPoint
  buf : Bytes
  conn : σ

/-- The head of `while (!chunk_length)`: step over a CRLF; a CR with nothing behind it is
remembered as one byte too many. -/
def stepOverCrlf (buf : Bytes) (b blen : ℕ) (oldLength : ℤ) : ChunkPoint :=
  let (b, blen, oldLength) :=
    if 1 ≤ blen ∧ byteAt buf b = CR then
      if 2 ≤ blen ∧ byteAt buf (b + 1) = LF then (b + 2, blen - 2, oldLength)
      else (b + 1, blen - 1, -1)
    else (b, blen, oldLength)
  if blen = 0 then .line oldLength else .scan b blen oldLength

/-- The bytes of a read in `while (!blen)`: those of the last read that were missing are skipped,
and a CRLF after them. -/
def afterRead (buf : Bytes) (buflen : ℕ) (oldLength : ℤ) : ChunkPoint :=
  let (b, blen) :=
    if oldLength < 0 then ((-oldLength).toNat, wrapNat 64 (buflen + oldLength)) else (0, buflen)
  let (b, blen) :=
    if 2 ≤ blen ∧ byteAt buf b = CR ∧ byteAt buf (b + 1) = LF then (b + 2, blen - 2) else (b, blen)
  if blen = 0 then .line (max oldLength 0) else .scan b blen (max oldLength 0)

/-- From `start_chunk = b` to the end of the body of `while (!chunk_length)`: where it goes on, or
`none` at a last chunk whose trailer is complete.  `chunk_length` is an `int` that is compared with
the `apr_size_t` of the bytes left. -/
def scanChunk (buf : Bytes) (b blen : ℕ) (oldLength : ℤ) : Except Abort (Option ChunkPoint) :=
  let line := buf.drop b
  let chunkLength := wrapInt 32 (keepaliveReadChunkSize line)
  if chunkLength = 0 then
    match strstr (CRLF ++ CRLF) line with
    | none => .ok (some .trailer)
    | some _ => .ok none
  else
    match strstr CRLF line with
    | none => .error .fault
    | some n =>
      let blen := wrapNat 64 (blen - (n + 2))
      if wrapNat 64 chunkLength ≤ blen then
        let next : ℤ := b + chunkLength + (n + 2)
        let blen := blen - wrapNat 64 chunkLength
        if next < 0 ∧ blen ≠ 0 then .error .fault
        else .ok (some (stepOverCrlf buf next.toNat blen oldLength))
      else
        let chunkLength := wrapInt 32 (chunkLength - blen)
        if chunkLength = 0 then .ok (some (stepOverCrlf buf b blen oldLength))
        else .ok (some (.data chunkLength b oldLength))

/-- From one point of `keepalive_read_chunk` to the next. -/
def chunkRound (bplen : ℕ) (s : ChunkState σ) : (Except Abort (Status × σ)) ⊕ ChunkState σ :=
  match s.point with
  | .line oldLength =>
    match readInto read s.buf 0 s.conn bplen with
    | .error a => .inl (.error a)
    | .ok (r, buf, c) =>
      if r.status ≠ .success then .inl (.ok (r.status, c))
      else .inr ⟨afterRead buf r.buflen oldLength, buf, c⟩
  | .scan b blen oldLength =>
    match scanChunk s.buf b blen oldLength with
    | .error a => .inl (.error a)
    | .ok none => .inl (.ok (.success, s.conn))
    | .ok (some point) => .inr { s with point := point }
  | .data chunkLength b oldLength =>
    let len := if chunkLength > bplen then bplen else wrapNat 64 chunkLength
    match readInto read s.buf b s.conn len with
    | .error a => .inl (.error a)
    | .ok (r, buf, c) =>
      let chunkLength := wrapInt 32 (chunkLength - r.buflen)
      if r.status ≠ .success then .inl (.ok (.success, c))
      else
        .inr ⟨if chunkLength = 0 then .line oldLength else .data chunkLength 0 oldLength, buf, c⟩
  | .trailer =>
    match readInto read s.buf 0 s.conn bplen with
    | .error a => .inl (.error a)
    | .ok (r, _, c) => .inl (.ok (r.status, c))

/-- `keepalive_read_chunk`; `chunk` is `resp->chunk`, `buf` the memory at `*bp`. -/
def keepaliveReadChunk (chunk : Option ℕ) (chunkLength : ℤ) (buf : Bytes) (bplen : ℕ) (c : σ)
    (fuel : ℕ) : Option (Except Abort (Status × σ)) :=
  if chunk = none then runLoop (chunkRound read bplen) fuel ⟨.line 0, buf, c⟩
  else if chunkLength < 0 then runLoop (chunkRound read bplen) fuel ⟨.line chunkLength, buf, c⟩
  else if chunkLength = 0 then some (.ok (.success, c))
  else runLoop (chunkRound read bplen) fuel ⟨.data chunkLength 0 0, buf, c⟩

/-! ### Bodies that are not chunked -/

/-- The statuses that end the receive loops. -/
def stops (status : Status) : Bool := status = .egeneral ∨ status = .eof ∨ status = .timeup

/-- The locals of `keepalive_load_resp`; `remain` says whether `remaining` bounds the loop. -/
structure LoadState (σ : Type) where
  rbuf : Bytes
  currentalloc : ℤ
  remaining : ℕ
  b : Bytes
  conn : σ

/-- The locals after a read: an allocation that is too small is doubled, once, and the bytes are
appended. -/
def loaded (s : LoadState σ) (r : ReadResult) (c : σ) : LoadState σ where
  rbuf := s.rbuf ++ fetch (store s.b 0 r.data) r.buflen
  currentalloc :=
    if s.rbuf.length + r.buflen > wrapNat 64 s.currentalloc then wrapInt 32 (s.currentalloc * 2)
    else s.currentalloc
  remaining := wrapNat 64 (s.remaining - r.buflen)
  b := store s.b 0 r.data
  conn := c

/-- One round of the loop of `keepalive_load_resp`. -/
def loadRound (remain : Bool) (s : LoadState σ) :
    (Except Abort (Status × LoadState σ)) ⊕ LoadState σ :=
  let i := if remain = false ∨ s.remaining > MAX_DOC_LENGTH - 1 then MAX_DOC_LENGTH - 1
    else s.remaining
  let (r, c) := read s.conn i
  let s' := loaded s r c
  if (s.rbuf.length + r.buflen : ℕ) > s'.currentalloc then .inl (.error .fault)
  else if ¬ stops r.status ∧ (remain = false ∨ s'.remaining ≠ 0) then .inr s'
  else .inl (.ok (r.status, s'))

/-- `keepalive_load_resp`: the buffer allocated at first has to hold what was read already. -/
def keepaliveLoadResp (resp : Response) (remaining : ℕ) (b : Bytes) (c : σ) (fuel : ℕ) :
    Option (Except Abort (Status × Response × σ)) :=
  let currentalloc :=
    wrapInt 32 ((if remaining > 0 then remaining else MAX_DOC_LENGTH) + resp.rbufsize)
  if currentalloc < resp.rbufsize then some (.error .fault)
  else
    (runLoop (loadRound read (remaining > 0)) fuel
        ⟨fetch resp.rbuf resp.rbufsize, currentalloc, remaining, b, c⟩).map fun
      | .error a => .error a
      | .ok (status, s) =>
        .ok (status, { resp with rbuf := s.rbuf, rbufsize := s.rbuf.length }, s.conn)

/-- The locals of the loops that read a body and throw it away. -/
structure DrainState (σ : Type) where
  contentLength : ℤ
  status : Status
  b : Bytes
  conn : σ

/-- One round of the `Content-Length` loop. -/
def drainRound (s : DrainState σ) : (Except Abort (DrainState σ)) ⊕ DrainState σ :=
  if s.contentLength = 0 ∨ stops s.status then .inl (.ok s)
  else
    let i := if s.contentLength > (MAX_DOC_LENGTH - 1 : ℕ) then MAX_DOC_LENGTH - 1
      else wrapNat 64 s.contentLength
    match readInto read s.b 0 s.conn i with
    | .error a => .inl (.error a)
    | .ok (r, b, c) => .inr ⟨wrapInt 64 (s.contentLength - r.buflen), r.status, b, c⟩

/-- One round of the loop that reads up to the end of the connection. -/
def restRound (s : DrainState σ) : (Except Abort (DrainState σ)) ⊕ DrainState σ :=
  if stops s.status then .inl (.ok s)
  else
    match readInto read s.b 0 s.conn (MAX_DOC_LENGTH - 1) with
    | .error a => .inl (.error a)
    | .ok (r, b, c) => .inr ⟨s.contentLength, r.status, b, c⟩

/-! ### `keepalive_recv_resp` -/

/-- The `Content-Length` as a number, and whether the text was one.  A text of 16 characters or
more is not looked at. -/
def contentLengthValue (cl : Bytes) : ℤ × Bool :=
  if strlen cl < 16 then
    let (v, ecl) := strtol 10 cl
    (v, ecl = [])
  else (0, true)

/-- The branch for a response that is not chunked: `resp->keepalive` and the bytes of the body still
to come.  `currentLine` is where the header loop stopped. -/
def identityBody (headers : Table) (keepalive : Bool) (rbufsize currentLine : ℕ) : Bool × ℤ :=
  let (contentLength, keepalive) :=
    match tableGet headers (bytes "Content-Length") with
    | none => (0, false)
    | some header =>
      let (contentLength, number) := contentLengthValue header
      (contentLength, keepalive && number)
  if keepalive then
    (true, wrapInt 64 (contentLength - (rbufsize - (currentLine + CRLF.length : ℕ))))
  else (false, contentLength)

/-- What `keepalive_recv_resp` does behind the headers: it reads the rest of the body. -/
def receiveBody (wantresponse : Bool) (resp : Response) (contentLength chunkLength : ℤ)
    (status : Status) (b : Bytes) (c : σ) (fuel : ℕ) :
    Option (Except Abort (Status × Option Response × σ)) :=
  if wantresponse then
    (keepaliveLoadResp read resp (if resp.keepalive then wrapNat 64 contentLength else 0) b c
      fuel).map fun
      | .error a => .error a
      | .ok (_, resp, c) => .ok (.success, some resp, c)
  else if resp.chunked then
    (keepaliveReadChunk read resp.chunk (wrapInt 32 chunkLength) b (MAX_DOC_LENGTH - 1) c fuel).map
      fun
      | .error a => .error a
      | .ok (_, c) => .ok (.success, some resp, c)
  else
    (runLoop (if resp.keepalive then drainRound read else restRound read) fuel
        ⟨contentLength, status, b, c⟩).map fun
      | .error a => .error a
      | .ok s => .ok (.success, some resp, s.conn)

/-- `keepalive_recv_resp` behind the header loop, which ended in `h`. -/
def receiveMessage (k : KeepaliveSocket) (rbuf : Bytes) (rbufsize : ℕ) (h : HeaderState)
    (status : Status) (b : Bytes) (c : σ) (fuel : ℕ) :
    Option (Except Abort (Status × Option Response × σ)) :=
  let keepalive := !headerIs h.headers (bytes "Connection") (bytes "Close")
  let resp : Response := ⟨keepalive, false, none, rbuf, rbufsize, h.headers⟩
  if k.method = some .HEAD then some (.ok (.success, some resp, c))
  else if headerIs h.headers (bytes "Transfer-Encoding") (bytes "Chunked") then
    (firstChunks rbuf rbufsize (h.currentLine + CRLF.length) fuel).bind fun
      | .error a => some (.error a)
      | .ok (chunk, chunkLength) =>
        receiveBody read k.wantresponse { resp with chunked := true, chunk := chunk } 0 chunkLength
          status b c fuel
  else
    let (keepalive, contentLength) := identityBody h.headers keepalive rbufsize h.currentLine
    receiveBody read k.wantresponse { resp with keepalive := keepalive } contentLength 0 status b c
      fuel

/-- `keepalive_recv_resp`.  `mem` and `b` are what the two buffers hold before the first read. -/
def keepaliveRecvResp (k : KeepaliveSocket) (mem b : Bytes) (c : σ) (fuel : ℕ) :
    Option (Except Abort (Status × Option Response × σ)) :=
  let (r, c) := read c (MAX_DOC_LENGTH - 1)
  if r.status ≠ .success ∧ r.status ≠ .eof then some (.ok (r.status, none, c))
  else
    let rbuf := store mem 0 r.data
    (runLoop (headerRound rbuf r.buflen) fuel ⟨0, []⟩).bind fun
      | .error a => some (.error a)
      | .ok h => receiveMessage read k rbuf r.buflen h r.status b c fuel

end Receive

end Flood.SocketKeepalive
