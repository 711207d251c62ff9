import YellowZone.Machine.ByteStream
import YellowZone.Machine.SharedMemory

/-!
# A connection of the server: reading requests

`Connection` of the server in `ipc/server`: the reader that an input event runs, and the few
operations by which a request leaves the connection and its answer goes out. A request is its
length, four bytes in network order, followed by so many bytes.

`HandleRead` is a loop over calls of `read`, and what it does between two calls depends on the
connection alone. So it is written as `handleRead`, from program points of the loop to what
happens there, which is at most one call of `read`; where the bytes come from is left to whoever
runs it. `runRead` runs it against a `Socket` of which nobody else takes or adds anything.

## When an input event is over

The loop goes round whenever `HandleReadLen` succeeds, and it succeeds also when there was
nothing to read. A client that has sent less than four bytes of a length therefore keeps the loop,
and with it the only thread of the event loop, going round until it sends the rest.

## Main results

* `handleRead_returns_iff` — the event is over by itself exactly if no length is left unfinished
* `handleRead_spins` — one byte of a length is enough
-/

namespace YellowZone.OvsServer

open Machine

/-- `Connection::State`. -/
inductive State where
  | readLen
  | readBody
  | ready
  | processing
  | writeResp
  | closed
  deriving DecidableEq, Repr

/-- `Connection`, without its descriptor and the identity of the peer. -/
structure Connection where
  state : State := .readLen
  expectLen : ℕ := 0
  readBuf : List UInt8 := []
  writeBuf : List UInt8 := []
  lenRead : ℕ := 0
  deriving DecidableEq, Repr

/-- `kLenSize`, the size of a length. -/
def lenSize : ℕ := 4

/-- `MAX_BODY_BUFFER_SIZE`. -/
def maxBodyBufferSize : ℕ := 4096

namespace Connection

/-! ## Reading -/

/-- The beginning of `HandleReadLen`: room for a length. -/
def makeRoom (c : Connection) : Connection :=
  if c.readBuf = [] then { c with readBuf := List.replicate lenSize 0, lenRead := 0 } else c

/-- `HandleReadLen` from the return of `read` on: whether the connection goes on, and how. -/
def handleReadLen (c : Connection) : ReadResult → Bool × Connection
  | .data bytes =>
    let readBuf := c.readBuf.take c.lenRead ++ bytes ++ c.readBuf.drop (c.lenRead + bytes.length)
    let lenRead := c.lenRead + bytes.length
    if lenRead < lenSize then (true, { c with readBuf, lenRead })
    else
      (true,
        { c with
          expectLen := readBE (readBuf.take lenSize)
          readBuf := []
          lenRead
          state := .readBody })
  | .closed => (false, c)
  | .wouldBlock => (true, c)
  | .failed => (false, c)

/-- `HandleReadBody` from the return of `read` on: whether the connection goes on, whether the
call found nothing, and the connection. -/
def handleReadBody (c : Connection) : ReadResult → Bool × Bool × Connection
  | .data bytes =>
    let readBuf := c.readBuf ++ bytes
    (true, false,
      { c with readBuf, state := if c.expectLen ≤ readBuf.length then .ready else c.state })
  | .closed => (false, false, c)
  | .wouldBlock => (true, true, c)
  | .failed => (false, false, c)

end Connection

/-- Where `HandleRead` is: at the beginning of its loop, or between the two branches of the
body, with the value of `progressed`. -/
inductive ReadPc where
  | head
  | branch (progressed : Bool)
  deriving DecidableEq, Repr

/-- What happens at a program point: a call of `read` for some bytes, whose result decides how to
go on, or no call. -/
inductive ReadOp where
  | read (count : ℕ) (next : ReadResult → Connection × Ctl ReadPc Bool)
  | skip (next : Connection × Ctl ReadPc Bool)

/-- The end of the loop's body: the loop is left when a request is complete. -/
def Connection.loopEnd (c : Connection) : Ctl ReadPc Bool :=
  if c.state = .ready then .ret true else .goto .head

theorem Connection.loopEnd_eq_ret {c : Connection} {ok : Bool} (h : c.loopEnd = .ret ok) :
    c.state = .ready ∧ ok = true := by
  rw [loopEnd] at h
  split at h
  next hc => exact ⟨hc, by cases h; rfl⟩
  next => cases h

theorem Connection.loopEnd_eq_goto {c : Connection} {pc : ReadPc} (h : c.loopEnd = .goto pc) :
    pc = .head := by
  rw [loopEnd] at h
  split at h
  · cases h
  · cases h
    rfl

/-- `Connection::HandleRead`. -/
def handleRead (c : Connection) : ReadPc → ReadOp
  | .head =>
    if c.state = .readLen then
      .read (lenSize - c.makeRoom.lenRead) fun r =>
        match c.makeRoom.handleReadLen r with
        | (false, c) => (c, .ret false)
        | (true, c) => (c, .goto (.branch true))
    else .skip (c, .goto (.branch false))
  | .branch progressed =>
    if c.state = .readBody then
      .read maxBodyBufferSize fun r =>
        match c.handleReadBody r with
        | (false, _, c) => (c, .ret false)
        | (true, true, c) => (c, .ret true)
        | (true, false, c) => (c, c.loopEnd)
    else .skip (c, if progressed then c.loopEnd else .ret true)

/-- One step of `HandleRead` on a socket. -/
def readStep (s : Socket) (c : Connection) (pc : ReadPc) :
    Socket × Connection × Ctl ReadPc Bool :=
  match handleRead c pc with
  | .read count next => ((s.read count).2, next (s.read count).1)
  | .skip next => (s, next)

/-- `HandleRead` on a socket, for so many steps: the answer, the connection and the socket if it
has returned by then. -/
def runRead : ℕ → Socket → Connection → ReadPc → Option (Bool × Connection × Socket)
  | 0, _, _, _ => none
  | n + 1, s, c, pc =>
    match readStep s c pc with
    | (s, c, .goto pc) => runRead n s c pc
    | (s, c, .ret ok) => some (ok, c, s)

namespace Connection

/-! ## Handing out requests and sending answers -/

/-- `HasRequest`. -/
def hasRequest (c : Connection) : Bool := c.state = .ready

/-- `TakeRequest`: the request is moved out of the buffer. -/
def takeRequest (c : Connection) : List UInt8 × Connection :=
  (c.readBuf, { c with state := .processing, readBuf := [] })

/-- `SetResponse`, up to the change of the event mask. -/
def setResponse (c : Connection) (resp : List UInt8) : Connection :=
  { c with writeBuf := beBytes 4 (resp.length % 2 ^ 32) ++ resp, state := .writeResp }

/-- `NeedWrite`. -/
def needWrite (c : Connection) : Bool := c.writeBuf ≠ []

/-- `HandleWrite` with `n` bytes accepted by `write`. -/
def handleWrite (c : Connection) (n : ℕ) : Connection :=
  if c.writeBuf = [] then c
  else
    { c with
      writeBuf := c.writeBuf.drop n
      state := if c.writeBuf.drop n = [] then .readLen else c.state }

/-- How much of a length the connection has. -/
def lenGot (c : Connection) : ℕ := if c.readBuf = [] then 0 else c.lenRead

@[simp] theorem makeRoom_lenRead (c : Connection) : c.makeRoom.lenRead = c.lenGot := by
  rw [makeRoom, lenGot]
  split <;> rfl

theorem lenGot_of_ne_nil {c : Connection} (h : c.readBuf ≠ []) : c.lenGot = c.lenRead := if_neg h

@[simp] theorem makeRoom_lenGot (c : Connection) : c.makeRoom.lenGot = c.lenGot := by
  by_cases h : c.readBuf = []
  · simp [makeRoom, lenGot, h, lenSize]
  · simp [makeRoom, lenGot, h]

@[simp] theorem makeRoom_state (c : Connection) : c.makeRoom.state = c.state := by
  rw [makeRoom]
  split <;> rfl

@[simp] theorem makeRoom_expectLen (c : Connection) : c.makeRoom.expectLen = c.expectLen := by
  rw [makeRoom]
  split <;> rfl

@[simp] theorem makeRoom_writeBuf (c : Connection) : c.makeRoom.writeBuf = c.writeBuf := by
  rw [makeRoom]
  split <;> rfl

/-- The buffer for the length with some more bytes in it. -/
def lenBuf (c : Connection) (d : List UInt8) : List UInt8 :=
  c.makeRoom.readBuf.take c.lenGot ++ d ++ c.makeRoom.readBuf.drop (c.lenGot + d.length)

end Connection

/-! ## Steps of the loop -/

section Steps

variable {n : ℕ} {s s' : Socket} {c c' : Connection} {pc pc' : ReadPc} {p ok : Bool}

theorem runRead_goto (h : readStep s c pc = (s', c', .goto pc')) :
    runRead (n + 1) s c pc = runRead n s' c' pc' := by
  rw [runRead, h]

theorem runRead_ret (h : readStep s c pc = (s', c', .ret ok)) :
    runRead (n + 1) s c pc = some (ok, c', s') := by
  rw [runRead, h]

/-- Outside `READ_LEN` the first branch is passed by. -/
theorem readStep_head (h : c.state ≠ .readLen) :
    readStep s c .head = (s, c, .goto (.branch false)) := by
  simp [readStep, handleRead, h]

/-- Outside `READ_BODY` the second branch is passed by. -/
theorem readStep_branch (h : c.state ≠ .readBody) :
    readStep s c (.branch p) = (s, c, if p then c.loopEnd else .ret true) := by
  simp [readStep, handleRead, h]

/-- A call for the length that returns bytes, but not all that are missing. -/
theorem readStep_readLen_short {d : List UInt8} (h : c.state = .readLen)
    (hr : s.read (lenSize - c.lenGot) = (.data d, s')) (hd : c.lenGot + d.length < lenSize) :
    readStep s c .head =
      (s', { c with readBuf := c.lenBuf d, lenRead := c.lenGot + d.length },
        .goto (.branch true)) := by
  simp only [readStep, handleRead, h, if_true, Connection.makeRoom_lenRead, hr,
    Connection.handleReadLen, hd]
  simp [Connection.lenBuf, h]

/-- A call for the length that returns the last bytes of it. -/
theorem readStep_readLen_done {d : List UInt8} (h : c.state = .readLen)
    (hr : s.read (lenSize - c.lenGot) = (.data d, s')) (hd : ¬c.lenGot + d.length < lenSize) :
    readStep s c .head =
      (s',
        { c with
          expectLen := readBE ((c.lenBuf d).take lenSize)
          readBuf := []
          lenRead := c.lenGot + d.length
          state := .readBody },
        .goto (.branch true)) := by
  simp only [readStep, handleRead, h, if_true, Connection.makeRoom_lenRead, hr,
    Connection.handleReadLen, hd, if_false]
  simp [Connection.lenBuf]

/-- A call for the length that finds nothing counts as progress. -/
theorem readStep_readLen_wouldBlock (h : c.state = .readLen)
    (hr : s.read (lenSize - c.lenGot) = (.wouldBlock, s')) :
    readStep s c .head = (s', c.makeRoom, .goto (.branch true)) := by
  simp [readStep, handleRead, h, hr, Connection.handleReadLen]

/-- A call for the length that fails. -/
theorem readStep_readLen_stop {r : ReadResult} (h : c.state = .readLen)
    (hr : s.read (lenSize - c.lenGot) = (r, s')) (hstop : r = .closed ∨ r = .failed) :
    readStep s c .head = (s', c.makeRoom, .ret false) := by
  rcases hstop with rfl | rfl <;> simp [readStep, handleRead, h, hr, Connection.handleReadLen]

/-- A call for the body that returns bytes. -/
theorem readStep_readBody {d : List UInt8} (h : c.state = .readBody)
    (hr : s.read maxBodyBufferSize = (.data d, s')) :
    readStep s c (.branch p) =
      if c.expectLen ≤ (c.readBuf ++ d).length then
        (s', { c with readBuf := c.readBuf ++ d, state := .ready }, .ret true)
      else (s', { c with readBuf := c.readBuf ++ d }, .goto .head) := by
  simp only [readStep, handleRead, h, if_true, hr, Connection.handleReadBody, Connection.loopEnd]
  split <;> rfl

/-- A call for the body that returns no bytes ends the loop. -/
theorem readStep_readBody_stop {r : ReadResult} (h : c.state = .readBody)
    (hr : s.read maxBodyBufferSize = (r, s')) (hno : ∀ d, r ≠ .data d) :
    readStep s c (.branch p) = (s', c, .ret (decide (r = .wouldBlock))) := by
  cases r with
  | data d => exact absurd rfl (hno d)
  | wouldBlock | closed | failed =>
    simp [readStep, handleRead, h, hr, Connection.handleReadBody]

end Steps

/-- `HandleRead` returns, from a program point of it, with what is on the socket. -/
def ReadEnds (s : Socket) (c : Connection) (pc : ReadPc) : Prop :=
  ∃ n, (runRead n s c pc).isSome

section Ends

variable {s s' : Socket} {c c' : Connection} {pc pc' : ReadPc}

theorem ReadEnds.goto (h : ReadEnds s' c' pc') (hstep : readStep s c pc = (s', c', .goto pc')) :
    ReadEnds s c pc := by
  obtain ⟨n, hn⟩ := h
  exact ⟨n + 1, by rwa [runRead_goto hstep]⟩

theorem ReadEnds.ret {ok : Bool} (hstep : readStep s c pc = (s', c', .ret ok)) :
    ReadEnds s c pc := ⟨1, by rw [runRead_ret hstep]; rfl⟩

/-- Reading a body ends: every call takes something from the socket or leaves the loop. -/
theorem readEnds_of_readBody (s : Socket) (c : Connection) (p : Bool) (hc : c.state = .readBody) :
    ReadEnds s c (.branch p) := by
  induction hw : s.weight using Nat.strong_induction_on generalizing s c p with
  | _ w ih =>
    subst hw
    rcases hr : s.read maxBodyBufferSize with ⟨r, s'⟩
    by_cases hdata : ∃ d, r = .data d
    · obtain ⟨d, rfl⟩ := hdata
      have hstep := readStep_readBody (p := p) hc hr
      split at hstep
      · exact .ret hstep
      · refine .goto (.goto ?_ (readStep_head ?_)) hstep
        · exact ih _ (Socket.read_data hr).2.2.2 s' _ false hc rfl
        · exact fun h => State.noConfusion (hc.symm.trans h)
    · exact .ret (readStep_readBody_stop hc hr fun d hd => hdata ⟨d, hd⟩)

/-- Outside `READ_LEN`, an input event ends. -/
theorem readEnds_of_ne_readLen (s : Socket) (hc : c.state ≠ .readLen) : ReadEnds s c .head := by
  refine .goto ?_ (readStep_head hc)
  by_cases hbody : c.state = .readBody
  · exact readEnds_of_readBody s c false hbody
  · exact .ret (readStep_branch hbody)

/-- Between the two branches with a length unfinished, the loop goes round. -/
theorem readStep_branch_readLen (hc : c.state = .readLen) :
    readStep s c (.branch true) = (s, c, .goto .head) := by
  rw [readStep_branch (by simp [hc])]
  simp [Connection.loopEnd, hc]

/-- With enough bytes for the length, an input event ends. -/
theorem readEnds_of_readLen (s : Socket) (c : Connection) (hc : c.state = .readLen)
    (hlen : lenSize ≤ c.lenGot + s.bytes.length) : ReadEnds s c .head := by
  induction hw : s.weight using Nat.strong_induction_on generalizing s c with
  | _ w ih =>
    subst hw
    rcases hr : s.read (lenSize - c.lenGot) with ⟨r, s'⟩
    cases r with
    | data d =>
      obtain ⟨hbytes, hd, -, hlt⟩ := Socket.read_data hr
      by_cases hshort : c.lenGot + d.length < lenSize
      · refine .goto (.goto ?_ (readStep_branch_readLen ?_)) (readStep_readLen_short hc hr hshort)
        on_goal 2 => exact hc
        refine ih _ hlt s' _ hc ?_ rfl
        rw [← hbytes, List.length_append] at hlen
        rw [Connection.lenGot_of_ne_nil (by simp [Connection.lenBuf, hd])]
        dsimp only
        omega
      · exact .goto (readEnds_of_readBody _ _ _ rfl) (readStep_readLen_done hc hr hshort)
    | wouldBlock =>
      obtain ⟨hbytes, ⟨rfl, -⟩ | hlt⟩ := Socket.read_wouldBlock hr
      · -- nothing to read is left, so the length was complete and no byte was asked for
        have hzero : lenSize - c.lenGot = 0 := Nat.sub_eq_zero_of_le (by simpa using hlen)
        rw [hzero, Socket.read_zero] at hr
        cases hr
      · have hc' : c.makeRoom.state = .readLen := by rwa [Connection.makeRoom_state]
        refine .goto (.goto ?_ (readStep_branch_readLen hc')) (readStep_readLen_wouldBlock hc hr)
        refine ih _ hlt s' _ hc' ?_ rfl
        rwa [Connection.makeRoom_lenGot, hbytes]
    | closed => exact .ret (readStep_readLen_stop hc hr (.inl rfl))
    | failed => exact .ret (readStep_readLen_stop hc hr (.inr rfl))

/-- With less, it never does: the loop goes round with nothing to read. -/
theorem runRead_eq_none (n : ℕ) (s : Socket) (c : Connection) (hc : c.state = .readLen)
    (hs : s.Lasting) (hlen : c.lenGot + s.bytes.length < lenSize) :
    runRead n s c .head = none ∧ runRead n s c (.branch true) = none := by
  induction n generalizing s c with
  | zero => exact ⟨rfl, rfl⟩
  | succ n ih =>
    refine ⟨?_, by rw [runRead_goto (readStep_branch_readLen hc)]; exact (ih s c hc hs hlen).1⟩
    have hcount : lenSize - c.lenGot ≠ 0 := by omega
    obtain ⟨hs', hres⟩ := hs.read hcount
    rcases hr : s.read (lenSize - c.lenGot) with ⟨r, s'⟩
    rw [hr] at hs' hres
    rcases hres with rfl | ⟨d, rfl⟩
    · obtain ⟨hbytes, -⟩ := Socket.read_wouldBlock hr
      rw [runRead_goto (readStep_readLen_wouldBlock hc hr)]
      refine (ih s' _ (by rwa [Connection.makeRoom_state]) hs' ?_).2
      rwa [Connection.makeRoom_lenGot, hbytes]
    · obtain ⟨hbytes, hd, -, -⟩ := Socket.read_data hr
      rw [← hbytes, List.length_append] at hlen
      rw [runRead_goto (readStep_readLen_short hc hr (by omega))]
      refine (ih s' _ (by exact hc) hs' ?_).2
      rw [Connection.lenGot_of_ne_nil (by simp [Connection.lenBuf, hd])]
      dsimp only
      omega

end Ends

/-- **When an input event is over.** With some bytes readable, however they are cut, and nothing
after them, `HandleRead` returns exactly if it is not left with part of a length. -/
theorem handleRead_returns_iff (c : Connection) (cuts : List (UInt8 × List UInt8)) :
    ReadEnds (Socket.available cuts) c .head ↔
      (c.state = .readLen → lenSize ≤ c.lenGot + (Socket.available cuts).bytes.length) := by
  constructor
  · rintro ⟨n, hn⟩ hc
    by_contra hlen
    rw [(runRead_eq_none n _ c hc (Socket.lasting_available cuts) (by omega)).1] at hn
    cases hn
  · intro h
    by_cases hc : c.state = .readLen
    · exact readEnds_of_readLen _ c hc (h hc)
    · exact readEnds_of_ne_readLen _ hc

/-- A new connection and one byte of a length: the event loop is busy with it from now on. -/
theorem handleRead_spins : ¬ReadEnds (Socket.available [(0, [])]) ({} : Connection) .head := by
  rintro ⟨n, hn⟩
  rw [(runRead_eq_none n _ _ rfl (Socket.lasting_available _) (by decide)).1] at hn
  cases hn

end YellowZone.OvsServer
