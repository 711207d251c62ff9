import YellowZone.Machine.Execution
import YellowZone.OvsServer.Connection

/-!
# The event loop: edge-triggered polling

`Server::Loop` fetches events and handles them one after the other. The events are edge-triggered:
the kernel raises an input event for a connection when bytes arrive, or when the event mask is set
again while bytes are there, and not otherwise. So a handler that returns with bytes unread has to
be sure that an event is still to come.

The loop is followed call by call, since bytes keep arriving while it runs: `HandleRead` makes one
call of `read` in a step, `HandleWriteEvent` one call of `write`. The workers, which set an answer
and then change the event mask, run beside it. How many bytes a call moves, whether it fails and
whether the queue of the pool is full is the choice of whoever takes the step (`Luck`).

## What goes wrong

`HandleReadEvent` counts the events of the current second and returns at once beyond
`DEFAULT_QPS_LIMIT`, as if the event had been handled. The bytes it was raised for stay where they
are until the client sends more. All other ways through the handlers are safe: a connection is left
either with an empty socket, or in a state that ends with the event mask being set for input again.

## Main results

* `Fine.step` — one step keeps every connection expected by the loop
* `nothing_unread_at_wait` — without such a drop, the loop never waits with bytes unread
* `rate_limit_strands` — a hundred events on one connection, and another one is stranded
-/

namespace YellowZone.OvsServer

open Machine

/-! ## Connections and their events -/

/-- What a connection is registered for. -/
inductive Interest where
  | input
  | output
  deriving DecidableEq, Repr

/-- Where the worker is that answers a connection's request, if there is one. -/
inductive WorkerPc where
  | idle
  | queued
  | responding
  deriving DecidableEq, Repr

/-- A connection in the server, with its socket and its events in the kernel. -/
structure Link where
  isOpen : Bool := false
  conn : Connection := {}
  unread : List UInt8 := []
  hungUp : Bool := false
  interest : Interest := .input
  raised : Bool := false
  worker : WorkerPc := .idle
  deriving DecidableEq, Repr

/-- What the world decides about a call: how many bytes it moves, or that it fails. -/
inductive Luck where
  | moves (n : ℕ)
  | fails
  deriving DecidableEq, Repr

namespace Link

/-- The connection is reading a request. -/
def IsReading (l : Link) : Prop :=
  l.isOpen = true ∧ (l.conn.state = .readLen ∨ l.conn.state = .readBody)

/-- Bytes arrive. -/
def arrive (l : Link) (bytes : List UInt8) : Link :=
  { l with unread := l.unread ++ bytes, raised := l.raised || l.interest = .input }

/-- `EPOLL_CTL_MOD` with the mask for input: the event is raised if there is something to read. -/
def awaitInput (l : Link) : Link :=
  { l with interest := .input, raised := l.unread ≠ [] || l.hungUp }

/-- `EPOLL_CTL_MOD` with the mask for output. -/
def awaitOutput (l : Link) : Link := { l with interest := .output, raised := false }

/-- A call of `read` for so many bytes. -/
def read (l : Link) (luck : Luck) (count : ℕ) : ReadResult × Link :=
  match luck with
  | .fails => (.failed, l)
  | .moves n =>
    if count = 0 then (.closed, l)
    else if l.unread = [] then (if l.hungUp then .closed else .wouldBlock, l)
    else
      (.data (l.unread.take (min (max n 1) count)),
        { l with unread := l.unread.drop (min (max n 1) count) })

/-- One step of `HandleRead`. -/
def readStep (l : Link) (luck : Luck) (pc : ReadPc) : Link × Ctl ReadPc Bool :=
  match handleRead l.conn pc with
  | .read count next =>
    let (c, ctl) := next (l.read luck count).1
    ({ (l.read luck count).2 with conn := c }, ctl)
  | .skip (c, ctl) => ({ l with conn := c }, ctl)

end Link

/-! ## The loop -/

/-- Where the loop is: in `epoll_wait`, at the head of the loop over the events, or in the handling
of an event: at the rate limiter, in `HandleRead`, after it, or in `HandleWriteEvent`. -/
inductive LoopPc where
  | wait
  | dispatch
  | limiter (fd : ℕ)
  | reading (fd : ℕ) (pc : ReadPc)
  | handed (fd : ℕ)
  | writing (fd : ℕ)
  deriving DecidableEq, Repr

/-- The server: its connections, the loop with the events that it has fetched, and the limiter. -/
structure Server where
  links : ℕ → Link := fun _ => {}
  loop : LoopPc := .wait
  batch : List (ℕ × Interest) := []
  now : ℕ := 0
  lastSecond : ℕ := 0
  reqInCurrentSecond : ℕ := 0

/-- `DEFAULT_QPS_LIMIT`. -/
def qpsLimit : ℕ := 100

/-- `MAX_EPOLL_EVENTS`. -/
def maxEpollEvents : ℕ := 64

namespace Server

/-- Change one connection. -/
def setLink (s : Server) (fd : ℕ) (l : Link) : Server :=
  { s with links := Function.update s.links fd l }

/-- `CloseConnection`, and on to the next event. -/
def closeConnection (s : Server) (fd : ℕ) : Server :=
  { s.setLink fd { s.links fd with isOpen := false } with loop := .dispatch }

/-- The count of the limiter with one more event. -/
def countRequest (s : Server) : Server :=
  if s.now = s.lastSecond then { s with reqInCurrentSecond := s.reqInCurrentSecond + 1 }
  else { s with lastSecond := s.now, reqInCurrentSecond := 1 }

/-- The limiter drops the event. -/
def overLimit (s : Server) : Bool := qpsLimit < s.countRequest.reqInCurrentSecond

/-- On from a step of `HandleRead`. -/
def afterRead (s : Server) (fd : ℕ) : Ctl ReadPc Bool → Server
  | .goto pc => { s with loop := .reading fd pc }
  | .ret true => { s with loop := .handed fd }
  | .ret false => s.closeConnection fd

/-- The loop, up to its next call. -/
def loopStep (s : Server) (luck : Luck) : Option Server :=
  match s.loop with
  | .wait => none
  | .dispatch =>
    match s.batch with
    | [] => some { s with loop := .wait }
    | (fd, kind) :: batch =>
      let s := { s with batch }
      if (s.links fd).isOpen then
        match kind with
        | .input => some { s with loop := .limiter fd }
        | .output => some { s with loop := .writing fd }
      else some s
  | .limiter fd =>
    some { s.countRequest with loop := if s.overLimit then .dispatch else .reading fd .head }
  | .reading fd pc =>
    let (l, ctl) := (s.links fd).readStep luck pc
    some ((s.setLink fd l).afterRead fd ctl)
  | .handed fd =>
    if (s.links fd).conn.hasRequest then
      let l := { s.links fd with conn := (s.links fd).conn.takeRequest.2 }
      match luck with
      | .fails => some ((s.setLink fd l).closeConnection fd)
      | .moves _ =>
        some { s.setLink fd { l with worker := .queued } with loop := .reading fd .head }
    else some { s with loop := .dispatch }
  | .writing fd =>
    if (s.links fd).conn.needWrite then
      match luck with
      | .fails => some (s.closeConnection fd)
      | .moves n => some (s.setLink fd { s.links fd with conn := (s.links fd).conn.handleWrite n })
    else some { s.setLink fd (s.links fd).awaitInput with loop := .dispatch }

end Server

/-- What happens in and around the server. -/
inductive Action where
  | arrive (fd : ℕ) (first : UInt8) (rest : List UInt8)
  | hangUp (fd : ℕ)
  | writable (fd : ℕ)
  | tick (seconds : ℕ)
  | accept (fd : ℕ) (bytes : List UInt8)
  | fetch (fds : List ℕ)
  | loop (luck : Luck)
  | answer (fd : ℕ) (resp : List UInt8)
  | rearm (fd : ℕ)
  deriving DecidableEq, Repr

/-- One step. Connections are accepted between events. `epoll_wait` fetches raised events, each
once. A worker first sets the answer (`answer`) and then the event mask (`rearm`). -/
def Server.step (s : Server) : Action → Option Server
  | .arrive fd first rest =>
    if (s.links fd).isOpen then some (s.setLink fd ((s.links fd).arrive (first :: rest))) else none
  | .hangUp fd =>
    if (s.links fd).isOpen then
      some (s.setLink fd { (s.links fd).arrive [] with hungUp := true })
    else none
  | .writable fd =>
    if (s.links fd).isOpen ∧ (s.links fd).interest = .output then
      some (s.setLink fd { s.links fd with raised := true })
    else none
  | .tick seconds => some { s with now := s.now + seconds }
  | .accept fd bytes =>
    if s.loop = .dispatch ∧ ¬(s.links fd).isOpen then
      some (s.setLink fd { isOpen := true, unread := bytes, raised := bytes ≠ [] })
    else none
  | .fetch fds =>
    if s.loop = .wait ∧ fds.Nodup ∧ fds.length ≤ maxEpollEvents ∧
        ∀ fd ∈ fds, (s.links fd).isOpen ∧ (s.links fd).raised then
      some
        { s with
          links := fun fd => if fd ∈ fds then { s.links fd with raised := false } else s.links fd
          batch := fds.map fun fd => (fd, (s.links fd).interest)
          loop := .dispatch }
    else none
  | .loop luck => s.loopStep luck
  | .answer fd resp =>
    if (s.links fd).worker = .queued then
      some (s.setLink fd
        { s.links fd with conn := (s.links fd).conn.setResponse resp, worker := .responding })
    else none
  | .rearm fd =>
    if (s.links fd).worker = .responding then
      some (s.setLink fd { (s.links fd).awaitOutput with worker := .idle })
    else none

/-- The server as a system. -/
def serving : Lts Server Action Unit where
  step := Server.step
  event _ _ _ := ()

/-! ## Who is expected -/

/-- The loop is busy with a connection, and has not found its socket empty yet. -/
def LoopPc.Attends (fd : ℕ) : LoopPc → Prop
  | .limiter fd' | .reading fd' _ | .writing fd' => fd' = fd
  | _ => False

/-- The connection that is being handled. -/
def LoopPc.handles : LoopPc → Option ℕ
  | .wait | .dispatch => none
  | .limiter fd | .reading fd _ | .handed fd | .writing fd => some fd

/-- The loop comes back to the connection: an event is raised or fetched, or it is there now. -/
def Expected (s : Server) (fd : ℕ) : Prop :=
  (s.links fd).raised = true ∧ (s.links fd).interest = .input ∨ (fd, .input) ∈ s.batch ∨
    s.loop.Attends fd

/-- **A connection that reads is expected as long as it has unread bytes.** With this go the
conditions that keep the worker and the loop from working on the same connection: a connection is
registered for output only when its worker has finished, and until the answer is written. -/
structure Fine (s : Server) (fd : ℕ) : Prop where
  expected : (s.links fd).IsReading → (s.links fd).unread ≠ [] → Expected s fd
  output : (s.links fd).isOpen = true → (s.links fd).interest = .output →
    (s.links fd).worker = .idle ∧
      ((s.links fd).conn.state = .writeResp ∨ s.loop = .writing fd)
  queued : (s.links fd).worker = .queued → (s.links fd).conn.state = .processing
  responding : (s.links fd).worker = .responding → (s.links fd).conn.state = .writeResp
  fetched : ∀ kind, (fd, kind) ∈ s.batch →
    (s.links fd).isOpen = true ∧ (kind = .output → (s.links fd).interest = .output)
  handled : s.loop.handles = some fd →
    (s.links fd).isOpen = true ∧ ∀ kind, (fd, kind) ∉ s.batch
  writing : s.loop = .writing fd → (s.links fd).interest = .output
  passed : s.loop = .reading fd (.branch false) → (s.links fd).conn.state ≠ .readLen

/-- The events that have been fetched are of different connections, and none is left when the loop
waits. -/
structure BatchOk (s : Server) : Prop where
  nodup : (s.batch.map Prod.fst).Nodup
  wait : s.loop = .wait → s.batch = []

/-! ## One step of `HandleRead` -/

/-- What a step of `HandleRead` leaves of a connection. -/
structure Link.AfterRead (l : Link) (l' : Link) (ctl : Ctl ReadPc Bool) : Prop where
  isOpen : l'.isOpen = l.isOpen
  interest : l'.interest = l.interest
  raised : l'.raised = l.raised
  worker : l'.worker = l.worker
  /-- A connection that is not reading is left alone. -/
  same : l.conn.state ≠ .readLen → l.conn.state ≠ .readBody → l' = l
  /-- Returning with success, the connection is not reading, or there is nothing to read. -/
  drained : ctl = .ret true → l'.conn.state = .readLen ∨ l'.conn.state = .readBody →
    l'.unread = []
  passed : ctl = .goto (.branch false) → l'.conn.state ≠ .readLen
  failed : ctl = .ret false → l.conn.state = .readLen ∨ l.conn.state = .readBody

/-- A call of `read` changes nothing but the bytes, and blocks only if there are none. -/
theorem Link.read_spec (l : Link) (luck : Luck) (count : ℕ) :
    (∃ u, (l.read luck count).2 = { l with unread := u }) ∧
      ((l.read luck count).1 = .wouldBlock → (l.read luck count).2.unread = []) := by
  cases luck with
  | fails => exact ⟨⟨_, rfl⟩, nofun⟩
  | moves n =>
    rw [Link.read]
    split
    · exact ⟨⟨_, rfl⟩, nofun⟩
    · split
      next h => exact ⟨⟨_, rfl⟩, fun _ => h⟩
      next => exact ⟨⟨_, rfl⟩, nofun⟩

theorem Link.readStep_spec (l : Link) (luck : Luck) (pc : ReadPc)
    (hpc : pc = .branch false → l.conn.state ≠ .readLen) :
    l.AfterRead (l.readStep luck pc).1 (l.readStep luck pc).2 := by
  cases pc with
  | head =>
    by_cases hc : l.conn.state = .readLen
    · obtain ⟨⟨u, hu⟩, -⟩ := l.read_spec luck (lenSize - l.conn.makeRoom.lenRead)
      simp only [Link.readStep, handleRead, hc, if_true, hu]
      rcases l.conn.makeRoom.handleReadLen _ with ⟨_ | _, c⟩
      · exact ⟨rfl, rfl, rfl, rfl, fun h => absurd hc h, by rintro ⟨⟩, by rintro ⟨⟩,
          fun _ => .inl hc⟩
      · exact ⟨rfl, rfl, rfl, rfl, fun h => absurd hc h, by rintro ⟨⟩, by rintro ⟨⟩, by rintro ⟨⟩⟩
    · simp only [Link.readStep, handleRead, hc, if_false]
      exact ⟨rfl, rfl, rfl, rfl, fun _ _ => rfl, by rintro ⟨⟩, fun _ => hc, by rintro ⟨⟩⟩
  | branch p =>
    by_cases hc : l.conn.state = .readBody
    · obtain ⟨⟨u, hu⟩, hblock⟩ := l.read_spec luck maxBodyBufferSize
      simp only [Link.readStep, handleRead, hc, if_true, hu]
      rw [hu] at hblock
      cases hr : (l.read luck maxBodyBufferSize).1 with
      | data d =>
        refine ⟨rfl, rfl, rfl, rfl, fun _ h => absurd hc h, fun hret hread => ?_, fun hgoto => ?_,
          fun hret => ?_⟩
        · have hready := (Connection.loopEnd_eq_ret hret).1
          rcases hread with h | h <;> exact State.noConfusion (hready.symm.trans h)
        · cases Connection.loopEnd_eq_goto hgoto
        · cases (Connection.loopEnd_eq_ret hret).2
      | wouldBlock =>
        exact ⟨rfl, rfl, rfl, rfl, fun _ h => absurd hc h, fun _ _ => hblock hr, by rintro ⟨⟩,
          by rintro ⟨⟩⟩
      | closed | failed =>
        exact ⟨rfl, rfl, rfl, rfl, fun _ h => absurd hc h, by rintro ⟨⟩, by rintro ⟨⟩,
          fun _ => .inr hc⟩
    · simp only [Link.readStep, handleRead, hc, if_false]
      cases p with
      | false =>
        exact ⟨rfl, rfl, rfl, rfl, fun _ _ => rfl,
          fun _ hread => absurd (hread.resolve_right hc) (hpc rfl), by rintro ⟨⟩, by rintro ⟨⟩⟩
      | true =>
        rw [if_pos rfl]
        refine ⟨rfl, rfl, rfl, rfl, fun _ _ => rfl, fun hret hread => ?_, fun hgoto => ?_,
          fun hret => ?_⟩
        · have hready := (Connection.loopEnd_eq_ret hret).1
          rcases hread with h | h <;> exact State.noConfusion (hready.symm.trans h)
        · cases Connection.loopEnd_eq_goto hgoto
        · cases (Connection.loopEnd_eq_ret hret).2

/-! ## Steps of the server -/

namespace Server

@[simp] theorem setLink_self (s : Server) (fd : ℕ) (l : Link) : (s.setLink fd l).links fd = l :=
  Function.update_self ..

theorem setLink_of_ne (s : Server) {fd fd' : ℕ} (l : Link) (h : fd ≠ fd') :
    (s.setLink fd' l).links fd = s.links fd := Function.update_of_ne h ..

@[simp] theorem setLink_loop (s : Server) (fd : ℕ) (l : Link) : (s.setLink fd l).loop = s.loop :=
  rfl

@[simp] theorem setLink_batch (s : Server) (fd : ℕ) (l : Link) :
    (s.setLink fd l).batch = s.batch := rfl

@[simp] theorem countRequest_links (s : Server) : s.countRequest.links = s.links := by
  rw [countRequest]
  split <;> rfl

@[simp] theorem countRequest_batch (s : Server) : s.countRequest.batch = s.batch := by
  rw [countRequest]
  split <;> rfl

end Server

section Steps

variable {s s' : Server} {fd fd' : ℕ} {l : Link} {luck : Luck} {a : Action}

theorem LoopPc.Attends.handles {pc : LoopPc} (h : pc.Attends fd) : pc.handles = some fd := by
  cases pc with
  | limiter _ | reading _ _ | writing _ => exact congrArg some h
  | wait | dispatch | handed _ => exact h.elim

/-- A connection that nothing happens to, while the loop stays where it is. -/
theorem Fine.frame (h : Fine s fd) (hl : s'.links fd = s.links fd) (hbatch : s'.batch = s.batch)
    (hloop : s'.loop = s.loop) : Fine s' fd := by
  refine ⟨?_, ?_, ?_, ?_, ?_, ?_, ?_, ?_⟩
  · rw [Expected, hl, hbatch, hloop]
    exact h.expected
  · rw [hl, hloop]
    exact h.output
  · rw [hl]
    exact h.queued
  · rw [hl]
    exact h.responding
  · rw [hl, hbatch]
    exact h.fetched
  · rw [hl, hbatch, hloop]
    exact h.handled
  · rw [hl, hloop]
    exact h.writing
  · rw [hl, hloop]
    exact h.passed

/-- A connection that nothing happens to, while the loop is busy elsewhere. -/
theorem Fine.elsewhere (h : Fine s fd) (hl : s'.links fd = s.links fd)
    (hbatch : ∀ kind, (fd, kind) ∈ s'.batch ↔ (fd, kind) ∈ s.batch)
    (hne : s.loop.handles ≠ some fd) (hne' : s'.loop.handles ≠ some fd) : Fine s' fd := by
  have hgone : ¬s.loop.Attends fd := fun hatt => hne hatt.handles
  have hwriting : s.loop ≠ .writing fd := fun hw => hne (by rw [hw]; rfl)
  refine ⟨?_, ?_, ?_, ?_, ?_, fun hh => absurd hh hne', fun hw => absurd (by rw [hw]; rfl) hne',
    fun hp => absurd (by rw [hp]; rfl) hne'⟩
  · intro hread hunread
    rw [hl] at hread hunread
    rw [Expected, hl, hbatch]
    rcases h.expected hread hunread with hr | hb | hatt
    · exact .inl hr
    · exact .inr (.inl hb)
    · exact absurd hatt hgone
  · rw [hl]
    intro ho hi
    exact ⟨(h.output ho hi).1, .inl ((h.output ho hi).2.resolve_right hwriting)⟩
  · rw [hl]
    exact h.queued
  · rw [hl]
    exact h.responding
  · intro kind
    rw [hl, hbatch]
    exact h.fetched kind

/-- The limiter drops the event of a connection that has unread bytes and no other event. -/
def Drops (s : Server) : Action → Prop
  | .loop _ => ∃ fd, s.loop = .limiter fd ∧ s.overLimit = true ∧ (s.links fd).IsReading ∧
      (s.links fd).unread ≠ [] ∧ (s.links fd).raised = false
  | _ => False

/-- A reading connection is registered for input, unless its answer has just been written. -/
theorem Fine.interest_input (h : Fine s fd) (hread : (s.links fd).IsReading)
    (hloop : s.loop ≠ .writing fd) : (s.links fd).interest = .input := by
  cases hi : (s.links fd).interest with
  | input => rfl
  | output =>
    have hstate := (h.output hread.1 hi).2.resolve_right hloop
    rcases hread.2 with h' | h' <;> exact State.noConfusion (hstate.symm.trans h')

/-- A worker has nothing to do with a connection in any other state. -/
theorem Fine.worker_idle (h : Fine s fd) (hp : (s.links fd).conn.state ≠ .processing)
    (hw : (s.links fd).conn.state ≠ .writeResp) : (s.links fd).worker = .idle := by
  cases hi : (s.links fd).worker with
  | idle => rfl
  | queued => exact absurd (h.queued hi) hp
  | responding => exact absurd (h.responding hi) hw

/-- Bytes arrive, or the peer hangs up, or the socket becomes writable: the connection is as it
was, with an event more. -/
theorem Fine.notice (h : Fine s fd) {unread : List UInt8} {hungUp raised : Bool}
    (hraised : (s.links fd).IsReading → unread ≠ [] → raised = false →
      (s.links fd).unread ≠ [] ∧ (s.links fd).raised = false ∨ s.loop = .writing fd) :
    Fine (s.setLink fd { s.links fd with unread, hungUp, raised }) fd := by
  refine ⟨?_, ?_, ?_, ?_, ?_, ?_, ?_, ?_⟩ <;>
    simp only [Server.setLink_self, Server.setLink_loop, Server.setLink_batch, Expected]
  · intro hread hunread
    by_cases hw : s.loop = .writing fd
    · rw [hw]
      exact .inr (.inr rfl)
    cases raised with
    | true => exact .inl ⟨rfl, h.interest_input hread hw⟩
    | false =>
      obtain ⟨hu, hr⟩ := (hraised hread hunread rfl).resolve_right hw
      rcases h.expected hread hu with ⟨htrue, -⟩ | hrest
      · rw [hr] at htrue
        cases htrue
      · exact .inr hrest
  · exact h.output
  · exact h.queued
  · exact h.responding
  · exact h.fetched
  · exact h.handled
  · exact h.writing
  · exact h.passed

/-- A connection is closed by the handler of its event. -/
theorem fine_closeConnection (hgone : ∀ kind, (fd, kind) ∉ s.batch)
    (hidle : (s.links fd).worker = .idle) : Fine (s.closeConnection fd) fd := by
  refine ⟨?_, ?_, ?_, ?_, ?_, nofun, nofun, nofun⟩ <;>
    simp only [Server.closeConnection, Server.setLink_self, Server.setLink_batch, Link.IsReading]
  · nofun
  · nofun
  · rw [hidle]
    nofun
  · rw [hidle]
    nofun
  · exact fun kind hk => absurd hk (hgone kind)

/-- A step of `HandleRead`. -/
theorem Fine.readStep {pc : ReadPc} (h : Fine s fd) (hloop : s.loop = .reading fd pc) :
    Fine ((s.setLink fd ((s.links fd).readStep luck pc).1).afterRead fd
      ((s.links fd).readStep luck pc).2) fd := by
  have hspec := (s.links fd).readStep_spec luck pc fun hpc => h.passed (by rw [hloop, hpc])
  have hhandled := h.handled (by rw [hloop]; rfl)
  generalize ((s.links fd).readStep luck pc).1 = l' at hspec
  generalize ((s.links fd).readStep luck pc).2 = ctl at hspec
  have hwriting : s.loop ≠ .writing fd := by rw [hloop]; nofun
  -- a connection that a worker or an answer is concerned with is left alone
  have hqueued : l'.worker = .queued → l'.conn.state = .processing := by
    intro hq
    rw [hspec.worker] at hq
    have hp := h.queued hq
    rw [hspec.same (by simp [hp]) (by simp [hp])]
    exact hp
  have hresponding : l'.worker = .responding → l'.conn.state = .writeResp := by
    intro hr
    rw [hspec.worker] at hr
    have hp := h.responding hr
    rw [hspec.same (by simp [hp]) (by simp [hp])]
    exact hp
  have houtput : l'.isOpen = true → l'.interest = .output →
      l'.worker = .idle ∧ l'.conn.state = .writeResp := by
    intro ho hi
    rw [hspec.isOpen] at ho
    rw [hspec.interest] at hi
    obtain ⟨hidle, hstate⟩ := h.output ho hi
    have hp := hstate.resolve_right hwriting
    rw [hspec.same (by simp [hp]) (by simp [hp])]
    exact ⟨hidle, hp⟩
  have hfetched : ∀ kind, (fd, kind) ∉ s.batch := hhandled.2
  cases ctl with
  | goto pc' =>
    refine ⟨?_, ?_, ?_, ?_, ?_, ?_, nofun, ?_⟩ <;>
      simp only [Server.afterRead, Server.setLink_self, Server.setLink_batch, Expected]
    · exact fun _ _ => .inr (.inr rfl)
    · exact fun ho hi => ⟨(houtput ho hi).1, .inl (houtput ho hi).2⟩
    · exact hqueued
    · exact hresponding
    · exact fun kind hk => absurd hk (hfetched kind)
    · exact fun _ => ⟨by rw [hspec.isOpen]; exact hhandled.1, hfetched⟩
    · intro hp
      cases hp
      exact hspec.passed rfl
  | ret ok =>
    cases ok with
    | true =>
      refine ⟨?_, ?_, ?_, ?_, ?_, ?_, nofun, nofun⟩ <;>
        simp only [Server.afterRead, Server.setLink_self, Server.setLink_batch, Expected]
      · exact fun hread hunread => absurd (hspec.drained rfl hread.2) hunread
      · exact fun ho hi => ⟨(houtput ho hi).1, .inl (houtput ho hi).2⟩
      · exact hqueued
      · exact hresponding
      · exact fun kind hk => absurd hk (hfetched kind)
      · exact fun _ => ⟨by rw [hspec.isOpen]; exact hhandled.1, hfetched⟩
    | false =>
      have hidle : l'.worker = .idle := by
        rw [hspec.worker]
        refine h.worker_idle ?_ ?_ <;> rcases hspec.failed rfl with hf | hf <;> rw [hf] <;> nofun
      exact fine_closeConnection hfetched (by rwa [Server.setLink_self])

/-- The next event of the batch. -/
theorem Fine.dispatch {batch : List (ℕ × Interest)} {fd₀ : ℕ} {kind₀ : Interest} {pc : LoopPc}
    (hb : BatchOk s) (h : Fine s fd) (hloop : s.loop = .dispatch)
    (hbatch : s.batch = (fd₀, kind₀) :: batch)
    (hpc : kind₀ = .input ∧ pc = .limiter fd₀ ∨ kind₀ = .output ∧ pc = .writing fd₀) :
    Fine { s with batch, loop := pc } fd := by
  have hnodup := hb.nodup
  rw [hbatch, List.map_cons, List.nodup_cons] at hnodup
  have hhandles : pc.handles = some fd₀ := by rcases hpc with ⟨-, rfl⟩ | ⟨-, rfl⟩ <;> rfl
  by_cases hfd : fd = fd₀
  · subst hfd
    have hnot : ∀ kind, (fd, kind) ∉ batch := fun kind hk =>
      hnodup.1 (List.mem_map.mpr ⟨_, hk, rfl⟩)
    obtain ⟨hopen, hout⟩ := h.fetched kind₀ (by rw [hbatch]; exact List.mem_cons_self)
    refine ⟨fun _ _ => .inr (.inr ?_), fun ho hi => ?_, h.queued, h.responding,
      fun kind hk => absurd hk (hnot kind), fun _ => ⟨hopen, hnot⟩, fun hw => ?_, fun hp => ?_⟩
    · rcases hpc with ⟨-, rfl⟩ | ⟨-, rfl⟩ <;> rfl
    · have := h.output ho hi
      exact ⟨this.1, .inl (this.2.resolve_right (by rw [hloop]; nofun))⟩
    · rcases hpc with ⟨-, rfl⟩ | ⟨hk, -⟩
      · cases hw
      · exact hout hk
    · rcases hpc with ⟨-, rfl⟩ | ⟨-, rfl⟩ <;> cases hp
  · refine h.elsewhere rfl (fun kind => ?_) (by rw [hloop]; nofun) ?_
    · rw [hbatch]
      simp [hfd]
    · rw [hhandles]
      exact fun heq => hfd (Option.some.inj heq).symm

/-- The rate limiter. -/
theorem Fine.limiter (h : Fine s fd) (hloop : s.loop = .limiter fd)
    (hdrop : ¬Drops s (.loop luck)) :
    Fine { s.countRequest with
      loop := if s.overLimit then .dispatch else .reading fd .head } fd := by
  have hhandled := h.handled (by rw [hloop]; rfl)
  have hwriting : s.loop ≠ .writing fd := by rw [hloop]; nofun
  refine ⟨?_, ?_, ?_, ?_, ?_, ?_, ?_, ?_⟩ <;>
    simp only [Server.countRequest_links, Server.countRequest_batch, Expected]
  · intro hread hunread
    by_cases hover : s.overLimit = true
    · refine .inl ⟨?_, h.interest_input hread hwriting⟩
      cases hr : (s.links fd).raised with
      | true => rfl
      | false => exact absurd ⟨fd, hloop, hover, hread, hunread, hr⟩ hdrop
    · rw [if_neg hover]
      exact .inr (.inr rfl)
  · exact fun ho hi => ⟨(h.output ho hi).1, .inl ((h.output ho hi).2.resolve_right hwriting)⟩
  · exact h.queued
  · exact h.responding
  · exact h.fetched
  · exact fun _ => hhandled
  · intro hw
    split at hw <;> cases hw
  · intro hp
    split at hp <;> cases hp

/-- After `HandleRead` without a request. -/
theorem Fine.leave (h : Fine s fd) (hloop : s.loop = .handed fd) :
    Fine { s with loop := .dispatch } fd := by
  refine ⟨fun hread hunread => ?_, fun ho hi => ?_, h.queued, h.responding, h.fetched, nofun, nofun,
    nofun⟩
  · rcases h.expected hread hunread with hr | hk | hatt
    · exact .inl hr
    · exact .inr (.inl hk)
    · rw [hloop] at hatt
      exact hatt.elim
  · have := h.output ho hi
    exact ⟨this.1, .inl (this.2.resolve_right (by rw [hloop]; nofun))⟩

/-- A complete request goes to a worker. -/
theorem Fine.handed (h : Fine s fd) (hloop : s.loop = .handed fd)
    (hready : (s.links fd).conn.state = .ready) :
    Fine
      { s.setLink fd
          { s.links fd with conn := (s.links fd).conn.takeRequest.2, worker := .queued } with
        loop := .reading fd .head } fd := by
  have hhandled := h.handled (by rw [hloop]; rfl)
  refine ⟨?_, ?_, ?_, ?_, ?_, ?_, nofun, nofun⟩ <;>
    simp only [Server.setLink_self, Server.setLink_batch, Connection.takeRequest]
  · exact fun hread => absurd hread.2 (by simp)
  · intro ho hi
    have hstate := (h.output ho hi).2.resolve_right (by rw [hloop]; nofun)
    exact State.noConfusion (hready.symm.trans hstate)
  · exact fun _ => trivial
  · nofun
  · exact fun kind hk => absurd hk (hhandled.2 kind)
  · exact fun _ => hhandled

/-- A call of `write`. -/
theorem Fine.write (h : Fine s fd) (hloop : s.loop = .writing fd) (n : ℕ) :
    Fine (s.setLink fd { s.links fd with conn := (s.links fd).conn.handleWrite n }) fd := by
  have hhandled := h.handled (by rw [hloop]; rfl)
  have hidle := (h.output hhandled.1 (h.writing hloop)).1
  refine ⟨?_, ?_, ?_, ?_, ?_, ?_, ?_, ?_⟩ <;>
    simp only [Server.setLink_self, Server.setLink_loop, Server.setLink_batch, Expected, hidle,
      hloop]
  · exact fun _ _ => .inr (.inr rfl)
  · exact fun _ _ => ⟨trivial, .inr trivial⟩
  · nofun
  · nofun
  · exact h.fetched
  · exact fun _ => hhandled
  · exact fun _ => h.writing hloop
  · nofun

/-- The answer is written: the connection is registered for input again. -/
theorem Fine.written (h : Fine s fd) (hloop : s.loop = .writing fd) :
    Fine { s.setLink fd (s.links fd).awaitInput with loop := .dispatch } fd := by
  have hhandled := h.handled (by rw [hloop]; rfl)
  have hidle := (h.output hhandled.1 (h.writing hloop)).1
  refine ⟨?_, ?_, ?_, ?_, ?_, nofun, nofun, nofun⟩ <;>
    simp only [Server.setLink_self, Server.setLink_batch, Link.awaitInput, Expected, hidle]
  · exact fun _ hunread => .inl ⟨by simp [hunread], trivial⟩
  · nofun
  · nofun
  · nofun
  · exact fun kind hk => absurd hk (hhandled.2 kind)

/-- A step of the loop that only concerns the connection it handles. -/
theorem Fine.of_handled {fd₀ : ℕ} (h : ∀ fd, Fine s fd) (hloop : s.loop.handles = some fd₀)
    (hlinks : ∀ fd, fd ≠ fd₀ → s'.links fd = s.links fd) (hbatch : s'.batch = s.batch)
    (hloop' : s'.loop.handles = none ∨ s'.loop.handles = some fd₀) (h₀ : Fine s' fd₀) :
    ∀ fd, Fine s' fd := by
  intro fd
  by_cases hfd : fd = fd₀
  · rw [hfd]
    exact h₀
  · have hne : some fd₀ ≠ some fd := fun heq => hfd (Option.some.inj heq).symm
    refine (h fd).elsewhere (hlinks fd hfd) (fun kind => by rw [hbatch]) (by rwa [hloop]) ?_
    rcases hloop' with hl | hl <;> rw [hl]
    · nofun
    · exact hne

/-- The loop, one step on. -/
theorem Fine.loopStep (hb : BatchOk s) (h : ∀ fd, Fine s fd) (hdrop : ¬Drops s (.loop luck))
    (hstep : s.loopStep luck = some s') : ∀ fd, Fine s' fd := by
  rw [Server.loopStep] at hstep
  cases hloop : s.loop with
  | wait =>
    rw [hloop] at hstep
    cases hstep
  | dispatch =>
    simp only [hloop] at hstep
    cases hbatch : s.batch with
    | nil =>
      simp only [hbatch] at hstep
      cases hstep
      exact fun fd => (h fd).elsewhere rfl (fun _ => by rw [hbatch]) (by rw [hloop]; nofun) nofun
    | cons e batch =>
      obtain ⟨fd₀, kind⟩ := e
      have hopen := ((h fd₀).fetched kind (by rw [hbatch]; exact List.mem_cons_self)).1
      simp only [hbatch, hopen, if_true] at hstep
      cases kind with
      | input =>
        cases hstep
        exact fun fd => (h fd).dispatch hb hloop hbatch (.inl ⟨rfl, rfl⟩)
      | output =>
        cases hstep
        exact fun fd => (h fd).dispatch hb hloop hbatch (.inr ⟨rfl, rfl⟩)
  | limiter fd₀ =>
    simp only [hloop] at hstep
    cases hstep
    refine .of_handled h (by rw [hloop]; rfl) (fun fd _ => by rw [Server.countRequest_links])
      (Server.countRequest_batch s) ?_ ((h fd₀).limiter hloop hdrop)
    dsimp only
    split
    · exact .inl rfl
    · exact .inr rfl
  | reading fd₀ pc =>
    simp only [hloop] at hstep
    cases hstep
    refine .of_handled h (by rw [hloop]; rfl) (fun fd hfd => ?_) ?_ ?_ ((h fd₀).readStep hloop)
    all_goals rcases ((s.links fd₀).readStep luck pc).2 with pc' | _ | _
    all_goals simp only [Server.afterRead, Server.closeConnection]
    · exact s.setLink_of_ne _ hfd
    · rw [Server.setLink_of_ne _ _ hfd, Server.setLink_of_ne _ _ hfd]
    · exact s.setLink_of_ne _ hfd
    · rfl
    · rfl
    · rfl
    · exact .inr rfl
    · exact .inl rfl
    · exact .inr rfl
  | handed fd₀ =>
    simp only [hloop] at hstep
    split at hstep
    next hready =>
      have hready : (s.links fd₀).conn.state = .ready := of_decide_eq_true hready
      have hgone := ((h fd₀).handled (by rw [hloop]; rfl)).2
      have hidle := (h fd₀).worker_idle (by rw [hready]; nofun) (by rw [hready]; nofun)
      cases luck with
      | fails =>
        cases hstep
        refine .of_handled h (by rw [hloop]; rfl) (fun fd hfd => ?_) rfl (.inl rfl)
          (fine_closeConnection hgone (by rwa [Server.setLink_self]))
        rw [Server.closeConnection, Server.setLink_of_ne _ _ hfd, Server.setLink_of_ne _ _ hfd]
      | moves n =>
        cases hstep
        exact .of_handled h (by rw [hloop]; rfl) (fun fd hfd => s.setLink_of_ne _ hfd) rfl
          (.inr rfl) ((h fd₀).handed hloop hready)
    next hready =>
      cases hstep
      exact .of_handled h (by rw [hloop]; rfl) (fun _ _ => rfl) rfl (.inl rfl)
        ((h fd₀).leave hloop)
  | writing fd₀ =>
    simp only [hloop] at hstep
    split at hstep
    · cases luck with
      | fails =>
        cases hstep
        obtain ⟨hopen, hgone⟩ := (h fd₀).handled (by rw [hloop]; rfl)
        have hidle := ((h fd₀).output hopen ((h fd₀).writing hloop)).1
        exact .of_handled h (by rw [hloop]; rfl) (fun fd hfd => s.setLink_of_ne _ hfd) rfl
          (.inl rfl) (fine_closeConnection hgone hidle)
      | moves n =>
        cases hstep
        exact .of_handled h (by rw [hloop]; rfl) (fun fd hfd => s.setLink_of_ne _ hfd) rfl
          (.inr (by rw [Server.setLink_loop, hloop]; rfl)) ((h fd₀).write hloop n)
    · cases hstep
      exact .of_handled h (by rw [hloop]; rfl) (fun fd hfd => s.setLink_of_ne _ hfd) rfl
        (.inl rfl) ((h fd₀).written hloop)

/-- Something happens to one connection, beside the loop. -/
theorem Fine.of_setLink {fd₀ : ℕ} (h : ∀ fd, Fine s fd) (h₀ : Fine (s.setLink fd₀ l) fd₀) :
    ∀ fd, Fine (s.setLink fd₀ l) fd := by
  intro fd
  by_cases hfd : fd = fd₀
  · rw [hfd]
    exact h₀
  · exact (h fd).frame (s.setLink_of_ne l hfd) rfl rfl

/-- **One step keeps every connection expected**, unless the limiter drops its event. -/
theorem Fine.step (hb : BatchOk s) (h : ∀ fd, Fine s fd) (hdrop : ¬Drops s a)
    (hstep : s.step a = some s') : ∀ fd, Fine s' fd := by
  cases a with
  | arrive fd₀ first rest =>
    rw [Server.step] at hstep
    split at hstep
    on_goal 2 => cases hstep
    cases hstep
    refine .of_setLink h ((h fd₀).notice fun hread _ hr => ?_)
    by_cases hw : s.loop = .writing fd₀
    · exact .inr hw
    · simp [(h fd₀).interest_input hread hw] at hr
  | hangUp fd₀ =>
    rw [Server.step] at hstep
    split at hstep
    on_goal 2 => cases hstep
    cases hstep
    refine .of_setLink h ((h fd₀).notice fun hread _ hr => ?_)
    by_cases hw : s.loop = .writing fd₀
    · exact .inr hw
    · simp [Link.arrive, (h fd₀).interest_input hread hw] at hr
  | writable fd₀ =>
    rw [Server.step] at hstep
    split at hstep
    on_goal 2 => cases hstep
    cases hstep
    exact .of_setLink h ((h fd₀).notice nofun)
  | tick seconds =>
    cases hstep
    exact fun fd => (h fd).frame rfl rfl rfl
  | accept fd₀ bytes =>
    rw [Server.step] at hstep
    split at hstep
    next hpre =>
      cases hstep
      refine .of_setLink h ⟨?_, ?_, ?_, ?_, ?_, ?_, ?_, ?_⟩ <;>
        simp only [Server.setLink_self, Server.setLink_loop, Server.setLink_batch, Expected, hpre.1]
      · exact fun _ hunread => .inl ⟨by simpa using hunread, trivial⟩
      · nofun
      · nofun
      · nofun
      · exact fun kind hk => absurd ((h fd₀).fetched kind hk).1 hpre.2
      · nofun
      · nofun
      · nofun
    next => cases hstep
  | fetch fds =>
    rw [Server.step] at hstep
    split at hstep
    next hpre =>
      obtain ⟨hloop, -, -, hfds⟩ := hpre
      cases hstep
      have hempty := hb.wait hloop
      intro fd
      by_cases hfd : fd ∈ fds
      · refine ⟨?_, ?_, ?_, ?_, ?_, nofun, nofun, nofun⟩ <;> simp only [hfd, if_true, Expected]
        · intro hread _
          have hi := (h fd).interest_input hread (by rw [hloop]; nofun)
          exact .inr (.inl (List.mem_map.mpr ⟨fd, hfd, by rw [hi]⟩))
        · intro ho hi
          have := (h fd).output ho hi
          exact ⟨this.1, .inl (this.2.resolve_right (by rw [hloop]; nofun))⟩
        · exact (h fd).queued
        · exact (h fd).responding
        · intro kind hk
          obtain ⟨fd', -, heq⟩ := List.mem_map.mp hk
          cases heq
          exact ⟨(hfds fd hfd).1, id⟩
      · refine (h fd).elsewhere (by simp [hfd]) (fun kind => ?_) (by rw [hloop]; nofun) nofun
        rw [hempty]
        simp [hfd]
    next => cases hstep
  | loop luck => exact .loopStep hb h hdrop hstep
  | answer fd₀ resp =>
    rw [Server.step] at hstep
    split at hstep
    next hq =>
      cases hstep
      have hstate := (h fd₀).queued hq
      refine .of_setLink h ⟨?_, ?_, ?_, ?_, ?_, ?_, ?_, ?_⟩ <;>
        simp only [Server.setLink_self, Server.setLink_loop, Server.setLink_batch,
          Connection.setResponse]
      · exact fun hread => absurd hread.2 (by simp)
      · intro ho hi
        have := ((h fd₀).output ho hi).1
        rw [hq] at this
        cases this
      · nofun
      · exact fun _ => trivial
      · exact (h fd₀).fetched
      · exact (h fd₀).handled
      · exact (h fd₀).writing
      · nofun
    next => cases hstep
  | rearm fd₀ =>
    rw [Server.step] at hstep
    split at hstep
    next hr =>
      cases hstep
      have hstate := (h fd₀).responding hr
      refine .of_setLink h ⟨?_, ?_, ?_, ?_, ?_, ?_, ?_, ?_⟩ <;>
        simp only [Server.setLink_self, Server.setLink_loop, Server.setLink_batch, Link.awaitOutput,
          Link.IsReading, hstate]
      · nofun
      · exact fun _ _ => ⟨trivial, .inl trivial⟩
      · nofun
      · nofun
      · exact fun kind hk => ⟨((h fd₀).fetched kind hk).1, fun _ => trivial⟩
      · exact (h fd₀).handled
      · exact fun _ => trivial
      · nofun
    next => cases hstep

/-- Nothing else touches the batch. -/
theorem BatchOk.of_eq (hb : BatchOk s) (hbatch : s'.batch = s.batch)
    (hloop : s'.loop = s.loop ∨ s'.loop ≠ .wait) : BatchOk s' := by
  refine ⟨by rw [hbatch]; exact hb.nodup, fun hw => ?_⟩
  rcases hloop with heq | hne
  · rw [hbatch]
    exact hb.wait (by rwa [← heq])
  · exact absurd hw hne

theorem BatchOk.loopStep (hb : BatchOk s) (hstep : s.loopStep luck = some s') : BatchOk s' := by
  rw [Server.loopStep] at hstep
  cases hloop : s.loop with
  | wait =>
    rw [hloop] at hstep
    cases hstep
  | dispatch =>
    simp only [hloop] at hstep
    cases hbatch : s.batch with
    | nil =>
      simp only [hbatch] at hstep
      cases hstep
      exact ⟨List.nodup_nil, fun _ => rfl⟩
    | cons e batch =>
      have hnodup := hb.nodup
      rw [hbatch, List.map_cons, List.nodup_cons] at hnodup
      simp only [hbatch] at hstep
      split at hstep
      · split at hstep <;> cases hstep <;> exact ⟨hnodup.2, nofun⟩
      · cases hstep
        exact ⟨hnodup.2, nofun⟩
  | limiter fd₀ =>
    simp only [hloop] at hstep
    cases hstep
    refine hb.of_eq s.countRequest_batch (.inr ?_)
    dsimp only
    split <;> nofun
  | reading fd₀ pc =>
    simp only [hloop] at hstep
    cases hstep
    rcases ((s.links fd₀).readStep luck pc).2 with pc' | _ | _ <;> exact hb.of_eq rfl (.inr nofun)
  | handed fd₀ =>
    simp only [hloop] at hstep
    split at hstep
    · cases luck <;> cases hstep <;> exact hb.of_eq rfl (.inr nofun)
    · cases hstep
      exact hb.of_eq rfl (.inr nofun)
  | writing fd₀ =>
    simp only [hloop] at hstep
    split at hstep
    · cases luck with
      | fails =>
        cases hstep
        exact hb.of_eq rfl (.inr nofun)
      | moves n =>
        cases hstep
        exact hb.of_eq rfl (.inl rfl)
    · cases hstep
      exact hb.of_eq rfl (.inr nofun)

theorem BatchOk.step (hb : BatchOk s) (hstep : s.step a = some s') : BatchOk s' := by
  cases a with
  | loop luck => exact hb.loopStep hstep
  | fetch fds =>
    rw [Server.step] at hstep
    split at hstep
    next hpre =>
      cases hstep
      refine ⟨?_, nofun⟩
      simpa [Function.comp_def] using hpre.2.1
    next => cases hstep
  | tick seconds =>
    cases hstep
    exact hb.of_eq rfl (.inl rfl)
  | arrive _ _ _ | hangUp _ | writable _ | accept _ _ | answer _ _ | rearm _ =>
    rw [Server.step] at hstep
    split at hstep
    · cases hstep
      exact hb.of_eq rfl (.inl rfl)
    · cases hstep

end Steps

/-- In every run without such a drop, every connection is expected. -/
theorem fine_of_run {tr : List Unit} {s : Server}
    (h : serving.Exec (fun s a => ¬Drops s a) {} tr s) : BatchOk s ∧ ∀ fd, Fine s fd := by
  refine h.invariant (I := fun _ s => BatchOk s ∧ ∀ fd, Fine s fd) ?_
    fun _ _ _ _ ⟨hb, hfine⟩ hdrop hstep => ⟨hb.step hstep, .step hb hfine hdrop hstep⟩
  exact ⟨⟨List.nodup_nil, fun _ => rfl⟩, fun fd =>
    ⟨nofun, nofun, nofun, nofun, nofun, nofun, nofun, nofun⟩⟩

/-- **The loop never waits with bytes unread**, as long as the limiter does not drop the event of
a connection that has unread bytes: when no event is raised, every connection that reads has read
everything. -/
theorem nothing_unread_at_wait {tr : List Unit} {s : Server}
    (h : serving.Exec (fun s a => ¬Drops s a) {} tr s) (hwait : s.loop = .wait)
    (hraised : ∀ fd, (s.links fd).isOpen = true → (s.links fd).raised = false) (fd : ℕ)
    (hread : (s.links fd).IsReading) : (s.links fd).unread = [] := by
  obtain ⟨hb, hfine⟩ := fine_of_run h
  by_contra hunread
  rcases (hfine fd).expected hread hunread with ⟨hr, -⟩ | hk | hatt
  · rw [hraised fd hread.1] at hr
    cases hr
  · rw [hb.wait hwait] at hk
    cases hk
  · rw [hwait] at hatt
    exact hatt

/-- A connection is accepted, and the length of a request comes in. -/
theorem run_length :
    serving.run (fun s _ => !s.overLimit) {} []
        ([.fetch [], .accept 0 [], .loop (.moves 1), .arrive 0 0 [0, 0, 1], .fetch [0]] ++
          List.replicate 6 (.loop (.moves 4))) =
      some (List.replicate 11 (),
        { links := Function.update (fun _ => {}) 0
            { isOpen := true, conn := { state := .readBody, expectLen := 1, lenRead := 4 } }
          reqInCurrentSecond := 1 }) := by
  simp [Lts.run, serving, Server.step, Server.setLink, Link.arrive, Server.loopStep,
    Server.countRequest, Server.overLimit, qpsLimit, Link.readStep, handleRead, Link.read,
    Connection.makeRoom, lenSize, Connection.handleReadLen, Connection.handleReadBody,
    maxBodyBufferSize, Server.afterRead, Connection.hasRequest, maxEpollEvents, readBE, readLE]
  funext fd
  by_cases hfd : fd = 0 <;> simp [hfd]

theorem nothing_unread_after_length :
    ∃ tr s, serving.Exec (fun s a => ¬Drops s a) {} tr s ∧ s.loop = .wait ∧
      (s.links 0).IsReading ∧ (s.links 0).unread = [] := by
  have hguard : ∀ (s : Server) (a : Action), (!s.overLimit) = true → ¬Drops s a := by
    intro s a hs hdrop
    cases a with
    | loop luck =>
      obtain ⟨fd, -, hover, -⟩ := hdrop
      rw [hover] at hs
      cases hs
    | _ => exact hdrop
  have hrun := Lts.exec_of_run (P := fun s a => ¬Drops s a) hguard .start run_length
  refine ⟨_, _, hrun, rfl, ⟨rfl, .inr rfl⟩,
    nothing_unread_at_wait hrun rfl (fun fd _ => ?_) 0 ⟨rfl, .inr rfl⟩⟩
  by_cases hfd : fd = 0 <;> simp [hfd]

/-! ## A stranded connection -/

/-- A connection whose request is with a worker, with more bytes on its socket. -/
def busyLink (unread : List UInt8) : Link :=
  { isOpen := true
    conn := { state := .processing, expectLen := 1, lenRead := 4 }
    unread
    worker := .queued }

/-- The server with that one connection, after `n` events in the current second. -/
def busyServer (unread : List UInt8) (n : ℕ) : Server :=
  { links := Function.update (fun _ => {}) 0 (busyLink unread), reqInCurrentSecond := n }

/-- A connection is accepted and its first request taken. -/
def firstRequest : List Action :=
  [.fetch [], .accept 0 [], .loop (.moves 1), .arrive 0 0 [0, 0, 1, 7], .fetch [0]] ++
    List.replicate 9 (.loop (.moves 4))

/-- An event on the busy connection. -/
def busyRound : List Action :=
  [.arrive 0 0 [], .fetch [0]] ++ List.replicate 6 (.loop (.moves 1))

/-- Another connection is accepted, and its first byte comes in. -/
def secondClient : List Action :=
  [.fetch [], .accept 1 [], .loop (.moves 1), .arrive 1 0 [], .fetch [1]] ++
    List.replicate 3 (.loop (.moves 1))

theorem run_firstRequest :
    serving.run (fun _ _ => true) {} [] firstRequest =
      some (List.replicate 14 (), busyServer [] 1) := by
  simp [firstRequest, busyServer, busyLink, Lts.run, serving, Server.step, Server.setLink,
    Link.arrive, Server.loopStep, Server.countRequest, Server.overLimit, qpsLimit, Link.readStep,
    handleRead, Link.read, Connection.makeRoom, lenSize, Connection.handleReadLen,
    Connection.handleReadBody, maxBodyBufferSize, Connection.loopEnd, Connection.takeRequest,
    Server.afterRead, Connection.hasRequest, maxEpollEvents, readBE, readLE]
  funext fd
  by_cases hfd : fd = 0 <;> simp [hfd]

theorem run_busyRound (tr : List Unit) (u : List UInt8) (n : ℕ) (hn : n < qpsLimit) :
    serving.run (fun _ _ => true) (busyServer u n) tr busyRound =
      some (List.replicate 8 () ++ tr, busyServer (u ++ [0]) (n + 1)) := by
  have hover : ¬qpsLimit < n + 1 := by omega
  simp [busyRound, busyServer, busyLink, Lts.run, serving, Server.step, Server.setLink, Link.arrive,
    Server.loopStep, Server.countRequest, Server.overLimit, Link.readStep, handleRead,
    Server.afterRead, Connection.hasRequest, maxEpollEvents, hover]
  funext fd
  by_cases hfd : fd = 0 <;> simp [hfd]

theorem run_secondClient (tr : List Unit) (u : List UInt8) :
    serving.run (fun _ _ => true) (busyServer u qpsLimit) tr secondClient =
      some (List.replicate 8 () ++ tr,
        { links := Function.update (Function.update (fun _ => {}) 0 (busyLink u)) 1
            { isOpen := true, unread := [0] }
          reqInCurrentSecond := qpsLimit + 1 }) := by
  simp [secondClient, busyServer, Lts.run, serving, Server.step, Server.setLink, Link.arrive,
    Server.loopStep, Server.countRequest, Server.overLimit, maxEpollEvents]
  funext fd
  by_cases hfd : fd = 1 <;> simp [hfd]

/-- A hundred events in a second on one connection. -/
theorem exists_exec_busyServer (n : ℕ) (hn : n < qpsLimit) :
    ∃ tr u, serving.Exec (fun _ _ => True) {} tr (busyServer u (n + 1)) := by
  induction n with
  | zero =>
    exact ⟨_, _, Lts.exec_of_run (fun _ _ _ => trivial) .start run_firstRequest⟩
  | succ n ih =>
    obtain ⟨tr, u, h⟩ := ih (by omega)
    exact ⟨_, _, Lts.exec_of_run (fun _ _ _ => trivial) h (run_busyRound tr u (n + 1) hn)⟩

/-- **The rate limit strands a client.** One connection has used up the events of the second; the
first byte of another one is on its socket, no event is raised, and the loop waits. -/
theorem rate_limit_strands :
    ∃ tr s, serving.Exec (fun _ _ => True) {} tr s ∧ s.loop = .wait ∧
      (∀ fd, (s.links fd).isOpen = true → (s.links fd).raised = false) ∧
      (s.links 1).IsReading ∧ (s.links 1).unread = [0] := by
  obtain ⟨tr, u, h⟩ := exists_exec_busyServer 99 (by decide)
  refine ⟨_, _, Lts.exec_of_run (fun _ _ _ => trivial) h (run_secondClient tr u), rfl,
    fun fd _ => ?_, ⟨rfl, .inl rfl⟩, rfl⟩
  by_cases h₁ : fd = 1
  · subst h₁
    rfl
  · by_cases h₀ : fd = 0 <;> simp [h₁, h₀, busyLink]

end YellowZone.OvsServer
