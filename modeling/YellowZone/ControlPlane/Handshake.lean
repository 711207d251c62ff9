import YellowZone.ControlPlane.JsonPeer

/-!
# The handshake of the coordinator

`accept_roles` collects one connection for each wanted role. A turn of its loop looks at the clock,
accepts a connection, waits for the first item of its reader, checks it and answers. What happens
in a turn is up to the world (`Turn`): the clock, whether a connection comes, the bytes that arrive
in time and how they are cut, and whether the answer can be sent. The rest is computed: the first
item by the reader of `JsonPeer`, and what is made of it by `handshakeRejection`.

Values are compared as Python compares them. The protocol may be `1`, `True` or `1.0`; a role that
is no string is an unexpected one; a list or a dictionary as a role cannot be looked up in a set at
all and raises a `TypeError`, which nobody catches. An error of `accept` other than its timeout is
not caught either.

## The table

The peer is entered into the table before `HELLO_ACK` is sent. When that fails the peer is closed
and stays there. So a role is taken by whoever came as far as the table, and the loop may end with
a closed peer in it.

## Main results

* `handshakeRejection`, `turn`, `accepting` — the loop of `accept_roles`
* `accepted_iff` — who passes the check
* `reached_of_run` — what a run says about its end and about the table
* `accept_roles_outcome_iff` — the ends of `accept_roles`, and who is accepted
* `accept_roles_returns_closed_peer` — a closed peer in the table, a `TypeError`
-/

namespace YellowZone.ControlPlane

open Machine

/-- `CoordinatorServer`: what a handshake has to agree with. -/
structure CoordinatorServer where
  experiment : Text
  runId : Text
  deriving DecidableEq, Repr

/-- `value == PROTOCOL_VERSION`; the version is 1. -/
def isProtocolVersion : Option Json → Bool
  | some (.int n) => n == 1
  | some (.bool b) => b
  | some (.float x) => x.repr == text "1.0"
  | _ => false

/-- `value == s` for a string. -/
def isText (s : Text) : Option Json → Bool
  | some (.str s') => s' == s
  | _ => false

/-- What `_handshake_rejection` comes to: a reason, a `TypeError`, or no reason. -/
inductive Check where
  | rejected (reason : Text)
  | unhashable
  | accepted (role : Text)
  deriving DecidableEq, Repr

/-- `_handshake_rejection`, with the roles that are taken. -/
def handshakeRejection (server : CoordinatorServer) (wanted taken : Finset Text)
    (hello : Json) : Check :=
  if !isText (text "HELLO") (hello.get (text "type")) then
    .rejected (text "first message must be HELLO")
  else if !isProtocolVersion (hello.get (text "protocol")) then
    .rejected (text "protocol must be 1")
  else if !isText server.experiment (hello.get (text "experiment")) then
    .rejected (text "experiment mismatch")
  else if !isText server.runId (hello.get (text "run_id")) then
    .rejected (text "run_id mismatch")
  else
    match hello.get (text "role") with
    | some (.arr _) | some (.obj _) => .unhashable
    | some (.str role) =>
      if role ∉ wanted then .rejected (text "unexpected role")
      else if role ∈ taken then .rejected (text "duplicate role")
      else .accepted role
    | _ => .rejected (text "unexpected role")

/-- A peer in the table: its HELLO, whether HELLO_ACK was sent, and whether it has been closed. -/
structure Peer where
  hello : Json
  acked : Bool
  closed : Bool

/-- `self.peers`. -/
abbrev Peers : Type := List (Text × Peer)

/-- `set(self.peers)`. -/
def Peers.roles (peers : Peers) : Finset Text := (peers.map Prod.fst).toFinset

/-- What the world does in a turn of the loop. -/
inductive Turn where
  /-- The clock has reached the deadline. -/
  | late
  | acceptTimeout
  /-- `accept` raises another error. -/
  | acceptFailed
  /-- A connection, with what arrives until the first item is there or the time is over, and
  whether the answer can be sent. -/
  | connection (chunks : List Chunk) (ending : Ending) (sends : Bool)

/-- What comes of a turn. -/
inductive Verdict where
  | late
  | acceptTimeout
  | acceptFailed
  /-- The reader has raised, or nothing has come in time. -/
  | noHello
  | rejected (reason : Text)
  | unhashable
  | accepted (role : Text) (hello : Json) (acked : Bool)

/-- The first item in the queue of a reader. -/
def Reading.first (r : Reading) : Option (Except ReadError Json) :=
  match r.messages with
  | message :: _ => some (.ok message)
  | [] => r.error.map .error

/-- Where `accept_roles` is: it waits for a connection, has returned or has raised. -/
inductive Accepting where
  | waiting (peers : Peers)
  | returned (peers : Peers)
  /-- The `ControlError`, with the roles that are missing. -/
  | timedOut (missing : List Text)
  /-- An `OSError` of `accept`. -/
  | acceptFailed
  /-- A `TypeError`. -/
  | unhashable

/-- The head of the loop. -/
def loopHead (wanted : Finset Text) (peers : Peers) : Accepting :=
  if peers.roles = wanted then .returned peers else .waiting peers

section Loop

variable (server : CoordinatorServer) (loads : Loads) (wanted : Finset Text)

/-- A turn of the loop, up to the table. -/
def examine (peers : Peers) : Turn → Verdict
  | .late => .late
  | .acceptTimeout => .acceptTimeout
  | .acceptFailed => .acceptFailed
  | .connection chunks ending sends =>
    match (readLoop loads [] chunks ending).first with
    | some (.ok hello) =>
      match handshakeRejection server wanted peers.roles hello with
      | .rejected reason => .rejected reason
      | .unhashable => .unhashable
      | .accepted role => .accepted role hello sends
    | _ => .noHello

/-- The rest of the turn. A peer whose HELLO_ACK could not be sent is closed in its place. -/
def turn (peers : Peers) : Verdict → Accepting
  | .late => .timedOut ((wanted \ peers.roles).sort (· ≤ ·))
  | .acceptFailed => .acceptFailed
  | .unhashable => .unhashable
  | .accepted role hello acked => loopHead wanted (peers ++ [(role, ⟨hello, acked, !acked⟩)])
  | .acceptTimeout | .noHello | .rejected _ => loopHead wanted peers

/-- `accept_roles`, turn by turn. -/
def accepting : Lts Accepting Turn Verdict where
  step s t :=
    match s with
    | .waiting peers => some (turn wanted peers (examine server loads wanted peers t))
    | _ => none
  event s t _ :=
    match s with
    | .waiting peers => examine server loads wanted peers t
    | _ => .acceptTimeout

/-- A run of the first call of `accept_roles` on an open server. -/
def AcceptRun (tr : List Verdict) (s : Accepting) : Prop :=
  (accepting server loads wanted).Exec (fun _ _ => True) (loopHead wanted []) tr s

/-- The HELLO of a role. -/
structure Matches (hello : Json) (role : Text) : Prop where
  type : isText (text "HELLO") (hello.get (text "type")) = true
  protocol : isProtocolVersion (hello.get (text "protocol")) = true
  experiment : isText server.experiment (hello.get (text "experiment")) = true
  runId : isText server.runId (hello.get (text "run_id")) = true
  role : hello.get (text "role") = some (.str role)

/-- The ends that `accept_roles` should have: with the wanted roles and an open, greeted peer for
each of them, or with a `ControlError` after the deadline. -/
def EndsWell : Accepting → Prop
  | .returned peers =>
    peers.roles = wanted ∧ ∀ role peer, (role, peer) ∈ peers →
      Matches server peer.hello role ∧ peer.acked = true ∧ peer.closed = false
  | .timedOut _ => True
  | _ => False

end Loop

section Run

variable {server : CoordinatorServer} {loads : Loads} {wanted taken : Finset Text} {hello : Json}
  {role : Text} {peers : Peers} {tr : List Verdict} {s : Accepting}

/-- **Who passes the check**: the HELLO of a wanted role that is not taken. -/
theorem accepted_iff :
    handshakeRejection server wanted taken hello = .accepted role ↔
      Matches server hello role ∧ role ∈ wanted ∧ role ∉ taken := by
  constructor
  · intro h
    rw [handshakeRejection] at h
    split_ifs at h with htype hprotocol hexperiment hrunId
    rw [Bool.not_eq_true, Bool.not_eq_false'] at htype hprotocol hexperiment hrunId
    split at h
    · cases h
    · cases h
    · rename_i r hrole
      split_ifs at h with hwanted htaken
      cases h
      exact ⟨⟨htype, hprotocol, hexperiment, hrunId, hrole⟩, hwanted, htaken⟩
    · cases h
  · rintro ⟨hm, hwanted, htaken⟩
    simp [handshakeRejection, hm.type, hm.protocol, hm.experiment, hm.runId, hm.role, hwanted,
      htaken]

/-- What the table holds: the peers that were accepted, closed if their HELLO_ACK was not sent. -/
structure TableOk (server : CoordinatorServer) (wanted : Finset Text) (tr : List Verdict)
    (peers : Peers) : Prop where
  entries : ∀ role peer, (role, peer) ∈ peers ↔
    ∃ hello acked, .accepted role hello acked ∈ tr ∧ peer = ⟨hello, acked, !acked⟩
  matched : ∀ role hello acked, .accepted role hello acked ∈ tr → Matches server hello role

/-- No turn so far has ended the loop. -/
structure GoesOn (tr : List Verdict) : Prop where
  late : .late ∉ tr
  acceptFailed : .acceptFailed ∉ tr
  unhashable : .unhashable ∉ tr

/-- What a run says about the state it has reached. -/
inductive Reached (server : CoordinatorServer) (wanted : Finset Text) (tr : List Verdict) :
    Accepting → Prop
  | waiting {peers : Peers} (htable : TableOk server wanted tr peers) (h : GoesOn tr) :
      Reached server wanted tr (.waiting peers)
  | returned {peers : Peers} (htable : TableOk server wanted tr peers) (h : GoesOn tr)
      (hall : peers.roles = wanted) : Reached server wanted tr (.returned peers)
  | timedOut {missing : List Text} (hlate : .late ∈ tr) (hfailed : .acceptFailed ∉ tr)
      (hunhashable : .unhashable ∉ tr) : Reached server wanted tr (.timedOut missing)
  | acceptFailed (h : .acceptFailed ∈ tr) : Reached server wanted tr .acceptFailed
  | unhashable (h : .unhashable ∈ tr) : Reached server wanted tr .unhashable

theorem reached_loopHead (htable : TableOk server wanted tr peers) (h : GoesOn tr) :
    Reached server wanted tr (loopHead wanted peers) := by
  rw [loopHead]
  split
  · exact .returned htable h ‹_›
  · exact .waiting htable h

/-- Another verdict, which does not end the loop. -/
theorem GoesOn.cons {v : Verdict} (h : GoesOn tr) (hlate : v ≠ .late)
    (hfailed : v ≠ .acceptFailed) (hunhashable : v ≠ .unhashable) : GoesOn (v :: tr) where
  late := List.not_mem_cons_of_ne_of_not_mem hlate.symm h.late
  acceptFailed := List.not_mem_cons_of_ne_of_not_mem hfailed.symm h.acceptFailed
  unhashable := List.not_mem_cons_of_ne_of_not_mem hunhashable.symm h.unhashable

/-- A verdict that leaves the table alone. -/
theorem TableOk.cons {v : Verdict} (h : TableOk server wanted tr peers)
    (hv : ∀ role hello acked, v ≠ .accepted role hello acked) :
    TableOk server wanted (v :: tr) peers := by
  have hmem (role : Text) (hello : Json) (acked : Bool) :
      .accepted role hello acked ∈ v :: tr ↔ .accepted role hello acked ∈ tr := by
    rw [List.mem_cons, or_iff_right (hv role hello acked).symm]
  refine ⟨fun role peer => ?_, fun role hello acked hin => ?_⟩
  · simp only [hmem]
    exact h.entries role peer
  · exact h.matched role hello acked ((hmem role hello acked).mp hin)

/-- A peer is entered. -/
theorem TableOk.enter (h : TableOk server wanted tr peers) (hm : Matches server hello role)
    (acked : Bool) :
    TableOk server wanted (.accepted role hello acked :: tr)
      (peers ++ [(role, ⟨hello, acked, !acked⟩)]) := by
  refine ⟨fun role' peer => ?_, fun role' hello' acked' hin => ?_⟩
  · rw [List.mem_append, List.mem_singleton, h.entries role' peer]
    constructor
    · rintro (⟨hello', acked', hin, rfl⟩ | heq)
      · exact ⟨hello', acked', List.mem_cons_of_mem _ hin, rfl⟩
      · cases heq
        exact ⟨hello, acked, List.mem_cons_self .., rfl⟩
    · rintro ⟨hello', acked', hin, rfl⟩
      rcases List.mem_cons.mp hin with heq | hin
      · cases heq
        exact .inr rfl
      · exact .inl ⟨hello', acked', hin, rfl⟩
  · rcases List.mem_cons.mp hin with heq | hin
    · cases heq
      exact hm
    · exact h.matched role' hello' acked' hin

/-- **One turn.** -/
theorem reached_turn (htable : TableOk server wanted tr peers) (h : GoesOn tr) (t : Turn) :
    Reached server wanted (examine server loads wanted peers t :: tr)
      (turn wanted peers (examine server loads wanted peers t)) := by
  have hmatches (role : Text) (hello : Json) (acked : Bool)
      (hv : examine server loads wanted peers t = .accepted role hello acked) :
      Matches server hello role := by
    cases t with
    | connection chunks ending sends =>
      rw [examine] at hv
      split at hv
      · split at hv
        · cases hv
        · cases hv
        · rename_i hcheck
          cases hv
          exact (accepted_iff.mp hcheck).1
      · cases hv
    | _ => cases hv
  generalize examine server loads wanted peers t = v at hmatches
  cases v with
  | late =>
    refine .timedOut (List.mem_cons_self ..) ?_ ?_
    · exact List.not_mem_cons_of_ne_of_not_mem nofun h.acceptFailed
    · exact List.not_mem_cons_of_ne_of_not_mem nofun h.unhashable
  | acceptFailed => exact .acceptFailed (List.mem_cons_self ..)
  | unhashable => exact .unhashable (List.mem_cons_self ..)
  | accepted role hello acked =>
    exact reached_loopHead (htable.enter (hmatches role hello acked rfl) acked)
      (h.cons nofun nofun nofun)
  | acceptTimeout | noHello | rejected =>
    exact reached_loopHead (htable.cons nofun) (h.cons nofun nofun nofun)

/-- **Every run.** -/
theorem reached_of_run (h : AcceptRun server loads wanted tr s) : Reached server wanted tr s := by
  refine h.invariant (I := fun tr s => Reached server wanted tr s) ?_ ?_
  · exact reached_loopHead ⟨by simp, nofun⟩ ⟨nofun, nofun, nofun⟩
  · intro tr s t s' hs _ hstep
    cases s with
    | waiting peers =>
      cases hs with
      | waiting htable hgo =>
        cases hstep
        exact reached_turn htable hgo t
    | _ => cases hstep

theorem mem_roles : role ∈ peers.roles ↔ ∃ peer, (role, peer) ∈ peers := by
  simp [Peers.roles]

/-- A role is taken when somebody has been accepted with it. -/
theorem TableOk.notMem_roles_iff (h : TableOk server wanted tr peers) :
    role ∉ peers.roles ↔ ∀ hello acked, .accepted role hello acked ∉ tr := by
  rw [mem_roles, not_exists]
  constructor
  · intro hno hello acked hin
    exact hno _ ((h.entries role _).mpr ⟨hello, acked, hin, rfl⟩)
  · intro hno peer hin
    obtain ⟨hello, acked, haccepted, -⟩ := (h.entries role peer).mp hin
    exact hno hello acked haccepted

/-- All peers of a table are open and greeted when every HELLO_ACK was sent. -/
theorem TableOk.greeted_iff (h : TableOk server wanted tr peers) :
    (∀ role peer, (role, peer) ∈ peers →
        Matches server peer.hello role ∧ peer.acked = true ∧ peer.closed = false) ↔
      ∀ role hello, .accepted role hello false ∉ tr := by
  constructor
  · intro hall role hello hin
    have hbad := hall role _ ((h.entries role _).mpr ⟨hello, false, hin, rfl⟩)
    exact Bool.false_ne_true hbad.2.1
  · intro hno role peer hin
    obtain ⟨hello, acked, haccepted, rfl⟩ := (h.entries role peer).mp hin
    cases acked with
    | false => exact absurd haccepted (hno role hello)
    | true => exact ⟨h.matched role hello true haccepted, rfl, rfl⟩

theorem examine_eq_accepted_iff {chunks : List Chunk} {ending : Ending} {sends : Bool}
    (hfirst : (readLoop loads [] chunks ending).first = some (.ok hello))
    (hm : Matches server hello role) (hwanted : role ∈ wanted) :
    examine server loads wanted peers (.connection chunks ending sends) =
      .accepted role hello sends ↔ role ∉ peers.roles := by
  simp only [examine, hfirst]
  constructor
  · intro h
    split at h
    · cases h
    · cases h
    · rename_i hcheck
      cases h
      exact (accepted_iff.mp hcheck).2.2
  · intro hfree
    rw [accepted_iff.mpr ⟨hm, hwanted, hfree⟩]

/-- **The ends of `accept_roles`, and who is accepted.** A run that ends does so as it should
exactly if `accept` never fails, no role is a list or a dictionary, and, unless the deadline
passes, every HELLO_ACK is sent. While it lasts, a client that sends the HELLO of a wanted role is
accepted exactly if no earlier client with this role has been entered into the table, whether or
not its HELLO_ACK was sent. -/
theorem accept_roles_outcome_iff (h : AcceptRun server loads wanted tr s) :
    ((∀ peers, s ≠ .waiting peers) →
      (EndsWell server wanted s ↔
        .acceptFailed ∉ tr ∧ .unhashable ∉ tr ∧
          (.late ∈ tr ∨ ∀ role hello, .accepted role hello false ∉ tr))) ∧
      ∀ peers, s = .waiting peers →
        ∀ chunks ending sends hello role,
          (readLoop loads [] chunks ending).first = some (.ok hello) →
          Matches server hello role → role ∈ wanted →
          (examine server loads wanted peers (.connection chunks ending sends) =
              .accepted role hello sends ↔
            ∀ hello' acked, .accepted role hello' acked ∉ tr) := by
  cases reached_of_run h with
  | waiting htable hgo =>
    refine ⟨fun hend => absurd rfl (hend _), ?_⟩
    rintro peers ⟨⟩ chunks ending sends hello role hfirst hm hwanted
    rw [examine_eq_accepted_iff hfirst hm hwanted, htable.notMem_roles_iff]
  | returned htable hgo hall =>
    refine ⟨fun _ => ?_, nofun⟩
    rw [EndsWell, and_iff_right hall, htable.greeted_iff, and_iff_right hgo.acceptFailed,
      and_iff_right hgo.unhashable, or_iff_right hgo.late]
  | timedOut hlate hfailed hunhashable =>
    exact ⟨fun _ => iff_of_true trivial ⟨hfailed, hunhashable, .inl hlate⟩, nofun⟩
  | acceptFailed hfailed =>
    exact ⟨fun _ => iff_of_false id fun hgood => hgood.1 hfailed, nofun⟩
  | unhashable hunhashable =>
    exact ⟨fun _ => iff_of_false id fun hgood => hgood.2.1 hunhashable, nofun⟩

/-! ## Runs -/

/-- A stream that consists of one short line. -/
def lineChunk (message : Json) (h : (payload message).length ≤ recvSize) : Chunk :=
  ⟨payload message, payload_ne_nil message, h⟩

/-- What the reader makes of it. -/
theorem first_lineChunk {message : Json} (h : (payload message).length ≤ recvSize)
    (hloads : loads.Inverts message) (ending : Ending) :
    (readLoop loads [] [lineChunk message h] ending).first = some (.ok message) := by
  have hpassed : Passed loads message := ⟨hloads, h.trans (by decide)⟩
  have hbytes : stream [lineChunk message h] = [message].flatMap payload ++ [] := by
    simp [stream, lineChunk]
  have hread := readLines_encode (List.forall_mem_singleton.mpr hpassed)
  rw [readLoop_eq loads List.not_mem_nil (Nat.zero_le _), List.nil_append, hbytes, readStream,
    lines_payloads List.not_mem_nil]
  simp only [hread]
  rfl

/-- One more turn. -/
theorem AcceptRun.turn (h : AcceptRun server loads wanted tr (.waiting peers)) (t : Turn) :
    AcceptRun server loads wanted (examine server loads wanted peers t :: tr)
      (turn wanted peers (examine server loads wanted peers t)) :=
  .next h trivial rfl

theorem acceptRun_start (h : wanted ≠ ∅) : AcceptRun server loads wanted [] (.waiting []) := by
  have hhead : loopHead wanted [] = .waiting [] := if_neg h.symm
  rw [AcceptRun, hhead]
  exact .start

/-- A connection that sends one line. -/
theorem AcceptRun.line {message : Json} (h : AcceptRun server loads wanted tr (.waiting peers))
    (hsmall : (payload message).length ≤ recvSize) (hloads : loads.Inverts message)
    {v : Verdict} (sends : Bool)
    (hv : (match handshakeRejection server wanted peers.roles message with
      | .rejected reason => .rejected reason
      | .unhashable => .unhashable
      | .accepted role => .accepted role message sends) = v) :
    AcceptRun server loads wanted (v :: tr) (ControlPlane.turn wanted peers v) := by
  have hturn := h.turn (.connection [lineChunk message hsmall] .closed sends)
  rw [examine, first_lineChunk hsmall hloads] at hturn
  subst hv
  exact hturn

end Run

/-- The HELLO of a role in experiment `e` and run `r`. -/
def helloOf (role : Json) : Json :=
  .obj [(text "type", .str (text "HELLO")), (text "protocol", .int 1),
    (text "experiment", .str (text "e")), (text "run_id", .str (text "r")), (text "role", role)]

/-- A decoder that knows one message. -/
def loadsOnly (message : Json) : Loads := fun raw =>
  if raw = encode message then .value message else .undecodable

theorem inverts_loadsOnly {message : Json} (h : message.isMessage = true) :
    (loadsOnly message).Inverts message :=
  ⟨h, if_pos rfl⟩

/-- One wanted role, and a client that sends its HELLO and stays. -/
theorem accept_roles_greets :
    ∃ tr s, AcceptRun ⟨text "e", text "r"⟩ (loadsOnly (helloOf (.str (text "a")))) {text "a"} tr s ∧
      EndsWell ⟨text "e", text "r"⟩ {text "a"} s := by
  have hstart : AcceptRun ⟨text "e", text "r"⟩ (loadsOnly (helloOf (.str (text "a"))))
      {text "a"} [] (.waiting []) := acceptRun_start (by decide)
  have hend : AcceptRun ⟨text "e", text "r"⟩ (loadsOnly (helloOf (.str (text "a"))))
      {text "a"} [.accepted (text "a") (helloOf (.str (text "a"))) true]
      (.returned [(text "a", ⟨helloOf (.str (text "a")), true, false⟩)]) :=
    hstart.line (by decide) (inverts_loadsOnly rfl) true rfl
  refine ⟨_, _, hend, ((accept_roles_outcome_iff hend).1 nofun).mpr ?_⟩
  exact ⟨by simp, by simp, .inr (by simp)⟩

/-- A client that goes away in front of its HELLO_ACK: with one wanted role the loop returns a
closed peer, with two the client's next attempt is rejected. And a list as a role ends the loop
with a `TypeError`. -/
theorem accept_roles_returns_closed_peer :
    (∃ tr peer, AcceptRun ⟨text "e", text "r"⟩ (loadsOnly (helloOf (.str (text "a"))))
        {text "a"} tr (.returned [(text "a", peer)]) ∧ peer.closed = true) ∧
      (∃ tr peers, AcceptRun ⟨text "e", text "r"⟩ (loadsOnly (helloOf (.str (text "a"))))
        {text "a", text "b"}
        (.rejected (text "duplicate role") ::
          .accepted (text "a") (helloOf (.str (text "a"))) false :: tr) (.waiting peers)) ∧
      ∃ tr, AcceptRun ⟨text "e", text "r"⟩ (loadsOnly (helloOf (.arr []))) {text "a"} tr
        .unhashable := by
  have hone : AcceptRun ⟨text "e", text "r"⟩ (loadsOnly (helloOf (.str (text "a"))))
      {text "a"} [] (.waiting []) := acceptRun_start (by decide)
  have htwo : AcceptRun ⟨text "e", text "r"⟩ (loadsOnly (helloOf (.str (text "a"))))
      {text "a", text "b"} [] (.waiting []) := acceptRun_start (by decide)
  have hlist : AcceptRun ⟨text "e", text "r"⟩ (loadsOnly (helloOf (.arr [])))
      {text "a"} [] (.waiting []) := acceptRun_start (by decide)
  refine ⟨⟨_, _, hone.line (by decide) (inverts_loadsOnly rfl) false rfl, rfl⟩, ?_, ?_⟩
  · have hfirst := htwo.line (by decide) (inverts_loadsOnly rfl) false rfl
    exact ⟨_, _, hfirst.line (by decide) (inverts_loadsOnly rfl) true rfl⟩
  · exact ⟨_, hlist.line (by decide) (inverts_loadsOnly rfl) true rfl⟩

end YellowZone.ControlPlane
