import YellowZone.Machine.Execution
import YellowZone.OvsServer.Connection

/-!
# Requests on the wire, and requests as taken

The life of one connection: input events run `HandleReadEvent` (`readEvent`), which hands out a
request as soon as one is complete; the answer goes out; and the next input event finds the
connection reading a length again. The bytes a client sends for its requests are `frames bodies`,
and they reach the connection in pieces of any size, with moments between them in which there is
nothing to read.

## What goes wrong

`HandleReadBody` asks for `MAX_BODY_BUFFER_SIZE` bytes, however few are missing from the body.
When the next request is on the socket already, its first bytes end up at the end of this one,
and the reader is out of step from then on. A `Take` therefore keeps the length that was announced
for the request next to the request itself.

## Main results

* `Position.readStep` — what one call of `read` does to the place in the stream
* `accounted_of_lived` — in step, or too far, at every moment of a life
* `taken_eq_bodies_iff` — the requests are the bodies exactly if none is longer than announced,
  which is so for a client that waits for its answers
* `pipelined_requests_merge` — two requests in one go
-/

namespace YellowZone.OvsServer

open Machine

/-! ## The life of a connection -/

/-- A request that was taken, with the length announced for it. -/
structure Take where
  announced : ℕ
  request : List UInt8
  deriving DecidableEq, Repr

/-- The loop of `HandleReadEvent`, for so many rounds, in each of which `HandleRead` makes so many
steps: whether the connection stays open, and what was taken. -/
def readEvent (n : ℕ) : ℕ → Socket → Connection → List Take →
    Option (Bool × Socket × Connection × List Take)
  | 0, _, _, _ => none
  | k + 1, s, c, taken =>
    match runRead n s c .head with
    | none => none
    | some (false, c, s) => some (false, s, c, taken)
    | some (true, c, s) =>
      if c.hasRequest then
        readEvent n k s c.takeRequest.2 (taken ++ [⟨c.expectLen, c.takeRequest.1⟩])
      else some (true, s, c, taken)

/-- A connection, its socket, and the requests taken so far, oldest first. -/
structure Life where
  socket : Socket
  conn : Connection := {}
  isOpen : Bool := true
  taken : List Take := []
  deriving DecidableEq, Repr

/-- What happens to a connection: an input event, the answer of a worker, an output event. -/
inductive LifeAction where
  | input (rounds steps : ℕ)
  | respond (resp : List UInt8)
  | output (written : ℕ)
  deriving DecidableEq, Repr

/-- One event in the life of a connection. -/
def Life.step (l : Life) : LifeAction → Option Life
  | .input rounds steps =>
    if l.isOpen then
      match readEvent steps rounds l.socket l.conn l.taken with
      | none => none
      | some (isOpen, socket, conn, taken) => some { socket, conn, isOpen, taken }
    else none
  | .respond resp =>
    if l.isOpen ∧ l.conn.state = .processing then
      some { l with conn := l.conn.setResponse resp }
    else none
  | .output written =>
    if l.isOpen ∧ l.conn.state = .writeResp then
      some { l with conn := l.conn.handleWrite written }
    else none

/-- The lives of connections. -/
def lives : Lts Life LifeAction Unit where
  step := Life.step
  event _ _ _ := ()

/-- The lives of a connection with a given socket. -/
abbrev Lived (s : Socket) (tr : List Unit) (l : Life) : Prop :=
  lives.Exec (fun _ _ => True) { socket := s } tr l

/-! ## The bytes of requests -/

/-- A request on the wire. -/
def frame (body : List UInt8) : List UInt8 := beBytes 4 body.length ++ body

/-- Requests on the wire. -/
def frames (bodies : List (List UInt8)) : List UInt8 := bodies.flatMap frame

/-- The bodies that a client can send: a length has four bytes, and there is something to send. -/
def Sendable (bodies : List (List UInt8)) : Prop :=
  ∀ body ∈ bodies, body ≠ [] ∧ body.length < 2 ^ 32

@[simp] theorem frames_nil : frames [] = [] := rfl

theorem frames_cons (body : List UInt8) (rest : List (List UInt8)) :
    frames (body :: rest) = beBytes 4 body.length ++ (body ++ frames rest) := by
  rw [frames, List.flatMap_cons, frame, List.append_assoc]
  rfl

theorem sendable_cons {body : List UInt8} {rest : List (List UInt8)} :
    Sendable (body :: rest) ↔ (body ≠ [] ∧ body.length < 2 ^ 32) ∧ Sendable rest := by
  simp [Sendable]

/-- Four bytes at the front of some requests are the length of the first of them. -/
theorem length_of_frames {d tail : List UInt8} {rest : List (List UInt8)} (hrest : Sendable rest)
    (h : d ++ tail = frames rest) (hd : d.length = lenSize) :
    ∃ body rest', rest = body :: rest' ∧ d = beBytes 4 body.length ∧ readBE d = body.length ∧
      tail = body ++ frames rest' := by
  cases rest with
  | nil =>
    have : d = [] := (List.append_eq_nil_iff.mp h).1
    rw [this] at hd
    cases hd
  | cons body rest' =>
    obtain ⟨⟨-, hlen⟩, -⟩ := sendable_cons.mp hrest
    rw [frames_cons] at h
    obtain ⟨rfl, rfl⟩ := List.append_inj h (by rw [hd, length_beBytes]; rfl)
    exact ⟨body, rest', rfl, rfl, readBE_beBytes (by omega), rfl⟩

/-! ## The place in the stream -/

namespace Connection

/-- The part of a length that the connection has. -/
def lenPart (c : Connection) : List UInt8 := c.readBuf.take c.lenGot

theorem makeRoom_take (c : Connection) : c.makeRoom.readBuf.take c.lenGot = c.lenPart := by
  by_cases h : c.readBuf = [] <;> simp [makeRoom, lenPart, lenGot, h]

/-- What the connection has of the request it is reading. -/
def consumed (c : Connection) : List UInt8 :=
  match c.state with
  | .readLen => c.lenPart
  | .readBody | .ready => beBytes 4 c.expectLen ++ c.readBuf
  | _ => []

theorem consumed_readLen {c : Connection} (hc : c.state = .readLen) : c.consumed = c.lenPart := by
  rw [consumed, hc]

theorem consumed_readBody {c : Connection} (hc : c.state = .readBody) :
    c.consumed = beBytes 4 c.expectLen ++ c.readBuf := by
  rw [consumed, hc]

end Connection

/-- What a step of `HandleRead` has taken from the socket, the connection has in addition. -/
def Consumes (s : Socket) (c : Connection) (s' : Socket) (c' : Connection) : Prop :=
  (∃ d count, s.read count = (.data d, s') ∧ c'.consumed = c.consumed ++ d ∧
      (c.state = .readLen ∨ c.state = .readBody)) ∨
    (s' = s ∨ ∃ count, s.read count = (.wouldBlock, s')) ∧ c'.consumed = c.consumed

/-- Where a connection is in the stream, with the bytes still to come and the bodies that have not
been taken yet. -/
def Position (c : Connection) (bytes : List UInt8) (rest : List (List UInt8)) : Prop :=
  match c.state with
  | .readLen =>
    c.lenGot < lenSize ∧ (c.readBuf ≠ [] → c.readBuf.length = lenSize) ∧
      c.lenPart ++ bytes = frames rest
  | .readBody =>
    ∃ body rest', rest = body :: rest' ∧ c.expectLen = body.length ∧
      c.readBuf ++ bytes = body ++ frames rest' ∧ c.readBuf.length < body.length
  | .ready =>
    ∃ body rest', rest = body :: rest' ∧ c.expectLen = body.length ∧
      c.readBuf ++ bytes = body ++ frames rest' ∧ body.length ≤ c.readBuf.length
  | .processing | .writeResp => c.readBuf = [] ∧ bytes = frames rest
  | .closed => False

section Position

variable {s s' : Socket} {c c' : Connection} {pc : ReadPc} {ctl : Ctl ReadPc Bool}
  {rest : List (List UInt8)}

theorem position_readLen (hc : c.state = .readLen) {bytes : List UInt8} :
    Position c bytes rest ↔ c.lenGot < lenSize ∧
      (c.readBuf ≠ [] → c.readBuf.length = lenSize) ∧ c.lenPart ++ bytes = frames rest := by
  rw [Position, hc]

theorem position_readBody (hc : c.state = .readBody) {bytes : List UInt8} :
    Position c bytes rest ↔
      ∃ body rest', rest = body :: rest' ∧ c.expectLen = body.length ∧
        c.readBuf ++ bytes = body ++ frames rest' ∧ c.readBuf.length < body.length := by
  rw [Position, hc]

theorem position_ready (hc : c.state = .ready) {bytes : List UInt8} :
    Position c bytes rest ↔
      ∃ body rest', rest = body :: rest' ∧ c.expectLen = body.length ∧
        c.readBuf ++ bytes = body ++ frames rest' ∧ body.length ≤ c.readBuf.length := by
  rw [Position, hc]

/-- Room for a length does not change the place. -/
theorem Position.makeRoom {bytes : List UInt8} (h : Position c bytes rest)
    (hc : c.state = .readLen) : Position c.makeRoom bytes rest := by
  rw [position_readLen hc] at h
  obtain ⟨hlen, hbuf, hbytes⟩ := h
  rw [position_readLen (by rwa [Connection.makeRoom_state])]
  refine ⟨by rwa [Connection.makeRoom_lenGot], fun _ => ?_, ?_⟩
  · rw [Connection.makeRoom]
    split
    · simp
    next hne => exact hbuf hne
  · rwa [Connection.lenPart, Connection.makeRoom_lenGot, Connection.makeRoom_take]

/-- The buffer with some more bytes of a length in it. -/
theorem lenBuf_take {d : List UInt8} (hbuf : c.readBuf ≠ [] → c.readBuf.length = lenSize)
    (hd : c.lenGot + d.length ≤ lenSize) :
    (c.lenBuf d).length = lenSize ∧ (c.lenBuf d).take (c.lenGot + d.length) = c.lenPart ++ d := by
  have hroom : c.makeRoom.readBuf.length = lenSize := by
    rw [Connection.makeRoom]
    split
    · simp
    next hne => exact hbuf hne
  have hpart : c.lenPart.length = c.lenGot := by
    rw [← Connection.makeRoom_take, List.length_take, hroom]
    omega
  rw [Connection.lenBuf, Connection.makeRoom_take]
  constructor
  · simp only [List.length_append, List.length_drop, hroom, hpart]
    omega
  · rw [List.take_left' (by rw [List.length_append, hpart])]

/-- **One call of `read` moves along the stream.** In the right place, `HandleRead` never gives
the connection up. -/
theorem Position.readStep (h : Position c s.bytes rest) (hs : s.Lasting) (hrest : Sendable rest)
    (hstep : readStep s c pc = (s', c', ctl)) :
    Position c' s'.bytes rest ∧ s'.Lasting ∧ ctl ≠ .ret false ∧ Consumes s c s' c' := by
  cases pc with
  | head =>
    by_cases hc : c.state = .readLen
    · have hpos := h
      rw [position_readLen hc] at hpos
      obtain ⟨hlen, hbuf, hbytes⟩ := hpos
      have hcount : lenSize - c.lenGot ≠ 0 := by omega
      obtain ⟨hs', hres⟩ := hs.read hcount
      rcases hr : s.read (lenSize - c.lenGot) with ⟨r, t⟩
      rw [hr] at hs' hres
      rcases hres with rfl | ⟨d, rfl⟩
      · rw [readStep_readLen_wouldBlock hc hr] at hstep
        cases hstep
        rw [(Socket.read_wouldBlock hr).1]
        refine ⟨h.makeRoom hc, hs', by rintro ⟨⟩, .inr ⟨.inr ⟨_, hr⟩, ?_⟩⟩
        simp [Connection.consumed, hc, Connection.lenPart, Connection.makeRoom_take]
      · obtain ⟨hsplit, hd, hcount, -⟩ := Socket.read_data hr
        obtain ⟨hbuflen, htake⟩ := lenBuf_take (c := c) (d := d) hbuf (by omega)
        rw [← hsplit, ← List.append_assoc] at hbytes
        by_cases hshort : c.lenGot + d.length < lenSize
        · rw [readStep_readLen_short hc hr hshort] at hstep
          cases hstep
          have hgot : ({ c with readBuf := c.lenBuf d, lenRead := c.lenGot + d.length } :
              Connection).lenGot = c.lenGot + d.length :=
            Connection.lenGot_of_ne_nil (by simp [Connection.lenBuf, hd])
          refine ⟨?_, hs', by rintro ⟨⟩, .inl ⟨d, _, hr, ?_, .inl hc⟩⟩
          · rw [position_readLen (by exact hc), hgot]
            refine ⟨hshort, fun _ => hbuflen, ?_⟩
            rw [Connection.lenPart, hgot, htake]
            exact hbytes
          · rw [Connection.consumed_readLen (by exact hc), Connection.consumed_readLen hc,
              ← htake, Connection.lenPart, hgot]
        · have hfull : c.lenGot + d.length = lenSize := by omega
          rw [readStep_readLen_done hc hr hshort] at hstep
          cases hstep
          rw [hfull] at htake
          have hsize : (c.lenPart ++ d).length = lenSize := by
            rw [← htake, List.length_take, hbuflen, min_self]
          obtain ⟨body, rest', hcons, hhead, hread, htail⟩ := length_of_frames hrest hbytes hsize
          refine ⟨?_, hs', by rintro ⟨⟩, .inl ⟨d, _, hr, ?_, .inl hc⟩⟩
          · rw [position_readBody rfl]
            subst hcons
            have hne : body ≠ [] := (sendable_cons.mp hrest).1.1
            exact ⟨body, rest', rfl, by rw [htake, hread], htail, List.length_pos_of_ne_nil hne⟩
          · rw [Connection.consumed_readBody rfl, Connection.consumed_readLen hc, htake, hread,
              hhead, List.append_nil]
    · rw [readStep_head hc] at hstep
      cases hstep
      exact ⟨h, hs, by rintro ⟨⟩, .inr ⟨.inl rfl, rfl⟩⟩
  | branch p =>
    by_cases hc : c.state = .readBody
    · have hpos := h
      rw [position_readBody hc] at hpos
      obtain ⟨body, rest', hcons, hexpect, hbytes, hlt⟩ := hpos
      have hcount : maxBodyBufferSize ≠ 0 := by decide
      obtain ⟨hs', hres⟩ := hs.read hcount
      rcases hr : s.read maxBodyBufferSize with ⟨r, t⟩
      rw [hr] at hs' hres
      rcases hres with rfl | ⟨d, rfl⟩
      · rw [readStep_readBody_stop hc hr (by rintro _ ⟨⟩)] at hstep
        cases hstep
        rw [(Socket.read_wouldBlock hr).1]
        exact ⟨h, hs', by rintro ⟨⟩, .inr ⟨.inr ⟨_, hr⟩, rfl⟩⟩
      · obtain ⟨hsplit, -, -, -⟩ := Socket.read_data hr
        rw [← hsplit, ← List.append_assoc] at hbytes
        rw [readStep_readBody hc hr] at hstep
        split at hstep
        next hdone =>
          cases hstep
          refine ⟨?_, hs', by rintro ⟨⟩, .inl ⟨d, _, hr, by simp [Connection.consumed, hc],
            .inr hc⟩⟩
          rw [position_ready rfl]
          exact ⟨body, rest', hcons, hexpect, hbytes, by rwa [hexpect] at hdone⟩
        next hdone =>
          cases hstep
          refine ⟨?_, hs', by rintro ⟨⟩, .inl ⟨d, _, hr, by simp [Connection.consumed, hc],
            .inr hc⟩⟩
          rw [position_readBody (by exact hc)]
          rw [hexpect, not_le] at hdone
          exact ⟨body, rest', hcons, hexpect, hbytes, hdone⟩
    · rw [readStep_branch hc] at hstep
      cases hstep
      refine ⟨h, hs, ?_, .inr ⟨.inl rfl, rfl⟩⟩
      cases p with
      | false => rintro ⟨⟩
      | true =>
        rw [if_pos rfl, Connection.loopEnd]
        split <;> rintro ⟨⟩

end Position

/-! ## Clients that wait -/

/-- No piece that becomes readable reaches over the end of a request. So it is when the client
sends a request only after it has the answer to the one before. -/
def CutAtRequests (bodies : List (List UInt8)) (s : Socket) : Prop :=
  ∀ k, ∃ s₁ s₂ : Socket, s = s₁ ++ s₂ ∧ s₁.bytes = frames (bodies.take k)

/-- The same for a connection that has part of the first request. -/
def CutAhead (c : Connection) (s : Socket) (rest : List (List UInt8)) : Prop :=
  ∀ k, ∃ s₁ s₂ : Socket, s = s₁ ++ s₂ ∧ c.consumed ++ s₁.bytes = frames (rest.take (k + 1))

section Waiting

variable {s s' : Socket} {c c' : Connection} {rest : List (List UInt8)}

/-- A request that is being read is not complete. -/
theorem Position.consumed_lt {bytes : List UInt8} {body : List UInt8} {rest' : List (List UInt8)}
    (h : Position c bytes (body :: rest')) (hc : c.state = .readLen ∨ c.state = .readBody) :
    c.consumed.length < (frame body).length := by
  rw [frame, List.length_append, length_beBytes]
  rcases hc with hc | hc
  · rw [position_readLen hc] at h
    rw [Connection.consumed_readLen hc, Connection.lenPart, List.length_take]
    have := h.1
    rw [lenSize] at this
    omega
  · rw [position_readBody hc] at h
    obtain ⟨b, r, hcons, -, -, hlt⟩ := h
    cases hcons
    rw [Connection.consumed_readBody hc, List.length_append, length_beBytes]
    omega

/-- Nothing to read when nothing is left. -/
theorem Position.eq_nil {bytes : List UInt8} (h : Position c bytes [])
    (hc : c.state = .readLen ∨ c.state = .readBody) : bytes = [] := by
  rcases hc with hc | hc
  · rw [position_readLen hc] at h
    exact (List.append_eq_nil_iff.mp h.2.2).2
  · rw [position_readBody hc] at h
    obtain ⟨b, r, hcons, -⟩ := h
    cases hcons

/-- What the connection has and what is still to come are the requests left. -/
theorem Position.consumed_append {bytes : List UInt8} (h : Position c bytes rest)
    (hc : c.state ≠ .ready) : c.consumed ++ bytes = frames rest := by
  rw [Position] at h
  rw [Connection.consumed]
  cases hstate : c.state with
  | readLen =>
    rw [hstate] at h
    exact h.2.2
  | readBody =>
    rw [hstate] at h
    obtain ⟨body, rest', rfl, hexpect, hbytes, -⟩ := h
    rw [frames_cons, ← hbytes, hexpect, List.append_assoc]
  | ready => exact absurd hstate hc
  | processing | writeResp =>
    rw [hstate] at h
    exact h.2
  | closed =>
    rw [hstate] at h
    exact h.elim

/-- Reading within a request keeps the cuts ahead. -/
theorem CutAhead.consumes (hcut : CutAhead c s rest) (h : Position c s.bytes rest)
    (hstep : Consumes s c s' c') : CutAhead c' s' rest := by
  intro k
  obtain ⟨s₁, s₂, rfl, hbytes⟩ := hcut k
  rcases hstep with ⟨d, count, hr, hd, hc⟩ | ⟨rfl | ⟨count, hr⟩, hd⟩
  · -- the bytes come from before the next cut
    have hne : s₁ ≠ [] := by
      rintro rfl
      cases rest with
      | nil =>
        obtain ⟨hsplit, hne, -⟩ := Socket.read_data hr
        rw [h.eq_nil hc] at hsplit
        exact hne (List.append_eq_nil_iff.mp hsplit).1
      | cons body rest' =>
        have := h.consumed_lt hc
        rw [Socket.bytes_nil, List.append_nil, List.take_succ_cons] at hbytes
        rw [hbytes, frames, List.flatMap_cons, List.length_append] at this
        omega
    rcases hr₁ : s₁.read count with ⟨r, t⟩
    rw [Socket.read_append hne, hr₁] at hr
    cases hr
    obtain ⟨hsplit, -⟩ := Socket.read_data hr₁
    exact ⟨_, s₂, rfl, by rw [hd, List.append_assoc, hsplit, hbytes]⟩
  · exact ⟨s₁, s₂, rfl, by rw [hd, hbytes]⟩
  · by_cases hne : s₁ = []
    · subst hne
      exact ⟨[], s', rfl, by rw [hd]; exact hbytes⟩
    · rcases hr₁ : s₁.read count with ⟨r, t⟩
      rw [Socket.read_append hne, hr₁] at hr
      cases hr
      obtain ⟨hsame, -⟩ := Socket.read_wouldBlock hr₁
      exact ⟨_, s₂, rfl, by rw [hd, hsame, hbytes]⟩

/-- The cuts behind a request that has been read. -/
theorem CutAhead.tail {body : List UInt8} {rest' : List (List UInt8)}
    (hcut : CutAhead c s (body :: rest')) (hc : c.consumed = frame body)
    (hc' : c'.consumed = []) : CutAhead c' s rest' := by
  intro k
  obtain ⟨s₁, s₂, rfl, hbytes⟩ := hcut (k + 1)
  refine ⟨s₁, s₂, rfl, ?_⟩
  rw [hc, List.take_succ_cons, frames, List.flatMap_cons] at hbytes
  rw [hc']
  exact List.append_cancel_left hbytes

end Waiting

/-! ## What has been taken -/

/-- The takes of a reader that is in step. -/
def takes (bodies : List (List UInt8)) : List Take := bodies.map fun b => ⟨b.length, b⟩

/-- The reader is in step: it has taken the first bodies, and is in the right place for the
others. If the client waits, the bytes ahead are cut at the requests. -/
def InStep (bodies : List (List UInt8)) (waits : Prop) (s : Socket) (c : Connection)
    (taken : List Take) : Prop :=
  ∃ done rest, bodies = done ++ rest ∧ taken = takes done ∧ Position c s.bytes rest ∧ s.Lasting ∧
    (waits → CutAhead c s rest)

/-- The reader has read too far: after the first bodies it has taken more than the next one. -/
def ReadTooFar (bodies : List (List UInt8)) (taken : List Take) : Prop :=
  ∃ done body rest t more, bodies = done ++ body :: rest ∧ taken = takes done ++ t :: more ∧
    t.announced = body.length ∧ body.length < t.request.length

section Taken

variable {bodies : List (List UInt8)} {waits : Prop} {s s' : Socket} {c c' : Connection}
  {taken taken' : List Take} {n k : ℕ} {pc : ReadPc} {ctl : Ctl ReadPc Bool} {isOpen ok : Bool}

theorem ReadTooFar.append (h : ReadTooFar bodies taken) (more : List Take) :
    ReadTooFar bodies (taken ++ more) := by
  obtain ⟨done, body, rest, t, more', hb, rfl, ha, hlt⟩ := h
  exact ⟨done, body, rest, t, more' ++ more, hb, by simp, ha, hlt⟩

/-- One call of `read`. -/
theorem InStep.readStep (hb : Sendable bodies) (h : InStep bodies waits s c taken)
    (hstep : readStep s c pc = (s', c', ctl)) :
    InStep bodies waits s' c' taken ∧ ctl ≠ .ret false := by
  obtain ⟨done, rest, hbodies, htaken, hpos, hs, hcut⟩ := h
  have hrest : Sendable rest := fun b hmem => hb b (by simp [hbodies, hmem])
  obtain ⟨hpos', hs', hctl, hcons⟩ := hpos.readStep hs hrest hstep
  exact ⟨⟨done, rest, hbodies, htaken, hpos', hs', fun hw => (hcut hw).consumes hpos hcons⟩, hctl⟩

/-- `HandleRead` as a whole. In step, it does not give the connection up. -/
theorem InStep.runRead (hb : Sendable bodies) (h : InStep bodies waits s c taken)
    (hrun : runRead n s c pc = some (ok, c', s')) :
    InStep bodies waits s' c' taken ∧ ok = true := by
  induction n generalizing s c pc with
  | zero => cases hrun
  | succ n ih =>
    rcases hstep : OvsServer.readStep s c pc with ⟨t, c₁, ctl⟩
    obtain ⟨h₁, hctl⟩ := h.readStep hb hstep
    cases ctl with
    | goto pc' => exact ih h₁ (by rwa [runRead_goto hstep] at hrun)
    | ret b =>
      rw [runRead_ret hstep] at hrun
      cases hrun
      cases ok with
      | false => exact absurd rfl hctl
      | true => exact ⟨h₁, rfl⟩

/-- Taking a request that is complete. It is not longer than announced if the client waits. -/
theorem InStep.take (h : InStep bodies waits s c taken) (hc : c.state = .ready) :
    InStep bodies waits s c.takeRequest.2 (taken ++ [⟨c.expectLen, c.takeRequest.1⟩]) ∨
      ReadTooFar bodies (taken ++ [⟨c.expectLen, c.takeRequest.1⟩]) ∧ ¬waits := by
  obtain ⟨done, rest, hb, rfl, hpos, hs, hcut⟩ := h
  rw [position_ready hc] at hpos
  obtain ⟨body, rest', rfl, hexpect, hbytes, hle⟩ := hpos
  have hconsumed : c.consumed = beBytes 4 body.length ++ c.readBuf := by
    rw [Connection.consumed, hc, hexpect]
  rcases hle.lt_or_eq with hlt | heq
  · refine .inr ⟨⟨done, body, rest', _, [], hb, rfl, hexpect, hlt⟩, fun hw => ?_⟩
    obtain ⟨s₁, s₂, -, hone⟩ := hcut hw 0
    have hlen := congrArg List.length hone
    rw [hconsumed] at hlen
    simp only [List.take_succ_cons, List.take_zero, frames_cons, frames_nil, List.length_append,
      List.length_nil] at hlen
    omega
  · obtain ⟨hbuf, htail⟩ := List.append_inj hbytes heq.symm
    refine .inl ⟨done ++ [body], rest', by simp [hb], ?_, ⟨rfl, htail⟩, hs, fun hw => ?_⟩
    · simp [takes, Connection.takeRequest, hexpect, hbuf]
    · exact (hcut hw).tail (by rw [hconsumed, hbuf, frame]) rfl

/-- What has been taken stays. -/
theorem readEvent_taken (hrun : readEvent n k s c taken = some (isOpen, s', c', taken')) :
    ∃ more, taken' = taken ++ more := by
  induction k generalizing s c taken with
  | zero => cases hrun
  | succ k ih =>
    rw [readEvent] at hrun
    split at hrun
    · cases hrun
    · cases hrun
      exact ⟨[], by simp⟩
    · split at hrun
      · obtain ⟨more, rfl⟩ := ih hrun
        exact ⟨_, List.append_assoc _ _ _⟩
      · cases hrun
        exact ⟨[], by simp⟩

/-- An input event leaves a reader in step, with no complete request left behind, or too far. -/
theorem InStep.readEvent (hb : Sendable bodies) (h : InStep bodies waits s c taken)
    (hrun : readEvent n k s c taken = some (isOpen, s', c', taken')) :
    InStep bodies waits s' c' taken' ∧ c'.state ≠ .ready ∨ ReadTooFar bodies taken' ∧ ¬waits := by
  induction k generalizing s c taken with
  | zero => cases hrun
  | succ k ih =>
    rw [OvsServer.readEvent] at hrun
    rcases hread : OvsServer.runRead n s c .head with _ | ⟨ok, c₁, s₁⟩
    · rw [hread] at hrun
      cases hrun
    obtain ⟨h₁, rfl⟩ := h.runRead hb hread
    simp only [hread] at hrun
    split at hrun
    next hready =>
      rcases h₁.take (of_decide_eq_true hready) with hstep | ⟨hfar, hw⟩
      · exact ih hstep hrun
      · obtain ⟨more, rfl⟩ := readEvent_taken hrun
        exact .inr ⟨hfar.append more, hw⟩
    next hready =>
      cases hrun
      exact .inl ⟨h₁, fun hc => hready (decide_eq_true hc)⟩

/-- An answer is on its way. -/
theorem InStep.respond (h : InStep bodies waits s c taken) (hc : c.state = .processing)
    (resp : List UInt8) : InStep bodies waits s (c.setResponse resp) taken := by
  obtain ⟨done, rest, hb, ht, hpos, hs, hcut⟩ := h
  rw [Position, hc] at hpos
  refine ⟨done, rest, hb, ht, hpos, hs, fun hw => ?_⟩
  have := hcut hw
  rwa [CutAhead, Connection.consumed, hc] at this

/-- Writing an answer, and going back to reading when it is written. -/
theorem InStep.output (h : InStep bodies waits s c taken) (hc : c.state = .writeResp) (n : ℕ) :
    InStep bodies waits s (c.handleWrite n) taken := by
  by_cases hempty : c.writeBuf = []
  · rwa [Connection.handleWrite, if_pos hempty]
  rw [Connection.handleWrite, if_neg hempty]
  obtain ⟨done, rest, hb, ht, hpos, hs, hcut⟩ := h
  rw [Position, hc] at hpos
  simp only [CutAhead, Connection.consumed, hc] at hcut
  by_cases hend : c.writeBuf.drop n = []
  · refine ⟨done, rest, hb, ht, ?_, hs, fun hw => ?_⟩
    · rw [position_readLen (by simp [hend])]
      simp [Connection.lenGot, Connection.lenPart, hpos, lenSize]
    · simpa [CutAhead, Connection.consumed, hend, Connection.lenPart, hpos.1] using hcut hw
  · refine ⟨done, rest, hb, ht, ?_, hs, fun hw => ?_⟩
    · simpa only [Position, hend, if_false, hc] using hpos
    · simpa [CutAhead, Connection.consumed, hend, hc] using hcut hw

/-- When everything has been read, everything has been taken. -/
theorem InStep.complete (h : InStep bodies waits s c taken) (hc : c.state ≠ .ready)
    (hend : s.bytes = []) : taken = takes bodies := by
  obtain ⟨done, rest, rfl, rfl, hpos, -, -⟩ := h
  have hall := hpos.consumed_append hc
  cases rest with
  | nil => rw [List.append_nil]
  | cons body rest' =>
    -- the first request would be complete, but then it has been taken
    rw [hend, List.append_nil, frames, List.flatMap_cons] at hall
    have hlen := congrArg List.length hall
    rw [List.length_append] at hlen
    by_cases hread : c.state = .readLen ∨ c.state = .readBody
    · have := hpos.consumed_lt hread
      omega
    · rw [not_or] at hread
      have hzero : c.consumed = [] := by
        cases hstate : c.state <;> simp_all [Connection.consumed]
      rw [hzero, frame, List.length_append, length_beBytes, List.length_nil] at hlen
      omega

end Taken

/-! ## Whole lives -/

section Lives

variable {bodies : List (List UInt8)} {waits : Prop} {s : Socket} {tr : List Unit} {l l' : Life}
  {a : LifeAction}

/-- In step, with no complete request left behind, or too far. -/
def Life.Accounted (bodies : List (List UInt8)) (waits : Prop) (l : Life) : Prop :=
  InStep bodies waits l.socket l.conn l.taken ∧ l.conn.state ≠ .ready ∨
    ReadTooFar bodies l.taken ∧ ¬waits

theorem Life.Accounted.step (hb : Sendable bodies) (h : l.Accounted bodies waits)
    (hstep : l.step a = some l') : l'.Accounted bodies waits := by
  cases a with
  | input rounds steps =>
    rw [Life.step] at hstep
    split at hstep
    on_goal 2 => cases hstep
    split at hstep
    · cases hstep
    next hrun =>
      cases hstep
      rcases h with ⟨hin, -⟩ | ⟨hfar, hw⟩
      · exact hin.readEvent hb hrun
      · obtain ⟨more, hmore⟩ := readEvent_taken hrun
        exact .inr ⟨hmore ▸ hfar.append more, hw⟩
  | respond resp =>
    rw [Life.step] at hstep
    split at hstep
    next hc =>
      cases hstep
      exact h.imp_left fun ⟨hin, _⟩ => ⟨hin.respond hc.2 resp, nofun⟩
    next => cases hstep
  | output written =>
    rw [Life.step] at hstep
    split at hstep
    next hc =>
      cases hstep
      refine h.imp_left fun ⟨hin, hne⟩ => ⟨hin.output hc.2 written, ?_⟩
      rw [Connection.handleWrite]
      split
      · exact hne
      · dsimp only
        split
        · nofun
        · exact hne
    next => cases hstep

/-- **At every moment of its life, a connection is in step or has read too far**, and it does not
read too far if the client waits. -/
theorem accounted_of_lived (hb : Sendable bodies) (hs : s.Lasting)
    (hbytes : s.bytes = frames bodies) (hwaits : waits → CutAtRequests bodies s)
    (h : Lived s tr l) : l.Accounted bodies waits := by
  refine h.invariant (I := fun _ l => l.Accounted bodies waits) ?_
    fun _ _ _ _ hl _ hstep => hl.step hb hstep
  refine .inl ⟨⟨[], bodies, rfl, rfl, ?_, hs, fun hw k => hwaits hw (k + 1)⟩, nofun⟩
  simpa [Position, Connection.lenGot, lenSize, Connection.lenPart] using hbytes

theorem takes_request (bodies : List (List UInt8)) :
    (takes bodies).map Take.request = bodies := by
  rw [takes, List.map_map]
  exact List.map_id bodies

/-- A reader in step has taken the first bodies. -/
theorem InStep.first_bodies {s : Socket} {c : Connection} {taken : List Take}
    (h : InStep bodies waits s c taken) :
    taken.map Take.request <+: bodies ∧ ∀ t ∈ taken, t.request.length = t.announced := by
  obtain ⟨done, rest, rfl, rfl, -⟩ := h
  rw [takes_request]
  refine ⟨List.prefix_append _ _, fun t ht => ?_⟩
  obtain ⟨b, -, rfl⟩ := List.mem_map.mp ht
  rfl

/-- A reader that has gone too far has taken something else. -/
theorem ReadTooFar.not_first_bodies {taken : List Take} (h : ReadTooFar bodies taken) :
    ¬taken.map Take.request <+: bodies ∧ ¬∀ t ∈ taken, t.request.length = t.announced := by
  obtain ⟨done, body, rest, t, more, rfl, rfl, ha, hlt⟩ := h
  refine ⟨fun hp => ?_, fun hall => ?_⟩
  · rw [List.map_append, takes_request, List.prefix_append_right_inj, List.map_cons,
      List.cons_prefix_cons] at hp
    rw [hp.1] at hlt
    exact lt_irrefl _ hlt
  · have := hall t (by simp)
    omega

end Lives

/-- **Requests as sent, requests as taken.** However the bytes of some requests are cut, and
whatever the connection has gone through: the requests it has handed out are the first of those
that were sent, and all of them once everything has been read, exactly if none is longer than its
announced length. This is so for a client that waits for its answers. -/
theorem taken_eq_bodies_iff {bodies : List (List UInt8)} {s : Socket} {tr : List Unit} {l : Life}
    (hb : Sendable bodies) (hs : s.Lasting) (hbytes : s.bytes = frames bodies)
    (h : Lived s tr l) :
    (l.taken.map Take.request <+: bodies ↔ ∀ t ∈ l.taken, t.request.length = t.announced) ∧
      (l.socket.bytes = [] → (l.taken.map Take.request = bodies ↔
        ∀ t ∈ l.taken, t.request.length = t.announced)) ∧
      (CutAtRequests bodies s → ∀ t ∈ l.taken, t.request.length = t.announced) := by
  rcases accounted_of_lived hb hs hbytes (id : CutAtRequests bodies s → _) h with
    ⟨hin, hready⟩ | ⟨hfar, hw⟩
  · obtain ⟨hfirst, hlen⟩ := hin.first_bodies
    refine ⟨iff_of_true hfirst hlen, fun hend => iff_of_true ?_ hlen, fun _ => hlen⟩
    rw [hin.complete hready hend, takes_request]
  · obtain ⟨hfirst, hlen⟩ := hfar.not_first_bodies
    refine ⟨iff_of_false hfirst hlen, fun _ => iff_of_false ?_ hlen, fun hcut => absurd hcut hw⟩
    rintro heq
    exact hfirst (heq ▸ List.prefix_rfl)

/-- A life that has been evaluated, for its end. -/
theorem exists_lived (s : Socket) (as : List LifeAction) (test : Life → Bool)
    (h : (lives.run (fun _ _ => true) { socket := s } [] as).any (fun r => test r.2) = true) :
    ∃ tr l, Lived s tr l ∧ test l = true :=
  Lts.exists_exec (fun _ _ _ => trivial) as (fun _ l => test l) h

theorem sendable_two : Sendable [[7], [8]] := by
  simp [Sendable]

/-- Two requests of one byte, the second sent after the first was answered. -/
theorem taken_eq_bodies_two :
    ∃ tr l, Lived [.chunk 0 [0, 0, 1, 7], .wouldBlock, .chunk 0 [0], .chunk 0 [1, 8]] tr l ∧
      l.socket.bytes = [] ∧ l.taken.map Take.request = [[7], [8]] := by
  obtain ⟨tr, l, h, htest⟩ := exists_lived
    [.chunk 0 [0, 0, 1, 7], .wouldBlock, .chunk 0 [0], .chunk 0 [1, 8]]
    [.input 2 4, .respond [], .output 4, .input 2 12]
    (fun l => l.socket.bytes = [] ∧ ∀ t ∈ l.taken, t.request.length = t.announced)
    (by decide +kernel)
  obtain ⟨hend, hlen⟩ := of_decide_eq_true htest
  have hs : Socket.Lasting [.chunk 0 [0, 0, 1, 7], .wouldBlock, .chunk 0 [0], .chunk 0 [1, 8]] := by
    simp [Socket.Lasting]
  have hiff := taken_eq_bodies_iff sendable_two hs (by decide) h
  exact ⟨tr, l, h, hend, (hiff.2.1 hend).mpr hlen⟩

/-- The same two requests in one go: one request is handed out, and it is neither of them. -/
theorem pipelined_requests_merge :
    Sendable [[7], [8]] ∧
      ∃ s tr l, Socket.Lasting s ∧ s.bytes = frames [[7], [8]] ∧ Lived s tr l ∧
        l.socket.bytes = [] ∧ l.taken.map Take.request = [[7, 0, 0, 0, 1, 8]] := by
  obtain ⟨tr, l, h, htest⟩ := exists_lived (Socket.available [(0, [0, 0, 1, 7, 0, 0, 0, 1, 8])])
    [.input 2 4]
    (fun l => l.socket.bytes = [] ∧ l.taken.map Take.request = [[7, 0, 0, 0, 1, 8]])
    (by decide +kernel)
  exact ⟨sendable_two, _, tr, l, Socket.lasting_available _, by decide, h, of_decide_eq_true htest⟩

end YellowZone.OvsServer
