import YellowZone.Machine.Execution
import YellowZone.Machine.Lines
import YellowZone.ControlPlane.Json

/-!
# Peers of the control plane

A `JsonPeer` writes each message as one line of JSON and reads lines of JSON from its socket. Any
number of threads may call `send`; the reader is one thread, which puts the messages into a queue.

## The reader

`readLoop` follows `_read_loop`. A `Chunk` is what one call of `recv` returns, and the list of
chunks is how the stream happened to be cut; after them the reader waits for more, or the stream
ends or fails (`Ending`). The size limit is checked in two places: on a buffer without a newline,
after each chunk, and on each complete line. That the two agree is `readLoop_eq`: the outcome is
`readStream` of the bytes. It rests on a chunk being much smaller than the limit, since a tail that
follows a newline within one chunk is not checked.

## The senders

`sender` is what the threads of one peer can do. A call of `send` looks at the closed flag, makes
the payload and compares its size with the limit; then it takes the lock and hands the payload to
the socket, in pieces of any size. A call of `sendall` that fails leaves a beginning of its payload
on the wire. The socket is a TCP socket without a timeout, so that an error is for good, and nothing
is written after it (`broken`). An exception in front of the lock, from the encoder as well as from
the two tests, leaves no bytes at all.

## Main results

* `readLoop_eq` — what is delivered depends on the bytes alone
* `wireOk_of_run` — the wire holds the payloads of the finished calls, and possibly a beginning of
  one more
* `delivers_returned_sends` — what the other side receives
-/

namespace YellowZone.ControlPlane

open Machine

/-- `MAX_MESSAGE_BYTES`. -/
def maxMessageBytes : ℕ := 1024 * 1024

/-- How much one call of `recv` asks for. -/
def recvSize : ℕ := 65536

/-- The byte that ends a line. -/
def newline : UInt8 := 10

/-- What a call of `recv` returns from a stream that has not ended. -/
structure Chunk where
  data : List UInt8
  nonempty : data ≠ []
  small : data.length ≤ recvSize

/-- The bytes of a stream that comes in chunks. -/
def stream (chunks : List Chunk) : List UInt8 := chunks.flatMap Chunk.data

/-- Why a reader gives up: the kinds of exception that it puts into the queue. -/
inductive ReadError where
  | disconnected
  | oversized
  | invalidJson
  | invalidMessage
  /-- An exception of `json.loads` that is not handled as invalid JSON. -/
  | raised
  /-- An exception of `recv`. -/
  | failed
  deriving DecidableEq, Repr

/-- What comes after the bytes: nothing yet, the end of the stream, or an error of the socket. -/
inductive Ending where
  | waiting
  | closed
  | failed
  deriving DecidableEq, Repr

/-- What the reader puts into the queue for it. -/
def Ending.error : Ending → Option ReadError
  | waiting => none
  | closed => some .disconnected
  | failed => some .failed

/-- What a reader has put into its queue: messages, and at the end perhaps an exception. -/
structure Reading where
  messages : List Json
  error : Option ReadError

/-- More messages in front. -/
def Reading.after (messages : List Json) (r : Reading) : Reading :=
  ⟨messages ++ r.messages, r.error⟩

/-! ## The reader -/

/-- One complete line. -/
def readLine (loads : Loads) (raw : List UInt8) : Except ReadError Json :=
  if maxMessageBytes < raw.length then .error .oversized
  else
    match loads raw with
    | .undecodable => .error .invalidJson
    | .raised => .error .raised
    | .value message => if message.isMessage then .ok message else .error .invalidMessage

/-- The inner loop of `_read_loop`: it takes the complete lines out of the buffer. -/
def drain (loads : Loads) (buffer : List UInt8) : List Json × Except ReadError (List UInt8) :=
  if newline ∈ buffer then
    let raw := buffer.takeWhile (· != newline)
    let remainder := (buffer.dropWhile (· != newline)).tail
    match readLine loads raw with
    | .error e => ([], .error e)
    | .ok message =>
      let (messages, rest) := drain loads remainder
      (message :: messages, rest)
  else ([], .ok buffer)
termination_by buffer.length
decreasing_by
  have := List.length_pos_of_mem ‹newline ∈ buffer›
  have := (List.dropWhile_suffix (· != newline) (l := buffer)).length_le
  rw [List.length_tail]
  omega

/-- `_read_loop`, from a buffer on. -/
def readLoop (loads : Loads) (buffer : List UInt8) : List Chunk → Ending → Reading
  | [], ending => ⟨[], ending.error⟩
  | chunk :: chunks, ending =>
    let buffer := buffer ++ chunk.data
    if maxMessageBytes < buffer.length ∧ newline ∉ buffer then ⟨[], some .oversized⟩
    else
      match drain loads buffer with
      | (messages, .error e) => ⟨messages, some e⟩
      | (messages, .ok buffer) => (readLoop loads buffer chunks ending).after messages

/-- The messages of complete lines, up to the first one that is refused. -/
def readLines (loads : Loads) : List (List UInt8) → Reading
  | [] => ⟨[], none⟩
  | raw :: more =>
    match readLine loads raw with
    | .error e => ⟨[], some e⟩
    | .ok message => (readLines loads more).after [message]

/-- A stream taken as a whole: its complete lines, then the size of what follows them, then its
end. -/
def readStream (loads : Loads) (bytes : List UInt8) (ending : Ending) : Reading :=
  let (complete, tail) := lines newline bytes
  match readLines loads complete with
  | ⟨messages, some e⟩ => ⟨messages, some e⟩
  | ⟨messages, none⟩ =>
    ⟨messages, if maxMessageBytes < tail.length then some .oversized else ending.error⟩

section Reader

variable {loads : Loads} {buffer : List UInt8} {complete more : List (List UInt8)}
  {messages : List Json} {e : ReadError}

theorem readLines_append_error (h : readLines loads complete = ⟨messages, some e⟩) :
    readLines loads (complete ++ more) = ⟨messages, some e⟩ := by
  induction complete generalizing messages with
  | nil => exact absurd (congrArg Reading.error h) nofun
  | cons raw complete ih =>
    rw [List.cons_append]
    rw [readLines] at h ⊢
    cases hline : readLine loads raw with
    | error e' =>
      rw [hline] at h
      exact h
    | ok message =>
      rw [hline] at h
      cases hr : readLines loads complete with
      | mk messages' error =>
        simp only [hr, Reading.after, Reading.mk.injEq] at h
        obtain ⟨rfl, rfl⟩ := h
        simp only [ih hr, Reading.after]

theorem readLines_append_ok (h : readLines loads complete = ⟨messages, none⟩) :
    readLines loads (complete ++ more) = (readLines loads more).after messages := by
  induction complete generalizing messages with
  | nil =>
    cases h
    rfl
  | cons raw complete ih =>
    rw [List.cons_append]
    rw [readLines] at h ⊢
    cases hline : readLine loads raw with
    | error e' =>
      rw [hline] at h
      cases h
    | ok message =>
      rw [hline] at h
      cases hr : readLines loads complete with
      | mk messages' error =>
        simp only [hr, Reading.after, Reading.mk.injEq] at h
        obtain ⟨rfl, rfl⟩ := h
        simp only [ih hr, Reading.after, List.append_assoc]

/-- **The inner loop** reads the complete lines and keeps the tail. -/
theorem drain_eq (loads : Loads) (buffer : List UInt8) :
    drain loads buffer =
      match readLines loads (lines newline buffer).1 with
      | ⟨messages, some e⟩ => (messages, .error e)
      | ⟨messages, none⟩ => (messages, .ok (lines newline buffer).2) := by
  -- Along the length: each turn takes a line and its newline out of the buffer.
  induction hn : buffer.length using Nat.strong_induction_on generalizing buffer with
  | _ n ih =>
  subst hn
  rw [drain]
  by_cases h : newline ∈ buffer
  · obtain ⟨raw, rest, rfl, hraw⟩ := List.eq_append_cons_of_mem h
    have hall : ∀ b ∈ raw, (b != newline) = true := by
      intro b hb
      rw [bne_iff_ne]
      rintro rfl
      exact hraw hb
    have htake : (raw ++ newline :: rest).takeWhile (· != newline) = raw := by
      rw [List.takeWhile_append_of_pos hall, List.takeWhile_cons_of_neg (by simp), List.append_nil]
    have hdrop : (raw ++ newline :: rest).dropWhile (· != newline) = newline :: rest := by
      rw [List.dropWhile_append_of_pos hall, List.dropWhile_cons_of_neg (by simp)]
    have hrest := ih rest.length (by simp; omega) rest rfl
    rw [if_pos h, htake, hdrop, lines_line hraw, readLines]
    cases hline : readLine loads raw with
    | error e => simp only [hline]
    | ok message =>
      simp only [hline, List.tail_cons, hrest]
      cases readLines loads (lines newline rest).1 with
      | mk messages error =>
        cases error with
        | none => rfl
        | some e => rfl
  · rw [if_neg h, lines_of_notMem h]
    rfl

/-- A line that is too long already is too long, whatever follows. -/
theorem readStream_of_oversized (h : maxMessageBytes < buffer.length) (hno : newline ∉ buffer)
    (rest : List UInt8) (ending : Ending) :
    readStream loads (buffer ++ rest) ending = ⟨[], some .oversized⟩ := by
  rw [readStream]
  rcases lines_append_of_notMem hno rest with ⟨line, more, hlines⟩ | ⟨tail, hlines⟩
  · have hlong : maxMessageBytes < (buffer ++ line).length := by
      rw [List.length_append]
      omega
    simp only [hlines, readLines, readLine, if_pos hlong]
  · have hlong : maxMessageBytes < (buffer ++ tail).length := by
      rw [List.length_append]
      omega
    simp only [hlines, readLines, if_pos hlong]

/-- What the reader keeps for the next chunk: no newline, and not too many bytes. -/
theorem tail_small {chunk : Chunk} (hno : newline ∉ buffer)
    (h : ¬(maxMessageBytes < (buffer ++ chunk.data).length ∧ newline ∉ buffer ++ chunk.data)) :
    (lines newline (buffer ++ chunk.data)).2.length ≤ maxMessageBytes := by
  by_cases hmem : newline ∈ chunk.data
  · have := length_tail_lt hmem buffer
    have := chunk.small
    have : recvSize ≤ maxMessageBytes := by decide
    omega
  · have hnone : newline ∉ buffer ++ chunk.data := by simp [hno, hmem]
    rw [lines_of_notMem hnone]
    by_contra hlong
    exact h ⟨Nat.lt_of_not_le hlong, hnone⟩

/-- **The outcome is that of the stream as a whole.** -/
theorem readLoop_eq (loads : Loads) {buffer : List UInt8} (hno : newline ∉ buffer)
    (hsmall : buffer.length ≤ maxMessageBytes) (chunks : List Chunk) (ending : Ending) :
    readLoop loads buffer chunks ending =
      readStream loads (buffer ++ stream chunks) ending := by
  induction chunks generalizing buffer with
  | nil =>
    have hbytes : buffer ++ stream [] = buffer := List.append_nil buffer
    rw [readLoop, readStream, hbytes, lines_of_notMem hno]
    simp only [readLines, if_neg (Nat.not_lt.mpr hsmall)]
  | cons chunk chunks ih =>
    have hbytes : buffer ++ stream (chunk :: chunks) =
        (buffer ++ chunk.data) ++ stream chunks := by
      rw [stream, List.flatMap_cons, List.append_assoc]
      rfl
    rw [hbytes, readLoop]
    by_cases hover : maxMessageBytes < (buffer ++ chunk.data).length ∧
        newline ∉ buffer ++ chunk.data
    · rw [if_pos hover, readStream_of_oversized hover.1 hover.2]
    · rw [if_neg hover, drain_eq, readStream, lines_append (buffer ++ chunk.data)]
      have hlater := ih (sep_notMem_tail _) (tail_small hno hover)
      cases hread : readLines loads (lines newline (buffer ++ chunk.data)).1 with
      | mk messages error =>
        cases error with
        | some e => simp only [readLines_append_error hread]
        | none =>
          simp only [hlater, readLines_append_ok hread, readStream]
          cases readLines loads _ with
          | mk messages' error' => cases error' <;> rfl

/-- **The cuts do not matter.** -/
theorem readLoop_congr (loads : Loads) {chunks₁ chunks₂ : List Chunk}
    (h : stream chunks₁ = stream chunks₂) (ending : Ending) :
    readLoop loads [] chunks₁ ending = readLoop loads [] chunks₂ ending := by
  rw [readLoop_eq loads List.not_mem_nil (Nat.zero_le _),
    readLoop_eq loads List.not_mem_nil (Nat.zero_le _), h]

end Reader

/-! ## The senders -/

/-- The bytes of a message. -/
def encode (message : Json) : List UInt8 := (dumps message).map UInt8.ofNat

/-- What `send` hands to the socket. -/
def payload (message : Json) : List UInt8 := encode message ++ [newline]

/-- Where a thread is in `send`. -/
inductive SendPc where
  | idle
  /-- In front of the lock. -/
  | ready (message : Json)
  /-- In `sendall`, with the bytes that the socket has not taken yet. -/
  | sending (message : Json) (rest : List UInt8)
  /-- Behind the lock. -/
  | released (message : Json)

/-- A peer, as its senders see it. -/
structure Sender where
  /-- `_closed`. -/
  closed : Bool := false
  /-- The socket has failed, or has been shut down. -/
  broken : Bool := false
  /-- The thread that holds `_send_lock`. -/
  lock : Option ℕ := none
  /-- What the socket has taken so far. -/
  wire : List UInt8 := []
  threads : ℕ → SendPc := fun _ => .idle

/-- Move a thread. -/
def Sender.goto (s : Sender) (t : ℕ) (pc : SendPc) : Sender :=
  { s with threads := Function.update s.threads t pc }

/-- What can happen at a peer. -/
inductive SendAction where
  /-- `send` is called; `json.dumps` may raise, as for numbers with too many digits. -/
  | call (t : ℕ) (message : Json) (raises : Bool)
  | acquire (t : ℕ)
  /-- The socket takes some bytes. -/
  | write (t n : ℕ)
  /-- `sendall` raises. -/
  | fail (t : ℕ)
  | release (t : ℕ)
  | ret (t : ℕ)
  /-- `close`: the flag. -/
  | close
  /-- `close`: the socket. -/
  | shutdown

/-- What a step shows: a call of `send` has returned, or raised, or neither. -/
inductive SendEvent where
  | returned (t : ℕ) (message : Json)
  | raised (t : ℕ)
  | silent

/-- One step of a peer's senders. -/
def sendStep (s : Sender) : SendAction → Option Sender
  | .call t message raises =>
    match s.threads t with
    | .idle =>
      if s.closed ∨ raises ∨ maxMessageBytes < (payload message).length then some s
      else some (s.goto t (.ready message))
    | _ => none
  | .acquire t =>
    match s.threads t, s.lock with
    | .ready message, none =>
      some { s.goto t (.sending message (payload message)) with lock := some t }
    | _, _ => none
  | .write t n =>
    match s.threads t with
    | .sending message rest =>
      if s.broken ∨ n = 0 ∨ rest.length < n then none
      else some { s.goto t (.sending message (rest.drop n)) with wire := s.wire ++ rest.take n }
    | _ => none
  | .fail t =>
    match s.threads t with
    | .sending _ (_ :: _) => some { s.goto t .idle with broken := true, lock := none }
    | _ => none
  | .release t =>
    match s.threads t with
    | .sending message [] => some { s.goto t (.released message) with lock := none }
    | _ => none
  | .ret t =>
    match s.threads t with
    | .released _ => some (s.goto t .idle)
    | _ => none
  | .close => some { s with closed := true }
  | .shutdown => if s.closed then some { s with broken := true } else none

/-- What is seen of a step. -/
def sendEvent (s : Sender) (a : SendAction) (s' : Sender) : SendEvent :=
  match a with
  | .call t _ _ =>
    match s'.threads t with
    | .idle => .raised t
    | _ => .silent
  | .fail t => .raised t
  | .ret t =>
    match s.threads t with
    | .released message => .returned t message
    | _ => .silent
  | _ => .silent

/-- The senders of one peer. -/
def sender : Lts Sender SendAction SendEvent where
  step := sendStep
  event := sendEvent

/-- The messages that a thread's calls have sent when they returned, in order. -/
def returnedBy (t : ℕ) : List SendEvent → List Json
  | [] => []
  | .returned t' message :: tr =>
    if t' = t then returnedBy t tr ++ [message] else returnedBy t tr
  | _ :: tr => returnedBy t tr

/-- The messages of a thread among those of all threads. -/
def sentBy (t : ℕ) (order : List (ℕ × Json)) : List Json :=
  (order.filter fun p => p.1 = t).map Prod.snd

/-- The messages at hand: their `type` is a string, and `json.loads` gives them back. -/
def Loads.Inverts (loads : Loads) (message : Json) : Prop :=
  message.isMessage = true ∧ loads (encode message) = .value message

/-- Only such messages are sent. -/
def SendsOnly (loads : Loads) (_ : Sender) : SendAction → Prop
  | .call _ message _ => loads.Inverts message
  | _ => True

section Senders

variable {loads : Loads} {s s' : Sender} {t : ℕ} {message : Json} {tr : List SendEvent}
  {order : List (ℕ × Json)}

theorem newline_notMem_encode (message : Json) : newline ∉ encode message := by
  intro h
  obtain ⟨c, hc, heq⟩ := List.mem_map.mp h
  have hbyte : c % 256 = 10 := by simpa [newline] using congrArg UInt8.toNat heq
  have := printable_dumps message c hc
  rw [Printable] at this
  omega

@[simp] theorem goto_threads (s : Sender) (t : ℕ) (pc : SendPc) :
    (s.goto t pc).threads = Function.update s.threads t pc :=
  rfl

@[simp] theorem goto_wire (s : Sender) (t : ℕ) (pc : SendPc) : (s.goto t pc).wire = s.wire := rfl

@[simp] theorem goto_broken (s : Sender) (t : ℕ) (pc : SendPc) :
    (s.goto t pc).broken = s.broken :=
  rfl

@[simp] theorem goto_lock (s : Sender) (t : ℕ) (pc : SendPc) : (s.goto t pc).lock = s.lock := rfl

/-- A message that `send` has let through. -/
structure Passed (loads : Loads) (message : Json) : Prop where
  inverts : loads.Inverts message
  small : (payload message).length ≤ maxMessageBytes

/-- The message that a thread is about to write, is writing or has written. -/
def SendPc.message? : SendPc → Option Json
  | .idle => none
  | .ready message | .sending message _ | .released message => some message

/-- The message of a call that is behind the lock. -/
def SendPc.finished : SendPc → List Json
  | .released message => [message]
  | _ => []

/-- Nobody has written part of a message: a thread in `sendall` has all its bytes before it. -/
def Untouched (s : Sender) : Prop :=
  ∀ t message rest, s.threads t = .sending message rest → rest = payload message

/-- What follows the finished messages on the wire. -/
inductive Leftover (loads : Loads) (s : Sender) : List UInt8 → Prop
  | clean (h : Untouched s) : Leftover loads s []
  /-- A thread is in the middle of its message. -/
  | writing {t : ℕ} {message : Json} {done rest : List UInt8}
      (h : s.threads t = .sending message rest) (heq : done ++ rest = payload message) :
      Leftover loads s done
  /-- A call of `sendall` has failed, and nothing more will be written. -/
  | torn {message : Json} {done rest : List UInt8} (hbroken : s.broken = true) (hrest : rest ≠ [])
      (heq : done ++ rest = payload message) (hpassed : Passed loads message)
      (h : Untouched s) : Leftover loads s done

/-- What is on the wire, and who has written it. -/
structure WireOk (loads : Loads) (tr : List SendEvent) (s : Sender)
    (order : List (ℕ × Json)) : Prop where
  locked : ∀ t message rest, s.threads t = .sending message rest → s.lock = some t
  passed : ∀ t message, (s.threads t).message? = some message → Passed loads message
  sent : ∀ p ∈ order, Passed loads p.2
  returned : ∀ t, sentBy t order = returnedBy t tr ++ (s.threads t).finished
  wire : ∃ done, s.wire = order.flatMap (fun p => payload p.2) ++ done ∧ Leftover loads s done

theorem sentBy_append (order order' : List (ℕ × Json)) :
    sentBy t (order ++ order') = sentBy t order ++ sentBy t order' := by
  rw [sentBy, List.filter_append, List.map_append]
  rfl

theorem wireOk_start : WireOk loads [] {} [] where
  locked := nofun
  passed := nofun
  sent := nofun
  returned _ := rfl
  wire := ⟨[], rfl, .clean nofun⟩

theorem Leftover.of_eq {done : List UInt8} (h : Leftover loads s done)
    (hthreads : ∀ t message rest, s'.threads t = .sending message rest ↔
      s.threads t = .sending message rest)
    (hbroken : s.broken = true → s'.broken = true) : Leftover loads s' done := by
  have huntouched (h : Untouched s) : Untouched s' := fun t message rest ht =>
    h t message rest ((hthreads t message rest).mp ht)
  cases h with
  | clean h => exact .clean (huntouched h)
  | writing h heq => exact .writing ((hthreads _ _ _).mpr h) heq
  | torn hb hrest heq hpassed h => exact .torn (hbroken hb) hrest heq hpassed (huntouched h)

/-- A thread that is not in `sendall` goes to another place outside of it. -/
theorem WireOk.goto {pc : SendPc} (h : WireOk loads tr s order) {e : SendEvent}
    (hold : ∀ message rest, s.threads t ≠ .sending message rest)
    (hnew : ∀ message rest, pc ≠ .sending message rest)
    (hpassed : ∀ message, pc.message? = some message → Passed loads message)
    (hfinished : returnedBy t (e :: tr) ++ pc.finished =
      returnedBy t tr ++ (s.threads t).finished)
    (hothers : ∀ t' ≠ t, returnedBy t' (e :: tr) = returnedBy t' tr) :
    WireOk loads (e :: tr) (s.goto t pc) order := by
  have hsending (t' : ℕ) (message : Json) (rest : List UInt8) :
      (s.goto t pc).threads t' = .sending message rest ↔
        s.threads t' = .sending message rest := by
    by_cases ht : t' = t
    · subst ht
      simp [hold, hnew]
    · simp [ht]
  refine ⟨fun t' message rest ht => h.locked t' message rest ((hsending ..).mp ht), ?_, h.sent,
    ?_, ?_⟩
  · intro t' message ht
    by_cases heq : t' = t
    · subst heq
      exact hpassed message (by simpa using ht)
    · exact h.passed t' message (by simpa [heq] using ht)
  · intro t'
    by_cases heq : t' = t
    · subst heq
      rw [h.returned]
      simpa using hfinished.symm
    · rw [h.returned, hothers t' heq]
      simp [heq]
  · obtain ⟨done, hwire, hleft⟩ := h.wire
    exact ⟨done, hwire, hleft.of_eq hsending id⟩

/-- A step that moves no thread. -/
theorem WireOk.flags {e : SendEvent} (h : WireOk loads tr s order)
    (hthreads : s'.threads = s.threads) (hlock : s'.lock = s.lock) (hwire : s'.wire = s.wire)
    (hbroken : s.broken = true → s'.broken = true)
    (hquiet : ∀ t, returnedBy t (e :: tr) = returnedBy t tr) :
    WireOk loads (e :: tr) s' order := by
  refine ⟨?_, ?_, h.sent, ?_, ?_⟩
  · rw [hthreads, hlock]
    exact h.locked
  · rw [hthreads]
    exact h.passed
  · intro t
    rw [hquiet, hthreads]
    exact h.returned t
  · obtain ⟨done, heq, hleft⟩ := h.wire
    exact ⟨done, hwire.trans heq, hleft.of_eq (by simp [hthreads]) hbroken⟩

/-- The lock is free, so nobody is in `sendall`. -/
theorem WireOk.not_sending (h : WireOk loads tr s order) (hlock : s.lock = none) (t : ℕ)
    (message : Json) (rest : List UInt8) : s.threads t ≠ .sending message rest := by
  intro ht
  have := h.locked t message rest ht
  rw [hlock] at this
  cases this

/-- Only one thread is in `sendall`. -/
theorem WireOk.sending_unique {t' : ℕ} {message' : Json} {rest rest' : List UInt8}
    (h : WireOk loads tr s order) (ht : s.threads t = .sending message rest)
    (ht' : s.threads t' = .sending message' rest') : t' = t := by
  have hlock := h.locked t message rest ht
  rw [h.locked t' message' rest' ht'] at hlock
  exact Option.some.inj hlock

theorem payload_ne_nil (message : Json) : payload message ≠ [] := by
  rw [payload]
  exact List.append_ne_nil_of_right_ne_nil _ nofun

/-- Where the other threads are does not change, and the messages of thread `t` stay the same. -/
theorem WireOk.passed_update {pc : SendPc} (h : WireOk loads tr s order)
    (hpc : pc.message? = (s.threads t).message?) (t' : ℕ) (message : Json)
    (ht' : ((Function.update s.threads t pc) t').message? = some message) :
    Passed loads message := by
  by_cases heq : t' = t
  · subst heq
    rw [Function.update_self, hpc] at ht'
    exact h.passed _ _ ht'
  · rw [Function.update_of_ne heq] at ht'
    exact h.passed _ _ ht'

theorem WireOk.returned_update {pc : SendPc} (h : WireOk loads tr s order)
    (hpc : pc.finished = (s.threads t).finished) (t' : ℕ) :
    sentBy t' order = returnedBy t' tr ++ (Function.update s.threads t pc t').finished := by
  rw [h.returned]
  by_cases heq : t' = t
  · subst heq
    rw [Function.update_self, hpc]
  · rw [Function.update_of_ne heq]

/-- When the thread in `sendall` leaves, nobody is there. -/
theorem WireOk.left {q : SendPc} {rest : List UInt8} (h : WireOk loads tr s order)
    (ht : s.threads t = .sending message rest) (hq : ∀ message rest, q ≠ .sending message rest)
    (t' : ℕ) (message' : Json) (rest' : List UInt8) :
    Function.update s.threads t q t' ≠ .sending message' rest' := by
  intro ht'
  by_cases heq : t' = t
  · subst heq
    rw [Function.update_self] at ht'
    exact hq _ _ ht'
  · rw [Function.update_of_ne heq] at ht'
    exact heq (h.sending_unique ht ht')

theorem WireOk.acquire (h : WireOk loads tr s order) (ht : s.threads t = .ready message)
    (hlock : s.lock = none) :
    WireOk loads (.silent :: tr)
      { s.goto t (.sending message (payload message)) with lock := some t } order := by
  have hnone := h.not_sending hlock
  have hone (t' : ℕ) (message' : Json) (rest : List UInt8)
      (ht' : Function.update s.threads t (.sending message (payload message)) t' =
        .sending message' rest) : t' = t ∧ rest = payload message' := by
    by_cases heq : t' = t
    · subst heq
      rw [Function.update_self] at ht'
      cases ht'
      exact ⟨rfl, rfl⟩
    · rw [Function.update_of_ne heq] at ht'
      exact absurd ht' (hnone _ _ _)
  refine ⟨?_, h.passed_update (by rw [ht]; rfl), h.sent, h.returned_update (by rw [ht]; rfl), ?_⟩
  · intro t' message' rest ht'
    rw [(hone t' message' rest ht').1]
  · obtain ⟨done, hwire, hleft⟩ := h.wire
    refine ⟨done, hwire, ?_⟩
    have huntouched : Untouched { s.goto t (.sending message (payload message)) with
        lock := some t } := fun t' message' rest ht' => (hone t' message' rest ht').2
    cases hleft with
    | clean => exact .clean huntouched
    | writing h' => exact absurd h' (hnone _ _ _)
    | torn hb hrest heq hpassed => exact .torn hb hrest heq hpassed huntouched

theorem WireOk.write {n : ℕ} {rest : List UInt8} (h : WireOk loads tr s order)
    (ht : s.threads t = .sending message rest) (hbroken : s.broken = false) :
    WireOk loads (.silent :: tr)
      { s.goto t (.sending message (rest.drop n)) with wire := s.wire ++ rest.take n } order := by
  refine ⟨?_, h.passed_update (by rw [ht]; rfl), h.sent, h.returned_update (by rw [ht]; rfl), ?_⟩
  · intro t' message' rest' ht'
    by_cases heq : t' = t
    · subst heq
      exact h.locked _ _ _ ht
    · simp only [goto_threads, Function.update_of_ne heq] at ht'
      exact h.locked _ _ _ ht'
  · obtain ⟨done, hwire, hleft⟩ := h.wire
    refine ⟨done ++ rest.take n, by rw [hwire, List.append_assoc], ?_⟩
    have hnow : Function.update s.threads t (.sending message (rest.drop n)) t =
        .sending message (rest.drop n) := Function.update_self ..
    have hdone : done ++ rest = payload message := by
      cases hleft with
      | clean huntouched => rw [huntouched t message rest ht, List.nil_append]
      | writing h' heq =>
        obtain rfl := h.sending_unique ht h'
        rw [ht] at h'
        cases h'
        exact heq
      | torn hb =>
        rw [hbroken] at hb
        cases hb
    exact .writing hnow (by rw [List.append_assoc, List.take_append_drop, hdone])

theorem WireOk.fail {b : UInt8} {rest : List UInt8} (h : WireOk loads tr s order)
    (ht : s.threads t = .sending message (b :: rest)) :
    WireOk loads (.raised t :: tr) { s.goto t .idle with broken := true, lock := none } order := by
  have hnone := h.left ht (q := .idle) nofun
  refine ⟨fun t' message' rest' ht' => absurd ht' (hnone _ _ _), ?_, h.sent,
    h.returned_update (by rw [ht]; rfl), ?_⟩
  · intro t' message' ht'
    by_cases heq : t' = t
    · subst heq
      simp [SendPc.message?] at ht'
    · simp only [goto_threads, Function.update_of_ne heq] at ht'
      exact h.passed _ _ ht'
  · obtain ⟨done, hwire, hleft⟩ := h.wire
    refine ⟨done, hwire, ?_⟩
    have huntouched : Untouched { s.goto t .idle with broken := true, lock := none } :=
      fun t' message' rest' ht' => absurd ht' (hnone _ _ _)
    cases hleft with
    | clean => exact .clean huntouched
    | writing h' heq =>
      obtain rfl := h.sending_unique ht h'
      rw [ht] at h'
      cases h'
      exact .torn rfl (List.cons_ne_nil _ _) heq (h.passed _ _ (by rw [ht]; rfl)) huntouched
    | torn hb hrest heq hpassed => exact .torn rfl hrest heq hpassed huntouched

/-- A message is finished when its last byte is on the wire; this is where the order of the
messages is decided. -/
theorem WireOk.release (h : WireOk loads tr s order) (ht : s.threads t = .sending message []) :
    WireOk loads (.silent :: tr) { s.goto t (.released message) with lock := none }
      (order ++ [(t, message)]) := by
  have hpassed : Passed loads message := h.passed t message (by rw [ht]; rfl)
  have hnone := h.left ht (q := .released message) nofun
  refine ⟨fun t' message' rest' ht' => absurd ht' (hnone _ _ _),
    h.passed_update (by rw [ht]; rfl), ?_, ?_, ?_⟩
  · refine List.forall_mem_append.mpr ⟨h.sent, ?_⟩
    exact List.forall_mem_singleton.mpr hpassed
  · intro t'
    rw [sentBy_append, h.returned]
    by_cases heq : t' = t
    · subst heq
      simp [returnedBy, SendPc.finished, ht, sentBy]
    · simp [returnedBy, heq, sentBy, Ne.symm heq]
  · obtain ⟨done, hwire, hleft⟩ := h.wire
    refine ⟨[], ?_, .clean fun t' message' rest' ht' => absurd ht' (hnone _ _ _)⟩
    have hdone : done = payload message := by
      cases hleft with
      | clean huntouched => exact huntouched t message [] ht
      | writing h' heq =>
        obtain rfl := h.sending_unique ht h'
        rw [ht] at h'
        cases h'
        rw [← heq, List.append_nil]
      | torn _ _ _ _ huntouched =>
        exact absurd (huntouched t message [] ht).symm (payload_ne_nil message)
    simp [hwire, hdone]

/-- **One step** keeps the wire in order. -/
theorem WireOk.step {a : SendAction} (h : WireOk loads tr s order) (ha : SendsOnly loads s a)
    (hstep : sendStep s a = some s') :
    ∃ order', WireOk loads (sendEvent s a s' :: tr) s' order' := by
  cases a with
  | call t message raises =>
    simp only [sendStep] at hstep
    split at hstep
    · rename_i hidle
      split at hstep
      · cases hstep
        simp only [sendEvent, hidle]
        exact ⟨order, h.flags rfl rfl rfl id fun _ => rfl⟩
      · rename_i hlet
        cases hstep
        simp only [sendEvent, goto_threads, Function.update_self]
        have hpassed : Passed loads message := ⟨ha, by omega⟩
        refine ⟨order, h.goto (by simp [hidle]) nofun ?_ (by rw [hidle]; rfl) fun _ _ => rfl⟩
        rintro _ ⟨⟩
        exact hpassed
    · cases hstep
  | acquire t =>
    simp only [sendStep] at hstep
    split at hstep
    · rename_i message hready hlock
      cases hstep
      exact ⟨order, h.acquire hready hlock⟩
    · cases hstep
  | write t n =>
    simp only [sendStep] at hstep
    split at hstep
    · rename_i message rest hsending
      split at hstep
      · cases hstep
      · rename_i hlet
        cases hstep
        have hbroken : s.broken = false := by
          cases hb : s.broken
          · rfl
          · exact absurd (.inl hb) hlet
        exact ⟨order, h.write hsending hbroken⟩
    · cases hstep
  | fail t =>
    simp only [sendStep] at hstep
    split at hstep
    · rename_i message b rest hsending
      cases hstep
      exact ⟨order, h.fail hsending⟩
    · cases hstep
  | release t =>
    simp only [sendStep] at hstep
    split at hstep
    · rename_i message hsending
      cases hstep
      exact ⟨_, h.release hsending⟩
    · cases hstep
  | ret t =>
    simp only [sendStep] at hstep
    split at hstep
    · rename_i message hreleased
      cases hstep
      simp only [sendEvent, hreleased]
      refine ⟨order, h.goto (by simp [hreleased]) nofun nofun ?_ fun t' ht' => ?_⟩
      · simp [returnedBy, hreleased, SendPc.finished]
      · simp [returnedBy, Ne.symm ht']
    · cases hstep
  | close =>
    cases hstep
    exact ⟨order, h.flags rfl rfl rfl id fun _ => rfl⟩
  | shutdown =>
    simp only [sendStep] at hstep
    split at hstep
    · cases hstep
      exact ⟨order, h.flags rfl rfl rfl (fun _ => rfl) fun _ => rfl⟩
    · cases hstep

/-- **And so does every run.** -/
theorem wireOk_of_run (h : sender.Exec (SendsOnly loads) {} tr s) :
    ∃ order, WireOk loads tr s order :=
  h.invariant (I := fun tr s => ∃ order, WireOk loads tr s order) ⟨[], wireOk_start⟩
    fun _ _ _ _ ⟨_, hok⟩ ha hstep => hok.step ha hstep

/-! ## Both ends together -/

theorem length_encode_le (h : Passed loads message) :
    (encode message).length ≤ maxMessageBytes := by
  have := h.small
  rw [payload, List.length_append] at this
  omega

theorem readLine_encode (h : Passed loads message) :
    readLine loads (encode message) = .ok message := by
  rw [readLine, if_neg (Nat.not_lt.mpr (length_encode_le h)), h.inverts.2]
  exact if_pos h.inverts.1

/-- The lines of finished messages and of a beginning of one more. -/
theorem lines_payloads {done : List UInt8} (hdone : newline ∉ done) (messages : List Json) :
    lines newline (messages.flatMap payload ++ done) = (messages.map encode, done) := by
  induction messages with
  | nil => exact lines_of_notMem hdone
  | cons message messages ih =>
    have hfirst : (message :: messages).flatMap payload ++ done =
        encode message ++ newline :: (messages.flatMap payload ++ done) := by
      simp [payload]
    rw [hfirst, lines_line (newline_notMem_encode message), ih]
    rfl

theorem readLines_encode {messages : List Json} (h : ∀ m ∈ messages, Passed loads m) :
    readLines loads (messages.map encode) = ⟨messages, none⟩ := by
  induction messages with
  | nil => rfl
  | cons message messages ih =>
    obtain ⟨hm, hms⟩ := List.forall_mem_cons.mp h
    simp only [List.map_cons, readLines, readLine_encode hm, ih hms]
    rfl

/-- When no call is under way, what is left on the wire is no complete line. -/
theorem Leftover.unfinished {done : List UInt8} (h : Leftover loads s done)
    (hidle : ∀ t, s.threads t = .idle) : newline ∉ done ∧ done.length ≤ maxMessageBytes := by
  cases h with
  | clean => exact ⟨List.not_mem_nil, Nat.zero_le _⟩
  | writing h' =>
    rw [hidle] at h'
    cases h'
  | @torn message _ rest _ hrest heq hpassed =>
    have hfirst : done <+: encode message := by
      rw [← List.dropLast_concat_getLast hrest, ← List.append_assoc, payload] at heq
      exact ⟨rest.dropLast, (List.append_inj' heq rfl).1⟩
    refine ⟨fun hmem => newline_notMem_encode message (hfirst.subset hmem), ?_⟩
    exact hfirst.length_le.trans (length_encode_le hpassed)

/-- **The other side.** When no call of `send` is under way, the reader at the other end has
received the messages of the calls that have returned, each once, in an order that keeps the order
of each thread, and no error but that of the end of the stream. What a reader makes of any stream
does not depend on how the stream is cut. -/
theorem delivers_returned_sends (h : sender.Exec (SendsOnly loads) {} tr s)
    (hidle : ∀ t, s.threads t = .idle) {chunks : List Chunk} (hcut : stream chunks = s.wire)
    (ending : Ending) :
    (∃ order : List (ℕ × Json),
      readLoop loads [] chunks ending = ⟨order.map Prod.snd, ending.error⟩ ∧
        ∀ t, sentBy t order = returnedBy t tr) ∧
      ∀ (loads : Loads) (chunks₁ chunks₂ : List Chunk), stream chunks₁ = stream chunks₂ →
        ∀ ending, readLoop loads [] chunks₁ ending = readLoop loads [] chunks₂ ending := by
  refine ⟨?_, fun loads _ _ => readLoop_congr loads⟩
  obtain ⟨order, hok⟩ := wireOk_of_run h
  obtain ⟨done, hwire, hleft⟩ := hok.wire
  obtain ⟨hdone, hsmall⟩ := hleft.unfinished hidle
  refine ⟨order, ?_, fun t => ?_⟩
  · have hbytes : stream chunks = (order.map Prod.snd).flatMap payload ++ done := by
      rw [hcut, hwire, List.flatMap_map]
    have hpassed : ∀ m ∈ order.map Prod.snd, Passed loads m := List.forall_mem_map.mpr hok.sent
    rw [readLoop_eq loads List.not_mem_nil (Nat.zero_le _), List.nil_append, hbytes, readStream,
      lines_payloads hdone]
    simp only [readLines_encode hpassed, if_neg (Nat.not_lt.mpr hsmall)]
  · rw [hok.returned, hidle]
    exact List.append_nil _

/-- A message with a type and nothing else. -/
def hello : Json := .obj [(text "type", .str (text "HELLO"))]

/-- Two threads send it. The socket takes the bytes of the first in two pieces, while the second
waits for the lock. -/
theorem exec_hello :
    ∃ tr s, sender.Exec (SendsOnly fun _ => .value hello) {} tr s ∧
      s.wire = payload hello ++ payload hello ∧ returnedBy 7 tr = [hello] ∧
      returnedBy 8 tr = [hello] ∧ ∀ t, s.threads t = .idle := by
  have h₀ : sender.Exec (SendsOnly fun _ => .value hello) {} [] {} := .start
  have h₁ := h₀.next (a := SendAction.call 7 hello false) ⟨rfl, rfl⟩ rfl
  have h₂ := h₁.next (a := SendAction.call 8 hello false) ⟨rfl, rfl⟩ rfl
  have h₃ := h₂.next (a := SendAction.acquire 7) trivial rfl
  have h₄ := h₃.next (a := SendAction.write 7 5) trivial rfl
  have h₅ := h₄.next (a := SendAction.write 7 12) trivial rfl
  have h₆ := h₅.next (a := SendAction.release 7) trivial rfl
  have h₇ := h₆.next (a := SendAction.acquire 8) trivial rfl
  have h₈ := h₇.next (a := SendAction.ret 7) trivial rfl
  have h₉ := h₈.next (a := SendAction.write 8 17) trivial rfl
  have h₁₀ := h₉.next (a := SendAction.release 8) trivial rfl
  have h₁₁ := h₁₀.next (a := SendAction.ret 8) trivial rfl
  refine ⟨_, _, h₁₁, rfl, rfl, rfl, fun t => ?_⟩
  by_cases ht : t = 7
  · subst ht
    rfl
  · by_cases ht' : t = 8
    · subst ht'
      rfl
    · simp [ht, ht']

/-- However the stream is cut, both messages arrive. -/
theorem delivers_hello_once :
    ∃ tr s, sender.Exec (SendsOnly fun _ => .value hello) {} tr s ∧
      s.wire = payload hello ++ payload hello ∧ returnedBy 7 tr = [hello] ∧
      returnedBy 8 tr = [hello] ∧
      ∀ chunks : List Chunk, stream chunks = s.wire →
        ∃ order : List (ℕ × Json),
          readLoop (fun _ => .value hello) [] chunks .closed =
              ⟨order.map Prod.snd, some .disconnected⟩ ∧
            ∀ t, sentBy t order = returnedBy t tr := by
  obtain ⟨tr, s, h, hwire, hfirst, hsecond, hidle⟩ := exec_hello
  refine ⟨tr, s, h, hwire, hfirst, hsecond, fun chunks hchunks => ?_⟩
  exact (delivers_returned_sends h hidle hchunks .closed).1

end Senders

end YellowZone.ControlPlane
