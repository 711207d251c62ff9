import YellowZone.Machine.Threads

/-!
# The client's connection pool

`IPCClient.Call` takes a connection wrapper from a channel, uses it, and puts it back with
`connPool.put`. A wrapper has a connection, which is dialed when it is first needed, and a mutex
that `ensureConn` and `call` hold while they work on it.

A step is one operation on the channel, on a mutex or on the connection of a wrapper. Any number of
calls are in progress, each in its own goroutine. A call that finds no connection where it expects
one panics; the deferred functions then run as after an error, which is how it is modelled.

## What goes wrong

`put` first sends the wrapper to the channel and then calls `close`, which closes and clears the
connection without the mutex. Another call may receive it in between, find the old connection or
dial a new one, and the first call closes it under its hands.

## Main results

* `Sound` — a wrapper is in the channel or has one user, and its mutex one owner
* `Undisturbed.step` — who has a wrapper that nobody is closing keeps it undisturbed
* `user_undisturbed_iff` — a call has its wrapper to itself, whatever the others do, exactly if
  nobody was still closing it when it was received
* `connection_closed_in_use` — two calls and one wrapper
-/

namespace YellowZone.OvsClient

open Machine

/-! ## Calls -/

/-- What `call` does with the connection, in its order. -/
inductive Use where
  | setDeadline
  | writeLen
  | writeData
  | readLen
  | readBody
  deriving DecidableEq, Repr

def Use.next : Use → Option Use
  | .setDeadline => some .writeLen
  | .writeLen => some .writeData
  | .writeData => some .readLen
  | .readLen => some .readBody
  | .readBody => none

/-- Where a call is; `w` is its wrapper. -/
inductive CallPc where
  | idle
  | get
  /-- `ensureConn`. -/
  | ensureLock (w : ℕ)
  | ensureTest (w : ℕ)
  | dial (w : ℕ)
  | store (w conn : ℕ)
  | ensureUnlock (w : ℕ) (ok : Bool)
  /-- `call`, after `ensureConn`. -/
  | callLock (w : ℕ)
  | use (w : ℕ) (u : Use)
  | callUnlock (w : ℕ)
  /-- The `select` of `put`. -/
  | put (w : ℕ)
  /-- `close`. -/
  | closeTest (w : ℕ)
  | closeConn (w : ℕ)
  | clear (w : ℕ)
  deriving DecidableEq, Repr

structure Client where
  /-- The connection of a wrapper. -/
  conn : ℕ → Option ℕ
  /-- The call that has the mutex of a wrapper. -/
  mu : ℕ → Option ℕ
  /-- The channel. -/
  pool : List ℕ
  /-- The connections dialed so far are those below. -/
  dialed : ℕ
  closed : List ℕ
  call : ℕ → CallPc

/-- `newConnPool`. -/
def newConnPool (size : ℕ) : Client where
  conn _ := none
  mu _ := none
  pool := List.range size
  dialed := 0
  closed := []
  call _ := .idle

namespace Client

def goto (s : Client) (i : ℕ) (pc : CallPc) : Client :=
  { s with call := Function.update s.call i pc }

theorem call_goto_self (s : Client) (i : ℕ) (pc : CallPc) : (s.goto i pc).call i = pc :=
  Function.update_self _ _ _

theorem call_goto_of_ne (s : Client) {i j : ℕ} (pc : CallPc) (hj : j ≠ i) :
    (s.goto i pc).call j = s.call j := Function.update_of_ne hj _ _

def setConn (s : Client) (w : ℕ) (conn : Option ℕ) : Client :=
  { s with conn := Function.update s.conn w conn }

def setMu (s : Client) (w : ℕ) (owner : Option ℕ) : Client :=
  { s with mu := Function.update s.mu w owner }

/-- The send of `put`, or its default if the channel is full. -/
def send (s : Client) (size w : ℕ) : Client :=
  if s.pool.length < size then { s with pool := s.pool ++ [w] } else s

/-- The wrapper has a connection that is not closed. -/
def usable (s : Client) (w : ℕ) : Bool := (s.conn w).any (· ∉ s.closed)

/-- Setting the deadline may be left out; reading and writing need the connection. -/
def afterUse (s : Client) (w : ℕ) (u : Use) (ok : Bool) : CallPc :=
  if ok ∧ (u = .setDeadline ∨ s.usable w) then
    match u.next with
    | some u => .use w u
    | none => .callUnlock w
  else .callUnlock w

/-- One step of a call that has received its wrapper; `ok` says how an operation ends that may
fail. -/
def callStep (size : ℕ) (s : Client) (i : ℕ) (ok : Bool) : Option Client :=
  match s.call i with
  | .idle | .get => none
  | .ensureLock w =>
    if s.mu w = none then some ((s.goto i (.ensureTest w)).setMu w (some i)) else none
  | .ensureTest w => some (s.goto i (if s.conn w = none then .dial w else .ensureUnlock w true))
  | .dial w =>
    if ok then some ({ s with dialed := s.dialed + 1 }.goto i (.store w s.dialed))
    else some (s.goto i (.ensureUnlock w false))
  | .store w conn => some ((s.goto i (.ensureUnlock w true)).setConn w (some conn))
  | .ensureUnlock w ok => some ((s.goto i (if ok then .callLock w else .put w)).setMu w none)
  | .callLock w =>
    if s.mu w = none then some ((s.goto i (.use w .setDeadline)).setMu w (some i)) else none
  | .use w u => some (s.goto i (s.afterUse w u ok))
  | .callUnlock w => some ((s.goto i (.put w)).setMu w none)
  | .put w => some ((s.goto i (.closeTest w)).send size w)
  | .closeTest w => some (s.goto i (if s.conn w = none then .idle else .closeConn w))
  | .closeConn w =>
    match s.conn w with
    | none => some (s.goto i .idle)
    | some conn => some ({ s with closed := conn :: s.closed }.goto i (.clear w))
  | .clear w => some ((s.goto i .idle).setConn w none)

/-- The receive of `get`. -/
def receive (s : Client) (i : ℕ) : Option Client :=
  match s.pool with
  | [] => none
  | w :: rest =>
    if s.call i = .get then some ({ s with pool := rest }.goto i (.ensureLock w)) else none

end Client

/-- Who takes the next step. -/
inductive Action where
  /-- An idle goroutine calls. -/
  | invoke (i : ℕ)
  | receive (i : ℕ)
  /-- The context of a call is done while it waits for a wrapper. -/
  | cancel (i : ℕ)
  | step (i : ℕ) (ok : Bool)
  deriving DecidableEq

/-- Calls over one pool with `size` wrappers. -/
def system (size : ℕ) : Lts Client Action Action where
  step s a :=
    match a with
    | .invoke i => if s.call i = .idle then some (s.goto i .get) else none
    | .receive i => s.receive i
    | .cancel i => if s.call i = .get then some (s.goto i .idle) else none
    | .step i ok => s.callStep size i ok
  event _ a _ := a

/-- A run of the client. -/
abbrev Run (size : ℕ) (tr : List Action) (s : Client) : Prop :=
  (system size).Exec (fun _ _ => True) (newConnPool size) tr s

/-! ## Users and closers -/

namespace CallPc

/-- The wrapper that a call has, from its receive to its send. -/
def has : CallPc → Option ℕ
  | .ensureLock w | .ensureTest w | .dial w | .store w _ | .ensureUnlock w _ | .callLock w
  | .use w _ | .callUnlock w | .put w => some w
  | _ => none

/-- The wrapper whose mutex a call has. -/
def locks : CallPc → Option ℕ
  | .ensureTest w | .dial w | .store w _ | .ensureUnlock w _ | .use w _ | .callUnlock w => some w
  | _ => none

/-- The wrapper that a call is closing, after its send. -/
def closing : CallPc → Option ℕ
  | .closeTest w | .closeConn w | .clear w => some w
  | _ => none

end CallPc

/-- **The invariant.** A wrapper is in the channel or has one user, and its mutex one owner. -/
structure Sound (s : Client) : Prop where
  nodup : s.pool.Nodup
  taken : ∀ i w, (s.call i).has = some w → w ∉ s.pool
  one : ∀ i j w, (s.call i).has = some w → (s.call j).has = some w → i = j
  exclusive : ∀ w, Exclusive (s.mu w) fun i => (s.call i).locks = some w

variable {size : ℕ} {s s' : Client} {i j w : ℕ} {ok : Bool} {a : Action} {pc : CallPc}

theorem sound_newConnPool (size : ℕ) : Sound (newConnPool size) where
  nodup := List.nodup_range
  taken _ _ := nofun
  one _ _ _ := nofun
  exclusive _ _ := iff_of_false nofun nofun

/-- What a step of a call does with the mutexes. -/
inductive MuStep (s : Client) (i : ℕ) (pc : CallPc) (mu' : ℕ → Option ℕ) : Prop
  | keep (hmu : mu' = s.mu) (hlocks : pc.locks = (s.call i).locks)
  | lock (w : ℕ) (hfree : s.mu w = none) (hmu : mu' = Function.update s.mu w (some i))
      (hout : (s.call i).locks = none) (hin : pc.locks = some w)
  | unlock (w : ℕ) (hin : (s.call i).locks = some w) (hmu : mu' = Function.update s.mu w none)
      (hout : pc.locks = none)

/-- A step of call `i`, to `pc`. -/
structure CallTrans (s : Client) (i : ℕ) (pc : CallPc) (s' : Client) : Prop where
  call_eq : s'.call = Function.update s.call i pc
  mu : MuStep s i pc s'.mu
  /-- The wrapper stays with the call until it is sent. -/
  pool : s'.pool = s.pool ∧ pc.has = (s.call i).has ∨
    ∃ w, (s.call i).has = some w ∧ pc.has = none ∧ (s'.pool = s.pool ∨ s'.pool = s.pool ++ [w])
  closing : ∀ w, pc.closing = some w → (s.call i).closing = some w ∨ (s.call i).has = some w

theorem locks_afterUse (s : Client) (w : ℕ) (u : Use) (ok : Bool) :
    (s.afterUse w u ok).locks = some w ∧ (s.afterUse w u ok).has = some w ∧
      (s.afterUse w u ok).closing = none := by
  rw [Client.afterUse]
  split
  · cases u <;> exact ⟨rfl, rfl, rfl⟩
  · exact ⟨rfl, rfl, rfl⟩

theorem send_eq (s : Client) (size w : ℕ) : ∃ pool, s.send size w = { s with pool := pool } ∧
    (pool = s.pool ∨ pool = s.pool ++ [w]) := by
  rw [Client.send]
  split
  · exact ⟨_, rfl, Or.inr rfl⟩
  · exact ⟨_, rfl, Or.inl rfl⟩

theorem trans_of_callStep (h : s.callStep size i ok = some s') : ∃ pc, CallTrans s i pc s' := by
  rw [Client.callStep] at h
  cases hpc : s.call i with
  | idle | get =>
    rw [hpc] at h
    cases h
  | ensureLock w | callLock w =>
    rw [hpc] at h
    simp only at h
    split at h
    · next hfree =>
      obtain rfl := Option.some.inj h
      refine ⟨_, rfl, .lock w hfree rfl ?_ rfl, Or.inl ⟨rfl, ?_⟩, nofun⟩ <;> rw [hpc] <;> rfl
    · cases h
  | ensureTest w =>
    rw [hpc] at h
    obtain rfl := Option.some.inj h
    refine ⟨_, rfl, .keep rfl ?_, Or.inl ⟨rfl, ?_⟩, ?_⟩ <;> by_cases hc : s.conn w = none <;>
      simp [hpc, hc, CallPc.locks, CallPc.has, CallPc.closing]
  | dial w =>
    rw [hpc] at h
    cases ok with
    | true =>
      obtain rfl := Option.some.inj h
      refine ⟨_, rfl, .keep rfl ?_, Or.inl ⟨rfl, ?_⟩, nofun⟩ <;> rw [hpc] <;> rfl
    | false =>
      obtain rfl := Option.some.inj h
      refine ⟨_, rfl, .keep rfl ?_, Or.inl ⟨rfl, ?_⟩, nofun⟩ <;> rw [hpc] <;> rfl
  | store w conn =>
    rw [hpc] at h
    obtain rfl := Option.some.inj h
    refine ⟨_, rfl, .keep rfl ?_, Or.inl ⟨rfl, ?_⟩, nofun⟩ <;> rw [hpc] <;> rfl
  | ensureUnlock w ok' =>
    rw [hpc] at h
    obtain rfl := Option.some.inj h
    refine ⟨_, rfl, .unlock w ?_ rfl ?_, Or.inl ⟨rfl, ?_⟩, ?_⟩ <;> cases ok' <;>
      simp [hpc, CallPc.locks, CallPc.has, CallPc.closing]
  | use w u =>
    rw [hpc] at h
    obtain rfl := Option.some.inj h
    obtain ⟨hlocks, hhas, hclosing⟩ := locks_afterUse s w u ok
    refine ⟨_, rfl, .keep rfl ?_, Or.inl ⟨rfl, ?_⟩, ?_⟩
    · rw [hlocks, hpc]
      rfl
    · rw [hhas, hpc]
      rfl
    · rw [hclosing]
      exact nofun
  | callUnlock w =>
    rw [hpc] at h
    obtain rfl := Option.some.inj h
    refine ⟨_, rfl, .unlock w ?_ rfl rfl, Or.inl ⟨rfl, ?_⟩, nofun⟩ <;> rw [hpc] <;> rfl
  | put w =>
    rw [hpc] at h
    obtain rfl := Option.some.inj h
    obtain ⟨pool, heq, hpool⟩ := send_eq (s.goto i (.closeTest w)) size w
    rw [heq]
    refine ⟨.closeTest w, rfl, .keep rfl ?_, Or.inr ⟨w, ?_, rfl, hpool⟩, ?_⟩ <;>
      simp [hpc, CallPc.locks, CallPc.has, CallPc.closing]
  | closeTest w =>
    rw [hpc] at h
    obtain rfl := Option.some.inj h
    refine ⟨_, rfl, .keep rfl ?_, Or.inl ⟨rfl, ?_⟩, ?_⟩ <;> by_cases hc : s.conn w = none <;>
      simp [hpc, hc, CallPc.locks, CallPc.has, CallPc.closing]
  | closeConn w =>
    rw [hpc] at h
    simp only at h
    split at h
    · obtain rfl := Option.some.inj h
      refine ⟨_, rfl, .keep rfl ?_, Or.inl ⟨rfl, ?_⟩, ?_⟩ <;>
        simp [hpc, CallPc.locks, CallPc.has, CallPc.closing]
    · obtain rfl := Option.some.inj h
      refine ⟨_, rfl, .keep rfl ?_, Or.inl ⟨rfl, ?_⟩, ?_⟩ <;>
        simp [hpc, CallPc.locks, CallPc.has, CallPc.closing]
  | clear w =>
    rw [hpc] at h
    obtain rfl := Option.some.inj h
    refine ⟨_, rfl, .keep rfl ?_, Or.inl ⟨rfl, ?_⟩, ?_⟩ <;>
      simp [hpc, CallPc.locks, CallPc.has, CallPc.closing]

/-! ## The invariant is kept -/

theorem CallTrans.self (ht : CallTrans s i pc s') : s'.call i = pc := by
  rw [ht.call_eq, Function.update_self]

theorem CallTrans.other (ht : CallTrans s i pc s') (hj : j ≠ i) : s'.call j = s.call j := by
  rw [ht.call_eq, Function.update_of_ne hj]

/-- Nobody gets a wrapper by a step of a call. -/
theorem CallTrans.has_of_has (ht : CallTrans s i pc s') (h : (s'.call j).has = some w) :
    (s.call j).has = some w := by
  by_cases hj : j = i
  · subst hj
    rw [ht.self] at h
    rcases ht.pool with ⟨-, hhas⟩ | ⟨-, -, hnone, -⟩
    · rw [← hhas]
      exact h
    · exact absurd (hnone.symm.trans h) nofun
  · rw [← ht.other hj]
    exact h

theorem CallTrans.exclusive (ht : CallTrans s i pc s') (h : Sound s) (w : ℕ) :
    Exclusive (s'.mu w) fun j => (s'.call j).locks = some w := by
  have hother : ∀ j, j ≠ i → ((s'.call j).locks = some w ↔ (s.call j).locks = some w) := by
    intro j hj
    rw [ht.other hj]
  have hex := h.exclusive w
  rcases ht.mu with ⟨hmu, hlocks⟩ | ⟨v, hfree, hmu, hout, hin⟩ | ⟨v, hin, hmu, hout⟩
  · rw [hmu]
    refine hex.keep fun j => ?_
    by_cases hj : j = i
    · subst hj
      rw [ht.self, hlocks]
    · exact hother j hj
  · by_cases hw : w = v
    · subst hw
      rw [hmu, Function.update_self]
      rw [hfree] at hex
      exact hex.take (by rw [ht.self, hin]) hother
    · -- another wrapper's mutex
      rw [hmu, Function.update_of_ne hw]
      refine hex.keep fun j => ?_
      by_cases hj : j = i
      · subst hj
        rw [ht.self, hin, hout, Option.some.injEq]
        exact iff_of_false (fun heq => hw heq.symm) nofun
      · exact hother j hj
  · by_cases hw : w = v
    · subst hw
      rw [hmu, Function.update_self]
      exact hex.release hin (by rw [ht.self, hout]; exact nofun) hother
    · rw [hmu, Function.update_of_ne hw]
      refine hex.keep fun j => ?_
      by_cases hj : j = i
      · subst hj
        rw [ht.self, hin, hout, Option.some.injEq]
        exact iff_of_false nofun fun heq => hw heq.symm
      · exact hother j hj

theorem Sound.call (h : Sound s) (hs : s.callStep size i ok = some s') : Sound s' := by
  obtain ⟨pc, ht⟩ := trans_of_callStep hs
  refine ⟨?_, fun j w hj => ?_, fun j k w hj hk => ?_, ht.exclusive h⟩
  · rcases ht.pool with ⟨hpool, -⟩ | ⟨w, hw, -, hpool | hpool⟩ <;> rw [hpool]
    · exact h.nodup
    · exact h.nodup
    · exact List.nodup_append.mpr ⟨h.nodup, List.nodup_singleton w, fun v hv v' hv' heq =>
        h.taken i w hw (List.mem_singleton.mp hv' ▸ heq ▸ hv)⟩
  · have hhad := ht.has_of_has hj
    rcases ht.pool with ⟨hpool, -⟩ | ⟨v, hv, hnone, hpool | hpool⟩ <;> rw [hpool]
    · exact h.taken j w hhad
    · exact h.taken j w hhad
    · -- the wrapper that was sent had one user, who no longer has it
      rw [List.mem_append, List.mem_singleton, not_or]
      refine ⟨h.taken j w hhad, fun heq => ?_⟩
      subst heq
      have hji := h.one j i w hhad hv
      subst hji
      rw [ht.self, hnone] at hj
      exact absurd hj nofun
  · exact h.one j k w (ht.has_of_has hj) (ht.has_of_has hk)

/-- A step of a call that has no wrapper and gets none. -/
theorem Sound.goto (h : Sound s) (hhas : (s.call i).has = none) (hlocks : (s.call i).locks = none)
    (hhas' : pc.has = none) (hlocks' : pc.locks = none) : Sound (s.goto i pc) := by
  have hsame : ∀ j, ((s.goto i pc).call j).has = (s.call j).has ∧
      ((s.goto i pc).call j).locks = (s.call j).locks := by
    intro j
    by_cases hj : j = i
    · subst hj
      rw [Client.call_goto_self]
      exact ⟨hhas'.trans hhas.symm, hlocks'.trans hlocks.symm⟩
    · rw [Client.call_goto_of_ne _ _ hj]
      exact ⟨rfl, rfl⟩
  refine ⟨h.nodup, fun j w hj => h.taken j w ((hsame j).1 ▸ hj),
    fun j k w hj hk => h.one j k w ((hsame j).1 ▸ hj) ((hsame k).1 ▸ hk),
    fun w => (h.exclusive w).keep fun j => by rw [(hsame j).2]⟩

theorem receive_eq (hs : s.receive i = some s') : s.call i = .get ∧ ∃ w rest, s.pool = w :: rest ∧
    s' = { s with pool := rest }.goto i (.ensureLock w) := by
  rw [Client.receive] at hs
  split at hs
  · cases hs
  · next w rest hpool =>
    split at hs
    · next hget => exact ⟨hget, w, rest, hpool, (Option.some.inj hs).symm⟩
    · cases hs

theorem Sound.receive (h : Sound s) (hs : s.receive i = some s') : Sound s' := by
  obtain ⟨hget, w, rest, hpool, rfl⟩ := receive_eq hs
  have hnodup := h.nodup
  rw [hpool] at hnodup
  obtain ⟨hnew, hrest⟩ := List.nodup_cons.mp hnodup
  have hself := Client.call_goto_self { s with pool := rest } i (.ensureLock w)
  have hother : ∀ j, j ≠ i → ({ s with pool := rest }.goto i (.ensureLock w)).call j = s.call j :=
    fun j hj => Client.call_goto_of_ne _ _ hj
  have hfree : ∀ j, (s.call j).has ≠ some w := fun j hj =>
    h.taken j w hj (hpool ▸ List.mem_cons_self)
  refine ⟨hrest, fun j v hj => ?_, fun j k v hj hk => ?_, fun v => (h.exclusive v).keep fun j => ?_⟩
  · by_cases hji : j = i
    · subst hji
      rw [hself] at hj
      exact Option.some.inj hj ▸ hnew
    · rw [hother j hji] at hj
      exact fun hmem => h.taken j v hj (hpool ▸ List.mem_cons_of_mem _ hmem)
  · by_cases hji : j = i <;> by_cases hki : k = i
    · exact hji.trans hki.symm
    · subst hji
      rw [hself] at hj
      rw [hother k hki, ← Option.some.inj hj] at hk
      exact absurd hk (hfree k)
    · subst hki
      rw [hself] at hk
      rw [hother j hji, ← Option.some.inj hk] at hj
      exact absurd hj (hfree j)
    · rw [hother j hji] at hj
      rw [hother k hki] at hk
      exact h.one j k v hj hk
  · by_cases hji : j = i
    · subst hji
      rw [hself, hget]
      exact Iff.rfl
    · rw [hother j hji]

/-- **The invariant is kept.** -/
theorem Sound.step (h : Sound s) (hs : (system size).step s a = some s') : Sound s' := by
  cases a with
  | invoke i =>
    simp only [system] at hs
    split at hs
    · next hidle =>
      obtain rfl := Option.some.inj hs
      exact h.goto (by rw [hidle]; rfl) (by rw [hidle]; rfl) rfl rfl
    · cases hs
  | receive i => exact h.receive hs
  | cancel i =>
    simp only [system] at hs
    split at hs
    · next hget =>
      obtain rfl := Option.some.inj hs
      exact h.goto (by rw [hget]; rfl) (by rw [hget]; rfl) rfl rfl
    · cases hs
  | step i ok => exact h.call hs

/-- **Every run keeps the invariant.** -/
theorem sound_of_run {tr : List Action} (h : Run size tr s) : Sound s :=
  h.invariant (I := fun _ s => Sound s) (sound_newConnPool size) fun _ _ _ _ hI _ hs => hI.step hs

/-! ## Having a wrapper to oneself -/

/-- In this step a call other than `i` closes or clears the connection of the wrapper. -/
def Disturbs (i w : ℕ) (s : Client) : Action → Prop
  | .step j _ => j ≠ i ∧ (s.call j = .closeConn w ∧ s.conn w ≠ none ∨ s.call j = .clear w)
  | _ => False

/-- As long as call `i` has the wrapper, nobody is closing it. -/
structure Undisturbed (i w : ℕ) (s : Client) : Prop where
  sound : Sound s
  nobody : (s.call i).has = some w → ∀ j, (s.call j).closing ≠ some w

theorem Undisturbed.not_disturbs (h : Undisturbed i w s) (hi : (s.call i).has = some w) :
    ¬ Disturbs i w s a := by
  cases a with
  | step j ok =>
    rintro ⟨-, ⟨hj, -⟩ | hj⟩
    · exact h.nobody hi j (by rw [hj]; rfl)
    · exact h.nobody hi j (by rw [hj]; rfl)
  | invoke | receive | cancel => exact id

/-- A call that is not one of the closers, and does not become one, changes nothing. -/
theorem Undisturbed.of_calls (h : Undisturbed i w s) (hi : (s.call i).has = some w)
    (hsound : Sound s')
    (hcalls : ∀ j, s'.call j = s.call j ∨ (s'.call j).closing = none) : Undisturbed i w s' := by
  refine ⟨hsound, fun _ j => ?_⟩
  rcases hcalls j with heq | hnone
  · rw [heq]
    exact h.nobody hi j
  · rw [hnone]
    exact nofun

theorem goto_calls (s : Client) (i : ℕ) (pc : CallPc) (j : ℕ) (hpc : pc.closing = none) :
    (s.goto i pc).call j = s.call j ∨ ((s.goto i pc).call j).closing = none := by
  by_cases hj : j = i
  · subst hj
    exact Or.inr (by rw [Client.call_goto_self, hpc])
  · exact Or.inl (Client.call_goto_of_ne _ _ hj)

/-- **A user stays undisturbed.** Only a user of a wrapper becomes its closer, by giving it up, and
there is no other user. -/
theorem Undisturbed.step (h : Undisturbed i w s) (hi : (s.call i).has = some w)
    (hs : (system size).step s a = some s') : Undisturbed i w s' := by
  have hsound := h.sound.step hs
  cases a with
  | invoke j =>
    simp only [system] at hs
    split at hs
    · obtain rfl := Option.some.inj hs
      exact h.of_calls hi hsound fun k => goto_calls s j _ k rfl
    · cases hs
  | receive j =>
    obtain ⟨-, v, rest, -, rfl⟩ := receive_eq hs
    exact h.of_calls hi hsound fun k => goto_calls { s with pool := rest } j _ k rfl
  | cancel j =>
    simp only [system] at hs
    split at hs
    · obtain rfl := Option.some.inj hs
      exact h.of_calls hi hsound fun k => goto_calls s j _ k rfl
    · cases hs
  | step j ok =>
    obtain ⟨pc, ht⟩ := trans_of_callStep hs
    refine ⟨hsound, fun hi' k hk => ?_⟩
    by_cases hkj : k = j
    · subst hkj
      rw [ht.self] at hk
      rcases ht.closing w hk with hold | hhad
      · exact h.nobody hi k hold
      · -- it gave up the wrapper, so it was the user, who no longer has it
        have hki := h.sound.one k i w hhad hi
        subst hki
        rw [ht.self] at hi'
        have hne : pc.has = none := by
          cases pc <;> simp_all [CallPc.closing, CallPc.has]
        exact absurd (hne.symm.trans hi') nofun
    · rw [ht.other hkj] at hk
      exact h.nobody hi k hk

theorem has_of_locks (h : pc.locks = some w) : pc.has = some w := by
  cases pc <;> simp_all [CallPc.locks, CallPc.has]

/-- The runs in which call `i` has the wrapper. -/
abbrev Using (size i w : ℕ) (s : Client) (tr : List Action) (s' : Client) : Prop :=
  (system size).Exec (fun s _ => (s.call i).has = some w) s tr s'

/-- A call that has received its wrapper gets it a connection, while the others do nothing. -/
theorem exists_connected (h : Sound s) (hi : s.call i = .ensureLock w) :
    ∃ tr s', Using size i w s tr s' ∧ (s'.call i).has = some w ∧ s'.conn w ≠ none ∧
      ∀ j, j ≠ i → s'.call j = s.call j := by
  by_cases hconn : s.conn w = none
  · have hmu : s.mu w = none := by
      refine Option.eq_none_iff_forall_ne_some.mpr fun k hk => ?_
      have hlocks : (s.call k).locks = some w := (h.exclusive w k).mpr hk
      have hki := h.one k i w (has_of_locks hlocks) (by rw [hi]; rfl)
      subst hki
      rw [hi] at hlocks
      exact absurd hlocks nofun
    -- lock, test, dial and store
    obtain ⟨s₁, hs₁, h₁, hconn₁, hother₁⟩ : ∃ s₁, (system size).step s (.step i true) = some s₁ ∧
        s₁.call i = .ensureTest w ∧ s₁.conn w = none ∧ ∀ j, j ≠ i → s₁.call j = s.call j := by
      refine ⟨(s.goto i (.ensureTest w)).setMu w (some i), ?_, Function.update_self _ _ _, hconn,
        fun j hj => Function.update_of_ne hj _ _⟩
      simp only [system, Client.callStep, hi, hmu, if_true]
    obtain ⟨s₂, hs₂, h₂, hother₂⟩ : ∃ s₂, (system size).step s₁ (.step i true) = some s₂ ∧
        s₂.call i = .dial w ∧ ∀ j, j ≠ i → s₂.call j = s₁.call j := by
      refine ⟨s₁.goto i (.dial w), ?_, Function.update_self _ _ _,
        fun j hj => Function.update_of_ne hj _ _⟩
      simp only [system, Client.callStep, h₁, hconn₁, if_true]
    obtain ⟨s₃, hs₃, h₃, hother₃⟩ : ∃ s₃, (system size).step s₂ (.step i true) = some s₃ ∧
        s₃.call i = .store w s₂.dialed ∧ ∀ j, j ≠ i → s₃.call j = s₂.call j := by
      refine ⟨{ s₂ with dialed := s₂.dialed + 1 }.goto i (.store w s₂.dialed), ?_,
        Function.update_self _ _ _, fun j hj => Function.update_of_ne hj _ _⟩
      simp only [system, Client.callStep, h₂, if_true]
    obtain ⟨s₄, hs₄, h₄, hconn₄, hother₄⟩ : ∃ s₄, (system size).step s₃ (.step i true) = some s₄ ∧
        s₄.call i = .ensureUnlock w true ∧ s₄.conn w ≠ none ∧
          ∀ j, j ≠ i → s₄.call j = s₃.call j := by
      refine ⟨(s₃.goto i (.ensureUnlock w true)).setConn w (some s₂.dialed), ?_,
        Function.update_self _ _ _, ?_, fun j hj => Function.update_of_ne hj _ _⟩
      · simp only [system, Client.callStep, h₃]
      · simp [Client.setConn]
    refine ⟨_, s₄, .next (.next (.next (.next .start ?_ hs₁) ?_ hs₂) ?_ hs₃) ?_ hs₄, ?_, hconn₄,
      fun j hj => ?_⟩
    · rw [hi]
      rfl
    · rw [h₁]
      rfl
    · rw [h₂]
      rfl
    · rw [h₃]
      rfl
    · rw [h₄]
      rfl
    · rw [hother₄ j hj, hother₃ j hj, hother₂ j hj, hother₁ j hj]
  · exact ⟨[], s, .start, by rw [hi]; rfl, hconn, fun _ _ => rfl⟩

theorem exists_close (size : ℕ) (hpc : s.call j = .closeConn w) (hconn : s.conn w ≠ none) :
    ∃ s', (system size).step s (.step j true) = some s' := by
  obtain ⟨conn, hsome⟩ := Option.ne_none_iff_exists'.mp hconn
  simp only [system, Client.callStep, hpc, hsome]
  exact ⟨_, rfl⟩

/-- Who is closing a wrapper with a connection disturbs its user, now or after one more step. -/
theorem exists_disturbs (hi : (s.call i).has = some w) (hconn : s.conn w ≠ none) (hj : j ≠ i)
    (hclosing : (s.call j).closing = some w) :
    ∃ tr s' a s'', Using size i w s tr s' ∧ (s'.call i).has = some w ∧
      (system size).step s' a = some s'' ∧ Disturbs i w s' a := by
  cases hpc : s.call j with
  | closeTest v =>
    rw [hpc] at hclosing
    obtain rfl := Option.some.inj hclosing
    have hs : (system size).step s (.step j true) = some (s.goto j (.closeConn v)) := by
      simp only [system, Client.callStep, hpc, if_neg hconn]
    have hi' : ((s.goto j (.closeConn v)).call i).has = some v := by
      rw [Client.call_goto_of_ne _ _ (Ne.symm hj)]
      exact hi
    have hj' : (s.goto j (.closeConn v)).call j = .closeConn v := Client.call_goto_self _ _ _
    obtain ⟨s', hs'⟩ := exists_close size hj' hconn
    exact ⟨_, _, .step j true, s', .next .start hi hs, hi', hs', hj, Or.inl ⟨hj', hconn⟩⟩
  | closeConn v =>
    rw [hpc] at hclosing
    obtain rfl := Option.some.inj hclosing
    obtain ⟨s', hs'⟩ := exists_close size hpc hconn
    exact ⟨_, _, .step j true, s', .start, hi, hs', hj, Or.inl ⟨hpc, hconn⟩⟩
  | clear v =>
    rw [hpc] at hclosing
    obtain rfl := Option.some.inj hclosing
    have hs : (system size).step s (.step j true) = some ((s.goto j .idle).setConn v none) := by
      simp only [system, Client.callStep, hpc]
    exact ⟨_, _, .step j true, _, .start, hi, hs, hj, Or.inr hpc⟩
  | idle | get | ensureLock | ensureTest | dial | store | ensureUnlock | callLock | use | callUnlock
  | put =>
    rw [hpc] at hclosing
    exact absurd hclosing nofun

/-- **A call has its wrapper to itself exactly if nobody was still closing it.** In any run let call
`i` receive the wrapper `w`. That no other call closes or clears the connection of `w` until `i`
puts it back, however the calls are interleaved, is the same as that at the receive no call was
between its send of `w` and the end of its `close`. -/
theorem user_undisturbed_iff {tr : List Action} {s₁ : Client} (h : Run size tr s)
    (hs : (system size).step s (.receive i) = some s₁) (hw : (s₁.call i).has = some w) :
    (∀ tr' s', Using size i w s₁ tr' s' → (s'.call i).has = some w →
        ∀ a s'', (system size).step s' a = some s'' → ¬ Disturbs i w s' a) ↔
      ∀ j, (s.call j).closing ≠ some w := by
  have hsound := (sound_of_run h).step hs
  obtain ⟨hget, v, rest, -, rfl⟩ := receive_eq hs
  have hself := Client.call_goto_self { s with pool := rest } i (.ensureLock v)
  rw [hself] at hw
  obtain rfl := Option.some.inj hw
  constructor
  · intro hnever j hj
    have hji : j ≠ i := by
      rintro rfl
      rw [hget] at hj
      exact absurd hj nofun
    obtain ⟨tr₂, s₂, hrun₂, hi₂, hconn, hother⟩ := exists_connected hsound hself
    have hj₂ : (s₂.call j).closing = some v := by
      rw [hother j hji, Client.call_goto_of_ne _ _ hji]
      exact hj
    obtain ⟨tr₃, s₃, a, s₄, hrun₃, hi₃, hs₄, hdisturbs⟩ := exists_disturbs hi₂ hconn hji hj₂
    exact hnever _ s₃ (hrun₂.trans hrun₃) hi₃ a s₄ hs₄ hdisturbs
  · intro hnone tr' s' hrun hi a s'' _
    have hstart : Undisturbed i v ({ s with pool := rest }.goto i (.ensureLock v)) := by
      refine ⟨hsound, fun _ j => ?_⟩
      rcases goto_calls { s with pool := rest } i (.ensureLock v) j rfl with heq | hclosing
      · rw [heq]
        exact hnone j
      · rw [hclosing]
        exact nofun
    have hend : Undisturbed i v s' := hrun.invariant (I := fun _ s' => Undisturbed i v s') hstart
      fun _ _ _ _ hI hhas hstep => hI.step hhas hstep
    exact hend.not_disturbs hi

/-- The first call over a pool of one wrapper. -/
theorem user_undisturbed_iff_first : ∃ tr s s₁, Run 1 tr s ∧
    (system 1).step s (.receive 0) = some s₁ ∧ (s₁.call 0).has = some 0 ∧
    ∀ tr' s', Using 1 0 0 s₁ tr' s' → (s'.call 0).has = some 0 →
      ∀ a s'', (system 1).step s' a = some s'' → ¬ Disturbs 0 0 s' a := by
  have hrun : Run 1 [.invoke 0] ((newConnPool 1).goto 0 .get) :=
    .next (a := Action.invoke 0) .start trivial rfl
  refine ⟨_, _, _, hrun, rfl, rfl, (user_undisturbed_iff hrun rfl rfl).mpr fun j => ?_⟩
  by_cases hj : j = 0
  · subst hj
    exact nofun
  · rw [Client.call_goto_of_ne _ _ hj]
    exact nofun

/-- A list of actions that has been evaluated, for its end. -/
theorem exists_run (as : List Action) (test : Client → Bool)
    (h : ((system size).run (fun _ _ => true) (newConnPool size) [] as).any
      (fun r => test r.2) = true) : ∃ tr s, Run size tr s ∧ test s = true :=
  Lts.exists_exec (fun _ _ _ => trivial) as (fun _ s => test s) h

/-- **A connection is closed in use.** Call 0 has sent the only wrapper back and has found its
connection; call 1 has received the wrapper and is about to write its request when call 0 closes. -/
theorem connection_closed_in_use : ∃ tr s s', Run 1 tr s ∧ s.call 1 = .use 0 .writeLen ∧
    (s.call 1).has = some 0 ∧ (system 1).step s (.step 0 true) = some s' ∧
    Disturbs 1 0 s (.step 0 true) := by
  obtain ⟨tr, s, h, htest⟩ : ∃ tr s, Run 1 tr s ∧ _ := exists_run
    (.invoke 0 :: .receive 0 :: List.replicate 13 (.step 0 true) ++
      .invoke 1 :: .receive 1 :: List.replicate 5 (.step 1 true) ++ [.step 0 true])
    (fun s => decide (s.call 0 = .closeConn 0 ∧ s.call 1 = .use 0 .writeLen ∧ s.conn 0 ≠ none))
    (by decide +kernel)
  obtain ⟨h₀, h₁, hconn⟩ := of_decide_eq_true htest
  obtain ⟨s', hs'⟩ := exists_close 1 h₀ hconn
  exact ⟨tr, s, s', h, h₁, by rw [h₁]; rfl, hs', by decide, Or.inl ⟨h₀, hconn⟩⟩

end YellowZone.OvsClient
