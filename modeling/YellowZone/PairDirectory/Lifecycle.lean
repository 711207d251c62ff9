import YellowZone.Machine.Execution

/-!
# Generations in the pair directory

A primary's `SharedMemoryForwardGate` publishes its shared memory through files: `.lock` is held
from its construction to its close, each generation has a `.shm` file named after its epoch, and
`.current` says which generation is the current one. The standby ranks read `.current` and open
the file it names.

The model has one step per file operation of the constructor, its error path and `close`, and any
number of lifecycles, in any interleaving. A lifecycle can raise inside the `try` block of the
constructor, before any of its operations, and can be killed anywhere. `flock` is exclusive and
goes with its holder, and `os.replace` is one step.

## Names and records

`Directory.shm` has the files that match `{pair_hash}.*.shm`. A record is its two lines, and
`readCurrent` parses them as `_read_current` does; the round trip `readCurrent_render` is why the
primary recognises its own record.

## Main definitions

* `shmName`, `render`, `readCurrent` — names and records
* `Directory`, `Gate`, `advance`, `directorySystem` — the directory and the lifecycles on it
-/

namespace YellowZone.PairDirectory

open Machine Function

/-! ## Names and records -/

/-- The last `k` hexadecimal digits of a number. -/
def hexDigits : (k n : ℕ) → List Char
  | 0, _ => []
  | k + 1, n => hexDigits k (n / 16) ++ [Nat.digitChar (n % 16)]

/-- The value of a hexadecimal digit. -/
def hexValue (c : Char) : Option ℕ :=
  if '0' ≤ c ∧ c ≤ '9' then some (c.toNat - '0'.toNat)
  else if 'a' ≤ c ∧ c ≤ 'f' then some (c.toNat - 'a'.toNat + 10)
  else if 'A' ≤ c ∧ c ≤ 'F' then some (c.toNat - 'A'.toNat + 10)
  else none

/-- The digits of a number, from the value of those before them. -/
def parseHexFrom : (acc : ℕ) → List Char → Option ℕ
  | acc, [] => some acc
  | acc, c :: cs =>
    match hexValue c with
    | some d => parseHexFrom (16 * acc + d) cs
    | none => none

/-- `int(text, 16)`, for texts of digits only. -/
def parseHex (text : List Char) : Option ℕ := if text = [] then none else parseHexFrom 0 text

/-- Epochs are not zero and have at most 63 bits. -/
def IsEpoch (epoch : ℕ) : Prop := 0 < epoch ∧ epoch < 2 ^ 63

instance (epoch : ℕ) : Decidable (IsEpoch epoch) := inferInstanceAs (Decidable (_ ∧ _))

/-- A file name. -/
abbrev Name := List Char

scoped instance lawfulBEqName : LawfulBEq Name := inferInstance

/-- A text, by lines. -/
abbrev Text := List (List Char)

variable (pairHash : List Char)

/-- The name of a generation's file. -/
def shmName (epoch : ℕ) : Name :=
  pairHash ++ '.' :: hexDigits 16 epoch ++ ['.', 's', 'h', 'm']

/-- The record of a generation. -/
def render (epoch : ℕ) : Text := [hexDigits 16 epoch, shmName pairHash epoch]

/-- `_read_current` on the text of a record; `none` is a `ValueError`. -/
def readCurrent : Text → Option (ℕ × Name)
  | [line, name] =>
    match parseHex line with
    | some epoch => if name = shmName pairHash epoch then some (epoch, name) else none
    | none => none
  | _ => none

/-! ## Lifecycles -/

/-- Where a lifecycle is: the file operation it makes next. -/
inductive Gate where
  /-- Before `flock`. -/
  | lock
  /-- `flock` was refused, and the constructor has raised. -/
  | refused
  /-- The lock is held. -/
  | drawEpoch
  /-- `ps_open` with `O_CREAT | O_EXCL`. -/
  | nativeOpen (epoch : ℕ)
  | writeTmp (epoch : ℕ)
  | replaceCurrent (epoch : ℕ)
  /-- The `glob` of `_remove_stale_generations`. -/
  | listGenerations (epoch : ℕ)
  /-- Its loop, with the candidates to come. -/
  | removeStale (epoch : ℕ) (candidates : List Name)
  /-- The constructor has returned. -/
  | ready (epoch : ℕ)
  /-- The constructor's error path. -/
  | unlinkTmp (epoch : ℕ)
  /-- `close` reads the record. -/
  | readRecord (epoch : ℕ)
  /-- The record has this gate's epoch, and names `shm`. -/
  | unlinkCurrent (epoch : ℕ) (shm : Name)
  | unlinkShm (epoch : ℕ) (shm : Name)
  /-- `close` gives up the lock; without an epoch nothing was created. -/
  | unlock (epoch : Option ℕ)
  /-- `close` has returned. -/
  | closed (epoch : Option ℕ)
  | dead
  deriving DecidableEq, Repr

/-- The lifecycle holds the lock. -/
def Gate.holds : Gate → Bool
  | .lock | .refused | .closed _ | .dead => false
  | _ => true

/-- The pair directory and the lifecycles on it. -/
structure Directory where
  /-- Who holds the lock. -/
  lock : Option ℕ
  /-- The text of `.current`. -/
  current : Option Text
  /-- The `.shm` files. -/
  shm : List Name
  /-- The temporary file of each lifecycle. -/
  tmp : ℕ → Option Text
  gate : ℕ → Gate

/-- An empty directory. -/
def emptyDirectory : Directory where
  lock := none
  current := none
  shm := []
  tmp _ := none
  gate _ := .lock

/-- Go on at `g`. -/
def Directory.goto (d : Directory) (p : ℕ) (g : Gate) : Directory :=
  { d with gate := update d.gate p g }

/-- `unlink` of a `.shm` file, with `missing_ok`. -/
def Directory.unlink (d : Directory) (name : Name) : Directory :=
  { d with shm := d.shm.filter (· ≠ name) }

/-- The next operation of a lifecycle. -/
def advance (d : Directory) (p : ℕ) : Gate → Option Directory
  | .lock =>
    match d.lock with
    | none => some ({ d with lock := some p }.goto p .drawEpoch)
    | some _ => some (d.goto p .refused)
  | .nativeOpen epoch =>
    -- an existing file makes `ps_open` fail, and the constructor closes the gate
    if shmName pairHash epoch ∈ d.shm then some (d.goto p (.readRecord epoch))
    else some ({ d with shm := shmName pairHash epoch :: d.shm }.goto p (.writeTmp epoch))
  | .writeTmp epoch =>
    some ({ d with tmp := update d.tmp p (some (render pairHash epoch)) }.goto p
      (.replaceCurrent epoch))
  | .replaceCurrent epoch =>
    some ({ d with current := d.tmp p, tmp := update d.tmp p none }.goto p (.listGenerations epoch))
  | .listGenerations epoch => some (d.goto p (.removeStale epoch d.shm))
  | .removeStale epoch [] => some (d.goto p (.ready epoch))
  | .removeStale epoch (candidate :: candidates) =>
    if candidate ≠ shmName pairHash epoch then
      some ((d.unlink candidate).goto p (.removeStale epoch candidates))
    else some (d.goto p (.removeStale epoch candidates))
  | .unlinkTmp epoch => some ({ d with tmp := update d.tmp p none }.goto p (.readRecord epoch))
  | .readRecord epoch =>
    match d.current.bind (readCurrent pairHash) with
    | some (currentEpoch, currentShm) =>
      if currentEpoch = epoch then some (d.goto p (.unlinkCurrent epoch currentShm))
      else some (d.goto p (.unlinkShm epoch (shmName pairHash epoch)))
    | none => some (d.goto p (.unlinkShm epoch (shmName pairHash epoch)))
  | .unlinkCurrent epoch shm => some ({ d with current := none }.goto p (.unlinkShm epoch shm))
  | .unlinkShm epoch shm => some ((d.unlink shm).goto p (.unlock (some epoch)))
  | .unlock epoch => some ({ d with lock := none }.goto p (.closed epoch))
  | .refused | .drawEpoch | .ready _ | .closed _ | .dead => none

/-- Where an exception inside the constructor's `try` block leads. -/
def raised : Gate → Option Gate
  | .drawEpoch => some (.unlock none)
  | .nativeOpen epoch => some (.readRecord epoch)
  | .writeTmp epoch | .replaceCurrent epoch | .listGenerations epoch | .removeStale epoch _ =>
    some (.unlinkTmp epoch)
  | _ => none

/-- What can happen next. -/
inductive Act where
  /-- The lifecycle makes its next file operation. -/
  | step (p : ℕ)
  /-- It draws an epoch. -/
  | draw (p epoch : ℕ)
  /-- The constructor raises. -/
  | raise (p : ℕ)
  /-- `close` is called. -/
  | close (p : ℕ)
  /-- The process dies. -/
  | kill (p : ℕ)
  deriving DecidableEq, Repr

/-- The lifecycle that acts. -/
def Act.actor : Act → ℕ
  | .step p | .draw p _ | .raise p | .close p | .kill p => p

/-- One step of the directory. -/
def directoryStep (d : Directory) : Act → Option Directory
  | .step p => advance pairHash d p (d.gate p)
  | .draw p epoch =>
    if d.gate p = .drawEpoch ∧ IsEpoch epoch then some (d.goto p (.nativeOpen epoch)) else none
  | .raise p => (raised (d.gate p)).map (d.goto p)
  | .close p =>
    match d.gate p with
    | .ready epoch => some (d.goto p (.readRecord epoch))
    | _ => none
  | .kill p =>
    some ({ d with lock := if (d.gate p).holds then none else d.lock }.goto p .dead)

/-- Primary lifecycles on one directory. -/
def directorySystem : Lts Directory Act Unit where
  step := directoryStep pairHash
  event _ _ _ := ()

/-- A run from the empty directory, with its whole past. -/
abbrev DirectoryRun (hist : List (Directory × Act)) (d : Directory) : Prop :=
  (directorySystem pairHash).recorded.Exec (fun _ _ => True) emptyDirectory hist d

/-- A run that has been evaluated. -/
theorem exists_directoryRun (acts : List Act) (test : List (Directory × Act) → Directory → Bool)
    (h : ((directorySystem pairHash).recorded.run (fun _ _ => true) emptyDirectory [] acts).any
      (fun r => test r.1 r.2) = true) :
    ∃ hist d, DirectoryRun pairHash hist d ∧ test hist d = true :=
  Lts.exists_exec (fun _ _ _ => trivial) acts test h

/-! ## The round trip -/

theorem hexValue_digitChar : ∀ d < 16, hexValue (Nat.digitChar d) = some d := by decide

theorem parseHexFrom_append (cs : List Char) (c : Char) :
    ∀ acc, parseHexFrom acc (cs ++ [c]) =
      (parseHexFrom acc cs).bind fun n => (hexValue c).map (16 * n + ·) := by
  induction cs with
  | nil => intro acc; cases h : hexValue c <;> simp [parseHexFrom, h]
  | cons c' cs ih =>
    intro acc
    cases h : hexValue c' with
    | none => simp [parseHexFrom, h]
    | some d =>
      simp only [List.cons_append, parseHexFrom, h]
      exact ih _

theorem parseHexFrom_hexDigits (k : ℕ) :
    ∀ n acc, parseHexFrom acc (hexDigits k n) = some (16 ^ k * acc + n % 16 ^ k) := by
  induction k with
  | zero => intro n acc; simp [hexDigits, parseHexFrom, Nat.mod_one]
  | succ k ih =>
    intro n acc
    rw [hexDigits, parseHexFrom_append, ih,
      Option.bind_some, hexValue_digitChar _ (Nat.mod_lt _ (by decide))]
    have hmod : n % 16 ^ (k + 1) = 16 * (n / 16 % 16 ^ k) + n % 16 := by
      rw [Nat.pow_succ', Nat.mod_mul, Nat.add_comm]
    simp only [Option.map_some, Option.some.injEq]
    rw [hmod, Nat.pow_succ']
    ring

/-- Sixteen digits give an epoch back. -/
theorem parseHex_hexDigits {epoch : ℕ} (h : IsEpoch epoch) :
    parseHex (hexDigits 16 epoch) = some epoch := by
  have hlt : epoch < 16 ^ 16 := Nat.lt_of_lt_of_le h.2 (by decide)
  rw [parseHex, if_neg (by simp [hexDigits]), parseHexFrom_hexDigits, Nat.mod_eq_of_lt hlt]
  simp

variable {pairHash}

/-- **A record is read back.** -/
theorem readCurrent_render {epoch : ℕ} (h : IsEpoch epoch) :
    readCurrent pairHash (render pairHash epoch) = some (epoch, shmName pairHash epoch) := by
  simp [render, readCurrent, parseHex_hexDigits h]

/-- Generations have files of their own. -/
theorem shmName_injective {epoch epoch' : ℕ} (h : IsEpoch epoch) (h' : IsEpoch epoch')
    (heq : shmName pairHash epoch = shmName pairHash epoch') : epoch = epoch' := by
  have hdigits : hexDigits 16 epoch = hexDigits 16 epoch' := by simpa [shmName] using heq
  have hparse := parseHex_hexDigits h
  rw [hdigits, parseHex_hexDigits h'] at hparse
  exact (Option.some.inj hparse).symm

end YellowZone.PairDirectory
