import YellowZone.Machine.StructFormat

/-!
# Streams of bytes, read in pieces

A stream socket keeps the order of the bytes and nothing else: how many of them one call of `read`
returns, and when it finds none, is up to the world. A `Socket` lists what its reader will come
across, in order. A chunk is what has become readable together, and a call of `read` returns it,
or as much of it as was asked for; between chunks a call may find nothing, and the stream may end
or break. Past the end of the list there is nothing to read yet, so that a socket blocks.

## Main definitions and results

* `Socket.read` — one call of `read`
* `Socket.bytes`, `Socket.weight` — the bytes on their way, and how many calls they can last
* `Socket.read_data` — what a call takes from them
* `beBytes`, `readBE` — numbers in network byte order
-/

namespace YellowZone.Machine

/-- What a reader comes across: bytes that are readable together, a moment when nothing is, the
end of the stream, or an error. -/
inductive Arrival where
  | chunk (first : UInt8) (rest : List UInt8)
  | wouldBlock
  | closed
  | failed
  deriving DecidableEq, Repr

/-- The bytes of an arrival. -/
def Arrival.bytes : Arrival → List UInt8
  | chunk first rest => first :: rest
  | _ => []

/-- What a call of `read` returns. -/
inductive ReadResult where
  | data (bytes : List UInt8)
  | wouldBlock
  | closed
  | failed
  deriving DecidableEq, Repr

/-- A stream socket, as its reader will find it. -/
abbrev Socket : Type := List Arrival

namespace Socket

/-- Put bytes back in front. -/
def push : List UInt8 → Socket → Socket
  | [], s => s
  | first :: rest, s => .chunk first rest :: s

/-- One call of `read`, asking for `count` bytes. Asking for none is answered with none, which
looks like the end of the stream. The end of the stream stays where it is. -/
def read (count : ℕ) : Socket → ReadResult × Socket
  | [] => (if count = 0 then .closed else .wouldBlock, [])
  | .chunk first rest :: s =>
    if count = 0 then (.closed, .chunk first rest :: s)
    else (.data ((first :: rest).take count), push ((first :: rest).drop count) s)
  | .wouldBlock :: s => if count = 0 then (.closed, .wouldBlock :: s) else (.wouldBlock, s)
  | .closed :: s => (.closed, .closed :: s)
  | .failed :: s => if count = 0 then (.closed, .failed :: s) else (.failed, s)

/-- The bytes on their way. -/
def bytes (s : Socket) : List UInt8 := s.flatMap Arrival.bytes

/-- How many calls the socket can last. -/
def weight (s : Socket) : ℕ := (s.map fun a => a.bytes.length + 1).sum

/-- Bytes that are readable now, in the given pieces, and nothing after them. -/
def available (cuts : List (UInt8 × List UInt8)) : Socket :=
  cuts.map fun cut => .chunk cut.1 cut.2

/-- The socket goes on for ever: no end and no error is in sight. -/
def Lasting (s : Socket) : Prop := .closed ∉ s ∧ .failed ∉ s

@[simp] theorem bytes_nil : bytes [] = [] := rfl

@[simp] theorem bytes_push (d : List UInt8) (s : Socket) : (push d s).bytes = d ++ s.bytes := by
  cases d <;> rfl

theorem lasting_cons {a : Arrival} {s : Socket} :
    Lasting (a :: s) ↔ a ≠ .closed ∧ a ≠ .failed ∧ Lasting s := by
  simp only [Lasting, List.mem_cons, not_or]
  constructor
  · rintro ⟨⟨h₁, h₂⟩, h₃, h₄⟩
    exact ⟨Ne.symm h₁, Ne.symm h₃, h₂, h₄⟩
  · rintro ⟨h₁, h₃, h₂, h₄⟩
    exact ⟨⟨Ne.symm h₁, h₂⟩, Ne.symm h₃, h₄⟩

theorem lasting_push {d : List UInt8} {s : Socket} (h : Lasting s) : Lasting (push d s) := by
  cases d with
  | nil => exact h
  | cons first rest => exact lasting_cons.mpr ⟨nofun, nofun, h⟩

theorem lasting_available (cuts : List (UInt8 × List UInt8)) : (available cuts).Lasting := by
  constructor <;> simp [available]

variable {count : ℕ} {s s' : Socket} {d : List UInt8}

/-- Asking for nothing. -/
@[simp] theorem read_zero (s : Socket) : s.read 0 = (.closed, s) := by
  match s with
  | [] | .chunk _ _ :: _ | .wouldBlock :: _ | .closed :: _ | .failed :: _ => rfl

/-- **What a call returns is taken from the front of the bytes.** -/
theorem read_data (h : s.read count = (.data d, s')) :
    d ++ s'.bytes = s.bytes ∧ d ≠ [] ∧ d.length ≤ count ∧ s'.weight < s.weight := by
  match s with
  | [] =>
    rw [read] at h
    split at h <;> cases h
  | .chunk first rest :: t =>
    rw [read] at h
    split at h
    · cases h
    next hcount =>
      cases h
      refine ⟨?_, by simpa using hcount, List.length_take_le _ _, ?_⟩
      · rw [bytes_push, ← List.append_assoc, List.take_append_drop]
        rfl
      have hlen : ((first :: rest).drop count).length ≤ rest.length := by
        rw [List.length_drop, List.length_cons]
        omega
      generalize (first :: rest).drop count = r at hlen
      cases r with
      | nil => simp [push, weight]
      | cons b r =>
        rw [List.length_cons] at hlen
        simp only [push, weight, List.map_cons, List.sum_cons, Arrival.bytes, List.length_cons]
        omega
  | .wouldBlock :: t | .failed :: t =>
    rw [read] at h
    split at h <;> cases h
  | .closed :: t => cases h

/-- A call that finds nothing leaves the bytes alone; it has moved on unless there is nothing at
all. -/
theorem read_wouldBlock (h : s.read count = (.wouldBlock, s')) :
    s'.bytes = s.bytes ∧ (s = [] ∧ s' = [] ∨ s'.weight < s.weight) := by
  match s with
  | [] =>
    rw [read] at h
    split at h <;> cases h
    exact ⟨rfl, .inl ⟨rfl, rfl⟩⟩
  | .wouldBlock :: t =>
    rw [read] at h
    split at h <;> cases h
    exact ⟨rfl, .inr (by simp [weight])⟩
  | .chunk first rest :: t | .failed :: t =>
    rw [read] at h
    split at h <;> cases h
  | .closed :: t => cases h

/-- A lasting socket only ever returns bytes or blocks, and stays lasting. -/
theorem Lasting.read (hs : s.Lasting) (hcount : count ≠ 0) :
    (s.read count).2.Lasting ∧
      ((s.read count).1 = .wouldBlock ∨ ∃ d, (s.read count).1 = .data d) := by
  match s with
  | [] => exact ⟨hs, .inl (by simp [Socket.read, hcount])⟩
  | .chunk first rest :: t =>
    have ht := (lasting_cons.mp hs).2.2
    simp only [Socket.read, hcount, if_false]
    exact ⟨lasting_push ht, .inr ⟨_, rfl⟩⟩
  | .wouldBlock :: t =>
    have ht := (lasting_cons.mp hs).2.2
    simp only [Socket.read, hcount, if_false]
    exact ⟨ht, .inl trivial⟩
  | .closed :: t => exact absurd rfl (lasting_cons.mp hs).1
  | .failed :: t => exact absurd rfl (lasting_cons.mp hs).2.1

/-- A call looks no further than the first arrival. -/
theorem read_append (hs : s ≠ []) (t : Socket) :
    read count (s ++ t) = ((s.read count).1, (s.read count).2 ++ t) := by
  match s with
  | .chunk first rest :: u =>
    simp only [List.cons_append, Socket.read]
    split
    · rfl
    · cases (first :: rest).drop count <;> rfl
  | .wouldBlock :: u | .failed :: u =>
    simp only [List.cons_append, Socket.read]
    split <;> rfl
  | .closed :: u => rfl

end Socket

/-! ## Network byte order -/

/-- The `k` low bytes of a number, big-endian. -/
def beBytes (k n : ℕ) : List UInt8 := (leBytes k n).reverse

/-- The number with given big-endian bytes. -/
def readBE (bs : List UInt8) : ℕ := readLE bs.reverse

@[simp] theorem length_beBytes (k n : ℕ) : (beBytes k n).length = k := by
  rw [beBytes, List.length_reverse, length_leBytes]

theorem readBE_beBytes {k n : ℕ} (h : n < 256 ^ k) : readBE (beBytes k n) = n := by
  rw [readBE, beBytes, List.reverse_reverse, readLE_leBytes k n h]

end YellowZone.Machine
