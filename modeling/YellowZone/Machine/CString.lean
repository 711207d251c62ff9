import Mathlib

/-!
# Texts as C reads them

Files, lines and numbers in the way of the C library, for parsers that are written with it. A text
is a list of characters; a character stands for the byte of its code.

`fgets` fills a buffer of a fixed size, so a program that reads "lines" with it reads pieces: a
piece ends behind a newline or when the buffer is full. As long as all lines are shorter than the
buffer, a program that ignores newlines and empty pieces sees the lines of the file.

## Main definitions and results

* `cString` — the string in a buffer, up to its NUL
* `fgetsAll`, `foldl_fgetsAll` — the pieces of a file, and its lines
* `strtol`, `IsNumeral`, `strtol_of_isNumeral` — decimal numbers
-/

namespace YellowZone.Machine

/-- The NUL character. -/
def nul : Char := Char.ofNat 0

/-- The string in a buffer. -/
def cString (buffer : List Char) : List Char := buffer.takeWhile (· ≠ nul)

/-! ## Files by lines -/

/-- What the calls `fgets(buffer, size + 1, file)` put into the buffer, one after the other, until
the end of the file; `got` is what the call in progress has read so far. -/
def fgetsAll (size : ℕ) : (got : List Char) → List Char → List (List Char)
  | got, [] => if got = [] then [] else [got]
  | got, c :: cs =>
    if c = '\n' ∨ got.length + 1 = size then (got ++ [c]) :: fgetsAll size [] cs
    else fgetsAll size (got ++ [c]) cs

/-- The lines of a file. A newline at its end is followed by an empty line. -/
def fileLines (file : List Char) : List (List Char) := file.splitOn '\n'

theorem fileLines_cons (c : Char) (cs : List Char) :
    fileLines (c :: cs)
      = if c = '\n' then [] :: fileLines cs else (fileLines cs).modifyHead (List.cons c) := by
  unfold fileLines List.splitOn
  rw [List.splitOnP_cons_eq_if_modifyHead]
  simp

theorem exists_fileLines_eq_cons (file : List Char) : ∃ l ls, fileLines file = l :: ls :=
  List.exists_cons_of_ne_nil (List.splitOn_ne_nil _ _)

section Pieces

variable {σ : Type} {f : σ → List Char → σ} {size : ℕ}

/-- **Pieces and lines.** `f` is what a program does with a piece. If it ignores a newline at the
end and empty pieces, then it sees the lines, provided that they fit the buffer. -/
theorem foldl_fgetsAll (hnewline : ∀ s l, f s (l ++ ['\n']) = f s l) (hempty : ∀ s, f s [] = s)
    (cs : List Char) : ∀ (got : List Char) (s : σ), got.length < size →
      (∀ l ∈ (fileLines cs).modifyHead (got ++ ·), l.length ≤ size) →
      (fgetsAll size got cs).foldl f s = ((fileLines cs).modifyHead (got ++ ·)).foldl f s := by
  induction cs with
  | nil =>
    intro got s _ _
    simp only [fgetsAll, fileLines, List.splitOn_nil, List.modifyHead_cons, List.append_nil,
      List.foldl_cons, List.foldl_nil]
    split
    · rename_i hgot
      rw [hgot, hempty, List.foldl_nil]
    · rw [List.foldl_cons, List.foldl_nil]
  | cons c cs ih =>
    intro got s hgot hfit
    rw [fileLines_cons] at hfit ⊢
    obtain ⟨l, ls, hls⟩ := exists_fileLines_eq_cons cs
    have hpos : ([] : List Char).length < size := Nat.lt_of_le_of_lt (Nat.zero_le _) hgot
    rw [hls] at hfit
    by_cases hc : c = '\n'
    · rw [if_pos hc] at hfit ⊢
      simp only [fgetsAll, hc, true_or, if_true, List.foldl_cons, hnewline, List.modifyHead_cons,
        List.append_nil]
      rw [ih [] _ hpos]
      · simp [hls]
      · rw [hls]
        intro l' hl'
        refine hfit l' (List.mem_cons_of_mem _ ?_)
        simpa using hl'
    · rw [if_neg hc] at hfit ⊢
      simp only [List.modifyHead_cons] at hfit
      have hhead : (got ++ c :: l).length ≤ size := hfit _ List.mem_cons_self
      have htail : ∀ l' ∈ ls, l'.length ≤ size := fun l' hl' => hfit _ (List.mem_cons_of_mem _ hl')
      simp only [List.length_append, List.length_cons] at hhead
      by_cases hfull : got.length + 1 = size
      · -- the buffer is full, and so the line is at its end
        have hl : l = [] := by
          have : l.length = 0 := by omega
          exact List.eq_nil_of_length_eq_zero this
        subst hl
        simp only [fgetsAll, hfull, or_true, if_true, List.foldl_cons]
        rw [ih [] _ hpos]
        · simp [hls, hempty]
        · rw [hls]
          intro l' hl'
          rcases List.mem_cons.mp hl' with rfl | hl'
          · exact Nat.zero_le _
          · exact htail l' hl'
      · simp only [fgetsAll, hc, hfull, or_self, if_false]
        rw [ih (got ++ [c])]
        · simp [hls]
        · rw [List.length_append, List.length_singleton]
          omega
        · rw [hls]
          intro l' hl'
          rcases List.mem_cons.mp hl' with rfl | hl'
          · simp only [List.length_append, List.length_singleton]
            omega
          · exact htail l' hl'

end Pieces

/-! ## Numbers -/

/-- `isspace`. -/
def isSpace (c : Char) : Bool := c = ' ' ∨ 9 ≤ c.toNat ∧ c.toNat ≤ 13

/-- The value of a list of decimal digits. -/
def digitsValue (ds : List Char) : ℕ := ds.foldl (fun n c => 10 * n + (c.toNat - '0'.toNat)) 0

/-- What `strtol` reports: the value, the rest behind the number, and whether the value was out of
range. -/
structure Strtol where
  value : ℤ
  rest : List Char
  overflow : Bool
  deriving DecidableEq, Repr

/-- The sign in front of a number: whether it is a minus, and what comes behind it. -/
def splitSign : List Char → Bool × List Char
  | '-' :: cs => (true, cs)
  | '+' :: cs => (false, cs)
  | cs => (false, cs)

/-- `strtol` with base ten. A `long` has 64 bits. -/
def strtol (text : List Char) : Strtol :=
  let body := splitSign (text.dropWhile isSpace)
  let ds := body.2.takeWhile Char.isDigit
  let rest := body.2.dropWhile Char.isDigit
  if ds = [] then ⟨0, text, false⟩
  else if body.1 then
    if 2 ^ 63 < digitsValue ds then ⟨-2 ^ 63, rest, true⟩ else ⟨-(digitsValue ds : ℤ), rest, false⟩
  else
    if 2 ^ 63 ≤ digitsValue ds then ⟨2 ^ 63 - 1, rest, true⟩ else ⟨digitsValue ds, rest, false⟩

/-- `text` is a decimal numeral for `v`: digits, with or without a sign. -/
def IsNumeral (text : List Char) (v : ℤ) : Prop :=
  ∃ ds : List Char, ds ≠ [] ∧ (∀ c ∈ ds, c.isDigit = true) ∧
    ((text = ds ∨ text = '+' :: ds) ∧ v = digitsValue ds ∨ text = '-' :: ds ∧ v = -digitsValue ds)

theorem takeWhile_isDigit {ds : List Char} (h : ∀ c ∈ ds, c.isDigit = true) :
    ds.takeWhile Char.isDigit = ds ∧ ds.dropWhile Char.isDigit = [] :=
  ⟨List.takeWhile_eq_self_iff.mpr h, List.dropWhile_eq_nil_iff.mpr h⟩

theorem isSpace_of_isDigit {c : Char} (h : c.isDigit = true) : isSpace c = false := by
  have hlow : 48 ≤ c.toNat := by
    simp only [Char.isDigit, ge_iff_le, Bool.and_eq_true, decide_eq_true_eq] at h
    exact h.1
  simp only [isSpace, decide_eq_false_iff_not, not_or, not_and, Nat.not_le]
  constructor
  · rintro rfl
    exact absurd hlow (by decide)
  · omega

/-- A digit is no sign. -/
theorem splitSign_of_isDigit {c : Char} (cs : List Char) (h : c.isDigit = true) :
    splitSign (c :: cs) = (false, c :: cs) := by
  unfold splitSign
  split
  · rename_i heq
    cases heq
    exact absurd h (by decide)
  · rename_i heq
    cases heq
    exact absurd h (by decide)
  · rfl

/-- **Numerals are read to their end.** -/
theorem strtol_of_isNumeral {text : List Char} {v : ℤ} (h : IsNumeral text v)
    (hlo : -2 ^ 63 ≤ v) (hhi : v < 2 ^ 63) : strtol text = ⟨v, [], false⟩ := by
  obtain ⟨ds, hne, hds, h⟩ := h
  obtain ⟨htake, hdrop⟩ := takeWhile_isDigit hds
  rcases h with ⟨htext, hv⟩ | ⟨rfl, hv⟩
  · have hsign : splitSign (text.dropWhile isSpace) = (false, ds) := by
      rcases htext with rfl | rfl
      · obtain ⟨c, cs, rfl⟩ := List.exists_cons_of_ne_nil hne
        have hc := hds c List.mem_cons_self
        rw [List.dropWhile_cons, isSpace_of_isDigit hc]
        exact splitSign_of_isDigit cs hc
      · rw [List.dropWhile_cons, show isSpace '+' = false from by decide]
        rfl
    have hsmall : ¬ 2 ^ 63 ≤ digitsValue ds := by omega
    simp only [strtol, hsign, htake, hdrop, hne, hsmall, if_false, Bool.false_eq_true]
    rw [hv]
  · have hsign : splitSign (('-' :: ds).dropWhile isSpace) = (true, ds) := by
      rw [List.dropWhile_cons, show isSpace '-' = false from by decide]
      rfl
    have hsmall : ¬ 2 ^ 63 < digitsValue ds := by omega
    simp only [strtol, hsign, htake, hdrop, hne, hsmall, if_false, if_true]
    rw [hv]

/-- A numeral has digits and signs only. -/
theorem mem_of_isNumeral {text : List Char} {v : ℤ} (h : IsNumeral text v) {c : Char}
    (hc : c ∈ text) : c.isDigit = true ∨ c = '+' ∨ c = '-' := by
  obtain ⟨ds, -, hds, h⟩ := h
  rcases h with ⟨rfl | rfl, -⟩ | ⟨rfl, -⟩
  · exact .inl (hds c hc)
  · rcases List.mem_cons.mp hc with rfl | hc
    · exact .inr (.inl rfl)
    · exact .inl (hds c hc)
  · rcases List.mem_cons.mp hc with rfl | hc
    · exact .inr (.inr rfl)
    · exact .inl (hds c hc)

theorem ne_nil_of_isNumeral {text : List Char} {v : ℤ} (h : IsNumeral text v) : text ≠ [] := by
  obtain ⟨ds, hne, -, h⟩ := h
  rcases h with ⟨rfl | rfl, -⟩ | ⟨rfl, -⟩
  · exact hne
  · exact List.cons_ne_nil _ _
  · exact List.cons_ne_nil _ _

end YellowZone.Machine
