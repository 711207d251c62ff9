import Mathlib

/-!
# Streams of lines

A stream that is cut at a separator: the lines that are complete, and the tail behind the last
separator. A line does not contain its separator. `lines` takes a stream as a whole; a reader that
gets it in pieces keeps the tail, puts the next piece behind it and cuts again, and by
`lines_append` it finds the same lines.

## Main definitions and results

* `lines` — the complete lines of a stream and its tail
* `lines_append` — cutting in two steps
* `length_tail_lt` — a piece that ends a line leaves a tail shorter than itself
* `pieces` — the lines that are read from a text
-/

namespace YellowZone.Machine

variable {α : Type} [DecidableEq α] {sep : α}

/-- The complete lines of a stream, and what stands behind the last of them. -/
def lines (sep : α) : List α → List (List α) × List α
  | [] => ([], [])
  | b :: bs =>
    if b = sep then ([] :: (lines sep bs).1, (lines sep bs).2)
    else
      match lines sep bs with
      | ([], tail) => ([], b :: tail)
      | (line :: more, tail) => ((b :: line) :: more, tail)

-- makes the equations of `lines` once, before the proofs that use them
attribute [local simp] lines in
theorem lines_cons_sep (bs : List α) :
    lines sep (sep :: bs) = ([] :: (lines sep bs).1, (lines sep bs).2) :=
  if_pos rfl

/-- Without a separator there is only a tail. -/
theorem lines_of_notMem {bs : List α} (h : sep ∉ bs) : lines sep bs = ([], bs) := by
  induction bs with
  | nil => rfl
  | cons b bs ih =>
    rw [lines, if_neg (List.ne_of_not_mem_cons h).symm, ih (List.not_mem_of_not_mem_cons h)]

/-- The first line. -/
theorem lines_line {line : List α} (h : sep ∉ line) (rest : List α) :
    lines sep (line ++ sep :: rest) = (line :: (lines sep rest).1, (lines sep rest).2) := by
  induction line with
  | nil => exact lines_cons_sep rest
  | cons b line ih =>
    rw [List.cons_append, lines, if_neg (List.ne_of_not_mem_cons h).symm,
      ih (List.not_mem_of_not_mem_cons h)]

theorem sep_notMem_tail (bs : List α) : sep ∉ (lines sep bs).2 := by
  induction bs with
  | nil => exact List.not_mem_nil
  | cons b bs ih =>
    rw [lines]
    split
    · exact ih
    · rename_i hb
      split
      · rename_i tail heq
        rw [heq] at ih
        exact List.not_mem_cons_of_ne_of_not_mem (Ne.symm hb) ih
      · rename_i heq
        rw [heq] at ih
        exact ih

/-- **Cutting in two steps.** The lines of the first piece are lines of the whole, and its tail
goes before the second piece. -/
theorem lines_append (as bs : List α) :
    lines sep (as ++ bs) =
      ((lines sep as).1 ++ (lines sep ((lines sep as).2 ++ bs)).1,
        (lines sep ((lines sep as).2 ++ bs)).2) := by
  induction as with
  | nil => rfl
  | cons a as ih =>
    by_cases ha : a = sep
    · subst ha
      rw [List.cons_append, lines_cons_sep, lines_cons_sep, ih]
      rfl
    · rw [List.cons_append, lines, if_neg ha, ih, lines, if_neg ha]
      cases hlines : lines sep as with
      | mk complete tail =>
        cases complete with
        | nil => simp only [List.nil_append, List.cons_append, lines, if_neg ha]
        | cons line more => rfl

/-- What precedes the first separator goes into the first line, or into the tail. -/
theorem lines_append_of_notMem {as : List α} (h : sep ∉ as) (bs : List α) :
    (∃ line more, (lines sep (as ++ bs)).1 = (as ++ line) :: more) ∨
      ∃ tail, lines sep (as ++ bs) = ([], as ++ tail) := by
  by_cases hbs : sep ∈ bs
  · obtain ⟨line, rest, rfl, hline⟩ := List.eq_append_cons_of_mem hbs
    refine .inl ⟨line, (lines sep rest).1, ?_⟩
    rw [← List.append_assoc, lines_line (by simp [h, hline])]
  · exact .inr ⟨bs, lines_of_notMem (by simp [h, hbs])⟩

/-- **The tail is behind the last separator**, so that a piece with a separator leaves a tail
shorter than itself, whatever stood in front of it. -/
theorem length_tail_lt {bs : List α} (h : sep ∈ bs) (as : List α) :
    (lines sep (as ++ bs)).2.length < bs.length := by
  have hle (cs : List α) : (lines sep cs).2.length ≤ cs.length := by
    induction cs with
    | nil => exact Nat.le_refl _
    | cons c cs ih =>
      rw [lines]
      split
      · exact Nat.le_succ_of_le ih
      · split
        · rename_i heq
          rw [heq] at ih
          exact Nat.succ_le_succ ih
        · rename_i heq
          rw [heq] at ih
          exact Nat.le_succ_of_le ih
  obtain ⟨line, rest, rfl, hline⟩ := List.eq_append_cons_of_mem h
  rw [lines_append, ← List.append_assoc, lines_line (by simp [hline, sep_notMem_tail])]
  have := hle rest
  simp only [List.length_append, List.length_cons]
  omega

/-! ## Texts -/

/-- What a loop over `std::getline` reads from a text. -/
def pieces (sep : α) (text : List α) : List (List α) :=
  (lines sep text).1 ++ if (lines sep text).2 = [] then [] else [(lines sep text).2]

@[simp] theorem pieces_nil : pieces sep [] = [] := rfl

theorem pieces_line {line : List α} (h : sep ∉ line) (rest : List α) :
    pieces sep (line ++ sep :: rest) = line :: pieces sep rest := by
  rw [pieces, lines_line h, List.cons_append, pieces]

theorem pieces_of_notMem {text : List α} (h : sep ∉ text) (hne : text ≠ []) :
    pieces sep text = [text] := by
  rw [pieces, lines_of_notMem h, if_neg hne, List.nil_append]

/-- Texts that are joined by the separator are read one by one. -/
theorem pieces_joined (ts : List (List α)) : ∀ t : List α, sep ∉ t → (t ≠ [] ∨ ts ≠ []) →
    (∀ t ∈ ts, sep ∉ t ∧ t ≠ []) → pieces sep (t ++ ts.flatMap (sep :: ·)) = t :: ts := by
  induction ts with
  | nil =>
    intro t ht hne _
    rw [List.flatMap_nil, List.append_nil]
    exact pieces_of_notMem ht (hne.resolve_right (absurd rfl))
  | cons t' ts ih =>
    intro t ht _ hts
    obtain ⟨ht', hne'⟩ := hts t' List.mem_cons_self
    rw [List.flatMap_cons, List.cons_append, pieces_line ht,
      ih t' ht' (Or.inl hne') fun t'' h => hts t'' (List.mem_cons_of_mem _ h)]

/-- A piece has no separator, and nothing that the text has not. -/
theorem pieces_spec (text : List α) : ∀ piece ∈ pieces sep text, sep ∉ piece ∧ piece ⊆ text := by
  induction hn : text.length using Nat.strong_induction_on generalizing text with
  | _ n ih =>
    intro piece hpiece
    by_cases hsep : sep ∈ text
    · obtain ⟨line, rest, rfl, hline⟩ := List.eq_append_cons_of_mem hsep
      rw [pieces_line hline] at hpiece
      rcases List.mem_cons.mp hpiece with rfl | hpiece
      · exact ⟨hline, List.subset_append_left _ _⟩
      · have hlt : rest.length < n := by
          rw [← hn, List.length_append, List.length_cons]
          omega
        obtain ⟨hnot, hsub⟩ := ih _ hlt rest rfl piece hpiece
        exact ⟨hnot, fun x hx =>
          List.mem_append_right _ (List.mem_cons_of_mem _ (hsub hx))⟩
    · cases text with
      | nil => cases hpiece
      | cons b bs =>
        rw [pieces_of_notMem hsep (List.cons_ne_nil b bs), List.mem_singleton] at hpiece
        subst hpiece
        exact ⟨hsep, List.Subset.refl _⟩

end YellowZone.Machine
