import YellowZone.NpuConfig.SingleDevice

/-!
# Files for several devices

What a multi-device file means is said without reference to the loader: `Devices` is a map from
section numbers to settings, and `Lists` says that a file lists it, in any order, with blank lines,
comments and spaces in between. `RoundTrip` is the contract: the file is accepted, the devices are
counted, and the `k`-th of them is found by its index.

## Where the contract fails

* `is_section_header` wants `]` at the place behind the first digit. So `[DEVICE-10]` to
  `[DEVICE-15]` are no headers, and their options overwrite those of the section before.
* `check_multi_config` checks the first `device_count` sections, and not those that occur. So a gap
  in the numbers makes it fail.
* The loader drops blanks everywhere, and so also those in a shared memory id.

`round_trip_iff` says that there is no other reason.

## Main definitions and results

* `Devices`, `Lists`, `RoundTrip` — the contract
* `foldl_option_lines` — the options of a section
* `Confined` — only sections with a recognised header are ever configured
* `Exact` — if all headers are recognised, the sections are those of the map, without the spaces
* `round_trip_iff` — when the contract is met
* `section_ten_lost` — a file for which it is not
-/

namespace YellowZone.NpuConfig

open Machine

/-! ## What a file lists -/

/-- A printable character. -/
def IsPrintable (c : Char) : Prop := 32 ≤ c.toNat ∧ c.toNat ≤ 126
  deriving Decidable

/-- A value that an option can have: an `int32` other than `-1`, or a non-empty printable text that
fits its buffer. -/
def Value.Proper : Value → Prop
  | .int v => -2 ^ 31 ≤ v ∧ v < 2 ^ 31 ∧ v ≠ invalidValue
  | .str s => s ≠ [] ∧ (∀ c ∈ s, IsPrintable c) ∧ s.length < shmIdLen

/-- The characters of a text are tested one by one. -/
instance (v : Value) : Decidable v.Proper :=
  match v with
  | .int v => inferInstanceAs (Decidable (-2 ^ 31 ≤ v ∧ v < 2 ^ 31 ∧ v ≠ invalidValue))
  | .str s => decidable_of_iff (s ≠ [] ∧ s.all (fun c => decide (IsPrintable c)) = true ∧
      s.length < shmIdLen) (by simp only [List.all_eq_true, decide_eq_true_eq, Value.Proper])

/-- A non-empty map from section numbers to settings. -/
structure Devices where
  settings : SectionNum → Option Settings
  proper : ∀ n c, settings n = some c → ∀ o, (c.value o).Proper
  nonempty : ∃ n, (settings n).isSome = true

/-- The numbers that occur, in increasing order. -/
def Devices.numbers (d : Devices) : List SectionNum :=
  (List.finRange 16).filter fun n => (d.settings n).isSome

/-- White space inside of a line. -/
def IsSpacing (sp : List Char) : Prop := ∀ c ∈ sp, isSpace c = true

/-- A line that is blank, or has a comment. -/
def IsFiller (line : List Char) : Prop :=
  IsSpacing line ∨ ∃ sp comment, IsSpacing sp ∧ line = sp ++ '#' :: comment

/-- The header of a section. -/
def header (n : SectionNum) : List Char := "[DEVICE-".toList ++ Nat.toDigits 10 n ++ [']']

/-- A line with the header of a section. -/
def IsHeaderLine (n : SectionNum) (line : List Char) : Prop :=
  ∃ before after, IsSpacing before ∧ IsSpacing after ∧ line = before ++ header n ++ after

/-- A text for a value. -/
def Writes : Value → List Char → Prop
  | .int v, text => IsNumeral text v
  | .str s, text => text = s

/-- A line `key=value`. -/
def IsOptionLine (c : Settings) (o : Option6) (line : List Char) : Prop :=
  ∃ sp₁ sp₂ sp₃ sp₄ text, IsSpacing sp₁ ∧ IsSpacing sp₂ ∧ IsSpacing sp₃ ∧ IsSpacing sp₄ ∧
    Writes (c.value o) text ∧ line = sp₁ ++ o.key ++ sp₂ ++ '=' :: (sp₃ ++ text ++ sp₄)

/-- Lines that give some options, in this order. -/
inductive OptionLines (c : Settings) : List Option6 → List (List Char) → Prop
  | nil : OptionLines c [] []
  | filler {os : List Option6} {line : List Char} {lines : List (List Char)}
      (hline : IsFiller line) (h : OptionLines c os lines) : OptionLines c os (line :: lines)
  | option {o : Option6} {os : List Option6} {line : List Char} {lines : List (List Char)}
      (hline : IsOptionLine c o line) (h : OptionLines c os lines) :
      OptionLines c (o :: os) (line :: lines)

/-- The six options. -/
def allOptions : List Option6 :=
  [.npuId, .vnpuId, .aicoreQuota, .memoryQuota, .schedulingPolicy, .shmId]

/-- Lines that give some sections, in this order. -/
inductive SectionLines (d : Devices) : List SectionNum → List (List Char) → Prop
  | nil : SectionLines d [] []
  | filler {ns : List SectionNum} {line : List Char} {lines : List (List Char)}
      (hline : IsFiller line) (h : SectionLines d ns lines) : SectionLines d ns (line :: lines)
  | device {n : SectionNum} {c : Settings} {os : List Option6} {line : List Char}
      {block : List (List Char)} {ns : List SectionNum} {lines : List (List Char)}
      (hline : IsHeaderLine n line) (hc : d.settings n = some c) (hos : os.Perm allOptions)
      (hblock : OptionLines c os block) (h : SectionLines d ns lines) :
      SectionLines d (n :: ns) (line :: (block ++ lines))

/-- The file lists the devices: every section once, and no other. -/
def Lists (d : Devices) (file : List Char) : Prop :=
  (∀ line ∈ fileLines file, line.length < maxLineLength) ∧
    ∃ ns : List SectionNum, ns.Nodup ∧ (∀ n, n ∈ ns ↔ (d.settings n).isSome = true) ∧
      SectionLines d ns (fileLines file)

/-- **The contract.** The file is accepted, the devices are counted, and they are found by their
index, in the order of their numbers. -/
def RoundTrip (signed : Bool) (d : Devices) (file : List Char) : Prop :=
  loadConfig signed file = enpuSuccess ∧
    getDeviceCount (loaded signed file) = d.numbers.length ∧
    ∀ (k : ℕ) (n : SectionNum), d.numbers[k]? = some n →
      (getDeviceConfig (loaded signed file) k).map ConfigSection.toSettings = d.settings n

/-! ## The text of a line -/

section Texts

variable {signed : Bool}

/-- A character that the loader keeps: neither blank nor NUL. -/
def IsKept (c : Char) : Prop := 33 ≤ c.toNat ∧ c.toNat ≤ 126
  deriving Decidable

theorem isBlank_of_isKept {c : Char} (h : IsKept c) : isBlank signed c = false := by
  obtain ⟨h1, h2⟩ := h
  simp only [isBlank, decide_eq_false_iff_not]
  omega

theorem isBlank_of_isSpace {c : Char} (h : isSpace c = true) : isBlank signed c = true := by
  simp only [isSpace, decide_eq_true_eq] at h
  simp only [isBlank, decide_eq_true_eq]
  rcases h with rfl | h
  · exact .inl (by decide)
  · exact .inl (by omega)

theorem ne_nul_of_toNat_pos {c : Char} (h : 0 < c.toNat) : c ≠ nul := by
  rintro rfl
  exact absurd h (by decide)

theorem ne_nul_of_isSpace {c : Char} (h : isSpace c = true) : c ≠ nul := by
  rintro rfl
  exact absurd h (by decide)

/-- Without a NUL the text of a line is put together from those of its parts. -/
theorem lineText_of_no_nul {line : List Char} (h : ∀ c ∈ line, c ≠ nul) :
    lineText signed line = line.filter fun c => !isBlank signed c := by
  rw [lineText, cString, List.takeWhile_eq_self_iff.mpr]
  intro c hc
  simpa using h c hc

theorem filter_of_isSpacing {sp : List Char} (h : IsSpacing sp) :
    sp.filter (fun c => !isBlank signed c) = [] := by
  rw [List.filter_eq_nil_iff]
  intro c hc
  simp [isBlank_of_isSpace (h c hc)]

theorem filter_of_isKept {text : List Char} (h : ∀ c ∈ text, IsKept c) :
    text.filter (fun c => !isBlank signed c) = text := by
  rw [List.filter_eq_self]
  intro c hc
  simp [isBlank_of_isKept (h c hc)]

/-- Of printable texts only the spaces are lost. -/
theorem filter_of_isPrintable {text : List Char} (h : ∀ c ∈ text, IsPrintable c) :
    text.filter (fun c => !isBlank signed c) = text.filter (· ≠ ' ') := by
  refine List.filter_congr fun c hc => ?_
  obtain ⟨h1, h2⟩ := h c hc
  by_cases hspace : c = ' '
  · subst hspace
    cases signed <;> decide
  · have hne : c.toNat ≠ 32 := by
      intro h32
      exact hspace (Char.toNat_inj.mp h32)
    rw [isBlank_of_isKept ⟨by omega, by omega⟩]
    simp [hspace]

/-- A filler is skipped. -/
theorem loadText_filler {line : List Char} (h : IsFiller line) (l : Loader) :
    loadText l (lineText signed line) = l := by
  rcases h with h | ⟨sp, comment, hsp, rfl⟩
  · rw [lineText_of_no_nul fun c hc => ne_nul_of_isSpace (h c hc), filter_of_isSpacing h]
    rfl
  · have htext : (lineText signed (sp ++ '#' :: comment)).head? = some '#' := by
      rw [lineText, cString, List.takeWhile_append_of_pos, List.takeWhile_cons_of_pos,
        List.filter_append, filter_of_isSpacing hsp, List.nil_append, List.filter_cons_of_pos]
      · rfl
      · cases signed <;> decide
      · decide
      · intro c hc
        simpa using ne_nul_of_isSpace (hsp c hc)
    rw [loadText, if_pos (.inl htext)]

theorem ne_nul_of_isKept {c : Char} (h : IsKept c) : c ≠ nul :=
  ne_nul_of_toNat_pos (Nat.lt_of_lt_of_le (by decide) h.1)

theorem isKept_header (n : SectionNum) : ∀ c ∈ header n, IsKept c := by
  have hall : ∀ n : SectionNum, (header n).all (fun c => decide (IsKept c)) = true := by
    decide +kernel
  exact fun c hc => of_decide_eq_true (List.all_eq_true.mp (hall n) c hc)

theorem isKept_key (o : Option6) : ∀ c ∈ o.key, IsKept c := by
  have hall : o.key.all (fun c => decide (IsKept c)) = true := by cases o <;> decide +kernel
  exact fun c hc => of_decide_eq_true (List.all_eq_true.mp hall c hc)

/-- The text of a header line. -/
theorem lineText_header {n : SectionNum} {line : List Char} (h : IsHeaderLine n line) :
    lineText signed line = header n := by
  obtain ⟨before, after, hbefore, hafter, rfl⟩ := h
  rw [lineText_of_no_nul]
  · rw [List.filter_append, List.filter_append, filter_of_isSpacing hbefore,
      filter_of_isSpacing hafter, filter_of_isKept (isKept_header n), List.nil_append,
      List.append_nil]
  · intro c hc
    rcases List.mem_append.mp hc with hc | hc
    · rcases List.mem_append.mp hc with hc | hc
      · exact ne_nul_of_isSpace (hbefore c hc)
      · exact ne_nul_of_isKept (isKept_header n c hc)
    · exact ne_nul_of_isSpace (hafter c hc)

/-- **Headers.** Those with one digit start their section, the others are ignored. -/
theorem loadText_header {n : SectionNum} {line : List Char} (h : IsHeaderLine n line)
    (l : Loader) :
    loadText l (lineText signed line) = if n.val ≤ 9 then startSection l n else l := by
  have hrecognised : ∀ n : SectionNum,
      extractSectionNumber (header n) = if n.val ≤ 9 then some n else none := by decide +kernel
  have hassign : ∀ n : SectionNum, splitAssignment (header n) = none := by decide +kernel
  have hskip : ∀ n : SectionNum, ¬ ((header n).head? = some '#' ∨ header n = []) := by
    decide +kernel
  rw [lineText_header h, loadText, if_neg (hskip n), hrecognised n]
  by_cases hn : n.val ≤ 9
  · rw [if_pos hn, if_pos hn]
  · rw [if_neg hn, if_neg hn, hassign n]

/-- The settings as the loader sees them, without spaces in the shared memory id. -/
def stripped (c : Settings) : Settings := { c with shmId := c.shmId.filter (· ≠ ' ') }

theorem loadInt32_of_isNumeral {text : List Char} {v : ℤ} (h : IsNumeral text v)
    (hv : (Value.int v).Proper) : loadInt32 text = some v := by
  obtain ⟨hlo, hhi, hne⟩ := hv
  have hread := strtol_of_isNumeral h (by omega) (by omega)
  have hrest : ¬ [] = text := fun hnil => ne_nil_of_isNumeral h hnil.symm
  have hrange : ¬ (v < -2 ^ 31 ∨ 2 ^ 31 - 1 < v) := by omega
  have hset : ¬ v = -1 := hne
  simp only [loadInt32, hread, hrest, hrange, hset, ne_eq, not_true_eq_false, if_false,
    Bool.false_eq_true]

theorem isKept_of_isNumeral {text : List Char} {v : ℤ} (h : IsNumeral text v) :
    ∀ c ∈ text, IsKept c := by
  intro c hc
  rcases mem_of_isNumeral h hc with hdigit | rfl | rfl
  · simp only [Char.isDigit, ge_iff_le, Bool.and_eq_true, decide_eq_true_eq] at hdigit
    have hlo : 48 ≤ c.toNat := hdigit.1
    have hhi : c.toNat ≤ 57 := hdigit.2
    exact ⟨by omega, by omega⟩
  · exact ⟨by decide, by decide⟩
  · exact ⟨by decide, by decide⟩

variable (signed)

/-- What is left of a text for an option is accepted. -/
theorem accept_of_writes {c : Settings} {o : Option6} (hproper : (c.value o).Proper)
    {text : List Char} (h : Writes (c.value o) text) :
    (∀ ch ∈ text, ch ≠ nul) ∧
      accept o (text.filter fun ch => !isBlank signed ch) = some ((stripped c).value o) := by
  by_cases ho : o = .shmId
  · subst ho
    obtain ⟨-, hprint, hlen⟩ := hproper
    cases h
    have hpos : ∀ ch ∈ c.shmId, 0 < ch.toNat := fun ch hch =>
      Nat.lt_of_lt_of_le (by decide) (hprint ch hch).1
    refine ⟨fun ch hch => ne_nul_of_toNat_pos (hpos ch hch), ?_⟩
    have hshort : (c.shmId.filter (· ≠ ' ')).length < shmIdLen :=
      Nat.lt_of_le_of_lt (List.length_filter_le _ _) hlen
    rw [filter_of_isPrintable hprint, accept, loadStr, if_neg (Nat.not_lt.mpr hshort.le), strcpyS,
      if_pos hshort]
    rfl
  · have hint : ∃ v, c.value o = .int v ∧ (stripped c).value o = .int v := by
      cases o <;> first | exact ⟨_, rfl, rfl⟩ | exact absurd rfl ho
    obtain ⟨v, hv, hv'⟩ := hint
    rw [hv] at h hproper
    have hkept := isKept_of_isNumeral h
    refine ⟨fun ch hch => ne_nul_of_isKept (hkept ch hch), ?_⟩
    rw [filter_of_isKept hkept, hv']
    have hload := loadInt32_of_isNumeral h hproper
    cases o <;> first | (simp only [accept, hload]; rfl) | exact absurd rfl ho

/-- The text of an option line. -/
theorem lineText_option {c : Settings} {o : Option6} (hproper : (c.value o).Proper)
    {line : List Char} (h : IsOptionLine c o line) :
    ∃ text, lineText signed line = o.key ++ '=' :: text ∧
      accept o text = some ((stripped c).value o) := by
  obtain ⟨sp₁, sp₂, sp₃, sp₄, text, h₁, h₂, h₃, h₄, htext, rfl⟩ := h
  obtain ⟨hnul, haccept⟩ := accept_of_writes signed hproper htext
  refine ⟨_, ?_, haccept⟩
  rw [lineText_of_no_nul]
  · have hequal : isBlank signed '=' = false := by cases signed <;> decide
    simp only [List.filter_append, List.filter_cons, hequal, Bool.not_false, if_true,
      filter_of_isSpacing h₁,
      filter_of_isSpacing h₂, filter_of_isSpacing h₃, filter_of_isSpacing h₄,
      filter_of_isKept (isKept_key o), List.nil_append, List.append_nil]
  · intro ch hch
    simp only [List.mem_append, List.mem_cons] at hch
    rcases hch with ((hch | hch) | hch) | rfl | (hch | hch) | hch
    · exact ne_nul_of_isSpace (h₁ ch hch)
    · exact ne_nul_of_isKept (isKept_key o ch hch)
    · exact ne_nul_of_isSpace (h₂ ch hch)
    · decide
    · exact ne_nul_of_isSpace (h₃ ch hch)
    · exact hnul ch hch
    · exact ne_nul_of_isSpace (h₄ ch hch)

/-- A header starts with a bracket. -/
theorem extractSectionNumber_of_head {line : List Char} (h : line.head? ≠ some '[') :
    extractSectionNumber line = none := by
  have hnot : isSectionHeader line = false := by
    cases line with
    | nil => rfl
    | cons ch rest =>
      have hch : ch ≠ '[' := fun hch => h (congrArg some hch)
      simp only [isSectionHeader, decide_eq_false_iff_not]
      rintro ⟨htake, -⟩
      exact hch (List.cons.inj htake).1
  rw [extractSectionNumber, hnot]
  rfl

/-- **Options.** An option line is an assignment of an accepted text. -/
theorem loadText_option {c : Settings} {o : Option6} (hproper : (c.value o).Proper)
    {line : List Char} (h : IsOptionLine c o line) :
    ∃ text, accept o text = some ((stripped c).value o) ∧
      ∀ l, loadText l (lineText signed line) = saveLine l o.key text := by
  obtain ⟨text, hline, haccept⟩ := lineText_option signed hproper h
  refine ⟨text, haccept, fun l => ?_⟩
  have hequals : '=' ∉ o.key := by cases o <;> decide +kernel
  have hno : ∀ ch ∈ o.key, ch ≠ '=' := fun ch hch heq => hequals (heq ▸ hch)
  have hhead : ∃ ch, (o.key ++ '=' :: text).head? = some ch ∧ ch ≠ '[' ∧ ch ≠ '#' := by
    have hkey : o.key ≠ [] ∧ o.key.head? ≠ some '[' ∧ o.key.head? ≠ some '#' := by
      cases o <;> decide +kernel
    obtain ⟨ch, rest, hcons⟩ := List.exists_cons_of_ne_nil hkey.1
    rw [hcons] at hkey ⊢
    exact ⟨ch, rfl, fun hch => hkey.2.1 (congrArg some hch),
      fun hch => hkey.2.2 (congrArg some hch)⟩
  obtain ⟨ch, hhead, hbracket, hhash⟩ := hhead
  have hheader : extractSectionNumber (o.key ++ '=' :: text) = none := by
    refine extractSectionNumber_of_head ?_
    rw [hhead]
    simpa using hbracket
  have hskip : ¬ ((o.key ++ '=' :: text).head? = some '#' ∨ o.key ++ '=' :: text = []) := by
    rw [hhead]
    simpa using hhash
  have hsplit : splitAssignment (o.key ++ '=' :: text) = some (o.key, text) := by
    rw [splitAssignment, if_pos (by simp), List.takeWhile_append_of_pos (by simpa using hno),
      List.dropWhile_append_of_pos (by simpa using hno)]
    simp
  rw [hline, loadText, if_neg hskip, hheader, hsplit]

end Texts

/-! ## The options of a section -/

/-- The settings after assignments, from given ones. -/
def saveOptions (c : Settings) (kvs : List (List Char × List Char)) : Settings :=
  kvs.foldl (fun c kv => saveOption c kv.1 kv.2) c

/-- The loader with the settings changed to which an assignment goes. -/
def Loader.change (l : Loader) (f : Settings → Settings) : Loader :=
  match l.current with
  | some n =>
    { l with
      sections := Function.update l.sections n
        ⟨f (l.sections n).toSettings, (l.sections n).sectionId⟩ }
  | none => { l with config := f l.config }

theorem Loader.change_of_some {l : Loader} {n : SectionNum} (h : l.current = some n)
    (f : Settings → Settings) :
    l.change f = { l with
      sections := Function.update l.sections n
        ⟨f (l.sections n).toSettings, (l.sections n).sectionId⟩ } := by
  unfold Loader.change
  rw [h]

theorem Loader.change_of_none {l : Loader} (h : l.current = none) (f : Settings → Settings) :
    l.change f = { l with config := f l.config } := by
  unfold Loader.change
  rw [h]

theorem saveLine_eq (l : Loader) (key value : List Char) :
    saveLine l key value = l.change fun c => saveOption c key value := rfl

theorem Loader.change_id (l : Loader) : l.change id = l := by
  cases hl : l.current with
  | none => exact change_of_none hl id
  | some n =>
    rw [change_of_some hl]
    exact congrArg (fun sections => { l with sections }) (Function.update_eq_self n l.sections)

/-- All changes go to the same place. -/
theorem Loader.change_change (l : Loader) (f g : Settings → Settings) :
    (l.change f).change g = l.change (g ∘ f) := by
  cases hl : l.current with
  | none => simp [Loader.change, hl]
  | some n => simp [Loader.change, hl]

theorem foldl_saveLine (kvs : List (List Char × List Char)) (l : Loader) :
    kvs.foldl (fun l kv => saveLine l kv.1 kv.2) l = l.change fun c => saveOptions c kvs := by
  induction kvs generalizing l with
  | nil => exact l.change_id.symm
  | cons kv kvs ih =>
    rw [List.foldl_cons, ih, saveLine_eq, Loader.change_change]
    rfl

theorem Settings.ext_value {c c' : Settings} (h : ∀ o, c.value o = c'.value o) : c = c' := by
  have h1 := h .npuId
  have h2 := h .vnpuId
  have h3 := h .aicoreQuota
  have h4 := h .memoryQuota
  have h5 := h .schedulingPolicy
  have h6 := h .shmId
  simp only [Settings.value, Value.int.injEq, Value.str.injEq] at h1 h2 h3 h4 h5 h6
  cases c
  cases c'
  simp_all

section Blocks

variable (signed : Bool) {c : Settings} (hproper : ∀ o, (c.value o).Proper)

include hproper

/-- The lines of a section are assignments, and those of its options are seen. -/
theorem exists_assignments {os : List Option6} {lines : List (List Char)}
    (h : OptionLines c os lines) :
    ∃ kvs : List (List Char × List Char),
      (∀ l, (lines.map (lineText signed)).foldl loadText l
        = kvs.foldl (fun l kv => saveLine l kv.1 kv.2) l) ∧
      ∀ (old : Settings) (o : Option6), (saveOptions old kvs).value o = old.value o ∧ o ∉ os ∨
        (saveOptions old kvs).value o = (stripped c).value o := by
  induction h with
  | nil => exact ⟨[], fun _ => rfl, fun _ _ => .inl ⟨rfl, List.not_mem_nil⟩⟩
  | @filler os line lines hline _ ih =>
    obtain ⟨kvs, hfold, hvalue⟩ := ih
    refine ⟨kvs, fun l => ?_, hvalue⟩
    rw [List.map_cons, List.foldl_cons, loadText_filler hline]
    exact hfold l
  | @option o os line lines hline _ ih =>
    obtain ⟨kvs, hfold, hvalue⟩ := ih
    obtain ⟨text, haccept, hload⟩ := loadText_option signed (hproper o) hline
    refine ⟨(o.key, text) :: kvs, fun l => ?_, fun old o' => ?_⟩
    · rw [List.map_cons, List.foldl_cons, hload]
      exact hfold _
    · have hstep : saveOptions old ((o.key, text) :: kvs)
          = saveOptions (saveOption old o.key text) kvs := rfl
      rw [hstep]
      rcases hvalue (saveOption old o.key text) o' with ⟨hv, hnot⟩ | hv
      · rw [hv, saveOption_value]
        by_cases ho : o.key = o'.key
        · rw [if_pos ho]
          obtain rfl := key_injective ho
          exact .inr ((assign_spec o old text).1 _ haccept)
        · rw [if_neg ho]
          refine .inl ⟨rfl, ?_⟩
          rw [List.mem_cons, not_or]
          exact ⟨fun heq => ho (congrArg Option6.key heq.symm), hnot⟩
      · exact .inr hv

/-- **The options of a section.** They replace the settings of the current section, or of a single
device. -/
theorem foldl_option_lines {os : List Option6} (hos : os.Perm allOptions)
    {lines : List (List Char)} (h : OptionLines c os lines) (l : Loader) :
    (lines.map (lineText signed)).foldl loadText l = l.change fun _ => stripped c := by
  obtain ⟨kvs, hfold, hvalue⟩ := exists_assignments signed hproper h
  have hall : ∀ old, saveOptions old kvs = stripped c := by
    intro old
    refine Settings.ext_value fun o => ?_
    rcases hvalue old o with ⟨-, hnot⟩ | hv
    · refine absurd (hos.mem_iff.mpr ?_) hnot
      cases o <;> decide
    · exact hv
  rw [hfold, foldl_saveLine]
  exact congrArg l.change (funext hall)

end Blocks

/-! ## A listing -/

section Listing

variable {d : Devices} (signed : Bool)

/-- **A listing, device by device.** What a header with its options keeps is kept by all. -/
theorem invariant_of_sectionLines {I : List SectionNum → Loader → Prop}
    (hdevice : ∀ {n : SectionNum} {c : Settings} {ds : List SectionNum} {l : Loader},
      d.settings n = some c → I ds l →
        I (n :: ds) ((if n.val ≤ 9 then startSection l n else l).change fun _ => stripped c))
    {ns : List SectionNum} {lines : List (List Char)} (h : SectionLines d ns lines) :
    ∀ {ds : List SectionNum} {l : Loader}, I ds l →
      I (ns.reverse ++ ds) ((lines.map (lineText signed)).foldl loadText l) := by
  induction h with
  | nil => exact fun hl => hl
  | @filler ns line lines hline _ ih =>
    intro ds l hl
    rw [List.map_cons, List.foldl_cons, loadText_filler hline]
    exact ih hl
  | @device n c os line block ns lines hline hc hos hblock _ ih =>
    intro ds l hl
    rw [List.map_cons, List.foldl_cons, loadText_header hline, List.map_append, List.foldl_append,
      foldl_option_lines signed (d.proper n c hc) hos hblock, List.reverse_cons, List.append_assoc]
    exact ih (hdevice hc hl)

/-- The sections that have been listed and recognised: only they are configured, and one of them is
the current section. -/
structure Confined (ds : List SectionNum) (l : Loader) : Prop where
  configured : ∀ n, isConfigured (l.sections n) = true → n ∈ ds ∧ n.val ≤ 9
  current : ∀ n, l.current = some n → n ∈ ds ∧ n.val ≤ 9
  uncounted : l.deviceCount = 0

theorem Confined.mono {ds ds' : List SectionNum} {l : Loader} (h : Confined ds l)
    (hsub : ∀ n ∈ ds, n ∈ ds') : Confined ds' l :=
  ⟨fun n hn => ⟨hsub n (h.configured n hn).1, (h.configured n hn).2⟩,
    fun n hn => ⟨hsub n (h.current n hn).1, (h.current n hn).2⟩, h.uncounted⟩

theorem Confined.update {ds : List SectionNum} {l : Loader} (h : Confined ds l) {n : SectionNum}
    (hn : n ∈ ds ∧ n.val ≤ 9) (sec : ConfigSection) :
    Confined ds { l with sections := Function.update l.sections n sec } := by
  refine ⟨fun k hk => ?_, h.current, h.uncounted⟩
  by_cases hkn : k = n
  · rw [hkn]
    exact hn
  · refine h.configured k ?_
    rwa [← Function.update_of_ne hkn sec l.sections]

/-- A header, recognised or not. -/
theorem Confined.header {ds : List SectionNum} {l : Loader} (h : Confined ds l)
    (n : SectionNum) : Confined (n :: ds) (if n.val ≤ 9 then startSection l n else l) := by
  have hmono : Confined (n :: ds) l := h.mono fun k hk => List.mem_cons_of_mem _ hk
  by_cases hn : n.val ≤ 9
  · rw [if_pos hn]
    have hmem : n ∈ n :: ds ∧ n.val ≤ 9 := ⟨List.mem_cons_self, hn⟩
    have hupdate := hmono.update hmem ⟨unsetSettings, n.val⟩
    refine ⟨hupdate.configured, fun k hk => ?_, hupdate.uncounted⟩
    cases hk
    exact hmem
  · rw [if_neg hn]
    exact hmono

/-- A device, recognised or not. -/
theorem Confined.device {ds : List SectionNum} {l : Loader} (h : Confined ds l) (n : SectionNum)
    (f : Settings → Settings) :
    Confined (n :: ds) ((if n.val ≤ 9 then startSection l n else l).change f) := by
  have hhead := h.header n
  cases hcur : (if n.val ≤ 9 then startSection l n else l).current with
  | none =>
    rw [Loader.change_of_none hcur]
    exact ⟨hhead.configured, hhead.current, hhead.uncounted⟩
  | some k =>
    rw [Loader.change_of_some hcur]
    exact hhead.update (hhead.current k hcur) _

/-- The section of a device. -/
def listed (d : Devices) (n : SectionNum) : ConfigSection :=
  match d.settings n with
  | some c => ⟨stripped c, n.val⟩
  | none => unsetSection

/-- The sections are those of the devices that have been listed. -/
structure Exact (d : Devices) (ds : List SectionNum) (l : Loader) : Prop where
  sections : ∀ n, l.sections n = if n ∈ ds then listed d n else unsetSection
  current : ds ≠ [] → l.current.isSome = true

/-- A device whose header is recognised. -/
theorem Exact.device {ds : List SectionNum} {l : Loader} (h : Exact d ds l) {n : SectionNum}
    {c : Settings} (hc : d.settings n = some c) (hn : n.val ≤ 9) :
    Exact d (n :: ds)
      ((if n.val ≤ 9 then startSection l n else l).change fun _ => stripped c) := by
  rw [if_pos hn, Loader.change_of_some rfl]
  refine ⟨fun k => ?_, fun _ => rfl⟩
  by_cases hk : k = n
  · subst hk
    simp [listed, hc, startSection]
  · simp [startSection, hk, h.sections k]

end Listing

/-! ## Counting -/

theorem length_filter_finRange (p : SectionNum → Bool) :
    ((List.finRange 16).filter p).length = (Finset.univ.filter fun n => p n = true).card := by
  have hnodup : ((List.finRange 16).filter p).Nodup := (List.nodup_finRange 16).filter _
  rw [← List.toFinset_card_of_nodup hnodup]
  congr 1
  ext n
  simp

theorem Devices.card (d : Devices) :
    d.numbers.length = (Finset.univ.filter fun n => (d.settings n).isSome = true).card :=
  length_filter_finRange _

theorem filter_list (l : Loader) :
    l.list.filter isConfigured
      = ((List.finRange 16).filter fun n => isConfigured (l.sections n)).map l.sections :=
  List.filter_map

theorem isConfigured_listed (d : Devices) (n : SectionNum) :
    isConfigured (listed d n) = (d.settings n).isSome := by
  unfold listed
  cases hc : d.settings n with
  | none => rfl
  | some c =>
    have hset : c.phyNpuId ≠ invalidValue := (d.proper n c hc .npuId).2.2
    simpa [isConfigured, stripped] using hset

section Results

variable {signed : Bool} {d : Devices} {file : List Char}

theorem confined_initialLoader : Confined [] initialLoader :=
  ⟨fun _ hn => absurd (show isConfigured unsetSection = true from hn) (by decide),
    fun _ hn => (nomatch hn), rfl⟩

theorem exact_initialLoader : Exact d [] initialLoader :=
  ⟨fun _ => (if_neg List.not_mem_nil).symm, fun h => absurd rfl h⟩

/-- The state if every header is recognised. -/
theorem loaded_of_le_nine (signed : Bool) (h : Lists d file)
    (hsmall : ∀ n, (d.settings n).isSome = true → n.val ≤ 9) :
    (loaded signed file).sections = listed d ∧ (loaded signed file).current.isSome = true ∧
      (loaded signed file).deviceCount = d.numbers.length := by
  obtain ⟨hlines, ns, -, hns, hlisting⟩ := h
  have hexact := invariant_of_sectionLines signed (I := Exact d)
    (fun {n _ _ _} hc hl => hl.device hc (hsmall n (by rw [hc]; rfl))) hlisting exact_initialLoader
  rw [← loadFile_eq signed hlines, List.append_nil] at hexact
  have hsections : (loadFile signed file).sections = listed d := by
    funext n
    rw [hexact.sections]
    by_cases hn : n ∈ ns
    · rw [if_pos (List.mem_reverse.mpr hn)]
    · rw [if_neg (mt List.mem_reverse.mp hn)]
      have hnone : d.settings n = none := by simpa using mt (hns n).mpr hn
      rw [listed, hnone]
  have hcurrent : (loadFile signed file).current.isSome = true := by
    obtain ⟨n, hn⟩ := d.nonempty
    refine hexact.current (List.ne_nil_of_mem (List.mem_reverse.mpr ((hns n).mpr hn)))
  obtain ⟨k, hk⟩ := Option.isSome_iff_exists.mp hcurrent
  simp only [loaded, hk]
  refine ⟨hsections, rfl, ?_⟩
  rw [List.countP_eq_length_filter, filter_list, List.length_map, hsections]
  simp only [isConfigured_listed]
  rfl

/-- A header that is not recognised is missing in the count. -/
theorem deviceCount_lt (h : Lists d file) {n : SectionNum} (hn : (d.settings n).isSome = true)
    (hbig : 9 < n.val) : (loaded signed file).deviceCount < d.numbers.length := by
  obtain ⟨hlines, ns, -, hns, hlisting⟩ := h
  have hconfined := invariant_of_sectionLines signed (I := Confined)
    (fun {n _ _ _} _ hl => hl.device n _) hlisting confined_initialLoader
  rw [← loadFile_eq signed hlines, List.append_nil] at hconfined
  have hcount : (loadFile signed file).list.countP isConfigured < d.numbers.length := by
    rw [List.countP_eq_length_filter, filter_list, List.length_map, length_filter_finRange, d.card]
    refine Finset.card_lt_card ⟨fun k hk => ?_, fun hsub => ?_⟩
    · have := hconfined.configured k (Finset.mem_filter.mp hk).2
      rw [List.mem_reverse] at this
      exact Finset.mem_filter.mpr ⟨Finset.mem_univ k, (hns k).mp this.1⟩
    · have hmem := hsub (Finset.mem_filter.mpr ⟨Finset.mem_univ n, hn⟩)
      have := (hconfined.configured n (Finset.mem_filter.mp hmem).2).2
      omega
  cases hcur : (loadFile signed file).current with
  | some k =>
    simp only [loaded, hcur]
    exact hcount
  | none =>
    simp only [loaded, hcur]
    rw [hconfined.uncounted]
    exact Nat.lt_of_le_of_lt (Nat.zero_le _) hcount

/-- If the first sections occur, as many as there are, then no other does. -/
theorem isSome_iff_lt
    (h : ∀ n : SectionNum, n.val < d.numbers.length → (d.settings n).isSome = true)
    (n : SectionNum) : (d.settings n).isSome = true ↔ n.val < d.numbers.length := by
  have hcard : ∀ k : Fin 17,
      (Finset.univ.filter fun n : SectionNum => n.val < k.val).card = k.val := by
    decide
  have hbound : d.numbers.length < 17 := by
    have := List.length_filter_le (fun n => (d.settings n).isSome) (List.finRange 16)
    rw [List.length_finRange] at this
    exact Nat.lt_succ_of_le this
  have hsub : (Finset.univ.filter fun n : SectionNum => n.val < d.numbers.length) ⊆
      Finset.univ.filter fun n => (d.settings n).isSome = true := by
    intro k hk
    exact Finset.mem_filter.mpr ⟨Finset.mem_univ k, h k (Finset.mem_filter.mp hk).2⟩
  have heq := Finset.eq_of_subset_of_card_le hsub
    (Nat.le_of_eq (d.card.symm.trans (hcard ⟨d.numbers.length, hbound⟩).symm))
  have := Finset.ext_iff.mp heq n
  simpa using this.symm

/-- Only a space in the shared memory id is lost. -/
theorem stripped_eq_iff (c : Settings) : stripped c = c ↔ ' ' ∉ c.shmId := by
  constructor
  · intro h hmem
    have hshm : c.shmId.filter (· ≠ ' ') = c.shmId := congrArg Settings.shmId h
    have := List.filter_eq_self.mp hshm ' ' hmem
    simp at this
  · intro h
    refine congrArg (fun shmId => { c with shmId }) (List.filter_eq_self.mpr fun ch hch => ?_)
    simp only [decide_eq_true_eq]
    rintro rfl
    exact h hch

/-- The checks of a section that is listed. -/
theorem checkSection_listed {n : SectionNum} {c : Settings} (hc : d.settings n = some c)
    (hspace : ' ' ∉ c.shmId) : checkSection (listed d n) = true := by
  have hset : allSet c = true := by
    rw [allSet_iff]
    intro o hunset
    have hproper := d.proper n c hc o
    rw [hunset] at hproper
    cases o
    case shmId => exact hproper.1 rfl
    all_goals exact hproper.2.2 rfl
  simp only [listed, hc, (stripped_eq_iff c).mpr hspace, checkSection, decide_eq_true_eq]
  exact ⟨by omega, hset⟩

theorem isSome_of_checkSection {n : SectionNum} (h : checkSection (listed d n) = true) :
    (d.settings n).isSome = true := by
  rw [← isConfigured_listed]
  simp only [checkSection, decide_eq_true_eq, allSet_iff] at h
  have hset := h.2 .npuId
  simpa [isConfigured, Settings.value, unsetValue, unsetSettings] using hset

/-- The device that is found at an index. -/
theorem getDeviceConfig_eq {l : Loader} (hsections : l.sections = listed d)
    (hcount : l.deviceCount = d.numbers.length) (k : ℕ) :
    getDeviceConfig l k = d.numbers[k]?.map (listed d) := by
  have hfilter : l.list.filter isConfigured = d.numbers.map (listed d) := by
    rw [filter_list, hsections]
    simp only [isConfigured_listed]
    rfl
  rw [getDeviceConfig, hcount, findConfigured_eq, hfilter, List.getElem?_map]
  by_cases hk : d.numbers.length ≤ k
  · rw [if_pos hk, List.getElem?_eq_none hk]
    rfl
  · rw [if_neg hk]

/-- The verdict, when every header is recognised. -/
theorem loadConfig_eq_enpuSuccess_iff (hsections : (loaded signed file).sections = listed d)
    (hcurrent : (loaded signed file).current.isSome = true)
    (hcount : (loaded signed file).deviceCount = d.numbers.length) :
    loadConfig signed file = enpuSuccess ↔
      ∀ n : SectionNum, n.val < d.numbers.length → checkSection (listed d n) = true := by
  obtain ⟨k, hk⟩ := Option.isSome_iff_exists.mp hcurrent
  have hpos : d.numbers.length ≠ 0 := by
    obtain ⟨n, hn⟩ := d.nonempty
    have hmem : n ∈ d.numbers := List.mem_filter.mpr ⟨List.mem_finRange n, hn⟩
    exact Nat.ne_of_gt (List.length_pos_of_mem hmem)
  simp only [loadConfig, hk, checkMultiConfig, hcount, hsections, hpos, if_false]
  split
  · rename_i hall
    exact ⟨fun _ => hall, fun _ => rfl⟩
  · rename_i hnot
    exact ⟨fun hrc => absurd hrc (by decide), fun hall => absurd hall hnot⟩

/-- **When the contract is met.** A file that lists devices is loaded as it should exactly if the
devices are numbered from zero without a gap, there are at most ten, and no shared memory id has a
space. -/
theorem round_trip_iff (signed : Bool) (d : Devices) (file : List Char) (h : Lists d file) :
    RoundTrip signed d file ↔
      (∀ n : SectionNum, (d.settings n).isSome = true ↔ n.val < d.numbers.length) ∧
        d.numbers.length ≤ 10 ∧ ∀ n c, d.settings n = some c → ' ' ∉ c.shmId := by
  constructor
  · rintro ⟨hrc, hcount, hconfig⟩
    have hsmall : ∀ n, (d.settings n).isSome = true → n.val ≤ 9 := by
      intro n hn
      by_contra hbig
      exact absurd hcount (Nat.ne_of_lt (deviceCount_lt h hn (by omega)))
    obtain ⟨hsections, hcurrent, hdevices⟩ := loaded_of_le_nine signed h hsmall
    have hinit : ∀ n : SectionNum, n.val < d.numbers.length → (d.settings n).isSome = true := by
      intro n hn
      rw [loadConfig_eq_enpuSuccess_iff hsections hcurrent hdevices] at hrc
      exact isSome_of_checkSection (hrc n hn)
    refine ⟨isSome_iff_lt hinit, ?_, fun n c hc => ?_⟩
    · -- the tenth number would be too large
      by_contra hlong
      exact absurd (hsmall 10 (hinit 10 (Nat.not_le.mp hlong))) (by decide)
    · have hmem : n ∈ d.numbers := by simp [Devices.numbers, hc]
      obtain ⟨k, hk⟩ := List.mem_iff_getElem?.mp hmem
      have hfound := hconfig k n hk
      rw [getDeviceConfig_eq hsections hdevices, hk, hc, Option.map_some, Option.map_some,
        Option.some.injEq, listed, hc] at hfound
      exact (stripped_eq_iff c).mp hfound
  · rintro ⟨hinit, hten, hspace⟩
    have hsmall : ∀ n, (d.settings n).isSome = true → n.val ≤ 9 := by
      intro n hn
      have := (hinit n).mp hn
      omega
    obtain ⟨hsections, hcurrent, hdevices⟩ := loaded_of_le_nine signed h hsmall
    refine ⟨?_, hdevices, fun k n hk => ?_⟩
    · rw [loadConfig_eq_enpuSuccess_iff hsections hcurrent hdevices]
      intro n hn
      obtain ⟨c, hc⟩ := Option.isSome_iff_exists.mp ((hinit n).mpr hn)
      exact checkSection_listed hc (hspace n c hc)
    · have hmem : n ∈ d.numbers := List.mem_of_getElem? hk
      have hsome : (d.settings n).isSome = true := (List.mem_filter.mp hmem).2
      obtain ⟨c, hc⟩ := Option.isSome_iff_exists.mp hsome
      rw [getDeviceConfig_eq hsections hdevices, hk, Option.map_some, Option.map_some, listed, hc]
      exact congrArg some ((stripped_eq_iff c).mpr (hspace n c hc))

end Results

/-! ## Two files -/

/-- Settings for a section. -/
def sampleSettings (n : SectionNum) : Settings := ⟨n, 1, 50, 1024, 1, "enpu".toList⟩

/-- The lines for them. -/
def sampleBlock (n : SectionNum) : List (List Char) :=
  ["physical-npu-id=".toList ++ Nat.toDigits 10 n, "virtual-npu-id=1".toList,
    "aicore-quota=50".toList, "memory-quota=1024".toList, "scheduling-policy=1".toList,
    "shm-id=enpu".toList]

theorem proper_sampleSettings (n : SectionNum) (o : Option6) :
    ((sampleSettings n).value o).Proper := by
  revert n
  cases o <;> decide +kernel

/-- Devices with these settings. -/
def sampleDevices (ns : List SectionNum) (hne : ns ≠ []) : Devices where
  settings n := if n ∈ ns then some (sampleSettings n) else none
  proper := by
    intro n c hc o
    obtain ⟨-, rfl⟩ : n ∈ ns ∧ sampleSettings n = c := by simpa using hc
    exact proper_sampleSettings n o
  nonempty := by
    obtain ⟨n, hn⟩ := List.exists_mem_of_ne_nil ns hne
    exact ⟨n, by simp [hn]⟩

/-- The lines of a file for them. -/
def sampleLines (ns : List SectionNum) : List (List Char) :=
  ns.flatMap fun n => header n :: sampleBlock n

/-- A file for them. -/
def sampleFile (ns : List SectionNum) : List Char := ['\n'].intercalate (sampleLines ns)

/-- A line without spaces around key and value. -/
theorem isOptionLine_plain {c : Settings} {o : Option6} {text : List Char}
    (h : Writes (c.value o) text) : IsOptionLine c o (o.key ++ '=' :: text) :=
  ⟨[], [], [], [], text, nofun, nofun, nofun, nofun, h, by simp⟩

theorem isNumeral_of_digits {ds : List Char} (hne : ds ≠ []) (hds : ds.all Char.isDigit = true) :
    IsNumeral ds (digitsValue ds) :=
  ⟨ds, hne, List.all_eq_true.mp hds, .inl ⟨.inl rfl, rfl⟩⟩

theorem sampleBlock_optionLines (n : SectionNum) :
    OptionLines (sampleSettings n) allOptions (sampleBlock n) := by
  have hdigits : ∀ n : SectionNum, Nat.toDigits 10 n ≠ [] ∧
      (Nat.toDigits 10 n.val).all Char.isDigit = true ∧
      digitsValue (Nat.toDigits 10 n) = n.val := by
    decide +kernel
  obtain ⟨hne, hall, hvalue⟩ := hdigits n
  have hid : Writes ((sampleSettings n).value .npuId) (Nat.toDigits 10 n) := by
    have := isNumeral_of_digits hne hall
    rwa [hvalue] at this
  have hint : ∀ ds : List Char, ds ≠ [] → ds.all Char.isDigit = true →
      Writes (.int (digitsValue ds)) ds := fun _ => isNumeral_of_digits
  refine .option (isOptionLine_plain hid) ?_
  refine .option (isOptionLine_plain (hint "1".toList (by decide) (by decide))) ?_
  refine .option (isOptionLine_plain (hint "50".toList (by decide) (by decide))) ?_
  refine .option (isOptionLine_plain (hint "1024".toList (by decide) (by decide))) ?_
  refine .option (isOptionLine_plain (hint "1".toList (by decide) (by decide))) ?_
  exact .option (isOptionLine_plain rfl) .nil

theorem sampleLines_sectionLines {d : Devices} {ns : List SectionNum}
    (h : ∀ n ∈ ns, d.settings n = some (sampleSettings n)) :
    SectionLines d ns (sampleLines ns) := by
  induction ns with
  | nil => exact .nil
  | cons n ns ih =>
    have hheader : IsHeaderLine n (header n) := ⟨[], [], nofun, nofun, by simp⟩
    exact .device hheader (h n List.mem_cons_self) (.refl _) (sampleBlock_optionLines n)
      (ih fun k hk => h k (List.mem_cons_of_mem _ hk))

/-- The file lists the devices. -/
theorem lists_sampleFile {ns : List SectionNum} (hne : ns ≠ []) (hnodup : ns.Nodup) :
    Lists (sampleDevices ns hne) (sampleFile ns) := by
  have hlines : ∀ line ∈ sampleLines ns, line.length < maxLineLength ∧ '\n' ∉ line := by
    have hone : ∀ n : SectionNum, ∀ line ∈ header n :: sampleBlock n,
        line.length < maxLineLength ∧ '\n' ∉ line := by decide +kernel
    intro line hline
    obtain ⟨n, -, hn⟩ := List.mem_flatMap.mp hline
    exact hone n line hn
  have hnonempty : sampleLines ns ≠ [] := by
    obtain ⟨n, ns, rfl⟩ := List.exists_cons_of_ne_nil hne
    exact List.cons_ne_nil _ _
  have hfile : fileLines (sampleFile ns) = sampleLines ns :=
    List.splitOn_intercalate _ (fun line hline => (hlines line hline).2) hnonempty
  rw [Lists, hfile]
  refine ⟨fun line hline => (hlines line hline).1, ns, hnodup, fun n => ?_, ?_⟩
  · simp [sampleDevices]
  · exact sampleLines_sectionLines fun n hn => if_pos hn

/-- Three devices, in another order than that of their numbers, are loaded. -/
theorem round_trip_iff_three :
    Lists (sampleDevices [1, 0, 2] (by decide)) (sampleFile [1, 0, 2]) ∧
      RoundTrip true (sampleDevices [1, 0, 2] (by decide)) (sampleFile [1, 0, 2]) := by
  have hlists : Lists (sampleDevices [1, 0, 2] (by decide)) (sampleFile [1, 0, 2]) :=
    lists_sampleFile _ (by decide)
  refine ⟨hlists, (round_trip_iff true _ _ hlists).mpr ⟨by decide +kernel, by decide +kernel, ?_⟩⟩
  intro n c hc
  obtain ⟨-, rfl⟩ : n ∈ ([1, 0, 2] : List SectionNum) ∧ sampleSettings n = c := by
    simpa [sampleDevices] using hc
  exact (show ' ' ∉ "enpu".toList by decide)

/-- **A section with two digits is lost.** Its settings replace those of the section before it; the
file is accepted, with one device instead of two. -/
theorem section_ten_lost :
    Lists (sampleDevices [0, 10] (by decide)) (sampleFile [0, 10]) ∧
      loadConfig true (sampleFile [0, 10]) = enpuSuccess ∧
      getDeviceCount (loaded true (sampleFile [0, 10])) = 1 ∧
      (getDeviceConfig (loaded true (sampleFile [0, 10])) 0).map ConfigSection.toSettings
        = some (sampleSettings 10) ∧
      ¬ RoundTrip true (sampleDevices [0, 10] (by decide)) (sampleFile [0, 10]) := by
  have hcount : getDeviceCount (loaded true (sampleFile [0, 10])) = 1 := by decide +kernel
  refine ⟨lists_sampleFile _ (by decide), by decide +kernel, hcount, by decide +kernel, ?_⟩
  rintro ⟨-, htwo, -⟩
  rw [hcount] at htwo
  exact absurd htwo (by decide +kernel)

end YellowZone.NpuConfig
