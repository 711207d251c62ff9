import YellowZone.NpuConfig.Loader

/-!
# The verdict on a single-device file

A file without section headers is good if it gives each of the six options a value that the
option's loader accepts; unknown keys, malformed lines and rejected values do no harm, and a later
value replaces an earlier one.

That is how the loop works: after it, `config` holds for each option the last accepted value
(`Tracks`). The verdict is another matter. `check_single_config` chains its six tests with `&&` and
returns the truth value, one for a good file. But its callers compare with `ENPU_SUCCESS`, which is
zero. So a complete file is refused and an incomplete one accepted.

Under this inversion the verdict can still come out right, in one case only: a file gives all six
options and the last accepted shared memory id is the empty string. `load_str` accepts it,
`check_str` does not, and the two errors cancel.

## Main definitions and results

* `lastAccepted`, `Complete`, `Holds` — what a file says, and what `config` should hold
* `Verdict` — the contract of `load_config` on a file without headers
* `single_config_iff` — when it is met
* `complete_file_refused` — a complete file that is refused
-/

namespace YellowZone.NpuConfig

open Machine

/-! ## What a file says -/

/-- The value of an option. -/
inductive Value where
  | int (v : ℤ)
  | str (s : List Char)
  deriving DecidableEq, Repr

/-- The value that a configuration holds for an option. -/
def Settings.value (c : Settings) : Option6 → Value
  | .npuId => .int c.phyNpuId
  | .vnpuId => .int c.vnpuId
  | .aicoreQuota => .int c.aicoreQuota
  | .memoryQuota => .int c.memoryQuota
  | .schedulingPolicy => .int c.schedulingPolicy
  | .shmId => .str c.shmId

/-- The value that the loader of an option makes of a text, if it accepts it. -/
def accept : Option6 → List Char → Option Value
  | .shmId, text => if (loadStr [] text).2 then some (.str text) else none
  | _, text => (loadInt32 text).map .int

/-- The assignment in the text of a line that is no section header. -/
def assignment (line : List Char) : Option (List Char × List Char) :=
  if line.head? = some '#' ∨ line = [] then none else splitAssignment line

/-- The texts of the lines of a file. -/
def fileTexts (signed : Bool) (file : List Char) : List (List Char) :=
  (fileLines file).map (lineText signed)

/-- The assignments of a file. -/
def assignments (signed : Bool) (file : List Char) : List (List Char × List Char) :=
  (fileTexts signed file).filterMap assignment

/-- The accepted values of an option, in order. -/
def accepted (o : Option6) (kvs : List (List Char × List Char)) : List Value :=
  kvs.filterMap fun kv => if kv.1 = o.key then accept o kv.2 else none

/-- The last accepted value of an option. -/
def lastAccepted (o : Option6) (kvs : List (List Char × List Char)) : Option Value :=
  (accepted o kvs).getLast?

/-- No line of the file is a section header. -/
def NoHeader (signed : Bool) (file : List Char) : Prop :=
  ∀ line ∈ fileTexts signed file, extractSectionNumber line = none

/-- Every option has a line with an accepted value. -/
def Complete (signed : Bool) (file : List Char) : Prop :=
  ∀ o, (lastAccepted o (assignments signed file)).isSome = true

/-- `config` holds the last accepted value of every option. -/
def Holds (signed : Bool) (file : List Char) : Prop :=
  ∀ o v, lastAccepted o (assignments signed file) = some v →
    (loaded signed file).config.value o = v

/-- **The contract.** The file is accepted exactly if it is complete, and then `config` holds what
it says. -/
def Verdict (signed : Bool) (file : List Char) : Prop :=
  (loadConfig signed file = enpuSuccess ↔ Complete signed file) ∧
    (loadConfig signed file = enpuSuccess → Holds signed file)

/-! ## One assignment -/

/-- What an assignment with the key of an option does to its value. -/
def assign : Option6 → Value → List Char → Value
  | .shmId, .str old, text => .str (loadStr old text).1
  | _, .int old, text => .int (assignInt old text)
  | _, v, _ => v

theorem key_injective {o o' : Option6} (h : o.key = o'.key) : o = o' := by
  cases o <;> cases o' <;> first | rfl | exact absurd h (by decide)

/-- **One assignment** changes the option of its key, and no other. -/
theorem saveOption_value (c : Settings) (key value : List Char) (o : Option6) :
    (saveOption c key value).value o
      = if key = o.key then assign o (c.value o) value else c.value o := by
  by_cases hkey : ∃ o' : Option6, key = o'.key
  · obtain ⟨o', rfl⟩ := hkey
    cases o' <;> cases o <;> rfl
  · have hne : ∀ o' : Option6, key ≠ o'.key := fun o' h => hkey ⟨o', h⟩
    simp [saveOption, hne]

/-- The value of an option that has not been set. -/
def unsetValue : Option6 → Value := unsetSettings.value

theorem loadInt32_ne {text : List Char} {v : ℤ} (h : loadInt32 text = some v) :
    v ≠ invalidValue := by
  simp only [loadInt32, Option.ite_none_left_eq_some, Option.some.injEq] at h
  obtain ⟨_, _, _, _, hne, rfl⟩ := h
  exact hne

/-- The shared memory id is empty. -/
def Emptied (o : Option6) (v : Value) : Prop := o = .shmId ∧ v = .str []

/-- **What a loader does.** An accepted text becomes the value. Another leaves the value as it is,
or empties the shared memory id. -/
theorem assign_spec (o : Option6) (c : Settings) (text : List Char) :
    (∀ v, accept o text = some v → assign o (c.value o) text = v) ∧
      (accept o text = none →
        assign o (c.value o) text = c.value o ∨ Emptied o (assign o (c.value o) text)) := by
  by_cases ho : o = .shmId
  · subst ho
    simp only [accept, Settings.value, assign, loadStr, strcpyS, Emptied]
    by_cases hlong : shmIdLen < text.length
    · simp [hlong]
    · by_cases hfits : text.length < shmIdLen <;> simp [hlong, hfits]
  · have hint : accept o text = (loadInt32 text).map .int := by
      cases o <;> first | rfl | exact absurd rfl ho
    have hassign : ∃ old, c.value o = .int old ∧
        assign o (c.value o) text = .int (assignInt old text) := by
      cases o <;> first | exact ⟨_, rfl, rfl⟩ | exact absurd rfl ho
    obtain ⟨old, hold, hassign⟩ := hassign
    rw [hint, hassign, hold, assignInt]
    cases loadInt32 text <;> simp

/-- An accepted value is not the mark of an unset option, except for an empty shared memory id. -/
theorem accept_ne_unset {o : Option6} {text : List Char} {v : Value} (h : accept o text = some v) :
    v ≠ unsetValue o ∨ Emptied o v := by
  by_cases hv : v = unsetValue o
  · subst hv
    by_cases ho : o = .shmId
    · subst ho
      exact .inr ⟨rfl, rfl⟩
    · have hint : (loadInt32 text).map Value.int = some (.int invalidValue) := by
        cases o <;> first | exact h | exact absurd rfl ho
      obtain ⟨w, hw, hwv⟩ := Option.map_eq_some_iff.mp hint
      cases hwv
      exact absurd rfl (loadInt32_ne hw)
  · exact .inl hv

/-! ## A whole file -/

/-- The configuration after a list of assignments. -/
def saveAll (kvs : List (List Char × List Char)) : Settings :=
  kvs.foldl (fun c kv => saveOption c kv.1 kv.2) unsetSettings

/-- An option holds its last accepted value, or, if it is the shared memory id, nothing; without an
accepted value it is unset. -/
def Tracks (c : Settings) (kvs : List (List Char × List Char)) : Prop :=
  ∀ o, match lastAccepted o kvs with
    | some v => c.value o = v ∨ Emptied o (c.value o)
    | none => c.value o = unsetValue o

theorem lastAccepted_append (o : Option6) (kvs : List (List Char × List Char))
    (kv : List Char × List Char) :
    lastAccepted o (kvs ++ [kv])
      = ((if kv.1 = o.key then accept o kv.2 else none).or (lastAccepted o kvs)) := by
  simp only [lastAccepted, accepted, List.filterMap_append, List.filterMap_cons,
    List.filterMap_nil]
  cases (if kv.1 = o.key then accept o kv.2 else none) <;> simp

/-- **One more assignment** keeps track. -/
theorem Tracks.snoc {c : Settings} {kvs : List (List Char × List Char)} (h : Tracks c kvs)
    (kv : List Char × List Char) : Tracks (saveOption c kv.1 kv.2) (kvs ++ [kv]) := by
  intro o
  have ho := h o
  rw [lastAccepted_append, saveOption_value]
  by_cases hkey : kv.1 = o.key
  · rw [if_pos hkey, if_pos hkey]
    obtain ⟨haccept, hreject⟩ := assign_spec o c kv.2
    cases hv : accept o kv.2 with
    | some v => exact .inl (haccept v hv)
    | none =>
      rw [Option.none_or]
      rcases hreject hv with heq | hempty
      · rwa [heq]
      · cases hlast : lastAccepted o kvs with
        | some v => exact .inr hempty
        | none =>
          obtain ⟨rfl, hempty⟩ := hempty
          exact hempty
  · rw [if_neg hkey, if_neg hkey, Option.none_or]
    exact ho

/-- **Any number of assignments.** -/
theorem tracks_saveAll (kvs : List (List Char × List Char)) : Tracks (saveAll kvs) kvs := by
  induction kvs using List.reverseRecOn with
  | nil =>
    intro o
    rfl
  | append_singleton kvs kv ih =>
    rw [saveAll, List.foldl_append]
    exact ih.snoc kv

/-- A line that is no header does what its assignment says, while there is no section. -/
theorem loadText_of_no_header {l : Loader} {line : List Char} (hl : l.current = none)
    (hline : extractSectionNumber line = none) :
    loadText l line
      = { l with config := match assignment line with
            | some kv => saveOption l.config kv.1 kv.2
            | none => l.config } := by
  unfold loadText assignment
  split
  · rfl
  · rw [hline]
    cases hsplit : splitAssignment line with
    | none => rfl
    | some kv => simp only [saveLine, hl]

theorem foldl_loadText_of_no_header {texts : List (List Char)}
    (h : ∀ line ∈ texts, extractSectionNumber line = none) :
    texts.foldl loadText initialLoader
      = { initialLoader with config := saveAll (texts.filterMap assignment) } := by
  induction texts using List.reverseRecOn with
  | nil => rfl
  | append_singleton texts line ih =>
    rw [List.foldl_append, ih fun l hl => h l (List.mem_append_left _ hl), List.foldl_cons,
      List.foldl_nil, loadText_of_no_header rfl (h line (by simp)), List.filterMap_append]
    cases hline : assignment line with
    | none => simp [hline]
    | some kv => simp [hline, saveAll]

section SingleFile

variable {signed : Bool} {file : List Char}

/-- What `load_config` leaves and returns on a file without headers. -/
theorem loadConfig_of_noHeader (hlines : ∀ line ∈ fileLines file, line.length < maxLineLength)
    (hheader : NoHeader signed file) :
    (loaded signed file).config = saveAll (assignments signed file) ∧
      loadConfig signed file = checkSingleConfig (saveAll (assignments signed file)) := by
  have hfile : loadFile signed file
      = { initialLoader with config := saveAll (assignments signed file) } := by
    rw [loadFile_eq signed hlines]
    exact foldl_loadText_of_no_header hheader
  simp only [loadConfig, loaded, hfile]
  exact ⟨rfl, rfl⟩

end SingleFile

/-- The checks are passed if every option is set. -/
theorem allSet_iff (c : Settings) : allSet c = true ↔ ∀ o, c.value o ≠ unsetValue o := by
  have hint : ∀ v : ℤ, checkInt32 v = enpuSuccess ↔ v ≠ invalidValue := by
    intro v
    simp [checkInt32, enpuFail, enpuSuccess]
  have hstr : ∀ s : List Char, checkStr s = enpuSuccess ↔ s ≠ [] := by
    intro s
    simp [checkStr, enpuFail, enpuSuccess]
  simp only [allSet, decide_eq_true_eq, hint, hstr]
  constructor
  · rintro ⟨h1, h2, h3, h4, h5, h6⟩ o
    cases o <;> simpa [Settings.value, unsetValue, unsetSettings]
  · intro h
    refine ⟨?_, ?_, ?_, ?_, ?_, ?_⟩
    · simpa [Settings.value, unsetValue, unsetSettings] using h .npuId
    · simpa [Settings.value, unsetValue, unsetSettings] using h .vnpuId
    · simpa [Settings.value, unsetValue, unsetSettings] using h .aicoreQuota
    · simpa [Settings.value, unsetValue, unsetSettings] using h .memoryQuota
    · simpa [Settings.value, unsetValue, unsetSettings] using h .schedulingPolicy
    · simpa [Settings.value, unsetValue, unsetSettings] using h .shmId

/-- `check_single_config` succeeds if some option is not set. -/
theorem checkSingleConfig_eq_enpuSuccess_iff (c : Settings) :
    checkSingleConfig c = enpuSuccess ↔ ∃ o, c.value o = unsetValue o := by
  rw [← not_iff_not]
  push Not
  rw [← allSet_iff, checkSingleConfig]
  by_cases h : allSet c = true <;> simp [h, enpuSuccess]

theorem exists_accept_of_lastAccepted {o : Option6} {kvs : List (List Char × List Char)} {v : Value}
    (h : lastAccepted o kvs = some v) : ∃ text, accept o text = some v := by
  obtain ⟨kv, -, hkv⟩ := List.mem_filterMap.mp (List.mem_of_getLast? h)
  split at hkv
  · exact ⟨kv.2, hkv⟩
  · cases hkv

/-- **When the verdict is right.** On a file without section headers `load_config` gives the right
verdict exactly if the file is complete and its last accepted shared memory id is empty. -/
theorem single_config_iff (signed : Bool) (file : List Char)
    (hlines : ∀ line ∈ fileLines file, line.length < maxLineLength)
    (hheader : NoHeader signed file) :
    Verdict signed file ↔
      Complete signed file ∧
        lastAccepted .shmId (assignments signed file) = some (.str []) := by
  obtain ⟨hconfig, hrc⟩ := loadConfig_of_noHeader hlines hheader
  have htracks := tracks_saveAll (assignments signed file)
  rw [Verdict, hrc, checkSingleConfig_eq_enpuSuccess_iff]
  constructor
  · rintro ⟨hiff, hholds⟩
    have hcomplete : Complete signed file := by
      by_contra hnot
      obtain ⟨o, ho⟩ := not_forall.mp hnot
      have hnone : lastAccepted o (assignments signed file) = none := by simpa using ho
      refine hnot (hiff.mp ⟨o, ?_⟩)
      have := htracks o
      rwa [hnone] at this
    refine ⟨hcomplete, ?_⟩
    -- an option of the complete file looks unset, and only the shared memory id can
    obtain ⟨o, ho⟩ := hiff.mpr hcomplete
    obtain ⟨v, hv⟩ := Option.isSome_iff_exists.mp (hcomplete o)
    have hval := hholds ⟨o, ho⟩ o v hv
    rw [hconfig, ho] at hval
    obtain ⟨text, htext⟩ := exists_accept_of_lastAccepted hv
    rcases accept_ne_unset htext with hne | ⟨rfl, rfl⟩
    · exact absurd hval.symm hne
    · exact hv
  · rintro ⟨hcomplete, hshm⟩
    have hempty : (saveAll (assignments signed file)).value .shmId = .str [] := by
      have := htracks .shmId
      rw [hshm] at this
      exact this.elim id And.right
    refine ⟨⟨fun _ => hcomplete, fun _ => ⟨.shmId, hempty⟩⟩, ?_⟩
    intro _ o v hv
    rw [hconfig]
    have := htracks o
    rw [hv] at this
    rcases this with hval | ⟨rfl, -⟩
    · exact hval
    · rw [hshm] at hv
      cases hv
      exact hempty

/-- A file for one device, with a shared memory id. -/
def singleFile (shmId : List Char) : List Char :=
  "physical-npu-id=0\nvirtual-npu-id=1\naicore-quota=50\n".toList ++
    "memory-quota=1024\nscheduling-policy=1\n# shared memory\nshm-id=".toList ++ shmId

/-- The verdict is right if the shared memory id is empty. -/
theorem single_config_iff_empty :
    (∀ line ∈ fileLines (singleFile []), line.length < maxLineLength) ∧
      NoHeader true (singleFile []) ∧ Verdict true (singleFile []) := by
  have hlines : ∀ line ∈ fileLines (singleFile []), line.length < maxLineLength := by
    decide +kernel
  have hheader : NoHeader true (singleFile []) := by
    unfold NoHeader
    decide +kernel
  refine ⟨hlines, hheader, (single_config_iff true (singleFile []) hlines hheader).mpr ⟨?_, ?_⟩⟩
  · intro o
    cases o <;> decide +kernel
  · decide +kernel

/-- **A complete file is refused**, and a file without a line is accepted. -/
theorem complete_file_refused :
    ((∀ line ∈ fileLines (singleFile "enpu".toList), line.length < maxLineLength) ∧
        NoHeader true (singleFile "enpu".toList) ∧ Complete true (singleFile "enpu".toList) ∧
        loadConfig true (singleFile "enpu".toList) = enpuFail) ∧
      NoHeader true [] ∧ ¬ Complete true [] ∧ loadConfig true [] = enpuSuccess := by
  refine ⟨⟨by decide +kernel, ?_, ?_, by decide +kernel⟩, ?_, ?_, by decide +kernel⟩
  · unfold NoHeader
    decide +kernel
  · intro o
    cases o <;> decide +kernel
  · unfold NoHeader
    decide +kernel
  · intro h
    exact absurd (h .npuId) (by decide +kernel)

end YellowZone.NpuConfig
