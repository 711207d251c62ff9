import YellowZone.Machine.CString

/-!
# Loading the device configuration

`config.c`: the parser for the configuration file of the vCANN runtime. A file either configures
one device, with six lines `key=value`, or several, with a section `[DEVICE-n]` of such lines for
each. The loader reads line by line, drops blanks, skips comments, and keeps the index of the
section it is in; before the first header it fills in the configuration of a single device. At the
end it counts and checks.

The file has been opened. `signed` says whether `char` is signed: where it is, the bytes from `0x80`
on are smaller than `!` and are dropped with the blanks.

## Failing assignments

A value that its loader does not accept leaves the option as it is, with one exception: a shared
memory id of exactly 128 characters passes the length test of `load_str`, and `strcpy_s` then
empties the buffer before it reports that the string does not fit.

## Main definitions

* `Settings`, `ConfigSection`, `Loader` — the configuration structures and the parser state
* `loadInt32`, `loadStr`, `saveOption` — one assignment
* `extractSectionNumber`, `loadLine`, `loadFile` — lines and files
* `checkSingleConfig`, `checkMultiConfig`, `loadConfig` — the verdict
* `getDeviceConfig` — what the configuration says afterwards
-/

namespace YellowZone.NpuConfig

open Machine

/-- `ENPU_SUCCESS`. -/
def enpuSuccess : ℕ := 0

/-- `ENPU_FAIL`. -/
def enpuFail : ℕ := 1

/-- `INVALID_VALUE`. -/
def invalidValue : ℤ := -1

/-- `SHM_ID_LEN`. -/
def shmIdLen : ℕ := 128

/-- `MAX_LINE_LENGTH`. -/
def maxLineLength : ℕ := 256

/-- `MAX_NPU_DEVICES` sections, numbered from zero. -/
abbrev SectionNum : Type := Fin 16

/-- The six options of a device: `struct Config`, and the part it shares with
`struct ConfigSection`. -/
structure Settings where
  phyNpuId : ℤ
  vnpuId : ℤ
  aicoreQuota : ℤ
  memoryQuota : ℤ
  schedulingPolicy : ℤ
  shmId : List Char
  deriving DecidableEq, Repr

/-- `struct ConfigSection`. -/
structure ConfigSection extends Settings where
  sectionId : ℤ
  deriving DecidableEq, Repr

/-- What `reset_single_config` leaves. -/
def unsetSettings : Settings :=
  ⟨invalidValue, invalidValue, invalidValue, invalidValue, invalidValue, []⟩

/-- What `reset_multi_config` leaves in a section. -/
def unsetSection : ConfigSection := ⟨unsetSettings, -1⟩

/-! ## One assignment -/

/-- The options, by name. -/
inductive Option6 where
  | npuId
  | vnpuId
  | aicoreQuota
  | memoryQuota
  | schedulingPolicy
  | shmId
  deriving DecidableEq, Repr

/-- The key of an option. -/
def Option6.key : Option6 → List Char
  | .npuId => "physical-npu-id".toList
  | .vnpuId => "virtual-npu-id".toList
  | .aicoreQuota => "aicore-quota".toList
  | .memoryQuota => "memory-quota".toList
  | .schedulingPolicy => "scheduling-policy".toList
  | .shmId => "shm-id".toList

/-- `load_int32`: the value, if it is accepted. -/
def loadInt32 (value : List Char) : Option ℤ :=
  let r := strtol value
  if r.overflow then none
  else if r.rest = value then none
  else if r.rest ≠ [] then none
  else if r.value < -2 ^ 31 ∨ 2 ^ 31 - 1 < r.value then none
  else if r.value = -1 then none
  else some r.value

/-- `strcpy_s` into a buffer of `size` characters: the string in the buffer afterwards, and whether
it is the source. -/
def strcpyS (size : ℕ) (source : List Char) : List Char × Bool :=
  if source.length < size then (source, true) else ([], false)

/-- `load_str` into the shared memory id `old`, and whether it succeeds. -/
def loadStr (old value : List Char) : List Char × Bool :=
  if shmIdLen < value.length then (old, false) else strcpyS shmIdLen value

/-- An accepted value is assigned, another leaves the option as it is. -/
def assignInt (old : ℤ) (value : List Char) : ℤ := (loadInt32 value).getD old

/-- `save2config_single` on the configuration, and `save2config_section` on the current section. An
undefined key changes nothing. -/
def saveOption (c : Settings) (key value : List Char) : Settings :=
  if key = Option6.npuId.key then { c with phyNpuId := assignInt c.phyNpuId value }
  else if key = Option6.vnpuId.key then { c with vnpuId := assignInt c.vnpuId value }
  else if key = Option6.aicoreQuota.key then { c with aicoreQuota := assignInt c.aicoreQuota value }
  else if key = Option6.memoryQuota.key then { c with memoryQuota := assignInt c.memoryQuota value }
  else if key = Option6.schedulingPolicy.key then
    { c with schedulingPolicy := assignInt c.schedulingPolicy value }
  else if key = Option6.shmId.key then { c with shmId := (loadStr c.shmId value).1 }
  else c

/-! ## Lines -/

/-- The globals of `config.c`, and the index of the current section. -/
structure Loader where
  /-- `config`. -/
  config : Settings
  /-- `multi_config.sections`. -/
  sections : SectionNum → ConfigSection
  /-- `current_section_index`; there is none before the first header. -/
  current : Option SectionNum
  /-- `multi_config.device_count`. -/
  deviceCount : ℕ

/-- The state after the resets of `load_config`. -/
def initialLoader : Loader := ⟨unsetSettings, fun _ => unsetSection, none, 0⟩

/-- A character that is dropped: `buffer[pos] < '!'`. -/
def isBlank (signed : Bool) (c : Char) : Bool := c.toNat < 33 ∨ signed = true ∧ 128 ≤ c.toNat

/-- The text of a line: the string in the buffer, without blanks. -/
def lineText (signed : Bool) (buffer : List Char) : List Char :=
  (cString buffer).filter fun c => !isBlank signed c

/-- `is_section_header`. -/
def isSectionHeader (line : List Char) : Bool :=
  line.take 8 = "[DEVICE-".toList ∧ 10 ≤ line.length ∧
    '0' ≤ line.getD 8 nul ∧ line.getD 8 nul ≤ '9' ∧ line.getD 9 nul = ']'

/-- `extract_section_number`; `atoi` is `strtol` without its checks. -/
def extractSectionNumber (line : List Char) : Option SectionNum :=
  if isSectionHeader line then
    let sectionNum := (strtol (line.drop 8)).value
    if 0 ≤ sectionNum ∧ sectionNum < 16 then some (Fin.ofNat 16 sectionNum.toNat) else none
  else none

/-- The key and the value of a line: what is in front of the first `=`, and behind it. -/
def splitAssignment (line : List Char) : Option (List Char × List Char) :=
  if '=' ∈ line then some (line.takeWhile (· ≠ '='), (line.dropWhile (· ≠ '=')).drop 1) else none

/-- A header starts its section afresh. -/
def startSection (l : Loader) (n : SectionNum) : Loader :=
  { l with
    sections := Function.update l.sections n ⟨unsetSettings, n.val⟩
    current := some n }

/-- An assignment goes to the current section, or to the single configuration. -/
def saveLine (l : Loader) (key value : List Char) : Loader :=
  match l.current with
  | some n =>
    { l with
      sections := Function.update l.sections n
        ⟨saveOption (l.sections n).toSettings key value, (l.sections n).sectionId⟩ }
  | none => { l with config := saveOption l.config key value }

/-- The body of the loop of `load_config`, from the text of the line on. -/
def loadText (l : Loader) (line : List Char) : Loader :=
  if line.head? = some '#' ∨ line = [] then l
  else
    match extractSectionNumber line with
    | some n => startSection l n
    | none =>
      match splitAssignment line with
      | some (key, value) => saveLine l key value
      | none => l

/-- One round of the loop of `load_config`. -/
def loadLine (signed : Bool) (l : Loader) (buffer : List Char) : Loader :=
  loadText l (lineText signed buffer)

/-- The loop of `load_config`, over a file. -/
def loadFile (signed : Bool) (file : List Char) : Loader :=
  (fgetsAll (maxLineLength - 1) [] file).foldl (loadLine signed) initialLoader

/-! ## The verdict -/

/-- `check_int32`. -/
def checkInt32 (option : ℤ) : ℕ := if option = invalidValue then enpuFail else enpuSuccess

/-- `check_str`. -/
def checkStr (str : List Char) : ℕ := if str.length = 0 then enpuFail else enpuSuccess

/-- The six checks of a device. -/
def allSet (c : Settings) : Bool :=
  checkInt32 c.phyNpuId = enpuSuccess ∧ checkInt32 c.vnpuId = enpuSuccess ∧
    checkInt32 c.aicoreQuota = enpuSuccess ∧ checkInt32 c.memoryQuota = enpuSuccess ∧
    checkInt32 c.schedulingPolicy = enpuSuccess ∧ checkStr c.shmId = enpuSuccess

/-- `check_single_config`: the value of a C expression with `&&`, which is one if it is true. -/
def checkSingleConfig (c : Settings) : ℕ := if allSet c then 1 else 0

/-- The checks of one section. -/
def checkSection (sec : ConfigSection) : Bool :=
  (0 ≤ sec.sectionId ∧ sec.sectionId < 16) ∧ allSet sec.toSettings = true

/-- `check_multi_config`: the first `device_count` sections are checked. -/
def checkMultiConfig (l : Loader) : ℕ :=
  if l.deviceCount = 0 then enpuFail
  else if ∀ n : SectionNum, n.val < l.deviceCount → checkSection (l.sections n) = true then
    enpuSuccess
  else enpuFail

/-- A section that counts. -/
def isConfigured (sec : ConfigSection) : Bool := sec.phyNpuId ≠ invalidValue

/-- The sections in their order. -/
def Loader.list (l : Loader) : List ConfigSection := (List.finRange 16).map l.sections

/-- The state that `load_config` leaves: in the multi-device case, the sections are counted. -/
def loaded (signed : Bool) (file : List Char) : Loader :=
  let l := loadFile signed file
  match l.current with
  | some _ => { l with deviceCount := l.list.countP isConfigured }
  | none => l

/-- `load_config`, on a file that could be opened: what it returns. -/
def loadConfig (signed : Bool) (file : List Char) : ℕ :=
  let l := loaded signed file
  match l.current with
  | some _ => checkMultiConfig l
  | none => checkSingleConfig l.config

/-- `get_device_count`. -/
def getDeviceCount (l : Loader) : ℕ := l.deviceCount

/-- The search of `get_device_config`. -/
def findConfigured : List ConfigSection → ℕ → Option ConfigSection
  | [], _ => none
  | sec :: rest, index =>
    if isConfigured sec then
      match index with
      | 0 => some sec
      | index + 1 => findConfigured rest index
    else findConfigured rest index

/-- `get_device_config`. -/
def getDeviceConfig (l : Loader) (index : ℕ) : Option ConfigSection :=
  if l.deviceCount ≤ index then none else findConfigured l.list index

theorem findConfigured_eq (secs : List ConfigSection) :
    ∀ index, findConfigured secs index = (secs.filter isConfigured)[index]? := by
  induction secs with
  | nil => exact fun _ => rfl
  | cons sec rest ih =>
    intro index
    by_cases hsec : isConfigured sec = true
    · cases index with
      | zero => simp [findConfigured, hsec]
      | succ index => simp [findConfigured, hsec, ih]
    · cases index <;> simp [findConfigured, hsec, ih]

/-- **The devices are enumerated** after a file with sections, in their order, and the count is
where they end. -/
theorem devices_enumerated (signed : Bool) (file : List Char) (index : ℕ) :
    (loaded signed file).current = none ∨
      getDeviceConfig (loaded signed file) index =
          ((loaded signed file).list.filter isConfigured)[index]? ∧
        (getDeviceConfig (loaded signed file) index = none ↔
          getDeviceCount (loaded signed file) ≤ index) := by
  by_cases hcurrent : (loaded signed file).current = none
  · exact Or.inl hcurrent
  · right
    have hcount : getDeviceCount (loaded signed file) =
        ((loaded signed file).list.filter isConfigured).length := by
      rw [loaded] at hcurrent ⊢
      split at hcurrent
      · exact List.countP_eq_length_filter
      · exact absurd ‹_› hcurrent
    have hget : getDeviceConfig (loaded signed file) index =
        ((loaded signed file).list.filter isConfigured)[index]? := by
      rw [getDeviceConfig, findConfigured_eq]
      split
      · next hle => exact (List.getElem?_eq_none (hcount.symm.trans_le hle)).symm
      · rfl
    exact ⟨hget, by rw [hget, List.getElem?_eq_none_iff, hcount]⟩

/-! ## The loop sees the lines -/

theorem lineText_append_newline (signed : Bool) (buffer : List Char) :
    lineText signed (buffer ++ ['\n']) = lineText signed buffer := by
  induction buffer with
  | nil => cases signed <;> decide
  | cons c cs ih =>
    simp only [lineText, cString] at ih
    simp only [lineText, cString, List.cons_append, List.takeWhile_cons]
    split
    · rw [List.filter_cons, List.filter_cons, ih]
    · rfl

theorem loadText_nil (l : Loader) : loadText l [] = l := rfl

/-- **Lines.** If the lines of a file are shorter than `MAX_LINE_LENGTH`, then the loop goes
through them one by one. -/
theorem loadFile_eq (signed : Bool) {file : List Char}
    (h : ∀ line ∈ fileLines file, line.length < maxLineLength) :
    loadFile signed file
      = ((fileLines file).map (lineText signed)).foldl loadText initialLoader := by
  unfold loadFile
  rw [foldl_fgetsAll (f := loadLine signed)]
  · rw [List.foldl_map]
    congr 1
    obtain ⟨l, ls, hls⟩ := exists_fileLines_eq_cons file
    rw [hls]
    rfl
  · intro l line
    rw [loadLine, lineText_append_newline]
    rfl
  · intro l
    exact loadText_nil l
  · simp [maxLineLength]
  · intro line hline
    have hmem : line ∈ fileLines file := by
      obtain ⟨l, ls, hls⟩ := exists_fileLines_eq_cons file
      rw [hls] at hline ⊢
      simpa using hline
    have := h line hmem
    simp only [maxLineLength] at this ⊢
    omega

end YellowZone.NpuConfig
