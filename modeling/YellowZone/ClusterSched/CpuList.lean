import YellowZone.ClusterSched.Daemon
import YellowZone.Machine.Lines

/-!
# Lists of CPUs, and the CPUs that are skipped

The option `skip-cpuset` of the daemon names CPUs that no VM may be pinned to, as in `0-1,6-8`. It
is read by `ParseStringRange`, which also reads the lists of the kernel, and goes into the bitmaps
of the clusters (`GetCpuTopologyByCpuInfoList`) that the scheduler starts from.

The counter of the loop over a range has 16 bits, as its end has. A range that ends with 65535 is
thus never left: `i <= end` holds for every `i`. The model counts the turns of that loop, and a call
that has not returned after so many is `none`.

A set of CPUs is a sorted list. Where `DynamicBitsetSetArea` would write outside the bitset, since
its test wraps, and where a cluster is cut from one that is too small, there is no result.

## Main results

* `parseStringRange` — the reader, with its errors
* `getCpuTopologyByCpuInfoList` — the bitmaps of the clusters
* `read_back_ranges` — lists that are read back, and lists that are read forever
* `skipped_cpus_stay_free` — from the text of the option to the CPUs of the VMs
-/

namespace YellowZone.ClusterSched

open Machine

/-! ## Numbers and blanks -/

/-- A blank as `Trim` knows it. -/
def isBlank (b : ℕ) : Bool := b = 32 ∨ 9 ≤ b ∧ b ≤ 13

def trim (str : Text) : Text := (str.dropWhile isBlank).rdropWhile isBlank

def digitsValue (str : Text) : ℕ := str.foldl (fun n b => 10 * n + (b - 48)) 0

/-- How `std::from_chars` for a `uint16_t` ends. A text that is not read to its end is invalid for
the callers, even if the number is too large. -/
inductive FromChars where
  | value (n : ℕ)
  | invalidArgument
  | resultOutOfRange

def fromChars (str : Text) : FromChars :=
  if str = [] ∨ ∃ b ∈ str, b < 48 ∨ 57 < b then .invalidArgument
  else if digitsValue str < 2 ^ 16 then .value (digitsValue str)
  else .resultOutOfRange

/-! ## The reader -/

/-- The exceptions of `ParseStringRange`, each with the text that it names. -/
inductive RangeError where
  | invalidStart (startStr : Text)
  | startOutOfRange (startStr : Text)
  | invalidEnd (endStr : Text)
  | endOutOfRange (endStr : Text)
  | startGreaterThanEnd (tmp : Text)
  | invalidValue (tmp : Text)
  | valueOutOfRange (tmp : Text)

/-- A number, or what is thrown instead. -/
def readNumber (invalid outOfRange : Text → RangeError) (str : Text) : Except RangeError ℕ :=
  match fromChars str with
  | .value n => .ok n
  | .invalidArgument => .error (invalid str)
  | .resultOutOfRange => .error (outOfRange str)

inductive Item where
  | single (value : ℕ)
  | range (first last : ℕ)

/-- What stands between two commas, without the blanks around it. -/
def readItem (tmp : Text) : Except RangeError Item :=
  if 45 ∈ tmp then do
    let start ← readNumber .invalidStart .startOutOfRange (trim (tmp.takeWhile (· ≠ 45)))
    let last ← readNumber .invalidEnd .endOutOfRange (trim (tmp.dropWhile (· ≠ 45)).tail)
    if last < start then .error (.startGreaterThanEnd tmp) else .ok (.range start last)
  else do
    let value ← readNumber .invalidValue .valueOutOfRange tmp
    .ok (.single value)

/-- The loop over a range, for so many turns. -/
def rangeLoop (last : ℕ) : (turns i : ℕ) → List ℕ → Option (List ℕ)
  | 0, _, _ => none
  | turns + 1, i, cpus =>
    if i ≤ last then rangeLoop last turns ((i + 1) % 2 ^ 16) (setInsert i cpus) else some cpus

def Item.emplace (turns : ℕ) (cpus : List ℕ) : Item → Option (List ℕ)
  | .single value => some (setInsert value cpus)
  | .range first last => rangeLoop last turns first cpus

def parsePieces (turns : ℕ) : List Text → List ℕ → Option (Except RangeError (List ℕ))
  | [], cpus => some (.ok cpus)
  | piece :: rest, cpus =>
    if trim piece = [] then parsePieces turns rest cpus
    else
      match readItem (trim piece) with
      | .error e => some (.error e)
      | .ok item => (item.emplace turns cpus).bind (parsePieces turns rest)

def parseStringRange (turns : ℕ) (line : Text) : Option (Except RangeError (List ℕ)) :=
  parsePieces turns (pieces 44 line) []

/-! ## The bitmaps of the clusters -/

def setCpu (bitSet : List Bool) (cpuId : ℕ) : Option (List Bool) :=
  if bitSet.length < cpuId then none else some (dynamicBitsetSet bitSet cpuId 1)

def genDynamicBitsetByCpuSet (totalSize : ℕ) (cpuSet : List ℕ) : Option (List Bool) :=
  cpuSet.foldlM setCpu (List.replicate totalSize false)

def isDynamicBitsetCross (first second : List Bool) : Bool :=
  (List.zipWith (· && ·) first second).any id

/-- The bits from the first to the last CPU of the set. -/
def genClusterBitSetByCpuSet (bitSet : List Bool) (cpuSet : List ℕ) : Option (List Bool) :=
  if bitSet.length ≤ cpuSet.getLastD 0 then none
  else some ((bitSet.take (cpuSet.getLastD 0 + 1)).drop (cpuSet.headD 0))

structure CpuInfo where
  numaId : ℕ
  clusterId : ℕ
  clusterCpuSet : List ℕ

/-- The `bitMap` of a cluster. Without skipped CPUs there is no mask of them. -/
def clusterBitMap (maxCpuNum clusterCpuNum : ℕ) (skipCpuSet clusterCpuSet : List ℕ) :
    Option (List Bool) :=
  (genDynamicBitsetByCpuSet maxCpuNum skipCpuSet).bind fun skipCpuMask =>
    (genDynamicBitsetByCpuSet maxCpuNum clusterCpuSet).bind fun clusterCpuMask =>
      if skipCpuSet ≠ [] ∧ isDynamicBitsetCross clusterCpuMask skipCpuMask then
        genClusterBitSetByCpuSet (dynamicBitsetAnd clusterCpuMask skipCpuMask) clusterCpuSet
      else some (List.replicate clusterCpuNum false)

/-- The clusters by their ids, each with the CPU that it was entered for. -/
abbrev CpuTopologyMap : Type := ℕ → Option (CpuInfo × ClusterInfo)

/-- One turn of `GetCpuTopologyByCpuInfoList`: the first CPU of a cluster enters it. -/
def enterCluster (maxCpuNum clusterCpuNum : ℕ) (skipCpuSet : List ℕ) (topologyMap : CpuTopologyMap)
    (info : CpuInfo) : Option CpuTopologyMap :=
  if (topologyMap info.clusterId).isSome then some topologyMap
  else
    (clusterBitMap maxCpuNum clusterCpuNum skipCpuSet info.clusterCpuSet).map fun bitMap =>
      Function.update topologyMap info.clusterId
        (some (info, ⟨info.clusterId, info.clusterCpuSet.headD 0, bitMap⟩))

def getCpuTopologyByCpuInfoList (maxCpuNum clusterCpuNum : ℕ) (skipCpuSet : List ℕ)
    (cpuInfoList : List CpuInfo) : Option CpuTopologyMap :=
  cpuInfoList.foldlM (enterCluster maxCpuNum clusterCpuNum skipCpuSet) fun _ => none

/-! ## Lists as they are written -/

def writeRange (r : ℕ × ℕ) : Text :=
  if r.1 = r.2 then decimal r.1 else decimal r.1 ++ 45 :: decimal r.2

/-- A list of CPUs as the kernel writes it. -/
def writeRanges : List (ℕ × ℕ) → Text
  | [] => []
  | [r] => writeRange r
  | r :: r' :: rest => writeRange r ++ 44 :: writeRanges (r' :: rest)

/-- The loop over the range ends. -/
def Ends (r : ℕ × ℕ) : Prop := r.1 = r.2 ∨ r.2 < 2 ^ 16 - 1

theorem digit_of_mem_decimal {n b : ℕ} (h : b ∈ decimal n) : 48 ≤ b ∧ b ≤ 57 := by
  rw [decimal] at h
  split at h
  · rw [List.mem_singleton] at h
    omega
  · obtain ⟨d, hd, rfl⟩ := List.mem_map.mp (List.mem_reverse.mp h)
    have hlt := Nat.digits_lt_base (by decide) hd
    omega

theorem decimal_ne_nil (n : ℕ) : decimal n ≠ [] := by
  rw [decimal]
  split
  · exact List.cons_ne_nil _ _
  · next hn => simpa using Nat.digits_ne_nil_iff_ne_zero.mpr hn

theorem digitsValue_decimal (n : ℕ) : digitsValue (decimal n) = n := by
  rw [decimal]
  split
  · next hn => rw [hn]; rfl
  · rw [digitsValue, List.foldl_reverse, List.foldr_map]
    simp only [Nat.add_sub_cancel]
    conv_rhs => rw [← Nat.ofDigits_digits 10 n, Nat.ofDigits_eq_foldr]
    congr 1
    funext d m
    rw [Nat.cast_id, Nat.add_comm]

theorem fromChars_decimal {n : ℕ} (h : n < 2 ^ 16) : fromChars (decimal n) = .value n := by
  rw [fromChars, if_neg, if_pos (by rwa [digitsValue_decimal]), digitsValue_decimal]
  rintro (hnil | ⟨b, hb, hout⟩)
  · exact decimal_ne_nil n hnil
  · have hdigit := digit_of_mem_decimal hb
    omega

theorem trim_of_notBlank {str : Text} (h : ∀ b ∈ str, isBlank b = false) : trim str = str := by
  have hleft : str.dropWhile isBlank = str :=
    List.dropWhile_eq_self_iff.mpr fun hpos => by simp [h _ (List.getElem_mem hpos)]
  rw [trim, hleft]
  exact List.rdropWhile_eq_self_iff.mpr fun hne => by simp [h _ (List.getLast_mem hne)]

theorem isBlank_of_le {b : ℕ} (h : 45 ≤ b) : isBlank b = false :=
  decide_eq_false (by omega)

theorem mem_writeRange {r : ℕ × ℕ} {b : ℕ} (h : b ∈ writeRange r) : 45 ≤ b := by
  have hdecimal : ∀ n, b ∈ decimal n → 45 ≤ b := fun n hb => by
    have hdigit := digit_of_mem_decimal hb
    omega
  rw [writeRange] at h
  split at h
  · exact hdecimal _ h
  · rcases List.mem_append.mp h with h | h
    · exact hdecimal _ h
    · rcases List.mem_cons.mp h with rfl | h
      · exact le_rfl
      · exact hdecimal _ h

theorem writeRange_ne_nil (r : ℕ × ℕ) : writeRange r ≠ [] := by
  rw [writeRange]
  split
  · exact decimal_ne_nil _
  · exact List.append_ne_nil_of_right_ne_nil _ (List.cons_ne_nil _ _)

theorem comma_notMem_writeRange (r : ℕ × ℕ) : 44 ∉ writeRange r := fun h => by
  have := mem_writeRange h
  omega

theorem pieces_writeRanges (rs : List (ℕ × ℕ)) :
    pieces 44 (writeRanges rs) = rs.map writeRange := by
  induction rs with
  | nil => rfl
  | cons r rest ih =>
    cases rest with
    | nil => exact pieces_of_notMem (comma_notMem_writeRange r) (writeRange_ne_nil r)
    | cons r' rest =>
      rw [writeRanges, pieces_line (comma_notMem_writeRange r), ih]
      rfl

/-- The item of a range. -/
def itemOf (r : ℕ × ℕ) : Item := if r.1 = r.2 then .single r.1 else .range r.1 r.2

theorem readItem_writeRange {r : ℕ × ℕ} (hle : r.1 ≤ r.2) (hlt : r.2 < 2 ^ 16) :
    readItem (writeRange r) = .ok (itemOf r) := by
  have hdash : ∀ n, ∀ b ∈ decimal n, b ≠ 45 := fun n b hb => by
    have hdigit := digit_of_mem_decimal hb
    omega
  have htrim : ∀ n, trim (decimal n) = decimal n := fun n =>
    trim_of_notBlank fun b hb => isBlank_of_le (by have := digit_of_mem_decimal hb; omega)
  have hnumber : ∀ n i o, n < 2 ^ 16 → readNumber i o (decimal n) = .ok n := fun n i o hn => by
    rw [readNumber, fromChars_decimal hn]
  rw [writeRange, itemOf]
  split
  · rw [readItem, if_neg fun hmem => hdash _ _ hmem rfl, hnumber _ _ _ (by omega)]
    rfl
  · rw [readItem, if_pos (by simp),
      List.takeWhile_append_of_pos (by simpa using hdash r.1),
      List.dropWhile_append_of_pos (by simpa using hdash r.1)]
    simp only [List.takeWhile_cons, List.dropWhile_cons, ne_eq, not_true_eq_false, decide_false,
      Bool.false_eq_true, if_false, List.append_nil, List.tail_cons, htrim,
      hnumber _ _ _ (show r.1 < 2 ^ 16 by omega), hnumber _ _ _ hlt]
    exact if_neg (by omega)

/-! ## What is read -/

/-- A loop that ends collects the range. -/
theorem rangeLoop_of_lt {last : ℕ} (hlast : last < 2 ^ 16 - 1) :
    ∀ (turns i : ℕ) (cpus : List ℕ), i ≤ last + 1 → last + 1 - i < turns →
      ∃ cpus', rangeLoop last turns i cpus = some cpus' ∧
        ∀ n, n ∈ cpus' ↔ n ∈ cpus ∨ i ≤ n ∧ n ≤ last := by
  intro turns
  induction turns with
  | zero => intro i cpus _ h; omega
  | succ turns ih =>
    intro i cpus hi hturns
    rw [rangeLoop]
    split
    · next hle =>
      rw [Nat.mod_eq_of_lt (by omega)]
      obtain ⟨cpus', hloop, hmem⟩ := ih (i + 1) (setInsert i cpus) (by omega) (by omega)
      refine ⟨cpus', hloop, fun n => ?_⟩
      rw [hmem, mem_setInsert]
      by_cases hn : n ∈ cpus
      · simp only [hn, or_true, true_or]
      · simp only [hn, or_false, false_or]
        omega
    · exact ⟨cpus, rfl, fun n => ⟨Or.inl, fun h => h.resolve_right (by omega)⟩⟩

/-- The largest number never exceeds its bound. -/
theorem rangeLoop_max (turns : ℕ) : ∀ (i : ℕ) (cpus : List ℕ), i < 2 ^ 16 →
    rangeLoop (2 ^ 16 - 1) turns i cpus = none := by
  induction turns with
  | zero => intro i cpus _; rfl
  | succ turns ih =>
    intro i cpus hi
    rw [rangeLoop, if_pos (by omega)]
    exact ih _ _ (Nat.mod_lt _ (by decide))

theorem emplace_itemOf {r : ℕ × ℕ} {turns : ℕ} (hle : r.1 ≤ r.2) (hends : Ends r)
    (hturns : 2 ^ 16 ≤ turns) (cpus : List ℕ) :
    ∃ cpus', (itemOf r).emplace turns cpus = some cpus' ∧
      ∀ n, n ∈ cpus' ↔ n ∈ cpus ∨ r.1 ≤ n ∧ n ≤ r.2 := by
  rw [itemOf]
  split
  · next heq =>
    refine ⟨_, rfl, fun n => ?_⟩
    rw [mem_setInsert, or_comm]
    exact or_congr_right (by omega)
  · next hne =>
    exact rangeLoop_of_lt (hends.resolve_left hne) turns r.1 cpus (by omega)
      (by have := hends.resolve_left hne; omega)

theorem parsePieces_cons_writeRange {r : ℕ × ℕ} (hle : r.1 ≤ r.2) (hlt : r.2 < 2 ^ 16)
    (turns : ℕ) (rest : List Text) (cpus : List ℕ) :
    parsePieces turns (writeRange r :: rest) cpus =
      ((itemOf r).emplace turns cpus).bind (parsePieces turns rest) := by
  have htrim : trim (writeRange r) = writeRange r :=
    trim_of_notBlank fun b hb => isBlank_of_le (mem_writeRange hb)
  rw [parsePieces, htrim, if_neg (writeRange_ne_nil r), readItem_writeRange hle hlt]

theorem parsePieces_of_ends {turns : ℕ} (hturns : 2 ^ 16 ≤ turns) (rs : List (ℕ × ℕ)) :
    ∀ cpus : List ℕ, (∀ r ∈ rs, r.1 ≤ r.2 ∧ r.2 < 2 ^ 16 ∧ Ends r) →
      ∃ cpus', parsePieces turns (rs.map writeRange) cpus = some (.ok cpus') ∧
        ∀ n, n ∈ cpus' ↔ n ∈ cpus ∨ ∃ r ∈ rs, r.1 ≤ n ∧ n ≤ r.2 := by
  induction rs with
  | nil => exact fun cpus _ => ⟨cpus, rfl, fun n => by simp⟩
  | cons r rs ih =>
    intro cpus h
    obtain ⟨hle, hlt, hends⟩ := h r List.mem_cons_self
    obtain ⟨mid, hmid, hmem⟩ := emplace_itemOf hle hends hturns cpus
    obtain ⟨cpus', hrest, hmem'⟩ := ih mid fun r' hr' => h r' (List.mem_cons_of_mem _ hr')
    refine ⟨cpus', ?_, fun n => ?_⟩
    · rw [List.map_cons, parsePieces_cons_writeRange hle hlt, hmid]
      exact hrest
    · rw [hmem', hmem, or_assoc, List.exists_mem_cons_iff]

theorem parsePieces_of_not_ends (turns : ℕ) (rs : List (ℕ × ℕ)) :
    ∀ cpus : List ℕ, (∀ r ∈ rs, r.1 ≤ r.2 ∧ r.2 < 2 ^ 16) → (∃ r ∈ rs, ¬ Ends r) →
      parsePieces turns (rs.map writeRange) cpus = none := by
  induction rs with
  | nil => rintro cpus - ⟨r, hr, -⟩; cases hr
  | cons r rs ih =>
    intro cpus h hforever
    obtain ⟨hle, hlt⟩ := h r List.mem_cons_self
    rw [List.map_cons, parsePieces_cons_writeRange hle hlt, Option.bind_eq_none_iff]
    intro mid hmid
    rcases (List.exists_mem_cons_iff _ _ _).mp hforever with hr | hrest
    · -- the loop over this range is not left
      rw [Ends, not_or] at hr
      rw [itemOf, if_neg hr.1, Item.emplace, show r.2 = 2 ^ 16 - 1 by omega,
        rangeLoop_max turns _ _ (by omega)] at hmid
      cases hmid
    · exact ih mid (fun r' hr' => h r' (List.mem_cons_of_mem _ hr')) hrest

/-- **Lists of CPUs are read back.** If no range of two or more CPUs ends with the largest number,
the reader returns exactly the CPUs of the ranges. If one does, it never returns. -/
theorem read_back_ranges {rs : List (ℕ × ℕ)} (h : ∀ r ∈ rs, r.1 ≤ r.2 ∧ r.2 < 2 ^ 16) :
    ((∀ r ∈ rs, Ends r) → ∀ turns, 2 ^ 16 ≤ turns → ∃ cpus,
        parseStringRange turns (writeRanges rs) = some (.ok cpus) ∧
          ∀ n, n ∈ cpus ↔ ∃ r ∈ rs, r.1 ≤ n ∧ n ≤ r.2) ∧
      ((∃ r ∈ rs, ¬ Ends r) → ∀ turns, parseStringRange turns (writeRanges rs) = none) := by
  simp only [parseStringRange, pieces_writeRanges]
  refine ⟨fun hends turns hturns => ?_, fun hforever turns =>
    parsePieces_of_not_ends turns rs [] h hforever⟩
  obtain ⟨cpus, hparse, hmem⟩ := parsePieces_of_ends hturns rs []
    fun r hr => ⟨(h r hr).1, (h r hr).2, hends r hr⟩
  exact ⟨cpus, hparse, fun n => by rw [hmem]; simp⟩

/-- The list `0-1,6`, and all numbers of 16 bits as a range. -/
theorem read_back_ranges_small :
    (∃ cpus, parseStringRange (2 ^ 16) (writeRanges [(0, 1), (6, 6)]) = some (.ok cpus) ∧
      ∀ n, n ∈ cpus ↔ ∃ r ∈ [(0, 1), (6, 6)], r.1 ≤ n ∧ n ≤ r.2) ∧
    ∀ turns, parseStringRange turns (writeRanges [(0, 65535)]) = none :=
  ⟨(read_back_ranges (by decide)).1 (by simp [Ends]) (2 ^ 16) le_rfl,
    (read_back_ranges (by decide)).2 ⟨_, List.mem_singleton.mpr rfl, by simp [Ends]⟩⟩

/-! ## Skipped CPUs -/

theorem setCpu_spec {bitSet bitSet' : List Bool} {cpu : ℕ} (h : setCpu bitSet cpu = some bitSet') :
    bitSet'.length = bitSet.length ∧
      ∀ k, k < bitSet.length → bitSet[k]? = some true ∨ k = cpu → bitSet'[k]? = some true := by
  rw [setCpu] at h
  split at h
  · cases h
  · cases h
    by_cases hcpu : cpu < bitSet.length
    · rw [dynamicBitsetSet_of_le Nat.one_pos hcpu]
      refine ⟨length_setArea hcpu, fun k _ hk => ?_⟩
      rw [getElem?_setArea hcpu]
      split
      · rfl
      · exact hk.resolve_right (by omega)
    · rw [dynamicBitsetSet, dynamicBitsetSetArea, if_pos (by omega)]
      exact ⟨rfl, fun k hlt hk => hk.resolve_right (by omega)⟩

/-- The mask has the CPUs of the set, and what was in it before. -/
theorem foldlM_setCpu (cpuSet : List ℕ) : ∀ bitSet bitSet' : List Bool,
    cpuSet.foldlM setCpu bitSet = some bitSet' → bitSet'.length = bitSet.length ∧
      ∀ k, k < bitSet.length → bitSet[k]? = some true ∨ k ∈ cpuSet → bitSet'[k]? = some true := by
  induction cpuSet with
  | nil =>
    rintro bitSet bitSet' ⟨⟩
    exact ⟨rfl, fun k _ hk => hk.resolve_right List.not_mem_nil⟩
  | cons cpu cpuSet ih =>
    intro bitSet bitSet' h
    obtain ⟨mid, hmid, h⟩ := Option.bind_eq_some_iff.mp h
    obtain ⟨hlength, hset⟩ := setCpu_spec hmid
    obtain ⟨hlength', hbits⟩ := ih mid bitSet' h
    refine ⟨hlength'.trans hlength, fun k hlt hk => hbits k (hlength ▸ hlt) ?_⟩
    rcases hk with hk | hk
    · exact Or.inl (hset k hlt (Or.inl hk))
    · exact (List.mem_cons.mp hk).imp_left fun heq => hset k hlt (Or.inr heq)

theorem genDynamicBitsetByCpuSet_spec {totalSize : ℕ} {cpuSet : List ℕ} {bitSet : List Bool}
    (h : genDynamicBitsetByCpuSet totalSize cpuSet = some bitSet) :
    bitSet.length = totalSize ∧ ∀ k ∈ cpuSet, k < totalSize → bitSet[k]? = some true := by
  obtain ⟨hlength, hbits⟩ := foldlM_setCpu cpuSet _ _ h
  rw [List.length_replicate] at hlength hbits
  exact ⟨hlength, fun k hk hlt => hbits k hlt (Or.inr hk)⟩

/-- The bit of a CPU of the cluster that is skipped is set, if there is one. -/
theorem clusterBitMap_skipped {maxCpuNum clusterCpuNum k : ℕ} {skipCpuSet clusterCpuSet : List ℕ}
    {bitMap : List Bool}
    (h : clusterBitMap maxCpuNum clusterCpuNum skipCpuSet clusterCpuSet = some bitMap)
    (hskip : clusterCpuSet.headD 0 + k ∈ skipCpuSet)
    (hcluster : clusterCpuSet.headD 0 + k ∈ clusterCpuSet)
    (hlt : clusterCpuSet.headD 0 + k < maxCpuNum) : bitMap[k]? ≠ some false := by
  obtain ⟨skipMask, hskipMask, h⟩ := Option.bind_eq_some_iff.mp h
  obtain ⟨mask, hmask, h⟩ := Option.bind_eq_some_iff.mp h
  obtain ⟨hslength, hsbits⟩ := genDynamicBitsetByCpuSet_spec hskipMask
  obtain ⟨hlength, hbits⟩ := genDynamicBitsetByCpuSet_spec hmask
  have hboth : (List.zipWith (· && ·) mask skipMask)[clusterCpuSet.headD 0 + k]? = some true := by
    rw [List.getElem?_zipWith, hbits _ hcluster hlt, hsbits _ hskip hlt]
    rfl
  rw [if_pos ⟨List.ne_nil_of_mem hskip,
    List.any_eq_true.mpr ⟨true, List.mem_of_getElem? hboth, rfl⟩⟩, genClusterBitSetByCpuSet] at h
  split at h
  · cases h
  · cases h
    rw [List.getElem?_drop, dynamicBitsetAnd, if_pos (hlength.trans hslength.symm),
      List.getElem?_take]
    split
    · rw [hboth]
      simp
    · simp

/-- A cluster of the topology has the bitmap of its CPUs. -/
def HasBitMaps (maxCpuNum clusterCpuNum : ℕ) (skipCpuSet : List ℕ) (m : CpuTopologyMap) : Prop :=
  ∀ i info c, m i = some (info, c) → c.startCpu = info.clusterCpuSet.headD 0 ∧
    clusterBitMap maxCpuNum clusterCpuNum skipCpuSet info.clusterCpuSet = some c.bitMap

theorem hasBitMaps_of_foldlM {maxCpuNum clusterCpuNum : ℕ} {skipCpuSet : List ℕ}
    (cpuInfoList : List CpuInfo) : ∀ m m' : CpuTopologyMap,
      HasBitMaps maxCpuNum clusterCpuNum skipCpuSet m →
      cpuInfoList.foldlM (enterCluster maxCpuNum clusterCpuNum skipCpuSet) m = some m' →
      HasBitMaps maxCpuNum clusterCpuNum skipCpuSet m' := by
  induction cpuInfoList with
  | nil => rintro m m' hm ⟨⟩; exact hm
  | cons info rest ih =>
    intro m m' hm h
    rw [List.foldlM_cons, enterCluster] at h
    split at h
    · exact ih m m' hm h
    · obtain ⟨m₁, hm₁, h⟩ := Option.bind_eq_some_iff.mp h
      obtain ⟨bitMap, hbitMap, rfl⟩ := Option.map_eq_some_iff.mp hm₁
      refine ih _ m' (fun i info' c hi => ?_) h
      rw [Function.update_apply] at hi
      split at hi
      · cases hi
        exact ⟨rfl, hbitMap⟩
      · exact hm i info' c hi

/-- **Skipped CPUs stay free.** The option is written as a list of ranges and the machine is the
topology that it gives. Then in every run of the daemon in which the ranges that are marked are
idle, the range of a group has no CPU of its cluster that the option names. -/
theorem skipped_cpus_stay_free {host : Host} {rs : List (ℕ × ℕ)} {skipCpuSet : List ℕ}
    {maxCpuNum turns : ℕ} {cpuInfoList : List CpuInfo} {topologyMap : CpuTopologyMap}
    {tr : List (List Text)} {d : Daemon}
    (hrs : ∀ r ∈ rs, r.1 ≤ r.2 ∧ r.2 < 2 ^ 16 ∧ Ends r) (hturns : 2 ^ 16 ≤ turns)
    (hskip : parseStringRange turns (writeRanges rs) = some (.ok skipCpuSet))
    (htopology : getCpuTopologyByCpuInfoList maxCpuNum host.clusterCpuNum skipCpuSet cpuInfoList =
      some topologyMap)
    (hhost : ∀ n c, c ∈ host.clusters n → ∃ info, topologyMap c.id = some (info, c))
    (h : DaemonRun host tr d) (hproper : d.sched.AllProper) {c : ClusterInfo} {l k : ℕ} {id : Text}
    {g : VmGroup} (hrec : d.sched.Records host c l id) (hg : d.sched.groupMap id = some g)
    (hk : g.Covers k) :
    ∃ info, topologyMap c.id = some (info, c) ∧ (c.startCpu + k ∈ info.clusterCpuSet →
      c.startCpu + k < maxCpuNum → ∀ r ∈ rs, ¬ (r.1 ≤ c.startCpu + k ∧ c.startCpu + k ≤ r.2)) := by
  obtain ⟨info, hinfo⟩ := hhost _ c hrec.1.choose_spec
  refine ⟨info, hinfo, fun hcluster hlt r hr hnamed => ?_⟩
  -- the text is read as the CPUs of the ranges
  rw [parseStringRange, pieces_writeRanges] at hskip
  obtain ⟨cpus, hcpus, hmem⟩ := parsePieces_of_ends hturns rs [] hrs
  rw [hskip] at hcpus
  cases hcpus
  have hskipped : c.startCpu + k ∈ skipCpuSet := (hmem _).mpr (Or.inr ⟨r, hr, hnamed⟩)
  obtain ⟨hstart, hbitMap⟩ := hasBitMaps_of_foldlM cpuInfoList (fun _ => none) topologyMap
    (fun i info c hi => by cases hi) htopology c.id info c hinfo
  rw [hstart] at hskipped hcluster hlt
  -- and the range of the group has unset bits only
  have hinv := inv_of_daemonRun False h False.elim
  exact clusterBitMap_skipped hbitMap hskipped hcluster hlt
    ((hinv.exact hproper).notSkipped hrec hg hk)

/-- One cluster of four CPUs, the first two of which are skipped. -/
def halfSkipped : Host :=
  .oneNode [⟨0, 0, [true, true, false, false]⟩] 4 false (by decide) (by decide) four_lt_two_pow_16

/-- With the option `0-1`, a VM with one virtual CPU is given CPU 2. -/
theorem skipped_cpus_stay_free_small : ∃ tr d g, DaemonRun halfSkipped tr d ∧
    d.sched.groupMap (groupIdOf [97, 95, 48] 0 0) = some g ∧ g.Covers 2 ∧
    ∀ r ∈ [(0, 1)], ¬ (r.1 ≤ 0 + 2 ∧ 0 + 2 ≤ r.2) := by
  obtain ⟨tr, d, h, htest⟩ : ∃ tr d, DaemonRun halfSkipped tr d ∧ _ := exists_daemonRun
    [.call (.addDomainInfo (smallVm [97] 100 1 4) [])]
    (fun _ d => decide (d.sched.AllProper ∧
      d.sched.depth = 1 ∧ (d.sched.layers 0 0).groups = [groupIdOf [97, 95, 48] 0 0] ∧
      (d.sched.groupMap (groupIdOf [97, 95, 48] 0 0)).map (fun g => (g.start, g.nrCpus)) =
        some (2, 1))) (by decide +kernel)
  obtain ⟨hproper, hdepth, hgroups, harea⟩ := of_decide_eq_true htest
  obtain ⟨g, hg, harea⟩ := Option.map_eq_some_iff.mp harea
  rw [Prod.mk.injEq] at harea
  have hcover : g.Covers 2 := by
    rw [VmGroup.Covers, harea.1, harea.2]
    decide
  have hrec : d.sched.Records halfSkipped ⟨0, 0, [true, true, false, false]⟩ 0
      (groupIdOf [97, 95, 48] 0 0) :=
    ⟨⟨0, List.mem_singleton.mpr rfl⟩, by omega, by rw [hgroups]; exact List.mem_singleton.mpr rfl⟩
  have hskip : parseStringRange (2 ^ 16) (writeRanges [(0, 1)]) = some (.ok [0, 1]) := rfl
  have htopology : getCpuTopologyByCpuInfoList 8 4 [0, 1] [⟨0, 0, [0, 1, 2, 3]⟩] = some _ := rfl
  obtain ⟨info, hinfo, hfree⟩ := skipped_cpus_stay_free (by simp [Ends]) le_rfl hskip htopology
    (fun n c hc => by
      rw [halfSkipped, Host.oneNode] at hc
      dsimp only at hc
      split at hc
      · rw [List.mem_singleton] at hc
        subst hc
        exact ⟨_, rfl⟩
      · cases hc) h hproper hrec hg hcover
  cases hinfo
  exact ⟨tr, d, g, h, hg, hcover, hfree (by decide) (by decide)⟩

end YellowZone.ClusterSched
