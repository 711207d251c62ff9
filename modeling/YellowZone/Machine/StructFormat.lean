import Mathlib

/-!
# Structures in memory, and formats that read them

Two descriptions of the same bytes. A C compiler lays a structure out field by field, each at a
multiple of its alignment, with padding where needed. A program that looks at a memory dump reads
the fields with a format: it lists them in order, little-endian and without padding. The two agree
for a structure whose fields happen to need no padding, which is decidable (`unpadded`), and then
the format reads what was stored (`unpack_cBytes`).

Values are those of the reading program: numbers without a size. What a field can hold is a
condition on the value, `Field.Fits`.

## Main definitions and results

* `leBytes`, `readLE` — numbers as little-endian bytes, and back
* `Field`, `Tuple` — fields and the values of a format
* `cBytes`, `unpack` — the layout of the compiler, and the reading of a format
* `unpack_cBytes` — the format reads what was stored
* `drop_flatMap` — arrays of structures
-/

namespace YellowZone.Machine

/-! ## Numbers -/

/-- The `k` low bytes of a number, little-endian. -/
def leBytes : (k : ℕ) → (n : ℕ) → List UInt8
  | 0, _ => []
  | k + 1, n => UInt8.ofNat n :: leBytes k (n / 256)

/-- The number with given little-endian bytes. -/
def readLE : List UInt8 → ℕ
  | [] => 0
  | b :: bs => b.toNat + 256 * readLE bs

@[simp] theorem length_leBytes (k n : ℕ) : (leBytes k n).length = k := by
  induction k generalizing n with
  | zero => rfl
  | succ k ih => simp [leBytes, ih]

theorem readLE_leBytes_mod (k n : ℕ) : readLE (leBytes k n) = n % 256 ^ k := by
  induction k generalizing n with
  | zero => rw [leBytes, readLE, Nat.pow_zero, Nat.mod_one]
  | succ k ih =>
    rw [leBytes, readLE, ih, UInt8.toNat_ofNat', Nat.pow_succ' (m := 256), Nat.mod_mul (a := 256)]

theorem readLE_leBytes (k n : ℕ) (h : n < 256 ^ k) : readLE (leBytes k n) = n := by
  rw [readLE_leBytes_mod, Nat.mod_eq_of_lt h]

theorem take_leBytes {j k : ℕ} (h : j ≤ k) (n : ℕ) : (leBytes k n).take j = leBytes j n := by
  induction j generalizing k n with
  | zero => rfl
  | succ j ih =>
    obtain ⟨k, rfl⟩ := Nat.exists_eq_add_of_lt h
    rw [leBytes, leBytes, List.take_succ_cons, ih (by omega)]

theorem readLE_append_zeros (bs : List UInt8) (m : ℕ) :
    readLE (bs ++ List.replicate m 0) = readLE bs := by
  induction bs with
  | nil =>
    induction m with
    | zero => rfl
    | succ m ih => simpa [List.replicate_succ, readLE] using ih
  | cons b bs ih => rw [List.cons_append, readLE, readLE, ih]

/-- A number of 32 bits as a signed number. -/
def signed32 (n : ℕ) : ℤ := if n < 2 ^ 31 then n else (n : ℤ) - 2 ^ 32

theorem signed32_emod {v : ℤ} (hlo : -2 ^ 31 ≤ v) (hhi : v < 2 ^ 31) :
    signed32 (v % 2 ^ 32).toNat = v := by
  unfold signed32
  split <;> omega

/-! ## Fields -/

/-- A field: an unsigned or signed number, or an array of characters. -/
inductive Field where
  | u64
  | u32
  | i32
  | chars (n : ℕ)
  deriving DecidableEq, Repr

namespace Field

/-- The size in bytes. -/
def size : Field → ℕ
  | u64 => 8
  | u32 => 4
  | i32 => 4
  | chars n => n

/-- The alignment that a C compiler gives it. -/
def align : Field → ℕ
  | u64 => 8
  | u32 => 4
  | i32 => 4
  | chars _ => 1

/-- What the reading program gets. -/
abbrev Value : Field → Type
  | u64 => ℕ
  | u32 => ℕ
  | i32 => ℤ
  | chars _ => List UInt8

/-- A value that the field can hold. -/
def Fits : (f : Field) → f.Value → Prop
  | u64, n => n < 2 ^ 64
  | u32, n => n < 2 ^ 32
  | i32, v => -2 ^ 31 ≤ v ∧ v < 2 ^ 31
  | chars n, s => s.length = n

/-- The bytes of a value; a negative number is in two's complement. -/
def bytes : (f : Field) → f.Value → List UInt8
  | u64, n => leBytes 8 n
  | u32, n => leBytes 4 n
  | i32, v => leBytes 4 (v % 2 ^ 32).toNat
  | chars _, s => s

/-- The value at the beginning of some bytes. -/
def read : (f : Field) → List UInt8 → f.Value
  | u64, bs => readLE (bs.take 8)
  | u32, bs => readLE (bs.take 4)
  | i32, bs => signed32 (readLE (bs.take 4))
  | chars n, bs => bs.take n

theorem length_bytes : (f : Field) → (v : f.Value) → f.Fits v → (f.bytes v).length = f.size
  | u64, _, _ => length_leBytes _ _
  | u32, _, _ => length_leBytes _ _
  | i32, _, _ => length_leBytes _ _
  | chars _, _, h => h

/-- **A field is read as stored.** -/
theorem read_bytes (f : Field) (v : f.Value) (h : f.Fits v) (rest : List UInt8) :
    f.read (f.bytes v ++ rest) = v := by
  cases f with
  | u64 =>
    rw [read, bytes, List.take_left' (length_leBytes 8 v)]
    exact readLE_leBytes 8 v h
  | u32 =>
    rw [read, bytes, List.take_left' (length_leBytes 4 v)]
    exact readLE_leBytes 4 v h
  | i32 =>
    obtain ⟨hlo, hhi⟩ := h
    have hsmall : (v % 2 ^ 32).toNat < 256 ^ 4 := by omega
    rw [read, bytes, List.take_left' (length_leBytes 4 _), readLE_leBytes 4 _ hsmall]
    exact signed32_emod hlo hhi
  | chars n =>
    rw [read, bytes]
    exact List.take_left' h

end Field

/-! ## Formats -/

/-- The values of a list of fields. -/
abbrev Tuple : List Field → Type
  | [] => Unit
  | f :: fs => f.Value × Tuple fs

/-- The values fit their fields. -/
def Tuple.Fits : (fs : List Field) → Tuple fs → Prop
  | [], _ => True
  | f :: fs, v => f.Fits v.1 ∧ Tuple.Fits fs v.2

/-- The size of a format. -/
def formatSize (fs : List Field) : ℕ := (fs.map Field.size).sum

/-- The values that a format reads at the beginning of some bytes. -/
def unpack : (fs : List Field) → List UInt8 → Tuple fs
  | [], _ => ()
  | f :: fs, bs => (f.read bs, unpack fs (bs.drop f.size))

/-- The values that a format reads at an offset. -/
def unpackFrom (fs : List Field) (bs : List UInt8) (offset : ℕ) : Tuple fs :=
  unpack fs (bs.drop offset)

/-- The padding in front of a field at an offset. -/
def padding (offset : ℕ) (f : Field) : ℕ := (f.align - offset % f.align) % f.align

/-- The bytes of a structure as a C compiler lays it out, from an offset on. -/
def cBytes : (offset : ℕ) → (fs : List Field) → Tuple fs → List UInt8
  | _, [], _ => []
  | offset, f :: fs, v =>
    List.replicate (padding offset f) 0 ++ f.bytes v.1 ++
      cBytes (offset + padding offset f + f.size) fs v.2

/-- No field needs padding, nor does the structure as the element of an array: its size is a
multiple of every alignment. -/
def unpadded (fs : List Field) : Bool :=
  go 0 fs && fs.all fun f => formatSize fs % f.align = 0
where
  /-- No field needs padding, from an offset on. -/
  go : ℕ → List Field → Bool
    | _, [] => true
    | offset, f :: fs => padding offset f = 0 && go (offset + f.size) fs

/-- **The format reads what was stored.** -/
theorem unpack_cBytes_from (fs : List Field) (v : Tuple fs) (hv : Tuple.Fits fs v)
    (rest : List UInt8) : ∀ offset : ℕ, unpadded.go offset fs = true →
      (cBytes offset fs v).length = formatSize fs ∧ unpack fs (cBytes offset fs v ++ rest) = v := by
  induction fs with
  | nil => exact fun _ _ => ⟨rfl, rfl⟩
  | cons f fs ih =>
    intro offset hgo
    simp only [unpadded.go, Bool.and_eq_true, decide_eq_true_eq] at hgo
    obtain ⟨hpad, hgo⟩ := hgo
    obtain ⟨hfit, hfits⟩ := hv
    obtain ⟨hlen, hread⟩ := ih v.2 hfits (offset + f.size) hgo
    have hbytes : cBytes offset (f :: fs) v = f.bytes v.1 ++ cBytes (offset + f.size) fs v.2 := by
      rw [cBytes, hpad]
      rfl
    have hsize := f.length_bytes v.1 hfit
    constructor
    · rw [hbytes, List.length_append, hsize, hlen]
      rfl
    · rw [hbytes, List.append_assoc, unpack, f.read_bytes v.1 hfit, List.drop_left' hsize, hread]

theorem length_cBytes {fs : List Field} (hfs : unpadded fs = true) {v : Tuple fs}
    (hv : Tuple.Fits fs v) : (cBytes 0 fs v).length = formatSize fs := by
  rw [unpadded, Bool.and_eq_true] at hfs
  exact (unpack_cBytes_from fs v hv [] 0 hfs.1).1

theorem unpack_cBytes {fs : List Field} (hfs : unpadded fs = true) {v : Tuple fs}
    (hv : Tuple.Fits fs v) (rest : List UInt8) : unpack fs (cBytes 0 fs v ++ rest) = v := by
  rw [unpadded, Bool.and_eq_true] at hfs
  exact (unpack_cBytes_from fs v hv rest 0 hfs.1).2

/-! ## Arrays -/

section Arrays

variable {α β : Type} {f : α → List β} {size : ℕ}

theorem length_flatMap_of_size (hf : ∀ a, (f a).length = size) (as : List α) :
    (as.flatMap f).length = as.length * size := by
  induction as with
  | nil => simp
  | cons a as ih =>
    rw [List.flatMap_cons, List.length_append, hf, ih, List.length_cons, Nat.succ_mul]
    omega

/-- The elements from an index on. -/
theorem drop_flatMap (hf : ∀ a, (f a).length = size) (as : List α) (i : ℕ) :
    (as.flatMap f).drop (i * size) = (as.drop i).flatMap f := by
  induction i generalizing as with
  | zero => simp
  | succ i ih =>
    cases as with
    | nil => simp
    | cons a as =>
      rw [List.flatMap_cons, Nat.succ_mul, Nat.add_comm, ← List.drop_drop, List.drop_left' (hf a),
        ih, List.drop_succ_cons]

/-- One item of an element. -/
theorem getD_flatMap (hf : ∀ a, (f a).length = size) {as : List α} {i : ℕ} (hi : i < as.length)
    {k : ℕ} (hk : k < size) (d : β) :
    (as.flatMap f).getD (i * size + k) d = (f as[i]).getD k d := by
  have hdrop : (as.flatMap f).getD (i * size + k) d =
      ((as.flatMap f).drop (i * size)).getD k d := by
    rw [List.getD_eq_getElem?_getD, List.getD_eq_getElem?_getD, List.getElem?_drop]
  have hk' : k < (f as[i]).length := by rwa [hf]
  rw [hdrop, drop_flatMap hf, List.drop_eq_getElem_cons hi, List.flatMap_cons,
    List.getD_eq_getElem?_getD, List.getD_eq_getElem?_getD, List.getElem?_append_left hk']

end Arrays

end YellowZone.Machine
