import YellowZone.Machine.Utf8

/-!
# Messages of the control plane

The control plane of the two-container experiments exchanges JSON values: what Python's
`json.loads` can return and what `json.dumps` accepts. A text is the list of its code points, among
them lone surrogates, which Python's strings may hold. A float is known by its `repr`.

`json.loads` itself is not modelled; it is a parameter of whatever reads messages (`Loads`). What
the sender writes is modelled, because the framing rests on it: `dumps` with `ensure_ascii=True`
and the separators `","` and `":"`. Every character outside the printable part of ASCII is escaped,
so that the text of a message never contains a newline.

## Main definitions and results

* `Json`, `Json.get` — values, and what they have under a key
* `Loads` — what `json.loads(raw.decode("utf-8"))` comes to
* `dumps` — `json.dumps(message, separators=(",", ":"), ensure_ascii=True)`
* `printable_dumps` — its text is printable ASCII
-/

namespace YellowZone.ControlPlane

open Machine

/-- The code points of a string. -/
def text (s : String) : Text := s.toList.map Char.toNat

/-- The characters from the blank to the tilde. -/
def Printable (c : ℕ) : Prop := 0x20 ≤ c ∧ c ≤ 0x7e

instance (c : ℕ) : Decidable (Printable c) := inferInstanceAs (Decidable (_ ∧ _))

/-- A float, by its `repr`. -/
structure FloatRepr where
  repr : Text
  printable : ∀ c ∈ repr, Printable c

/-- The values of JSON in Python. -/
inductive Json where
  | null
  | bool (b : Bool)
  | int (n : ℤ)
  | float (x : FloatRepr)
  | str (s : Text)
  | arr (items : List Json)
  | obj (fields : List (Text × Json))

namespace Json

/-- `message.get(key)` of a dictionary, if the key is there. -/
def get (key : Text) : Json → Option Json
  | obj fields => (fields.find? fun field => field.1 == key).map Prod.snd
  | _ => none

/-- `isinstance(message, dict) and isinstance(message.get("type"), str)`. -/
def isMessage (message : Json) : Bool :=
  match message.get (text "type") with
  | some (str _) => true
  | _ => false

end Json

/-- What becomes of the bytes of a line: a value, one of the two exceptions that the reader takes
for invalid JSON, or another exception, as for numbers with too many digits. -/
inductive Loaded where
  | value (v : Json)
  | undecodable
  | raised

/-- `json.loads(raw.decode("utf-8"))`. -/
abbrev Loads : Type := List UInt8 → Loaded

/-! ## Writing -/

/-- A hexadecimal digit. -/
def hexDigit (d : ℕ) : ℕ := if d < 10 then 0x30 + d else 0x57 + d

/-- The escape of a number below 2^16: a backslash, `u` and four digits. -/
def unicodeEscape (n : ℕ) : Text :=
  [0x5c, 0x75, hexDigit (n / 4096 % 16), hexDigit (n / 256 % 16), hexDigit (n / 16 % 16),
    hexDigit (n % 16)]

/-- One character of a string, as `ensure_ascii` has it: what is not printable and has no short
escape is escaped by its number, beyond the first plane as a surrogate pair. -/
def escapeChar (c : ℕ) : Text :=
  if c = 0x5c then [0x5c, 0x5c]
  else if c = 0x22 then [0x5c, 0x22]
  else if Printable c then [c]
  else if c = 0x08 then text "\\b"
  else if c = 0x0c then text "\\f"
  else if c = 0x0a then text "\\n"
  else if c = 0x0d then text "\\r"
  else if c = 0x09 then text "\\t"
  else if c < 0x10000 then unicodeEscape c
  else
    unicodeEscape (0xd800 + (c - 0x10000) / 0x400 % 0x400) ++
      unicodeEscape (0xdc00 + (c - 0x10000) % 0x400)

/-- A string in quotes. -/
def dumpsStr (s : Text) : Text := 0x22 :: (s.flatMap escapeChar ++ [0x22])

/-- A whole number. -/
def dumpsInt (n : ℤ) : Text :=
  let digits := (Nat.toDigits 10 n.natAbs).map Char.toNat
  if n < 0 then 0x2d :: digits else digits

/-- Texts with commas between them. -/
def joinComma : List Text → Text
  | [] => []
  | [t] => t
  | t :: ts => t ++ 0x2c :: joinComma ts

mutual

/-- `json.dumps(value, separators=(",", ":"), ensure_ascii=True)`. -/
def dumps : Json → Text
  | .null => text "null"
  | .bool true => text "true"
  | .bool false => text "false"
  | .int n => dumpsInt n
  | .float x => x.repr
  | .str s => dumpsStr s
  | .arr items => 0x5b :: (joinComma (dumpsItems items) ++ [0x5d])
  | .obj fields => 0x7b :: (joinComma (dumpsFields fields) ++ [0x7d])

/-- The items of a list. -/
def dumpsItems : List Json → List Text
  | [] => []
  | v :: vs => dumps v :: dumpsItems vs

/-- The fields of a dictionary. -/
def dumpsFields : List (Text × Json) → List Text
  | [] => []
  | (key, v) :: fields => (dumpsStr key ++ 0x3a :: dumps v) :: dumpsFields fields

end

/-! ## The text of a message is printable -/

/-- A text of printable characters. -/
def AllPrintable (t : Text) : Prop := ∀ c ∈ t, Printable c

instance (t : Text) : Decidable (AllPrintable t) :=
  inferInstanceAs (Decidable (∀ c ∈ t, Printable c))

theorem allPrintable_nil : AllPrintable [] := nofun

theorem AllPrintable.cons {c : ℕ} {t : Text} (hc : Printable c) (ht : AllPrintable t) :
    AllPrintable (c :: t) :=
  List.forall_mem_cons.mpr ⟨hc, ht⟩

theorem AllPrintable.append {t t' : Text} (h : AllPrintable t) (h' : AllPrintable t') :
    AllPrintable (t ++ t') :=
  List.forall_mem_append.mpr ⟨h, h'⟩

/-- Between two brackets, or two quotes. -/
theorem AllPrintable.enclose {a b : ℕ} {t : Text} (h : AllPrintable t) (ha : Printable a)
    (hb : Printable b) : AllPrintable (a :: (t ++ [b])) :=
  (h.append (.cons hb allPrintable_nil)).cons ha

theorem printable_hexDigit {d : ℕ} (h : d < 16) : Printable (hexDigit d) := by
  rw [hexDigit, Printable]
  split
  · omega
  · omega

theorem allPrintable_unicodeEscape (n : ℕ) : AllPrintable (unicodeEscape n) := by
  have hdigit (m : ℕ) : Printable (hexDigit (m % 16)) :=
    printable_hexDigit (Nat.mod_lt _ (by decide))
  refine .cons (by decide) (.cons (by decide) ?_)
  exact .cons (hdigit _) (.cons (hdigit _) (.cons (hdigit _) (.cons (hdigit _) allPrintable_nil)))

/-- Whatever the character is, what is written for it is printable. -/
theorem allPrintable_escapeChar (c : ℕ) : AllPrintable (escapeChar c) := by
  rw [escapeChar]
  split_ifs with _ _ hc
  · decide
  · decide
  · exact .cons hc allPrintable_nil
  · decide
  · decide
  · decide
  · decide
  · decide
  · exact allPrintable_unicodeEscape c
  · exact (allPrintable_unicodeEscape _).append (allPrintable_unicodeEscape _)

theorem allPrintable_dumpsStr (s : Text) : AllPrintable (dumpsStr s) := by
  refine AllPrintable.enclose (fun c hc => ?_) (by decide) (by decide)
  obtain ⟨a, -, ha⟩ := List.mem_flatMap.mp hc
  exact allPrintable_escapeChar a c ha

theorem allPrintable_dumpsInt (n : ℤ) : AllPrintable (dumpsInt n) := by
  have hdigits : AllPrintable ((Nat.toDigits 10 n.natAbs).map Char.toNat) := by
    intro c hc
    obtain ⟨d, hd, rfl⟩ := List.mem_map.mp hc
    have hdigit := Nat.isDigit_of_mem_toDigits (by decide) (by decide) hd
    rw [Char.isDigit, Bool.and_eq_true, decide_eq_true_eq, decide_eq_true_eq] at hdigit
    have hlow : 0x30 ≤ d.toNat := hdigit.1
    have hhigh : d.toNat ≤ 0x39 := hdigit.2
    exact ⟨by omega, by omega⟩
  rw [dumpsInt]
  split
  · exact hdigits.cons (by decide)
  · exact hdigits

theorem allPrintable_joinComma {ts : List Text} (h : ∀ t ∈ ts, AllPrintable t) :
    AllPrintable (joinComma ts) := by
  induction ts with
  | nil => exact allPrintable_nil
  | cons t ts ih =>
    obtain ⟨ht, hts⟩ := List.forall_mem_cons.mp h
    cases ts with
    | nil => exact ht
    | cons t' ts => exact ht.append ((ih hts).cons (by decide))

mutual

/-- **The text of a value is printable ASCII.** -/
theorem printable_dumps : ∀ v : Json, AllPrintable (dumps v)
  | .null | .bool true | .bool false => by
    rw [dumps]
    decide
  | .int n => by
    rw [dumps]
    exact allPrintable_dumpsInt n
  | .float x => by
    rw [dumps]
    exact x.printable
  | .str s => by
    rw [dumps]
    exact allPrintable_dumpsStr s
  | .arr items => by
    rw [dumps]
    exact (allPrintable_joinComma (printable_dumpsItems items)).enclose (by decide) (by decide)
  | .obj fields => by
    rw [dumps]
    exact (allPrintable_joinComma (printable_dumpsFields fields)).enclose (by decide) (by decide)

theorem printable_dumpsItems : ∀ items : List Json, ∀ t ∈ dumpsItems items, AllPrintable t
  | [] => by
    rw [dumpsItems]
    exact nofun
  | v :: vs => by
    rw [dumpsItems]
    exact List.forall_mem_cons.mpr ⟨printable_dumps v, printable_dumpsItems vs⟩

theorem printable_dumpsFields :
    ∀ fields : List (Text × Json), ∀ t ∈ dumpsFields fields, AllPrintable t
  | [] => by
    rw [dumpsFields]
    exact nofun
  | (key, v) :: fields => by
    rw [dumpsFields]
    refine List.forall_mem_cons.mpr ⟨?_, printable_dumpsFields fields⟩
    exact (allPrintable_dumpsStr key).append ((printable_dumps v).cons (by decide))

end

end YellowZone.ControlPlane
