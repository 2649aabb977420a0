import Mathlib.Data.List.Lex
import Forge.Lib.GoTime
import Forge.Store.Tables

/-!
# What the queries use of Postgres

The collation of a text column, by which `ORDER BY` and the row comparison agree, and the casts of texts that
are sent as parameters. A text that the database does not take (`TextOk`) makes the statement fail.
-/

namespace Forge

/-- A value of a `TEXT` column. -/
structure Text where
  s : GoString
deriving DecidableEq

/-- What the listing uses of the database. -/
class Postgres where
  collation : LinearOrder Text
  castTimestamptz : GoString → Option Timestamptz
  castUuid : GoString → Option UUID
  castUuid_String : ∀ u : UUID, castUuid u.String = some u

instance [Postgres] : LinearOrder Text := Postgres.collation

/-- Names are compared bytewise (the collation `C`), and the texts of the given times are read back. -/
abbrev Postgres.bytewise (times : List Timestamptz) : Postgres where
  collation := LinearOrder.lift' (fun t => t.s.map UInt8.toNat) fun _ _ h =>
    congrArg Text.mk (List.map_injective_iff.2 (fun _ _ => UInt8.toNat_inj.1) h)
  castTimestamptz s := times.find? fun t => GoTime.RFC3339Nano (goTime t) = s
  castUuid := UuidLib.canonical.Parse
  castUuid_String := UuidLib.canonical.parse_String

def castText (s : GoString) : Option Text := if TextOk s then some ⟨s⟩ else none

end Forge
