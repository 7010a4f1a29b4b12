/-!
# Record text

A record is shown as its name followed by its fields in braces, each field with
its decimal value.
-/

namespace Chip8

/-- A named list of numeric fields. -/
structure Record where
  name : String
  fields : List (String × Nat)
deriving DecidableEq

namespace Record

def fieldText (field : String × Nat) : String :=
  field.1 ++ ": " ++ toString field.2

def text (record : Record) : String :=
  record.name ++ " \x7b " ++ ", ".intercalate (record.fields.map fieldText) ++ " \x7d"

end Record
end Chip8
