import SqlDialects.Error
import SqlDialects.Json.Reader

/-!
# Options

The choice of a dialect by name, as a value and as JSON.
-/

namespace SqlDialects

/-- The dialect that a text names. -/
def Dialect.byName (name : String) : Except UnsupportedDialect Dialect :=
  match DialectName.ofText? name with
  | some n => .ok n.dialect
  | none => .error ⟨name⟩

structure Options where
  /-- The name of a dialect; without one, the generic dialect is meant. -/
  database : Option String
  deriving DecidableEq

namespace Options

/-- The options that choose a known dialect. -/
def ofDialectName (name : DialectName) : Options :=
  ⟨some name.text⟩

/-- The dialect that the options choose. -/
def dialect (options : Options) : Except UnsupportedDialect Dialect :=
  match options.database with
  | some name => Dialect.byName name
  | none => .ok .generic

def toJson (options : Options) : Json :=
  .object [("database", Json.ofOption .string options.database)]

/-- The options whose database is a string or `null`. -/
def ofDatabase? : Json → Option Options
  | .null => some ⟨none⟩
  | .string name => some ⟨some name⟩
  | _ => none

/-- Reads options from the text of a JSON object, whose other members are passed over. An array of
the one value stands for the object, and an empty array for the empty object. -/
def ofText? (text : String) : Option Options :=
  match Json.ofText? text with
  | some (.array values) => ofValues? values
  | _ => do
    let members ← Json.membersOfText? text ["database"]
    ofValues? ((members.filter (·.1 == "database")).map (·.2))
where
  ofValues? : List Json → Option Options
    | [] => some ⟨none⟩
    | [value] => ofDatabase? value
    | _ => none

end Options

end SqlDialects
