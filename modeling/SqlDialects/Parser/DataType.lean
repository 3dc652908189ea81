import SqlDialects.Parser.Name

/-!
# Reading types
-/

namespace SqlDialects.Parser

/-- The shapes of a type behind its name. -/
inductive TypeShape where
  | plain | array | map | struct | emptyStruct

/-- Decides the shape of a type whose name, in upper case, has just been read, and passes the
opening angle bracket. The two brackets of an empty `STRUCT` are a single sign, told by how it is
written. -/
def typeShape (name : String) : Parser TypeShape := do
  if name = "ARRAY" then
    return if ← accept (.symbol .lt) then .array else .plain
  else if name = "MAP" then
    return if ← accept (.symbol .lt) then .map else .plain
  else if name = "STRUCT" then
    if (← current).lexeme = "<>" then
      advance
      return .emptyStruct
    else return if ← accept (.symbol .lt) then .struct else .plain
  else return .plain

/-- A parameter of a type: an integer of 32 bits without sign. -/
def typeParameter : Parser UInt32 := do
  match ← kind with
  | .integer value =>
    if 0 ≤ value.toInt ∧ value.toInt < 0x100000000 then
      advance
      return .ofNat value.toInt.toNat
    else fail .parameterOutOfRange
  | _ => unexpected .integer

variable (d : Dialect)

/-- A field of a `STRUCT`, with or without a colon. -/
def structField (dataType : Parser DataType) : Parser StructField := do
  let name ← name d
  let _ ← accept (.symbol .colon)
  return ⟨name, ← dataType⟩

/-- A type whose parts are read by `part`. -/
def dataTypeOf (part : Parser DataType) : Parser DataType := do
  match (← current).name? d with
  | none => unexpected .dataType
  | some word =>
    advance
    let name := word.toUpper
    match ← typeShape name with
    | .emptyStruct => return .struct []
    | .array =>
      let element ← part
      expect (.symbol .gt)
      return .array element
    | .map =>
      let key ← part
      expect (.symbol .comma)
      let value ← part
      expect (.symbol .gt)
      return .map key value
    | .struct =>
      let fields ← commaList (structField d part)
      expect (.symbol .gt)
      return .struct fields
    | .plain =>
      if ← accept (.symbol .leftParen) then
        let parameters ← commaList typeParameter
        expect (.symbol .rightParen)
        return .sized name parameters
      else return .simple name

/-- A type that nests less than `n` deep. -/
def dataTypeWithin : Nat → Parser DataType
  | 0 => unexpected .dataType
  | n + 1 => dataTypeOf d (dataTypeWithin n)

/-- A type. Each level of nesting passes a token, so that the tokens left bound the depth. -/
def dataType : Parser DataType := do
  dataTypeWithin d ((← get).rest.length + 1)

end SqlDialects.Parser
