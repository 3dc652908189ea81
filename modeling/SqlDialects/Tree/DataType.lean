/-!
# Types in casts
-/

namespace SqlDialects

mutual

inductive DataType where
  | simple (name : String)
  /-- A type name with parameters, such as `DECIMAL(10, 2)`. -/
  | sized (name : String) (parameters : List UInt32)
  | array (element : DataType)
  | map (key value : DataType)
  | struct (fields : List StructField)

structure StructField where
  name : String
  dataType : DataType

end

/-- A type without parameters; type names are upper case. -/
def DataType.named (name : String) : DataType :=
  .simple name.toUpper

end SqlDialects
