import TargetClickhouse.Schema

/-!
# The repair of string values

`pre_validate_for_string_type`, which rewrites values that are no texts where the schema expects a
string.  A field is visited with the property of its name, and the fields of an object, or of the
objects in an array, with the schema of that object.
-/

namespace TargetClickhouse

namespace Schema

/-- `schema.get("properties", {}).get(key)`. -/
def property (schema : Schema) (key : String) : Except Exn (Option Schema) :=
  match schema with
  | .bool _ => .error .attributeError
  | .dict _ _ properties _ _ _ => .ok (properties.bind fun ps => ps.lookup key)

/-- `key_properties.get("type")`, as a list. -/
def expectedType : Schema → Except Exn (Option (List TypeName))
  | .bool _ => .error .attributeError
  | .dict type _ _ _ _ _ => .ok (type.map TypeKeyword.names)

/-- `key_properties.get("items")`. -/
def items : Schema → Items
  | .bool _ => .absent
  | .dict _ _ _ items _ _ => items

end Schema

/-- The schema with which the objects of an array are visited, if they are: `items` is a non-empty
dictionary whose type includes objects. -/
def Items.objectSchema : Items → Except Exn (Option Schema)
  | .absent => .ok none
  | .one (.bool false) => .ok none
  | .one (.bool true) => .error .attributeError
  | .one s@(.dict (some type) _ _ _ _ _) => .ok (if .object ∈ type.names then some s else none)
  | .one (.dict none _ _ _ _ _) => .ok none
  | .many [] => .ok none
  | .many (_ :: _) => .error .attributeError

section

variable (sdk : Sdk)

mutual

/-- `pre_validate_for_string_type`. -/
def preValidateForStringType (schema : Schema) : Record → Except Exn Record
  | [] => .ok []
  | (key, value) :: fields => do
      let value ←
        match ← schema.property key with
        | none => pure value
        | some keyProperties => preValidateField keyProperties value
      let fields ← preValidateForStringType schema fields
      return (key, value) :: fields

/-- One round of the loop of `pre_validate_for_string_type`. -/
def preValidateField (keyProperties : Schema) : Value → Except Exn Value
  | .dict fields => do
      match ← keyProperties.expectedType with
      | none => return .dict fields
      | some types =>
          if .object ∈ types then
            let fields ← preValidateForStringType keyProperties fields
            return .dict fields
          else if .string ∈ types then
            let text ← sdk.dumps (.dict fields)
            return .str text
          else return .dict fields
  | .list items => do
      match ← keyProperties.expectedType with
      | none => return .list items
      | some types =>
          if .array ∈ types then
            match ← keyProperties.items.objectSchema with
            | none => return .list items
            | some itemsSchema =>
                let items ← preValidateItems itemsSchema items
                return .list items
          else if .string ∈ types then
            let text ← sdk.dumps (.list items)
            return .str text
          else return .list items
  | .str s => do
      let _ ← keyProperties.expectedType
      return .str s
  | value => do
      match ← keyProperties.expectedType with
      | none => return value
      | some types =>
          match value with
          | .none =>
              if .null ∈ types then return value
              else if .string ∈ types then return .str (sdk.str value)
              else return value
          | _ => if .string ∈ types then return .str (sdk.str value) else return value

/-- The objects of an array, visited with the schema of its items. -/
def preValidateItems (itemsSchema : Schema) : List Value → Except Exn (List Value)
  | [] => .ok []
  | .dict fields :: items => do
      let fields ← preValidateForStringType itemsSchema fields
      let items ← preValidateItems itemsSchema items
      return .dict fields :: items
  | item :: items => do
      let items ← preValidateItems itemsSchema items
      return item :: items

end

end

end TargetClickhouse
