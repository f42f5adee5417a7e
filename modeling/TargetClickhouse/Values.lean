import Mathlib.Tactic

/-!
# Values and exceptions

The Python values that travel through the target: the cells of a singer record or of an Arrow
table, before and after its date-like texts are parsed, and the exceptions its functions raise.
-/

namespace TargetClickhouse

structure Date where
  year : ℕ
  month : ℕ
  day : ℕ
  deriving DecidableEq, Repr

structure Time where
  hour : ℕ
  minute : ℕ
  second : ℕ
  microsecond : ℕ
  deriving DecidableEq, Repr

/-- A `datetime`; `offset` is its UTC offset in minutes, when it has one. -/
structure DateTime where
  date : Date
  time : Time
  offset : Option ℤ
  deriving DecidableEq, Repr

/-- A Python value.  `num` is a number that is not an integer, by its text. -/
inductive Value where
  | none
  | bool (b : Bool)
  | int (n : ℤ)
  | num (text : String)
  | str (s : String)
  | bytes (b : List UInt8)
  | date (d : Date)
  | datetime (t : DateTime)
  | list (items : List Value)
  | dict (fields : List (String × Value))
  deriving Repr

/-- A record: its fields in order. -/
abbrev Record := List (String × Value)

namespace Value

/-- `isinstance(value, (dict, list))`. -/
def isContainer : Value → Bool
  | .list _ => true
  | .dict _ => true
  | _ => false

end Value

/-! ## Equality -/

mutual

/-- The values are the same. -/
def Value.same : Value → Value → Bool
  | .none, .none => true
  | .bool a, .bool b => a = b
  | .int m, .int n => m = n
  | .num s, .num t => s = t
  | .str s, .str t => s = t
  | .bytes b, .bytes c => b = c
  | .date d, .date e => d = e
  | .datetime t, .datetime u => t = u
  | .list items, .list items' => sameItems items items'
  | .dict fields, .dict fields' => sameFields fields fields'
  | _, _ => false

def sameItems : List Value → List Value → Bool
  | [], [] => true
  | v :: vs, w :: ws => v.same w && sameItems vs ws
  | _, _ => false

def sameFields : List (String × Value) → List (String × Value) → Bool
  | [], [] => true
  | (key, v) :: fields, (key', w) :: fields' => key = key' && v.same w && sameFields fields fields'
  | _, _ => false

end

mutual

theorem Value.same_iff : ∀ v w : Value, v.same w = true ↔ v = w
  | .list items, w => by cases w <;> simp [Value.same, sameItems_iff items]
  | .dict fields, w => by cases w <;> simp [Value.same, sameFields_iff fields]
  | .none, w => by cases w <;> simp [Value.same]
  | .bool _, w => by cases w <;> simp [Value.same]
  | .int _, w => by cases w <;> simp [Value.same]
  | .num _, w => by cases w <;> simp [Value.same]
  | .str _, w => by cases w <;> simp [Value.same]
  | .bytes _, w => by cases w <;> simp [Value.same]
  | .date _, w => by cases w <;> simp [Value.same]
  | .datetime _, w => by cases w <;> simp [Value.same]

theorem sameItems_iff : ∀ items items' : List Value, sameItems items items' = true ↔ items = items'
  | [], items' => by cases items' <;> simp [sameItems]
  | v :: vs, items' => by cases items' <;> simp [sameItems, Value.same_iff v, sameItems_iff vs]

theorem sameFields_iff : ∀ fields fields' : List (String × Value),
    sameFields fields fields' = true ↔ fields = fields'
  | [], fields' => by cases fields' <;> simp [sameFields]
  | (key, v) :: fields, fields' => by
      cases fields' with
      | nil => simp [sameFields]
      | cons kv fields' =>
        obtain ⟨key', w⟩ := kv
        simp [sameFields, Value.same_iff v, sameFields_iff fields, and_assoc]

end

instance : DecidableEq Value := fun v w => decidable_of_iff (v.same w = true) (Value.same_iff v w)

/-! ## Exceptions and conversions -/

/-- The exceptions of the modelled code; the numbers tell apart the exceptions that come from the
network, the driver or the file system. -/
inductive Exn where
  /-- `requests.exceptions.ConnectionError`, or a subclass of it. -/
  | connectionError (id : ℕ)
  | other (id : ℕ)
  | valueError (msg : String)
  | runtimeError (msg : String)
  | notImplementedError (msg : String)
  | keyError (key : String)
  | typeError
  | attributeError
  | fileNotFoundError (path : String)
  | validationError
  /-- The SDK's report that two names of a schema or record conform to the same name. -/
  | conformedNameClash
  deriving DecidableEq, Repr

/-- `RETRYABLE_INSERT_EXCEPTIONS`. -/
def retryableInsertException : Exn → Bool
  | .connectionError _ => true
  | _ => false

/-- The text conversions and naming rules of the SDK and of `simplejson` that the code relies on. -/
structure Sdk where
  /-- `conform_name` of a column, for names of which something is left; the SDK raises on others. -/
  conformName : String → String
  /-- A conformed name is conformed. -/
  conformName_idem : ∀ name, conformName (conformName name) = conformName name
  /-- `json.dumps`; it raises on a value with a part that JSON has no form for. -/
  dumps : Value → Except Exn String
  /-- `str`. -/
  str : Value → String
  str_none : str .none = "None"
  str_bool : ∀ b, str (.bool b) = if b then "True" else "False"
  str_int : ∀ n, str (.int n) = toString n
  str_num : ∀ text, str (.num text) = text

/-! ## JSON text -/

/-- A text of printable ASCII characters as JSON. -/
def jsonString (s : String) : String :=
  let escaped := s.toList.flatMap fun c => if c = '"' ∨ c = '\\' then ['\\', c] else [c]
  "\"" ++ String.ofList escaped ++ "\""

mutual

/-- The JSON text of a value whose texts are printable ASCII. -/
def jsonText : Value → Except Exn String
  | .none => .ok "null"
  | .bool b => .ok (if b then "true" else "false")
  | .int n => .ok (toString n)
  | .num text => .ok text
  | .str s => .ok (jsonString s)
  | .bytes _ => .error .typeError
  | .date _ => .error .typeError
  | .datetime _ => .error .typeError
  | .list items => do
      let texts ← jsonItems items
      return "[" ++ ", ".intercalate texts ++ "]"
  | .dict fields => do
      let texts ← jsonFields fields
      return "\x7b" ++ ", ".intercalate texts ++ "\x7d"

def jsonItems : List Value → Except Exn (List String)
  | [] => .ok []
  | v :: vs => do
      let text ← jsonText v
      let texts ← jsonItems vs
      return text :: texts

def jsonFields : List (String × Value) → Except Exn (List String)
  | [] => .ok []
  | (key, v) :: fields => do
      let text ← jsonText v
      let texts ← jsonFields fields
      return (jsonString key ++ ": " ++ text) :: texts

end

mutual

/-- The value has a JSON text: no part of it is of a type that JSON has no form for. -/
def Value.isJson : Value → Bool
  | .bytes _ => false
  | .date _ => false
  | .datetime _ => false
  | .list items => itemsAreJson items
  | .dict fields => fieldsAreJson fields
  | _ => true

def itemsAreJson : List Value → Bool
  | [] => true
  | v :: vs => v.isJson && itemsAreJson vs

def fieldsAreJson : List (String × Value) → Bool
  | [] => true
  | (_, v) :: fields => v.isJson && fieldsAreJson fields

end

theorem itemsAreJson_iff {items : List Value} :
    itemsAreJson items = true ↔ ∀ v ∈ items, v.isJson = true := by
  induction items with
  | nil => simp [itemsAreJson]
  | cons v vs ih => rw [itemsAreJson, Bool.and_eq_true, ih, List.forall_mem_cons]

theorem fieldsAreJson_iff {fields : Record} :
    fieldsAreJson fields = true ↔ ∀ kv ∈ fields, kv.2.isJson = true := by
  induction fields with
  | nil => simp [fieldsAreJson]
  | cons kv fields ih =>
    obtain ⟨key, v⟩ := kv
    rw [fieldsAreJson, Bool.and_eq_true, ih, List.forall_mem_cons]

mutual

theorem exists_jsonText : ∀ v : Value, v.isJson = true → ∃ text, jsonText v = .ok text
  | .none, _ => ⟨_, rfl⟩
  | .bool _, _ => ⟨_, rfl⟩
  | .int _, _ => ⟨_, rfl⟩
  | .num _, _ => ⟨_, rfl⟩
  | .str _, _ => ⟨_, rfl⟩
  | .list items, h => by
      obtain ⟨texts, htexts⟩ := exists_jsonItems items h
      exact ⟨_, by rw [jsonText, htexts]; rfl⟩
  | .dict fields, h => by
      obtain ⟨texts, htexts⟩ := exists_jsonFields fields h
      exact ⟨_, by rw [jsonText, htexts]; rfl⟩

theorem exists_jsonItems : ∀ items : List Value, itemsAreJson items = true →
    ∃ texts, jsonItems items = .ok texts
  | [], _ => ⟨_, rfl⟩
  | v :: vs, h => by
      rw [itemsAreJson, Bool.and_eq_true] at h
      obtain ⟨text, htext⟩ := exists_jsonText v h.1
      obtain ⟨texts, htexts⟩ := exists_jsonItems vs h.2
      exact ⟨_, by rw [jsonItems, htext, htexts]; rfl⟩

theorem exists_jsonFields : ∀ fields : List (String × Value), fieldsAreJson fields = true →
    ∃ texts, jsonFields fields = .ok texts
  | [], _ => ⟨_, rfl⟩
  | (_, v) :: fields, h => by
      rw [fieldsAreJson, Bool.and_eq_true] at h
      obtain ⟨text, htext⟩ := exists_jsonText v h.1
      obtain ⟨texts, htexts⟩ := exists_jsonFields fields h.2
      exact ⟨_, by rw [jsonFields, htext, htexts]; rfl⟩

end

/-- JSON values are written as text. -/
def Sdk.DumpsJson (sdk : Sdk) : Prop :=
  ∀ v : Value, v.isJson = true → ∃ text, sdk.dumps v = .ok text

/-- An SDK for names that are conformed as they are. -/
def Sdk.verbatim : Sdk where
  conformName := id
  conformName_idem := fun _ => rfl
  dumps := jsonText
  str
    | .bool b => if b then "True" else "False"
    | .int n => toString n
    | .num text => text
    | .str s => s
    | _ => "None"
  str_none := rfl
  str_bool := fun _ => rfl
  str_int := fun _ => rfl
  str_num := fun _ => rfl

theorem Sdk.verbatim_dumpsJson : Sdk.verbatim.DumpsJson := exists_jsonText

end TargetClickhouse
