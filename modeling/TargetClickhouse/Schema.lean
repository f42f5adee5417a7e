import TargetClickhouse.Values

/-!
# JSON schemas

The schemas of streams and of their properties, with the keywords that the target reads, and the
validity of a value against a schema (JSON Schema Draft 7, formats not asserted).
-/

namespace TargetClickhouse

inductive TypeName where
  | null
  | boolean
  | integer
  | number
  | string
  | object
  | array
  deriving DecidableEq, Repr

/-- The value of the keyword `type`. -/
inductive TypeKeyword where
  | one (name : TypeName)
  | many (names : List TypeName)
  deriving DecidableEq, Repr

mutual

/-- A schema: a boolean, or a dictionary of keywords. -/
inductive Schema where
  | bool (b : Bool)
  | dict (type : Option TypeKeyword) (format : Option String)
      (properties : Option (List (String × Schema))) (items : Items)
      (anyOf oneOf : Option (List Schema))

/-- The value of the keyword `items`. -/
inductive Items where
  | absent
  | one (schema : Schema)
  | many (schemas : List Schema)

end

namespace TypeKeyword

/-- `type` as a list of names. -/
def names : TypeKeyword → List TypeName
  | .one n => [n]
  | .many ns => ns

end TypeKeyword

/-- The value is an instance of the named type. -/
def TypeName.admits : TypeName → Value → Bool
  | .null, .none => true
  | .boolean, .bool _ => true
  | .integer, .int _ => true
  | .number, .int _ => true
  | .number, .num _ => true
  | .string, .str _ => true
  | .object, .dict _ => true
  | .array, .list _ => true
  | _, _ => false

namespace Schema

/-- The schema with a type and a format only. -/
def typed (type : TypeKeyword) (format : Option String) : Schema :=
  .dict (some type) format none .absent none none

/-- The schema with `anyOf` only. -/
def any (branches : List Schema) : Schema := .dict none none none .absent (some branches) none

/-- The schema of an object with the given properties. -/
def object (properties : List (String × Schema)) : Schema :=
  .dict (some (.one .object)) none (some properties) .absent none none

/-- `schema["properties"]`. -/
def properties : Schema → Except Exn (List (String × Schema))
  | .bool _ => .error .typeError
  | .dict _ _ (some ps) _ _ _ => .ok ps
  | .dict _ _ none _ _ _ => .error (.keyError "properties")

mutual

/-- The value validates against the schema. -/
def admits : Schema → Value → Bool
  | .bool b, _ => b
  | .dict type _ properties items anyOf oneOf, v =>
      (match type with
        | none => true
        | some t => t.names.any fun n => n.admits v) &&
      (match properties, v with
        | some ps, .dict fields => fields.all fun kv => admitsField ps kv.1 kv.2
        | _, _ => true) &&
      (match v with
        | .list xs => admitsItems items xs
        | _ => true) &&
      (match anyOf with
        | none => true
        | some ss => 0 < countAdmits ss v) &&
      (match oneOf with
        | none => true
        | some ss => countAdmits ss v = 1)

/-- The field validates against the property of its name, if there is one. -/
def admitsField : List (String × Schema) → String → Value → Bool
  | [], _, _ => true
  | (name, s) :: ps, key, v => if key = name then s.admits v else admitsField ps key v

def admitsItems : Items → List Value → Bool
  | .absent, _ => true
  | .one s, xs => xs.all fun x => s.admits x
  | .many ss, xs => admitsEach ss xs

def admitsEach : List Schema → List Value → Bool
  | s :: ss, x :: xs => s.admits x && admitsEach ss xs
  | _, _ => true

/-- How many of the schemas the value validates against. -/
def countAdmits : List Schema → Value → ℕ
  | [], _ => 0
  | s :: ss, v => (if s.admits v then 1 else 0) + countAdmits ss v

end

/-- What each keyword asks for. -/
theorem admits_dict_iff {type : Option TypeKeyword} {format : Option String}
    {properties : Option (List (String × Schema))} {items : Items}
    {anyOf oneOf : Option (List Schema)} {v : Value} :
    (dict type format properties items anyOf oneOf).admits v = true ↔
      (∀ t, type = some t → ∃ n ∈ t.names, n.admits v = true) ∧
      (∀ ps fields, properties = some ps → v = .dict fields →
        ∀ kv ∈ fields, admitsField ps kv.1 kv.2 = true) ∧
      (∀ xs, v = .list xs → admitsItems items xs = true) ∧
      (∀ ss, anyOf = some ss → 0 < countAdmits ss v) ∧
      ∀ ss, oneOf = some ss → countAdmits ss v = 1 := by
  rw [admits.eq_def]
  simp only [Bool.and_eq_true, and_assoc]
  refine and_congr ?_ (and_congr ?_ (and_congr ?_ (and_congr ?_ ?_)))
  · cases type with
    | none => simp
    | some t => simp
  · cases properties with
    | none => simp
    | some ps => cases v <;> simp
  · cases v <;> simp
  · cases anyOf <;> simp
  · cases oneOf <;> simp

theorem admitsField_of_lookup {ps : List (String × Schema)} {key : String} {s : Schema}
    (h : ps.lookup key = some s) (v : Value) : admitsField ps key v = s.admits v := by
  induction ps with
  | nil => simp at h
  | cons p ps ih =>
    obtain ⟨name, s'⟩ := p
    rw [admitsField]
    by_cases hk : key = name
    · obtain rfl : s' = s := by simpa [hk] using h
      rw [if_pos hk]
    · rw [if_neg hk]
      refine ih ?_
      rwa [List.lookup_cons, beq_eq_false_iff_ne.2 hk] at h

theorem countAdmits_pos_iff {ss : List Schema} {v : Value} :
    0 < countAdmits ss v ↔ ∃ s ∈ ss, s.admits v = true := by
  induction ss with
  | nil => simp [countAdmits]
  | cons s ss ih =>
    rw [countAdmits]
    by_cases hs : s.admits v = true
    · simp only [if_pos hs]
      exact iff_of_true (by omega) ⟨s, List.mem_cons_self, hs⟩
    · simp only [hs]
      simp [ih, hs]

end Schema

end TargetClickhouse
