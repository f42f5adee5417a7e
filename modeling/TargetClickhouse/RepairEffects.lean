import TargetClickhouse.Repairs

/-!
# What the repair of string values leaves alone

The nulls of a record, the parts of it whose schema the repair does not interpret, and the records
that are valid already.  What happens to a value is decided where the repair looks at it, by the
mode in which it does.
-/

namespace TargetClickhouse

open TopDown

/-! ## Modes -/

namespace Mode

/-- The types that the property of a field declares. -/
def typeNames : Mode → List TypeName
  | .field (.ok (some p)) => p.typeNames
  | _ => []

end Mode

/-- The repair can read the keyword. -/
def Items.isReadable : Items → Bool
  | .one (.bool true) => false
  | .many (_ :: _) => false
  | _ => true

/-- The repair looks for properties in the items: they have one schema, which has a type. -/
def Items.isInterpreted : Items → Bool
  | .one (.dict (some _) _ _ _ _ _) => true
  | _ => false

namespace Mode

/-- The repair can read the schema of the value. -/
def isReadable : Mode → Value → Bool
  | .field (.error _), _ => false
  | .field (.ok (some (.bool _))), _ => false
  | .field (.ok (some p)), .list _ => .array ∉ p.typeNames || p.items.isReadable
  | _, _ => true

/-- The repair interprets the schema of the value. -/
def isInterpreted : Mode → Value → Bool
  | .field (.ok (some p@(.dict (some _) _ _ _ _ _))), .list _ =>
      .array ∉ p.typeNames || p.items.isInterpreted
  | .field (.ok (some (.dict (some _) _ _ _ _ _))), _ => true
  | .item _, .dict _ => true
  | _, _ => false

/-- The value validates against the schema with which it is looked at, if there is one. -/
def admits : Mode → Value → Bool
  | .field (.ok (some p)), v => p.admits v
  | .item s, v => s.admits v
  | _, _ => true

end Mode

/-- A truth value or a number. -/
def Value.isScalar : Value → Bool
  | .bool _ => true
  | .int _ => true
  | .num _ => true
  | _ => false

section

variable {sdk : Sdk} {schema p : Schema} {record result : Record} {m : Mode} {v r : Value}

variable (sdk schema record) in
/-- The repair of the record looks at the value at the position, in the mode. -/
abbrev LooksAt (path : List ℕ) (m : Mode) (v : Value) : Prop :=
  Visits Value.shape (Mode.action sdk) (.item schema) (.dict record) path m v

theorem preValidate_isOk_iff :
    (∃ result, preValidateForStringType sdk schema record = .ok result) ↔
      ∀ path m v, LooksAt sdk schema record path m v → ∃ a, m.action sdk v = .ok a := by
  rw [← exists_rewrites_record_iff, exists_rewrites_iff]

/-- A value that the repair looks at is found at its position in the result, rewritten. -/
theorem subtree_of_looksAt {path : List ℕ} (hv : LooksAt sdk schema record path m v)
    (h : preValidateForStringType sdk schema record = .ok result) :
    ∃ r, Value.shape.subtree (.dict result) path = some r ∧
      Rewrites Value.shape (Mode.action sdk) m v r :=
  subtree_of_visits hv (rewrites_iff.2 h)

/-- Of a record with one field that is not descended into, the repair looks at the record and at the
field. -/
theorem looksAt_singleton {key : String} {path : List ℕ}
    (hstop : ∀ mode, (Mode.field (schema.property key)).action sdk v ≠ .ok (.descend mode))
    (h : LooksAt sdk schema [(key, v)] path m r) :
    (path = [] ∧ m = .item schema ∧ r = .dict [(key, v)]) ∨
      path = [0] ∧ m = .field (schema.property key) ∧ r = v := by
  cases h with
  | here _ _ => exact Or.inl ⟨rfl, rfl, rfl⟩
  | @child _ _ _ _ _ _ _ i _ hact hc hv =>
    obtain ⟨⟩ := hact
    cases i with
    | succ i => cases hc
    | zero =>
      obtain ⟨⟩ := hc
      cases hv with
      | here _ _ => exact Or.inr ⟨rfl, rfl, rfl⟩
      | child hact' _ _ => exact absurd hact' (hstop _)

/-! ## Nulls -/

/-- What a null becomes. -/
theorem rewrites_none_iff (h : Rewrites Value.shape (Mode.action sdk) m .none r) :
    r = .none ↔ (.string ∈ m.typeNames → .null ∈ m.typeNames) := by
  obtain ⟨a, ha⟩ := exists_act_of_rewrites h
  rcases m with (e | _ | p) | s
  · cases ha
  · exact iff_of_true ((rewrites_iff_of_keep rfl).1 h) fun hs => absurd hs List.not_mem_nil
  · rcases Schema.repair_none_eq_ok ha with ⟨rfl, htypes⟩ | ⟨⟨text, rfl⟩, hstring, hnull⟩
    · exact iff_of_true ((rewrites_iff_of_keep ha).1 h) htypes
    · rw [(rewrites_iff_of_replace ha).1 h]
      exact iff_of_false Value.noConfusion fun htypes => hnull (htypes hstring)
  · exact iff_of_true ((rewrites_iff_of_keep rfl).1 h) fun hs => absurd hs List.not_mem_nil

variable (sdk schema record) in
/-- Every null that the repair looks at is still null in the result. -/
def NullsStay (result : Record) : Prop :=
  ∀ path m, LooksAt sdk schema record path m .none →
    Value.shape.subtree (.dict result) path = some .none

/-- The nulls of a record stay exactly when every property of a null that lists strings lists null
too. -/
theorem nullsStay_iff (h : preValidateForStringType sdk schema record = .ok result) :
    NullsStay sdk schema record result ↔ ∀ path m, LooksAt sdk schema record path m .none →
      .string ∈ m.typeNames → .null ∈ m.typeNames := by
  refine forall_congr' fun path => forall_congr' fun m => forall_congr' fun hv => ?_
  obtain ⟨r, hr, hrewrites⟩ := subtree_of_looksAt hv h
  rw [hr, ← rewrites_none_iff hrewrites]
  exact Option.some_inj

/-- A null under a property that lists null stays. -/
theorem nullsStay_nullable :
    NullsStay .verbatim (.object [("a", .typed (.many [.string, .null]) none)]) [("a", .none)]
      [("a", .none)] := by
  refine (nullsStay_iff rfl).2 fun path m hv hstring => ?_
  rcases looksAt_singleton (fun mode h => by cases h) hv with ⟨-, -, he⟩ | ⟨-, rfl, -⟩
  · cases he
  · decide

/-- A null under a property of strings becomes the text of Python's `None`. -/
theorem not_nullsStay_string :
    preValidateForStringType .verbatim (.object [("a", .typed (.one .string) none)])
        [("a", .none)] = .ok [("a", .str "None")] ∧
      ¬ NullsStay .verbatim (.object [("a", .typed (.one .string) none)]) [("a", .none)]
        [("a", .str "None")] := by
  refine ⟨rfl, fun h => ?_⟩
  have hnull := h [0] _ (.child rfl rfl (.here _ _))
  cases hnull

/-! ## Schemas that the repair does not interpret -/

theorem exists_textOf (hdumps : sdk.DumpsJson) (hv : v.isJson = true) :
    ∃ text, sdk.textOf v = .ok text := by
  unfold Sdk.textOf
  split_ifs
  · exact hdumps v hv
  · exact ⟨_, rfl⟩

theorem exists_toText (h : ∃ text, sdk.textOf v = .ok text) : ∃ a, p.toText sdk v = .ok a := by
  obtain ⟨text, htext⟩ := h
  unfold Schema.toText
  split_ifs
  · exact ⟨_, by rw [htext]; rfl⟩
  · exact ⟨_, rfl⟩

theorem exists_objectSchema_iff {items : Items} :
    (∃ s, items.objectSchema = .ok s) ↔ items.isReadable = true := by
  cases items with
  | absent => exact iff_of_true ⟨_, rfl⟩ rfl
  | one s =>
    cases s with
    | bool b =>
      cases b with
      | false => exact iff_of_true ⟨_, rfl⟩ rfl
      | true => exact iff_of_false (fun ⟨_, h⟩ => by cases h) Bool.noConfusion
    | dict type format properties items anyOf oneOf =>
      cases type with
      | none => exact iff_of_true ⟨_, rfl⟩ rfl
      | some type => exact iff_of_true ⟨_, rfl⟩ rfl
  | many schemas =>
    cases schemas with
    | nil => exact iff_of_true ⟨_, rfl⟩ rfl
    | cons s schemas => exact iff_of_false (fun ⟨_, h⟩ => by cases h) Bool.noConfusion

/-- What is done with a value that can be written as text is known once its schema can be read. -/
theorem exists_action_iff (htext : ∃ text, sdk.textOf v = .ok text) :
    (∃ a, m.action sdk v = .ok a) ↔ m.isReadable v = true := by
  rcases m with (e | _ | p) | s
  · exact iff_of_false (fun ⟨_, h⟩ => by cases h) Bool.noConfusion
  · exact iff_of_true ⟨_, rfl⟩ rfl
  · rcases p with b | ⟨type, format, properties, items, anyOf, oneOf⟩
    · exact iff_of_false (fun ⟨_, h⟩ => by cases h) Bool.noConfusion
    · have htoText := exists_toText (p := .dict type format properties items anyOf oneOf) htext
      cases v with
      | none =>
        refine iff_of_true ?_ rfl
        simp only [Mode.action, Schema.repair]
        split_ifs
        · exact ⟨_, rfl⟩
        · exact htoText
      | dict fields =>
        refine iff_of_true ?_ rfl
        simp only [Mode.action, Schema.repair]
        split_ifs
        · exact ⟨_, rfl⟩
        · exact htoText
      | list xs =>
        simp only [Mode.action, Schema.repair, Mode.isReadable]
        split_ifs with harray
        · rw [decide_eq_false (not_not.2 harray), Bool.false_or, ← exists_objectSchema_iff]
          constructor
          · rintro ⟨a, ha⟩
            obtain ⟨s, hs, -⟩ := Dict.map_eq_ok_iff.1 ha
            exact ⟨s, hs⟩
          · rintro ⟨s, hs⟩
            exact ⟨_, by rw [hs]; rfl⟩
        · exact iff_of_true htoText (by rw [decide_eq_true harray]; rfl)
      | str text => exact iff_of_true ⟨_, rfl⟩ rfl
      | _ => exact iff_of_true htoText rfl
  · refine iff_of_true ?_ (by cases v <;> rfl)
    cases v <;> exact ⟨_, rfl⟩

theorem isJson_of_mem_children {key : String} {c : Value} (h : v.isJson = true)
    (hc : (key, c) ∈ Value.shape.children v) : c.isJson = true := by
  cases v with
  | list items =>
    obtain ⟨c', hc', he⟩ := List.mem_map.1 hc
    obtain ⟨-, rfl⟩ := Prod.mk.inj he
    exact itemsAreJson_iff.1 h c' hc'
  | dict fields => exact fieldsAreJson_iff.1 h (key, c) hc
  | _ => cases hc

/-- A JSON record is repaired exactly when the schemas of the values looked at can be read. -/
theorem preValidate_isOk_iff_readable (hdumps : sdk.DumpsJson)
    (hrecord : (Value.dict record).isJson = true) :
    (∃ result, preValidateForStringType sdk schema record = .ok result) ↔
      ∀ path m v, LooksAt sdk schema record path m v → m.isReadable v = true := by
  rw [preValidate_isOk_iff]
  refine forall_congr' fun path => forall_congr' fun m => forall_congr' fun v =>
    forall_congr' fun hv => exists_action_iff (exists_textOf hdumps ?_)
  refine forall_of_visits (P := fun _ v => v.isJson = true) ?_ hv hrecord
  exact fun _ _ _ _ _ _ hc h => isJson_of_mem_children h hc

theorem objectSchema_of_not_isInterpreted {items : Items} {s : Option Schema}
    (h : items.isInterpreted = false) (hs : items.objectSchema = .ok s) : s = none := by
  cases items with
  | absent => exact (Except.ok.inj hs).symm
  | one s' =>
    cases s' with
    | bool b =>
      cases b with
      | false => exact (Except.ok.inj hs).symm
      | true => cases hs
    | dict type format properties items anyOf oneOf =>
      cases type with
      | none => exact (Except.ok.inj hs).symm
      | some type => cases h
  | many schemas =>
    cases schemas with
    | nil => exact (Except.ok.inj hs).symm
    | cons s' schemas => cases hs

/-- A value whose schema is not interpreted is kept. -/
theorem action_of_not_isInterpreted {a : Action String Mode Value}
    (h : m.isInterpreted v = false) (ha : m.action sdk v = .ok a) : a = .keep := by
  rcases m with (e | _ | p) | s
  · cases ha
  · exact (Except.ok.inj ha).symm
  · rcases p with b | ⟨_ | type, format, properties, items, anyOf, oneOf⟩
    · cases ha
    · have hkeep : (Schema.dict none format properties items anyOf oneOf).repair sdk v =
          .ok .keep := by cases v <;> rfl
      exact Except.ok.inj (ha.symm.trans hkeep)
    · cases v with
      | list xs =>
        simp only [Mode.isInterpreted, Bool.or_eq_false_iff, decide_eq_false_iff_not, not_not] at h
        simp only [Mode.action, Schema.repair, if_pos h.1] at ha
        obtain ⟨s, hs, rfl⟩ := Dict.map_eq_ok_iff.1 ha
        rw [objectSchema_of_not_isInterpreted h.2 hs]
      | _ => cases h
  · cases v with
    | dict fields => cases h
    | _ => exact (Except.ok.inj ha).symm

variable (sdk schema record) in
/-- Every value that the repair looks at without interpreting its schema is in the result as it
was. -/
def LeavesUninterpreted (result : Record) : Prop :=
  ∀ path m v, LooksAt sdk schema record path m v → m.isInterpreted v = false →
    Value.shape.subtree (.dict result) path = some v

theorem leavesUninterpreted (h : preValidateForStringType sdk schema record = .ok result) :
    LeavesUninterpreted sdk schema record result := by
  intro path m v hv hm
  obtain ⟨r, hr, hrewrites⟩ := subtree_of_looksAt hv h
  obtain ⟨a, ha⟩ := exists_act_of_rewrites hrewrites
  obtain rfl := action_of_not_isInterpreted hm ha
  rw [hr, (rewrites_iff_of_keep ha).1 hrewrites]

/-- The repair of a JSON record returns, with the parts that it does not interpret untouched,
exactly when none of the schemas that it looks at is a boolean, and no array has `items` that are
`true` or a list of schemas. -/
theorem preValidate_returns_iff (hdumps : sdk.DumpsJson)
    (hrecord : (Value.dict record).isJson = true) :
    (∃ result, preValidateForStringType sdk schema record = .ok result ∧
        LeavesUninterpreted sdk schema record result) ↔
      ∀ path m v, LooksAt sdk schema record path m v → m.isReadable v = true := by
  rw [← preValidate_isOk_iff_readable hdumps hrecord]
  exact exists_congr fun result => and_iff_left_of_imp leavesUninterpreted

/-- A text under a property of strings is no obstacle. -/
theorem preValidate_returns_text :
    ∃ result, preValidateForStringType .verbatim (.object [("a", .typed (.one .string) none)])
        [("a", .str "x")] = .ok result ∧
      LeavesUninterpreted .verbatim (.object [("a", .typed (.one .string) none)])
        [("a", .str "x")] result := by
  refine (preValidate_returns_iff Sdk.verbatim_dumpsJson rfl).2 fun path m v hv => ?_
  rcases looksAt_singleton (fun mode h => by cases h) hv with ⟨-, rfl, rfl⟩ | ⟨-, rfl, rfl⟩
  · rfl
  · rfl

/-- The repair fails on an array whose items are `true`. -/
theorem not_preValidate_returns_items :
    let schema : Schema :=
      .object [("a", .dict (some (.one .array)) none none (.one (.bool true)) none none)]
    ¬ ∃ result, preValidateForStringType .verbatim schema [("a", .list [])] = .ok result ∧
      LeavesUninterpreted .verbatim schema [("a", .list [])] result := by
  rintro schema ⟨result, h, -⟩
  cases h

/-! ## Valid records -/

/-- A value that validates is of one of the types. -/
theorem Schema.exists_type_of_admits {type : TypeKeyword} {format : Option String}
    {properties : Option (List (String × Schema))} {items : Items}
    {anyOf oneOf : Option (List Schema)}
    (h : (dict (some type) format properties items anyOf oneOf).admits v = true) :
    ∃ n ∈ type.names, n.admits v = true :=
  (admits_dict_iff.1 h).1 type rfl

/-- A field of a valid dictionary validates against its property. -/
theorem Schema.admits_of_mem_fields {s : Schema} {fields : Record} {key : String} {c : Value}
    (h : s.admits (.dict fields) = true) (hc : (key, c) ∈ fields) :
    (Mode.field (s.property key)).admits c = true := by
  cases s with
  | bool b => rfl
  | dict type format properties items anyOf oneOf =>
    cases properties with
    | none => rfl
    | some ps =>
      show (Mode.field (.ok (ps.lookup key))).admits c = true
      cases hp : ps.lookup key with
      | none => rfl
      | some p =>
        show p.admits c = true
        rw [← Schema.admitsField_of_lookup hp]
        exact (admits_dict_iff.1 h).2.1 ps fields rfl rfl (key, c) hc

theorem Items.eq_one_of_objectSchema {items : Items} {s : Schema}
    (h : items.objectSchema = .ok (some s)) : items = .one s ∧ .object ∈ s.typeNames := by
  cases items with
  | absent => cases h
  | one s' =>
    cases s' with
    | bool b => cases b <;> cases h
    | dict type format properties items anyOf oneOf =>
      cases type with
      | none => cases h
      | some type =>
        have hsome := Except.ok.inj h
        split_ifs at hsome with hobject
        obtain rfl := Option.some.inj hsome
        exact ⟨rfl, hobject⟩
  | many schemas => cases schemas <;> cases h

/-- An item of a valid list validates against the schema of the items. -/
theorem Schema.admits_of_mem_items {s itemsSchema : Schema} {xs : List Value} {c : Value}
    (h : s.admits (.list xs) = true) (hitems : s.items = .one itemsSchema) (hc : c ∈ xs) :
    itemsSchema.admits c = true := by
  cases s with
  | bool b => cases hitems
  | dict type format properties items anyOf oneOf =>
    obtain rfl : items = .one itemsSchema := hitems
    have hall := (admits_dict_iff.1 h).2.2.1 xs rfl
    exact List.all_eq_true.1 hall c hc

/-- Validity is handed down. -/
theorem admits_of_descend {mode : String → Mode} {key : String} {c : Value}
    (ha : m.action sdk v = .ok (.descend mode)) (hc : (key, c) ∈ Value.shape.children v)
    (h : m.admits v = true) : (mode key).admits c = true := by
  rcases m with (e | _ | p) | s
  · cases ha
  · cases ha
  · rcases Schema.repair_eq_descend ha with
      ⟨fields, rfl, -, rfl⟩ | ⟨xs, itemsSchema, rfl, -, hitems, rfl⟩
    · exact Schema.admits_of_mem_fields h hc
    · obtain ⟨c', hc', he⟩ := List.mem_map.1 hc
      obtain ⟨-, rfl⟩ := Prod.mk.inj he
      exact Schema.admits_of_mem_items h (Items.eq_one_of_objectSchema hitems).1 hc'
  · cases v with
    | dict fields =>
      obtain ⟨⟩ := ha
      exact Schema.admits_of_mem_fields h hc
    | _ => cases ha

theorem admits_of_looksAt {path : List ℕ} (h : schema.admits (.dict record) = true)
    (hv : LooksAt sdk schema record path m v) : m.admits v = true :=
  forall_of_visits (P := fun m v => m.admits v = true)
    (fun _ _ _ _ _ ha hc h => admits_of_descend ha hc h) hv h

variable (sdk) in
/-- The value is not replaced by another one, and nothing fails at it. -/
def Mode.LeavesAlone (m : Mode) (v : Value) : Prop :=
  (∃ a, m.action sdk v = .ok a) ∧ ∀ r, m.action sdk v = .ok (.replace r) → r = v

theorem leavesAlone_of_keep (h : m.action sdk v = .ok .keep) : m.LeavesAlone sdk v :=
  ⟨⟨_, h⟩, fun _ hr => by cases h.symm.trans hr⟩

theorem leavesAlone_of_descend {mode : String → Mode} (h : m.action sdk v = .ok (.descend mode)) :
    m.LeavesAlone sdk v :=
  ⟨⟨_, h⟩, fun _ hr => by cases h.symm.trans hr⟩

theorem not_leavesAlone_of_error {e : Exn} (h : m.action sdk v = .error e) :
    ¬ m.LeavesAlone sdk v := fun ⟨⟨_, ha⟩, _⟩ => by cases h.symm.trans ha

/-- A scalar is turned into a text exactly when the property lists strings. -/
theorem leavesAlone_scalar_iff (hv : v.isScalar = true) (hm : m.action sdk v = p.toText sdk v)
    (htypes : m.typeNames = p.typeNames) (hreadable : m.isReadable v = true) :
    m.LeavesAlone sdk v ↔
      m.isReadable v = true ∧ ¬ (.string ∈ m.typeNames ∧ v.isScalar = true) := by
  have htext : sdk.textOf v = .ok (sdk.str v) := by cases v <;> first | rfl | cases hv
  rw [htypes]
  by_cases hstring : .string ∈ p.typeNames
  · refine iff_of_false (fun h => ?_) fun h => h.2 ⟨hstring, hv⟩
    have hreplace : m.action sdk v = .ok (.replace (.str (sdk.str v))) := by
      rw [hm, Schema.toText, if_pos hstring, htext]
      rfl
    rw [← h.2 _ hreplace] at hv
    cases hv
  · refine iff_of_true (leavesAlone_of_keep ?_) ⟨hreadable, fun h => hstring h.1⟩
    rw [hm, Schema.toText, if_neg hstring]

/-- A list of a property of arrays is left alone exactly when its `items` can be read. -/
theorem leavesAlone_list_iff (items : Items) {xs : List Value}
    (hm : m.action sdk (.list xs) = items.objectSchema.map fun
      | some itemsSchema => .descend fun _ => .item itemsSchema
      | none => .keep) :
    m.LeavesAlone sdk (.list xs) ↔ items.isReadable = true := by
  rw [← exists_objectSchema_iff]
  rcases hs : items.objectSchema with e | _ | s
  · rw [hs] at hm
    exact iff_of_false (not_leavesAlone_of_error hm) fun ⟨_, h⟩ => by cases h
  · rw [hs] at hm
    exact iff_of_true (leavesAlone_of_keep hm) ⟨_, rfl⟩
  · rw [hs] at hm
    exact iff_of_true (leavesAlone_of_descend hm) ⟨_, rfl⟩

/-- A value of one of the types that its property declares. -/
theorem leavesAlone_typed_iff {type : TypeKeyword} {format : Option String}
    {properties : Option (List (String × Schema))} {items : Items}
    {anyOf oneOf : Option (List Schema)} (hm : m = .field (.ok (some
      (.dict (some type) format properties items anyOf oneOf)))) (h : m.admits v = true) :
    m.LeavesAlone sdk v ↔
      m.isReadable v = true ∧ ¬ (.string ∈ m.typeNames ∧ v.isScalar = true) := by
  subst hm
  have htype : (Schema.dict (some type) format properties items anyOf oneOf).admits v = true := h
  obtain ⟨n, hn, hadmits⟩ := Schema.exists_type_of_admits htype
  cases v with
  | none =>
    obtain rfl : n = .null := by cases n <;> first | rfl | cases hadmits
    exact iff_of_true (leavesAlone_of_keep (if_pos hn)) ⟨rfl, fun hs => by cases hs.2⟩
  | dict fields =>
    obtain rfl : n = .object := by cases n <;> first | rfl | cases hadmits
    exact iff_of_true (leavesAlone_of_descend (if_pos hn)) ⟨rfl, fun hs => by cases hs.2⟩
  | list xs =>
    obtain rfl : n = .array := by cases n <;> first | rfl | cases hadmits
    refine Iff.trans (leavesAlone_list_iff items (if_pos hn)) ?_
    rw [and_iff_left fun hs => by cases hs.2]
    show _ ↔ (decide (.array ∉ type.names) || items.isReadable) = true
    rw [decide_eq_false (not_not.2 hn), Bool.false_or]
  | str text => exact iff_of_true (leavesAlone_of_keep rfl) ⟨rfl, fun hs => by cases hs.2⟩
  | bool b => exact leavesAlone_scalar_iff rfl rfl rfl rfl
  | int k => exact leavesAlone_scalar_iff rfl rfl rfl rfl
  | num text => exact leavesAlone_scalar_iff rfl rfl rfl rfl
  | _ => cases n <;> cases hadmits

/-- A valid value is left alone exactly when its schema can be read and it is no scalar under a
property that lists strings. -/
theorem leavesAlone_iff (h : m.admits v = true) : m.LeavesAlone sdk v ↔
    m.isReadable v = true ∧ ¬ (.string ∈ m.typeNames ∧ v.isScalar = true) := by
  have hnil : ¬ (TypeName.string ∈ ([] : List TypeName) ∧ v.isScalar = true) :=
    fun hs => absurd hs.1 List.not_mem_nil
  rcases m with (e | _ | p) | s
  · exact iff_of_false (not_leavesAlone_of_error rfl) fun hr => by cases hr.1
  · exact iff_of_true (leavesAlone_of_keep rfl) ⟨rfl, hnil⟩
  · rcases p with b | ⟨_ | type, format, properties, items, anyOf, oneOf⟩
    · exact iff_of_false (not_leavesAlone_of_error rfl) fun hr => by cases hr.1
    · refine iff_of_true (leavesAlone_of_keep ?_) ⟨?_, hnil⟩ <;> cases v <;> rfl
    · exact leavesAlone_typed_iff rfl h
  · refine iff_of_true ?_ ⟨by cases v <;> rfl, hnil⟩
    cases v with
    | dict fields => exact leavesAlone_of_descend rfl
    | _ => exact leavesAlone_of_keep rfl

/-- A valid record is returned as it is exactly when the schemas of the values looked at can be
read, and none of them is a truth value or a number under a property that lists strings. -/
theorem preValidate_eq_self_iff (h : schema.admits (.dict record) = true) :
    preValidateForStringType sdk schema record = .ok record ↔
      ∀ path m v, LooksAt sdk schema record path m v →
        m.isReadable v = true ∧ ¬ (.string ∈ m.typeNames ∧ v.isScalar = true) := by
  rw [← rewrites_iff, rewrites_self_iff]
  exact forall_congr' fun path => forall_congr' fun m => forall_congr' fun v =>
    forall_congr' fun hv => leavesAlone_iff (admits_of_looksAt h hv)

/-- A record with a number under a property of numbers is left as it is. -/
theorem preValidate_eq_self_number :
    preValidateForStringType .verbatim (.object [("a", .typed (.one .number) none)])
        [("a", .int 1)] = .ok [("a", .int 1)] := by
  refine (preValidate_eq_self_iff rfl).2 fun path m v hv => ?_
  rcases looksAt_singleton (fun mode h => by cases h) hv with ⟨-, rfl, rfl⟩ | ⟨-, rfl, rfl⟩
  · exact ⟨rfl, by decide⟩
  · exact ⟨rfl, by decide⟩

/-- An integer under a property of integers and strings, which is valid, becomes a text. -/
theorem not_preValidate_eq_self_union :
    (Schema.object [("a", .typed (.many [.integer, .string]) none)]).admits
        (.dict [("a", .int 1)]) = true ∧
      preValidateForStringType .verbatim (.object [("a", .typed (.many [.integer, .string]) none)])
        [("a", .int 1)] ≠ .ok [("a", .int 1)] := by
  refine ⟨rfl, fun h => ?_⟩
  cases h

end

end TargetClickhouse
