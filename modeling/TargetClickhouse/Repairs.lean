import TargetClickhouse.PreValidation
import TargetClickhouse.Lib.Dict
import TargetClickhouse.Lib.TopDown

/-!
# What the repair of string values does to a record

`pre_validate_for_string_type` rewrites a record from the top: at every value that it looks at, the
property of the value decides whether the value is left as it is, is turned into a text, or is
descended into (`rewrites_iff`).
-/

namespace TargetClickhouse

open Dict TopDown

/-! ## Values as trees -/

namespace Value

/-- The fields of a dictionary under their names, and the items of a list. -/
def children : Value → List (String × Value)
  | .dict fields => fields
  | .list items => items.map fun v => ("", v)
  | _ => []

def rebuild : Value → List Value → Value
  | .dict fields, values => .dict ((keys fields).zip values)
  | .list _, values => .list values
  | v, _ => v

theorem map_snd_unlabelled (values : List Value) :
    (values.map fun v => ("", v)).map Prod.snd = values := by
  rw [List.map_map]
  exact List.map_id _

theorem sizeOf_lt_of_mem_children {v c : Value} {key : String} (h : (key, c) ∈ v.children) :
    sizeOf c < sizeOf v := by
  cases v with
  | dict fields =>
    have hlt := List.sizeOf_lt_of_mem (show (key, c) ∈ fields from h)
    simp only [Prod.mk.sizeOf_spec, dict.sizeOf_spec] at hlt ⊢
    omega
  | list items =>
    obtain ⟨c', hc, he⟩ := List.mem_map.1 h
    obtain rfl : c' = c := (Prod.mk.inj he).2
    have hlt := List.sizeOf_lt_of_mem hc
    simp only [list.sizeOf_spec]
    omega
  | _ => cases h

/-- Values as trees. -/
def shape : Shape String Value where
  children := children
  rebuild := rebuild
  rebuild_children v := by
    cases v with
    | dict fields =>
      show Value.dict ((keys fields).zip (fields.map Prod.snd)) = _
      rw [keys, List.zip_map', List.map_id'' (fun _ => rfl)]
    | list items =>
      exact congrArg Value.list (map_snd_unlabelled items)
    | _ => rfl
  children_rebuild v cs h := by
    cases v with
    | dict fields =>
      refine List.map_snd_zip ?_
      rw [h, keys, List.length_map]
      exact le_rfl
    | list items => exact map_snd_unlabelled cs
    | _ =>
      obtain rfl := List.length_eq_zero_iff.1 h
      rfl
  wellFounded := Subrelation.wf (fun ⟨_, h⟩ => sizeOf_lt_of_mem_children h) (measure sizeOf).wf

end Value

/-! ## What is done with a value -/

namespace Schema

/-- The types that the schema declares. -/
def typeNames : Schema → List TypeName
  | .dict (some type) _ _ _ _ _ => type.names
  | _ => []

end Schema

/-- How a value is looked at: as a field with the property that was looked up for it, or as an item
of an array with the schema of its items. -/
inductive Mode where
  | field (property : Except Exn (Option Schema))
  | item (schema : Schema)

section

variable (sdk : Sdk)

/-- The text of a value: `json.dumps` of dictionaries and lists, `str` of other values. -/
def Sdk.textOf (value : Value) : Except Exn String :=
  if value.isContainer then sdk.dumps value else .ok (sdk.str value)

/-- The value becomes a text, if the property expects a string. -/
def Schema.toText (p : Schema) (value : Value) : Except Exn (Action String Mode Value) :=
  if .string ∈ p.typeNames then (sdk.textOf value).map fun text => .replace (.str text)
  else .ok .keep

/-- What the property asks for. -/
def Schema.repair (p : Schema) (value : Value) : Except Exn (Action String Mode Value) :=
  match p, value with
  | .bool _, _ => .error .attributeError
  | .dict .., .none => if .null ∈ p.typeNames then .ok .keep else p.toText sdk value
  | .dict .., .dict _ =>
      if .object ∈ p.typeNames then .ok (.descend fun key => .field (p.property key))
      else p.toText sdk value
  | .dict .., .list _ =>
      if .array ∈ p.typeNames then
        p.items.objectSchema.map fun
          | some itemsSchema => .descend fun _ => .item itemsSchema
          | none => .keep
      else p.toText sdk value
  | .dict .., .str _ => .ok .keep
  | .dict .., _ => p.toText sdk value

/-- What is done with a value in a mode. -/
def Mode.action : Mode → Value → Except Exn (Action String Mode Value)
  | .field (.error e), _ => .error e
  | .field (.ok none), _ => .ok .keep
  | .field (.ok (some p)), value => p.repair sdk value
  | .item s, .dict _ => .ok (.descend fun key => .field (s.property key))
  | .item _, _ => .ok .keep

variable {sdk}

/-! ## The repair of one value -/

section

attribute [local simp] preValidateField Schema.expectedType Schema.typeNames Schema.repair
  Schema.toText Sdk.textOf Value.isContainer bind Except.bind pure Except.pure Except.map

variable (sdk) in
/-- The repair of a value that is descended into with its property. -/
def descendInto (p : Schema) : Value → Except Exn Value
  | .dict fields => (preValidateForStringType sdk p fields).map .dict
  | .list items =>
      match p.items.objectSchema with
      | .ok (some itemsSchema) => (preValidateItems sdk itemsSchema items).map .list
      | _ => .ok (.list items)
  | value => .ok value

/-- The repair of a value, as its property asks for it. -/
theorem preValidateField_eq (p : Schema) (v : Value) :
    preValidateField sdk p v = match p.repair sdk v with
      | .error e => .error e
      | .ok .keep => .ok v
      | .ok (.replace text) => .ok text
      | .ok (.descend _) => descendInto sdk p v := by
  rcases p with b | ⟨_ | type, format, properties, itemsKeyword, anyOf, oneOf⟩
  · cases v <;> simp
  · cases v <;> simp
  · by_cases hstring : .string ∈ type.names
    · cases v with
      | none => by_cases hnull : .null ∈ type.names <;> simp [hstring, hnull]
      | dict fields =>
        by_cases hobject : .object ∈ type.names
        · simp [hobject, descendInto]
        · simp [hobject, hstring]
          cases sdk.dumps (.dict fields) <;> rfl
      | list items =>
        by_cases harray : .array ∈ type.names
        · rcases hitems : (Schema.dict (some type) format properties itemsKeyword anyOf
            oneOf).items.objectSchema with e | _ | itemsSchema <;>
            simp [harray, hitems, descendInto]
        · simp [harray, hstring]
          cases sdk.dumps (.list items) <;> rfl
      | _ => simp [hstring]
    · cases v with
      | none => simp [hstring]
      | dict fields =>
        by_cases hobject : .object ∈ type.names <;> simp [hstring, hobject, descendInto]
      | list items =>
        by_cases harray : .array ∈ type.names
        · rcases hitems : (Schema.dict (some type) format properties itemsKeyword anyOf
            oneOf).items.objectSchema with e | _ | itemsSchema <;>
            simp [harray, hitems, descendInto]
        · simp [harray, hstring]
      | _ => simp [hstring]

end

/-- A value becomes a text where strings are listed, and is kept elsewhere. -/
theorem Schema.toText_eq_ok {p : Schema} {v : Value} {a : Action String Mode Value}
    (h : p.toText sdk v = .ok a) :
    (.string ∈ p.typeNames ∧ ∃ text, a = .replace (.str text)) ∨
      .string ∉ p.typeNames ∧ a = .keep := by
  unfold toText at h
  split_ifs at h with hs
  · obtain ⟨text, -, he⟩ := map_eq_ok_iff.1 h
    exact Or.inl ⟨hs, text, he.symm⟩
  · exact Or.inr ⟨hs, (Except.ok.inj h).symm⟩

/-- What is done with a null. -/
theorem Schema.repair_none_eq_ok {p : Schema} {a : Action String Mode Value}
    (h : p.repair sdk .none = .ok a) :
    (a = .keep ∧ (.string ∈ p.typeNames → .null ∈ p.typeNames)) ∨
      (∃ text, a = .replace (.str text)) ∧ .string ∈ p.typeNames ∧ .null ∉ p.typeNames := by
  rcases p with b | ⟨type, format, properties, items, anyOf, oneOf⟩
  · cases h
  · rw [repair] at h
    split_ifs at h with hnull
    · exact Or.inl ⟨(Except.ok.inj h).symm, fun _ => hnull⟩
    · rcases toText_eq_ok h with ⟨hs, htext⟩ | ⟨hs, rfl⟩
      · exact Or.inr ⟨htext, hs, hnull⟩
      · exact Or.inl ⟨rfl, fun hs' => absurd hs' hs⟩

/-- Only dictionaries and lists are descended into. -/
theorem Schema.repair_eq_descend {p : Schema} {v : Value} {mode : String → Mode}
    (h : p.repair sdk v = .ok (.descend mode)) :
    (∃ fields, v = .dict fields ∧ .object ∈ p.typeNames ∧
        mode = fun key => .field (p.property key)) ∨
      ∃ items itemsSchema, v = .list items ∧ .array ∈ p.typeNames ∧
        p.items.objectSchema = .ok (some itemsSchema) ∧ mode = fun _ => .item itemsSchema := by
  have htext : ∀ v', p.toText sdk v' ≠ .ok (.descend mode) := by
    intro v' h
    rcases toText_eq_ok h with ⟨-, text, he⟩ | ⟨-, he⟩ <;> cases he
  rcases p with b | ⟨type, format, properties, items, anyOf, oneOf⟩
  · cases h
  · cases v with
    | none =>
      rw [repair] at h
      split_ifs at h
      · cases h
      · exact absurd h (htext _)
    | dict fields =>
      rw [repair] at h
      split_ifs at h with hobject
      · obtain ⟨⟩ := h
        exact Or.inl ⟨fields, rfl, hobject, rfl⟩
      · exact absurd h (htext _)
    | list xs =>
      rw [repair] at h
      split_ifs at h with harray
      · obtain ⟨found, hfound, he⟩ := map_eq_ok_iff.1 h
        cases found with
        | none => cases he
        | some itemsSchema =>
          obtain ⟨⟩ := he
          exact Or.inr ⟨xs, itemsSchema, rfl, harray, hfound, rfl⟩
      · exact absurd h (htext _)
    | str s => cases h
    | _ => exact absurd h (htext _)

/-! ## The repair of records and arrays -/

variable (sdk) in
/-- The repair of a field with the property that was looked up for it. -/
def preValidateProperty (property : Except Exn (Option Schema)) (value : Value) :
    Except Exn Value :=
  match property with
  | .error e => .error e
  | .ok none => .ok value
  | .ok (some p) => preValidateField sdk p value

variable (sdk) in
/-- The repair of an item with the schema of the items. -/
def preValidateItem (itemsSchema : Schema) : Value → Except Exn Value
  | .dict fields => (preValidateForStringType sdk itemsSchema fields).map .dict
  | item => .ok item

theorem preValidateForStringType_eq_mapM (schema : Schema) (record : Record) :
    preValidateForStringType sdk schema record = record.mapM fun kv =>
      (preValidateProperty sdk (schema.property kv.1) kv.2).map fun value => (kv.1, value) := by
  induction record with
  | nil => simp [preValidateForStringType, pure, Except.pure]
  | cons kv record ih =>
    obtain ⟨key, value⟩ := kv
    rw [preValidateForStringType, List.mapM_cons, ih]
    rcases hp : schema.property key with e | _ | p
    · rfl
    · rfl
    · show (preValidateField sdk p value >>= _) = ((preValidateField sdk p value).map _ >>= _)
      cases preValidateField sdk p value <;> rfl

theorem preValidateItems_eq_mapM (itemsSchema : Schema) (items : List Value) :
    preValidateItems sdk itemsSchema items = items.mapM (preValidateItem sdk itemsSchema) := by
  induction items with
  | nil => simp [preValidateItems, pure, Except.pure]
  | cons item items ih =>
    rw [List.mapM_cons, ← ih]
    cases item with
    | dict fields =>
      rw [preValidateItems]
      show _ = ((preValidateForStringType sdk itemsSchema fields).map _ >>= _)
      cases preValidateForStringType sdk itemsSchema fields <;> rfl
    | _ => simp [preValidateItems, preValidateItem, bind, Except.bind]

/-- The fields are repaired one by one, under their names. -/
theorem preValidateForStringType_eq_ok_iff {schema : Schema} {record result : Record} :
    preValidateForStringType sdk schema record = .ok result ↔
      List.Forall₂ (fun kv kv' => kv'.1 = kv.1 ∧
        preValidateProperty sdk (schema.property kv.1) kv.2 = .ok kv'.2) record result := by
  rw [preValidateForStringType_eq_mapM, mapM_eq_ok_iff]
  refine iff_of_eq (congrArg (fun R => List.Forall₂ R record result) ?_)
  funext kv kv'
  obtain ⟨k', v'⟩ := kv'
  rcases hv : preValidateProperty sdk (schema.property kv.1) kv.2 with e | w
  · simp [Except.map]
  · simp [Except.map, eq_comm]

/-! ## The repair as rewriting -/

theorem forall₂_zip_keys {R : String × Value → Value → Prop} {fields : Record}
    {values : List Value} (h : List.Forall₂ R fields values) :
    List.Forall₂ (fun kv kv' => kv'.1 = kv.1 ∧ R kv kv'.2) fields ((keys fields).zip values) := by
  induction h with
  | nil => exact .nil
  | cons hkv _ ih => exact .cons ⟨rfl, hkv⟩ ih

theorem zip_keys_of_forall₂ {R : String × Value → Value → Prop} {fields fields' : Record}
    (h : List.Forall₂ (fun kv kv' => kv'.1 = kv.1 ∧ R kv kv'.2) fields fields') :
    (keys fields).zip (fields'.map Prod.snd) = fields' := by
  induction h with
  | nil => rfl
  | cons hkv _ ih => exact congrArg₂ List.cons (Prod.ext hkv.1.symm rfl) ih

/-- Rewriting a dictionary rewrites its fields, under their names. -/
theorem rewrites_dict_iff {m : Mode} {fields : Record} {mode : String → Mode} {v : Value}
    (h : m.action sdk (.dict fields) = .ok (.descend mode)) :
    Rewrites Value.shape (Mode.action sdk) m (.dict fields) v ↔
      ∃ fields', v = .dict fields' ∧ List.Forall₂ (fun kv kv' => kv'.1 = kv.1 ∧
        Rewrites Value.shape (Mode.action sdk) (mode kv.1) kv.2 kv'.2) fields fields' := by
  rw [rewrites_iff_forall₂ h]
  constructor
  · rintro ⟨values, rfl, hvalues⟩
    exact ⟨_, rfl, forall₂_zip_keys hvalues⟩
  · rintro ⟨fields', rfl, hfields⟩
    refine ⟨fields'.map Prod.snd, congrArg Value.dict (zip_keys_of_forall₂ hfields).symm, ?_⟩
    exact List.forall₂_map_right_iff.2 (hfields.imp fun _ _ hkv => hkv.2)

/-- Rewriting a list rewrites its items. -/
theorem rewrites_list_iff {m : Mode} {items : List Value} {mode : String → Mode} {v : Value}
    (h : m.action sdk (.list items) = .ok (.descend mode)) :
    Rewrites Value.shape (Mode.action sdk) m (.list items) v ↔
      ∃ items', v = .list items' ∧ List.Forall₂
        (Rewrites Value.shape (Mode.action sdk) (mode "")) items items' := by
  rw [rewrites_iff_forall₂ h]
  refine exists_congr fun items' => and_congr_right fun _ => ?_
  exact List.forall₂_map_left_iff

theorem not_rewrites_of_error {m : Mode} {v v' : Value} {e : Exn}
    (h : m.action sdk v = .error e) : ¬ Rewrites Value.shape (Mode.action sdk) m v v' := by
  intro hr
  obtain ⟨a, ha⟩ := exists_act_of_rewrites hr
  cases h.symm.trans ha

variable (sdk) in
/-- The repair of the value is its rewriting, as a field and as an item. -/
structure RepairRewrites (v : Value) : Prop where
  field (p : Schema) (v' : Value) : preValidateField sdk p v = .ok v' ↔
    Rewrites Value.shape (Mode.action sdk) (.field (.ok (some p))) v v'
  item (s : Schema) (v' : Value) : preValidateItem sdk s v = .ok v' ↔
    Rewrites Value.shape (Mode.action sdk) (.item s) v v'

theorem ok_eq_ok_comm {a b : Value} : (Except.ok a : Except Exn Value) = .ok b ↔ b = a :=
  ⟨fun h => (Except.ok.inj h).symm, fun h => congrArg Except.ok h.symm⟩

/-- A dictionary is repaired with a schema exactly when its fields are rewritten. -/
theorem preValidate_iff_of_fields {schema : Schema} {fields fields' : Record}
    (ih : ∀ kv ∈ fields, RepairRewrites sdk kv.2) :
    preValidateForStringType sdk schema fields = .ok fields' ↔
      List.Forall₂ (fun kv kv' => kv'.1 = kv.1 ∧
        Rewrites Value.shape (Mode.action sdk) (.field (schema.property kv.1)) kv.2 kv'.2)
        fields fields' := by
  rw [preValidateForStringType_eq_ok_iff]
  refine forall₂_congr_left fun kv hkv kv' => and_congr_right fun _ => ?_
  rcases hp : schema.property kv.1 with e | _ | p
  · have herror : (Mode.field (.error e)).action sdk kv.2 = .error e := rfl
    exact iff_of_false (fun h => by cases h) (not_rewrites_of_error herror)
  · have hkeep : (Mode.field (.ok none)).action sdk kv.2 = .ok .keep := rfl
    rw [rewrites_iff_of_keep hkeep]
    exact ok_eq_ok_comm
  · exact (ih kv hkv).field p kv'.2

/-- A mode in which a dictionary is descended into with a schema. -/
theorem preValidate_dict_iff {m : Mode} {schema : Schema} {fields : Record} {v' : Value}
    (h : m.action sdk (.dict fields) = .ok (.descend fun key => .field (schema.property key)))
    (ih : ∀ kv ∈ fields, RepairRewrites sdk kv.2) :
    (preValidateForStringType sdk schema fields).map .dict = .ok v' ↔
      Rewrites Value.shape (Mode.action sdk) m (.dict fields) v' := by
  rw [map_eq_ok_iff, rewrites_dict_iff h]
  refine exists_congr fun fields' => ?_
  rw [preValidate_iff_of_fields ih, and_comm]
  exact and_congr_left fun _ => eq_comm

/-- One value, once its children are settled. -/
theorem repairRewrites_of_children {v : Value}
    (ih : ∀ key c, (key, c) ∈ v.children → RepairRewrites sdk c) : RepairRewrites sdk v where
  field p v' := by
    have haction : (Mode.field (.ok (some p))).action sdk v = p.repair sdk v := rfl
    rw [preValidateField_eq]
    rcases hrepair : p.repair sdk v with e | _ | text | mode
    · exact iff_of_false (fun h => by cases h) (not_rewrites_of_error (haction.trans hrepair))
    · rw [rewrites_iff_of_keep (haction.trans hrepair)]
      exact ok_eq_ok_comm
    · rw [rewrites_iff_of_replace (haction.trans hrepair)]
      exact ok_eq_ok_comm
    · have hdescend := haction.trans hrepair
      rcases Schema.repair_eq_descend hrepair with
        ⟨fields, rfl, -, rfl⟩ | ⟨items, itemsSchema, rfl, -, hitems, rfl⟩
      · exact preValidate_dict_iff hdescend fun kv hkv => ih kv.1 kv.2 hkv
      · show descendInto sdk p (.list items) = .ok v' ↔ _
        have hitem : ∀ c ∈ items, RepairRewrites sdk c := fun c hc =>
          ih "" c (List.mem_map.2 ⟨c, hc, rfl⟩)
        rw [descendInto, hitems]
        show (preValidateItems sdk itemsSchema items).map .list = .ok v' ↔ _
        rw [map_eq_ok_iff, rewrites_list_iff hdescend]
        refine exists_congr fun items' => ?_
        rw [preValidateItems_eq_mapM, mapM_eq_ok_iff, and_comm,
          forall₂_congr_left fun c hc => (hitem c hc).item itemsSchema]
        exact and_congr_left fun _ => eq_comm
  item s v' := by
    cases v with
    | dict fields => exact preValidate_dict_iff rfl fun kv hkv => ih kv.1 kv.2 hkv
    | _ =>
      rw [rewrites_iff_of_keep rfl]
      exact ok_eq_ok_comm

theorem repairRewrites (v : Value) : RepairRewrites sdk v := by
  induction v using Value.shape.induction with
  | h v ih => exact repairRewrites_of_children ih

/-- The repair of a record is the rewriting of the record. -/
theorem rewrites_iff {schema : Schema} {record result : Record} :
    Rewrites Value.shape (Mode.action sdk) (.item schema) (.dict record) (.dict result) ↔
      preValidateForStringType sdk schema record = .ok result := by
  rw [← (repairRewrites (.dict record)).item]
  show (preValidateForStringType sdk schema record).map Value.dict = .ok (.dict result) ↔ _
  rw [map_eq_ok_iff]
  constructor
  · rintro ⟨result', h, he⟩
    rw [h, Value.dict.inj he]
  · exact fun h => ⟨result, h, rfl⟩

/-- A record is rewritten to a record. -/
theorem exists_rewrites_record_iff {schema : Schema} {record : Record} :
    (∃ v, Rewrites Value.shape (Mode.action sdk) (.item schema) (.dict record) v) ↔
      ∃ result, preValidateForStringType sdk schema record = .ok result := by
  constructor
  · rintro ⟨v, h⟩
    obtain ⟨result, rfl, -⟩ := (rewrites_dict_iff rfl).1 h
    exact ⟨result, rewrites_iff.1 h⟩
  · rintro ⟨result, h⟩
    exact ⟨.dict result, rewrites_iff.2 h⟩

end

end TargetClickhouse
