import TargetClickhouse.RepairEffects
import TargetClickhouse.Violations

/-!
# The footprint of the repair of string values

A repaired record is repaired to itself.  Of the record that was given, the repair changes only the
values at which a string is declared: objects keep their keys, arrays keep their items in their
places, and every other value is in the result as it was.
-/

namespace TargetClickhouse

open Dict TopDown

section

variable {sdk : Sdk} {schema : Schema} {record result : Record} {m : Mode} {v r : Value}
  {mode : String → Mode} {path : List ℕ}

variable (sdk) in
/-- The value is descended into. -/
def Mode.Descends (m : Mode) (v : Value) : Prop := ∃ mode, m.action sdk v = .ok (.descend mode)

/-! ## One value -/

/-- A value becomes a text only where strings are declared, and the text is kept. -/
theorem Mode.action_eq_replace (h : m.action sdk v = .ok (.replace r)) :
    .string ∈ m.typeNames ∧ m.action sdk r = .ok .keep := by
  rcases m with (e | _ | p) | s
  · cases h
  · cases h
  · have hrepair : p.repair sdk v = .ok (.replace r) := h
    obtain ⟨hstring, ⟨text, rfl⟩, -⟩ := repair_eq_replace hrepair
    cases p with
    | bool b => cases hrepair
    | dict type format properties items anyOf oneOf => exact ⟨hstring, rfl⟩
  · cases v <;> cases h

/-- What is done with a dictionary does not depend on its values. -/
theorem Mode.action_dict (m : Mode) {fields fields' : Record}
    (h : m.action sdk (.dict fields) = .ok (.descend mode)) :
    m.action sdk (.dict fields') = .ok (.descend mode) := by
  rcases m with (e | _ | p) | s
  · cases h
  · cases h
  · rcases Schema.repair_eq_descend h with ⟨_, -, hobject, rfl⟩ | ⟨_, _, he, -⟩
    · cases p with
      | bool b => cases h
      | dict type format properties items anyOf oneOf => exact if_pos hobject
    · cases he
  · exact h

/-- What is done with a list does not depend on its items. -/
theorem Mode.action_list (m : Mode) {xs ys : List Value}
    (h : m.action sdk (.list xs) = .ok (.descend mode)) :
    m.action sdk (.list ys) = .ok (.descend mode) := by
  rcases m with (e | _ | p) | s
  · cases h
  · cases h
  · rcases Schema.repair_eq_descend h with ⟨_, he, -⟩ | ⟨_, itemsSchema, -, harray, hitems, rfl⟩
    · cases he
    · cases p with
      | bool b => cases h
      | dict type format properties items anyOf oneOf =>
        show (if TypeName.array ∈ _ then _ else _) = _
        rw [if_pos harray, hitems]
        rfl
  · cases h

theorem Mode.eq_dict_or_list_of_descends (h : m.Descends sdk v) :
    (∃ fields, v = .dict fields) ∨ ∃ xs, v = .list xs := by
  obtain ⟨mode, h⟩ := h
  rcases m with (e | _ | p) | s
  · cases h
  · cases h
  · rcases Schema.repair_eq_descend h with ⟨fields, rfl, -⟩ | ⟨xs, _, rfl, -⟩
    · exact Or.inl ⟨fields, rfl⟩
    · exact Or.inr ⟨xs, rfl⟩
  · cases v with
    | dict fields => exact Or.inl ⟨fields, rfl⟩
    | _ => cases h

/-- A container with other children is descended into as before, under the same names. -/
theorem Mode.action_rebuild (h : m.action sdk v = .ok (.descend mode)) {cs : List Value}
    (hlength : cs.length = (Value.shape.children v).length) :
    m.action sdk (Value.shape.rebuild v cs) = .ok (.descend mode) ∧
      (Value.shape.children (Value.shape.rebuild v cs)).map Prod.fst =
        (Value.shape.children v).map Prod.fst := by
  rcases Mode.eq_dict_or_list_of_descends ⟨mode, h⟩ with ⟨fields, rfl⟩ | ⟨xs, rfl⟩
  · refine ⟨m.action_dict h, ?_⟩
    have hle : (keys fields).length ≤ cs.length := by
      rw [hlength, keys, List.length_map]
      exact le_rfl
    exact List.map_fst_zip hle
  · refine ⟨m.action_list h, ?_⟩
    have hlength' : cs.length = xs.length := hlength.trans (List.length_map _)
    show (cs.map fun c => ("", c)).map Prod.fst = (xs.map fun c => ("", c)).map Prod.fst
    rw [List.map_map, List.map_map]
    show cs.map (fun _ => "") = xs.map fun _ => ""
    rw [List.map_const', List.map_const', hlength']

/-- A value where no string is declared is kept, unless it is descended into. -/
theorem eq_of_rewrites (h : Rewrites Value.shape (Mode.action sdk) m v r)
    (hstring : .string ∉ m.typeNames) (hdescends : ¬ m.Descends sdk v) : r = v := by
  obtain ⟨a, ha⟩ := exists_act_of_rewrites h
  cases a with
  | keep => exact (rewrites_iff_of_keep ha).1 h
  | replace r' => exact absurd (Mode.action_eq_replace ha).1 hstring
  | descend mode => exact absurd ⟨mode, ha⟩ hdescends

variable (sdk) in
/-- The repair of an item of an array with these `items`. -/
def Items.repairItem (items : Items) (item : Value) : Except Exn Value := do
  match ← items.objectSchema with
  | none => return item
  | some itemsSchema => preValidateItem sdk itemsSchema item

/-- An array under a property of arrays is repaired item by item. -/
theorem forall₂_repairItem {p : Schema} {xs : List Value} (harray : .array ∈ p.typeNames)
    (h : preValidateField sdk p (.list xs) = .ok r) :
    ∃ ys, r = .list ys ∧ List.Forall₂ (fun x y => p.items.repairItem sdk x = .ok y) xs ys := by
  cases p with
  | bool b => cases harray
  | dict type format properties items anyOf oneOf =>
    rw [preValidateField_eq, Schema.repair, if_pos harray] at h
    unfold Items.repairItem
    rcases hitems : (Schema.dict type format properties items anyOf oneOf).items.objectSchema
      with e | _ | itemsSchema
    · rw [hitems] at h
      cases h
    · rw [hitems] at h
      obtain rfl := Except.ok.inj h
      exact ⟨xs, rfl, List.forall₂_same.2 fun _ _ => rfl⟩
    · rw [hitems] at h
      have hdescend : descendInto sdk (.dict type format properties items anyOf oneOf) (.list xs) =
          .ok r := h
      rw [descendInto, hitems] at hdescend
      obtain ⟨ys, hys, rfl⟩ := map_eq_ok_iff.1 hdescend
      rw [preValidateItems_eq_mapM, mapM_eq_ok_iff] at hys
      exact ⟨ys, rfl, hys⟩

/-! ## The record -/

variable (sdk schema record) in
/-- What the repair leaves of the record. -/
structure Footprint (result : Record) : Prop where
  /-- An object that is descended into keeps its keys, in their order. -/
  keys : ∀ path m fields, LooksAt sdk schema record path m (.dict fields) →
    m.Descends sdk (.dict fields) →
    ∃ fields', Value.shape.subtree (.dict result) path = some (.dict fields') ∧
      Dict.keys fields' = Dict.keys fields
  /-- An array under a property of arrays keeps its length and its order: the item at a place is the
  repair of the item that was there. -/
  items : ∀ path p xs, LooksAt sdk schema record path (.field (.ok (some p))) (.list xs) →
    .array ∈ p.typeNames →
    ∃ ys, Value.shape.subtree (.dict result) path = some (.list ys) ∧
      List.Forall₂ (fun x y => p.items.repairItem sdk x = .ok y) xs ys
  /-- A value where no string is declared, and that is not descended into, is as it was. -/
  kept : ∀ path m v, LooksAt sdk schema record path m v → .string ∉ m.typeNames →
    ¬ m.Descends sdk v → Value.shape.subtree (.dict result) path = some v
  /-- So is a value that is not looked at, unless it is inside of one where a string is declared. -/
  unseen : ∀ path v, Value.shape.subtree (.dict record) path = some v →
    (∀ m, ¬ LooksAt sdk schema record path m v) →
    (∀ p m w, p <+: path → LooksAt sdk schema record p m w → .string ∈ m.typeNames →
      m.Descends sdk w) →
    Value.shape.subtree (.dict result) path = some v

theorem footprint (h : preValidateForStringType sdk schema record = .ok result) :
    Footprint sdk schema record result := by
  have hkept : ∀ path m v, LooksAt sdk schema record path m v → .string ∉ m.typeNames →
      ¬ m.Descends sdk v → Value.shape.subtree (.dict result) path = some v := by
    intro path m v hv hstring hdescends
    obtain ⟨r, hr, hrewrites⟩ := subtree_of_looksAt hv h
    rw [hr, eq_of_rewrites hrewrites hstring hdescends]
  refine ⟨?_, ?_, hkept, ?_⟩
  · rintro path m fields hv ⟨mode, hmode⟩
    obtain ⟨r, hr, hrewrites⟩ := subtree_of_looksAt hv h
    obtain ⟨fields', rfl, hfields⟩ := (rewrites_dict_iff hmode).1 hrewrites
    exact ⟨fields', hr, keys_eq_of_forall₂ hfields⟩
  · intro path p xs hv harray
    obtain ⟨r, hr, hrewrites⟩ := subtree_of_looksAt hv h
    obtain ⟨ys, rfl, hys⟩ := forall₂_repairItem harray (((repairRewrites _).field p r).2 hrewrites)
    exact ⟨ys, hr, hys⟩
  · intro path v hsub hunseen habove
    obtain ⟨p, q, m, w, rfl, hv, hq, hinside⟩ : ∃ p q m w, path = p ++ q ∧
        LooksAt sdk schema record p m w ∧ Value.shape.subtree w q = some v ∧
        (q = [] ∨ ∀ mode, m.action sdk w ≠ .ok (.descend mode)) := exists_visits_of_subtree hsub
    rcases hinside with rfl | hinside
    · obtain rfl := Option.some.inj hq
      rw [List.append_nil] at hunseen
      exact absurd hv (hunseen m)
    · have hdescends : ¬ m.Descends sdk w := fun ⟨mode, hmode⟩ => hinside mode hmode
      have hstring : .string ∉ m.typeNames := fun hs =>
        hdescends (habove p m w (List.prefix_append p q) hv hs)
      rw [Value.shape.subtree_append, hkept p m w hv hstring hdescends]
      exact hq

theorem preValidate_self (h : preValidateForStringType sdk schema record = .ok result) :
    preValidateForStringType sdk schema result = .ok result := by
  rw [← rewrites_iff] at h ⊢
  exact rewrites_self_of_rewrites (fun _ _ _ hr => (Mode.action_eq_replace hr).2)
    (fun _ _ _ _ hd hlength => Mode.action_rebuild hd hlength) h

/-- The repair of a repaired record changes nothing, and the repair of a record changes nothing but
the values where a string is declared. -/
theorem preValidate_idempotent (h : preValidateForStringType sdk schema record = .ok result) :
    preValidateForStringType sdk schema result = .ok result ∧
      Footprint sdk schema record result :=
  ⟨preValidate_self h, footprint h⟩

/-- A string with a number, inside of an object and of an object in an array, next to an array. -/
def nestedSchema : Schema :=
  .object [("a", .object [("b", .typed (.one .string) none)]),
    ("d", .dict (some (.many [.array, .string])) none none
      (.one (.object [("b", .typed (.one .string) none)])) none none)]

theorem preValidate_idempotent_nested :
    preValidateForStringType .verbatim nestedSchema
        [("a", .dict [("b", .str "1"), ("c", .list [.int 2])]),
          ("d", .list [.int 3, .dict [("b", .str "4")]])] =
        .ok [("a", .dict [("b", .str "1"), ("c", .list [.int 2])]),
          ("d", .list [.int 3, .dict [("b", .str "4")]])] ∧
      Footprint .verbatim nestedSchema
        [("a", .dict [("b", .int 1), ("c", .list [.int 2])]),
          ("d", .list [.int 3, .dict [("b", .int 4)]])]
        [("a", .dict [("b", .str "1"), ("c", .list [.int 2])]),
          ("d", .list [.int 3, .dict [("b", .str "4")]])] :=
  preValidate_idempotent rfl

end

end TargetClickhouse
