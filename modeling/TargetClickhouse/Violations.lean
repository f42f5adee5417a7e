import TargetClickhouse.RepairEffects

/-!
# What the repair of string values corrects

A schema of types, properties and items is violated at single values: `Schema.Violates` has the
position of every violation, with the schema and the value there.  A record whose violations are
values that could be texts is valid after the repair exactly when the repair looks, as at a field,
at each of these values or at a violation around it (`preValidate_admits_iff`).
-/

namespace TargetClickhouse

open TopDown

theorem Value.getElem?_children_list {xs : List Value} {i : ℕ} {c : Value}
    (hc : xs[i]? = some c) : (Value.shape.children (.list xs))[i]? = some ("", c) := by
  show (xs.map fun v => ("", v))[i]? = _
  rw [List.getElem?_map, hc]
  rfl

/-! ## Schemas of types, properties and items -/

mutual

/-- No part of the schema has `anyOf` or `oneOf`. -/
def Schema.isPlain : Schema → Bool
  | .bool _ => true
  | .dict _ _ properties items anyOf oneOf =>
      anyOf.isNone && oneOf.isNone &&
      (match properties with
        | none => true
        | some ps => propertiesArePlain ps) &&
      items.isPlain

def propertiesArePlain : List (String × Schema) → Bool
  | [] => true
  | (_, s) :: ps => s.isPlain && propertiesArePlain ps

def Items.isPlain : Items → Bool
  | .absent => true
  | .one s => s.isPlain
  | .many ss => schemasArePlain ss

def schemasArePlain : List Schema → Bool
  | [] => true
  | s :: ss => s.isPlain && schemasArePlain ss

end

/-- The schema of the item at an index. -/
def Items.schemaAt : Items → ℕ → Option Schema
  | .absent, _ => none
  | .one s, _ => some s
  | .many ss, i => ss[i]?

namespace Schema

/-- The value itself, whatever its parts are, does not validate. -/
def rejects : Schema → Value → Bool
  | .bool b, _ => !b
  | .dict none _ _ _ _ _, _ => false
  | .dict (some type) _ _ _ _ _, v => !type.names.any fun n => n.admits v

/-- Validating a value validates its part with an index against the other schema. -/
inductive Checks (p : Schema) : Value → ℕ → Schema → Value → Prop where
  | field {fields : Record} {i : ℕ} {key : String} {c : Value} {s : Schema}
      (hc : fields[i]? = some (key, c)) (hs : p.property key = .ok (some s)) :
      Checks p (.dict fields) i s c
  | item {xs : List Value} {i : ℕ} {c : Value} {s : Schema} (hc : xs[i]? = some c)
      (hs : p.items.schemaAt i = some s) : Checks p (.list xs) i s c

/-- Validating a value reports a violation: the value at the position violates the other schema. -/
inductive Violates : Schema → Value → List ℕ → Schema → Value → Prop where
  | here {p : Schema} {v : Value} (h : p.rejects v = true) : Violates p v [] p v
  | child {p q s : Schema} {v w c : Value} {i : ℕ} {path : List ℕ} (hc : p.Checks v i s c)
      (h : Violates s c path q w) : Violates p v (i :: path) q w

variable {p s : Schema} {v c : Value} {i : ℕ}

theorem isPlain_dict_iff {type : Option TypeKeyword} {format : Option String}
    {properties : Option (List (String × Schema))} {items : Items}
    {anyOf oneOf : Option (List Schema)} :
    (dict type format properties items anyOf oneOf).isPlain = true ↔ anyOf = none ∧ oneOf = none ∧
      (∀ ps, properties = some ps → propertiesArePlain ps = true) ∧ items.isPlain = true := by
  rw [isPlain.eq_def]
  simp only [Bool.and_eq_true, and_assoc, Option.isNone_iff_eq_none]
  refine and_congr_right fun _ => and_congr_right fun _ => and_congr_left fun _ => ?_
  cases properties <;> simp

theorem isPlain_of_lookup {ps : List (String × Schema)} {key : String}
    (hps : propertiesArePlain ps = true) (hs : ps.lookup key = some s) : s.isPlain = true := by
  induction ps with
  | nil => cases hs
  | cons kv ps ih =>
    obtain ⟨name, s'⟩ := kv
    rw [propertiesArePlain, Bool.and_eq_true] at hps
    rw [Dict.lookup_cons] at hs
    split_ifs at hs with hk
    · exact Option.some.inj hs ▸ hps.1
    · exact ih hps.2 hs

theorem isPlain_of_getElem? {ss : List Schema} (hss : schemasArePlain ss = true)
    (hs : ss[i]? = some s) : s.isPlain = true := by
  induction ss generalizing i with
  | nil => cases hs
  | cons s' ss ih =>
    rw [schemasArePlain, Bool.and_eq_true] at hss
    cases i with
    | zero => exact Option.some.inj hs ▸ hss.1
    | succ i => exact ih hss.2 hs

theorem isPlain_of_checks (hp : p.isPlain = true) (h : p.Checks v i s c) : s.isPlain = true := by
  cases p with
  | bool b =>
    cases h with
    | field hc hs => cases hs
    | item hc hs => cases hs
  | dict type format properties items anyOf oneOf =>
    obtain ⟨-, -, hproperties, hitems⟩ := isPlain_dict_iff.1 hp
    cases h with
    | field hc hs =>
      cases properties with
      | none => cases hs
      | some ps => exact isPlain_of_lookup (hproperties ps rfl) (Except.ok.inj hs)
    | item hc hs =>
      cases items with
      | absent => cases hs
      | one s' => exact Option.some.inj hs ▸ hitems
      | many ss => exact isPlain_of_getElem? hitems hs

theorem admitsField_iff {ps : List (String × Schema)} {key : String} :
    admitsField ps key v = true ↔ ∀ s, ps.lookup key = some s → s.admits v = true := by
  cases hs : ps.lookup key with
  | some s =>
    rw [admitsField_of_lookup hs]
    exact ⟨fun h s' hs' => Option.some.inj hs' ▸ h, fun h => h s rfl⟩
  | none =>
    refine iff_of_true ?_ fun s h => by cases h
    induction ps with
    | nil => rfl
    | cons kv ps ih =>
      obtain ⟨name, s⟩ := kv
      rw [Dict.lookup_cons] at hs
      split_ifs at hs with hk
      rw [admitsField, if_neg hk, ih hs]

theorem admitsEach_iff {ss : List Schema} {xs : List Value} : admitsEach ss xs = true ↔
    ∀ (i : ℕ) c s, xs[i]? = some c → ss[i]? = some s → s.admits c = true := by
  induction ss generalizing xs with
  | nil => exact iff_of_true (by cases xs <;> rfl) fun i c s _ hs => by simp at hs
  | cons s ss ih =>
    cases xs with
    | nil => exact iff_of_true rfl fun i c s hc => by simp at hc
    | cons x xs =>
      rw [admitsEach, Bool.and_eq_true, ih]
      constructor
      · rintro ⟨hx, hxs⟩ i c s' hc hs
        cases i with
        | zero =>
          obtain rfl := Option.some.inj hc
          obtain rfl := Option.some.inj hs
          exact hx
        | succ i => exact hxs i c s' hc hs
      · exact fun h => ⟨h 0 x s rfl rfl, fun i c s' hc hs => h (i + 1) c s' hc hs⟩

theorem admitsItems_iff {items : Items} {xs : List Value} : admitsItems items xs = true ↔
    ∀ (i : ℕ) c s, xs[i]? = some c → items.schemaAt i = some s → s.admits c = true := by
  cases items with
  | absent => exact iff_of_true rfl fun i c s _ hs => by cases hs
  | one s =>
    rw [admitsItems, List.all_eq_true]
    constructor
    · intro h i c s' hc hs
      obtain rfl := Option.some.inj hs
      exact h c (List.mem_of_getElem? hc)
    · intro h c hc
      obtain ⟨i, hi⟩ := List.mem_iff_getElem?.1 hc
      exact h i c s hi rfl
  | many ss => exact admitsEach_iff

theorem rejects_eq_false_iff {type : TypeKeyword} {format : Option String}
    {properties : Option (List (String × Schema))} {items : Items}
    {anyOf oneOf : Option (List Schema)} :
    (dict (some type) format properties items anyOf oneOf).rejects v = false ↔
      ∃ n ∈ type.names, n.admits v = true := by
  rw [rejects, Bool.not_eq_false', List.any_eq_true]

/-- A value validates when it does itself and its parts do. -/
theorem admits_iff_of_isPlain (hp : p.isPlain = true) : p.admits v = true ↔
    p.rejects v = false ∧ ∀ i s c, p.Checks v i s c → s.admits c = true := by
  cases p with
  | bool b =>
    have hchecks : ∀ i s c, ¬ (bool b).Checks v i s c := by
      intro i s c h
      cases h with
      | field hc hs => cases hs
      | item hc hs => cases hs
    rw [admits.eq_def]
    cases b with
    | true => exact iff_of_true rfl ⟨rfl, fun i s c h => absurd h (hchecks i s c)⟩
    | false => exact iff_of_false Bool.noConfusion fun h => Bool.noConfusion h.1
  | dict type format properties items anyOf oneOf =>
    obtain ⟨rfl, rfl, -, -⟩ := isPlain_dict_iff.1 hp
    rw [admits_dict_iff]
    constructor
    · rintro ⟨htype, hfields, hitems, -⟩
      refine ⟨?_, fun i s c hc => ?_⟩
      · cases type with
        | none => rfl
        | some type => exact rejects_eq_false_iff.2 (htype type rfl)
      · cases hc with
        | field hc hs =>
          cases properties with
          | none => cases hs
          | some ps =>
            refine admitsField_iff.1 (hfields ps _ rfl rfl _ (List.mem_of_getElem? hc)) s ?_
            exact Except.ok.inj hs
        | item hc hs => exact admitsItems_iff.1 (hitems _ rfl) i c s hc hs
    · rintro ⟨hrejects, hchecks⟩
      refine ⟨?_, ?_, ?_, fun _ h => (by cases h), fun _ h => (by cases h)⟩
      · rintro type rfl
        exact rejects_eq_false_iff.1 hrejects
      · rintro ps fields rfl rfl kv hkv
        obtain ⟨i, hi⟩ := List.mem_iff_getElem?.1 hkv
        exact admitsField_iff.2 fun s hs => hchecks i s kv.2 (.field hi (congrArg Except.ok hs))
      · rintro xs rfl
        exact admitsItems_iff.2 fun i c s hc hs => hchecks i s c (.item hc hs)

/-- A part that is checked is a child of the value. -/
theorem mem_children_of_checks (h : p.Checks v i s c) :
    ∃ key, (Value.shape.children v)[i]? = some (key, c) := by
  cases h with
  | field hc hs => exact ⟨_, hc⟩
  | item hc hs => exact ⟨"", Value.getElem?_children_list hc⟩

/-- A value validates when there is no violation. -/
theorem admits_iff_forall_not_violates (hp : p.isPlain = true) :
    p.admits v = true ↔ ∀ path q w, ¬ p.Violates v path q w := by
  induction v using Value.shape.induction generalizing p with
  | h v ih =>
    rw [admits_iff_of_isPlain hp]
    constructor
    · rintro ⟨hrejects, hchecks⟩ path q w h
      cases h with
      | here h => exact absurd h (Bool.eq_false_iff.1 hrejects)
      | child hc h =>
        obtain ⟨key, hkey⟩ := mem_children_of_checks hc
        exact (ih key _ (List.mem_of_getElem? hkey) (isPlain_of_checks hp hc)).1
          (hchecks _ _ _ hc) _ q w h
    · intro h
      refine ⟨Bool.eq_false_iff.2 fun hr => h [] p v (.here hr), fun i s c hc => ?_⟩
      obtain ⟨key, hkey⟩ := mem_children_of_checks hc
      refine (ih key c (List.mem_of_getElem? hkey) (isPlain_of_checks hp hc)).2 ?_
      exact fun path q w hw => h (i :: path) q w (.child hc hw)

end Schema

/-! ## The violations that the repair corrects -/

/-- A value that is neither null nor a text, where the schema lists strings. -/
def Schema.isStringMismatch (q : Schema) : Value → Bool
  | .none => false
  | .str _ => false
  | _ => decide (.string ∈ q.typeNames)

/-- All violations are string mismatches. -/
def Schema.OnlyStringMismatches (p : Schema) (v : Value) : Prop :=
  ∀ path q w, p.Violates v path q w → q.isStringMismatch w = true

/-- The schema with which a value is looked at. -/
def Mode.schema : Mode → Option Schema
  | .field (.ok (some p)) => some p
  | .item s => some s
  | _ => none

section

variable {sdk : Sdk} {schema p s : Schema} {record result : Record} {m : Mode} {v v' c : Value}
  {mode : String → Mode} {key : String} {i : ℕ} {path : List ℕ}

variable (sdk) in
/-- On the way to the position, or there, the repair of the value looks at a field that violates
its property. -/
def MeetsViolation (m : Mode) (v : Value) (path : List ℕ) : Prop :=
  ∃ before s u, before <+: path ∧
    Visits Value.shape (Mode.action sdk) m v before (.field (.ok (some s))) u ∧
    s.rejects u = true

theorem meetsViolation_of_child (ha : m.action sdk v = .ok (.descend mode))
    (hc : (Value.shape.children v)[i]? = some (key, c)) (h : MeetsViolation sdk (mode key) c path) :
    MeetsViolation sdk m v (i :: path) := by
  obtain ⟨before, s, u, hbefore, hv, hs⟩ := h
  exact ⟨i :: before, s, u, List.cons_prefix_cons.2 ⟨rfl, hbefore⟩, .child ha hc hv, hs⟩

/-- A violation met below a value that is descended into, and is none itself. -/
theorem meetsViolation_child (ha : m.action sdk v = .ok (.descend mode))
    (hhere : ∀ s, m = .field (.ok (some s)) → s.rejects v = false)
    (hc : (Value.shape.children v)[i]? = some (key, c)) (h : MeetsViolation sdk m v (i :: path)) :
    MeetsViolation sdk (mode key) c path := by
  obtain ⟨before, s, u, hbefore, hv, hs⟩ := h
  cases hv with
  | here _ _ => exact absurd hs (Bool.eq_false_iff.1 (hhere s rfl))
  | child ha' hc' hv =>
    obtain ⟨rfl, hpath⟩ := List.cons_prefix_cons.1 hbefore
    obtain ⟨⟩ := ha.symm.trans ha'
    obtain ⟨⟩ := hc.symm.trans hc'
    exact ⟨_, s, u, hpath, hv, hs⟩

theorem not_meetsViolation_of_keep (ha : m.action sdk v = .ok .keep)
    (hhere : ∀ s, m = .field (.ok (some s)) → s.rejects v = false) :
    ¬ MeetsViolation sdk m v path := by
  rintro ⟨before, s, u, -, hv, hs⟩
  cases hv with
  | here _ _ => exact absurd hs (Bool.eq_false_iff.1 (hhere s rfl))
  | child ha' _ _ => cases ha.symm.trans ha'

theorem not_meetsViolation_nil (hhere : ∀ s, m = .field (.ok (some s)) → s.rejects v = false) :
    ¬ MeetsViolation sdk m v [] := by
  rintro ⟨before, s, u, hbefore, hv, hs⟩
  obtain rfl := List.prefix_nil.1 hbefore
  cases hv with
  | here _ _ => exact absurd hs (Bool.eq_false_iff.1 (hhere s rfl))

theorem admits_eq_false_of_rejects (hr : p.rejects v = true) {n : TypeName}
    (hn : n ∈ p.typeNames) : n.admits v = false := by
  rcases p with b | ⟨_ | type, format, properties, items, anyOf, oneOf⟩
  · cases hn
  · cases hn
  · rw [Schema.rejects, Bool.not_eq_true', List.any_eq_false] at hr
    exact Bool.eq_false_iff.2 (hr n hn)

theorem rejects_of_forall (hs : p.typeNames ≠ []) (h : ∀ n ∈ p.typeNames, n.admits v = false) :
    p.rejects v = true := by
  rcases p with b | ⟨_ | type, format, properties, items, anyOf, oneOf⟩
  · exact absurd rfl hs
  · exact absurd rfl hs
  · rw [Schema.rejects, Bool.not_eq_true', List.any_eq_false]
    exact fun n hn => Bool.eq_false_iff.1 (h n hn)

/-- A mismatch that is looked at as a field is turned into a text. -/
theorem action_of_isStringMismatch {a : Action String Mode Value}
    (ha : p.repair sdk v = .ok a) (hr : p.rejects v = true)
    (hv : p.isStringMismatch v = true) : ∃ text, a = .replace (.str text) := by
  have hrepair : p.repair sdk v = p.toText sdk v ∧ .string ∈ p.typeNames := by
    rcases p with b | ⟨type, format, properties, items, anyOf, oneOf⟩
    · cases ha
    · cases v with
      | none => cases hv
      | str text => cases hv
      | dict fields =>
        refine ⟨if_neg fun hobject => ?_, of_decide_eq_true hv⟩
        cases admits_eq_false_of_rejects hr hobject
      | list xs =>
        refine ⟨if_neg fun harray => ?_, of_decide_eq_true hv⟩
        cases admits_eq_false_of_rejects hr harray
      | _ => exact ⟨rfl, of_decide_eq_true hv⟩
  rw [hrepair.1] at ha
  rcases Schema.toText_eq_ok ha with ⟨-, htext⟩ | ⟨hs, -⟩
  · exact htext
  · exact absurd hrepair.2 hs

/-- A value is replaced by a text where strings are listed, and its own type is not if it has
parts. -/
theorem repair_eq_replace {r : Value} (ha : p.repair sdk v = .ok (.replace r)) :
    .string ∈ p.typeNames ∧ (∃ text, r = .str text) ∧
      ∀ n ∈ p.typeNames, v.isContainer = true → n.admits v = false := by
  have htext : p.toText sdk v = .ok (.replace r) ∧
      ∀ n ∈ p.typeNames, v.isContainer = true → n.admits v = false := by
    rcases p with b | ⟨type, format, properties, items, anyOf, oneOf⟩
    · cases ha
    · cases v with
      | none =>
        rw [Schema.repair] at ha
        split_ifs at ha
        · cases ha
        · exact ⟨ha, fun n _ h => by cases h⟩
      | dict fields =>
        rw [Schema.repair] at ha
        split_ifs at ha with hobject
        · cases ha
        · refine ⟨ha, fun n hn _ => ?_⟩
          cases n with
          | object => exact absurd hn hobject
          | _ => rfl
      | list xs =>
        rw [Schema.repair] at ha
        split_ifs at ha with harray
        · obtain ⟨found, -, he⟩ := Dict.map_eq_ok_iff.1 ha
          cases found <;> cases he
        · refine ⟨ha, fun n hn _ => ?_⟩
          cases n with
          | array => exact absurd hn harray
          | _ => rfl
      | str text => cases ha
      | _ => exact ⟨ha, fun n _ h => by cases h⟩
  rcases Schema.toText_eq_ok htext.1 with ⟨hs, text, he⟩ | ⟨-, he⟩
  · obtain ⟨⟩ := he
    exact ⟨hs, ⟨text, rfl⟩, htext.2⟩
  · cases he

/-- The text is valid. -/
theorem admits_text (hp : p.isPlain = true) (hs : .string ∈ p.typeNames) (text : String) :
    p.admits (.str text) = true := by
  refine (Schema.admits_iff_of_isPlain hp).2 ⟨Bool.eq_false_iff.2 fun hr => ?_, ?_⟩
  · cases admits_eq_false_of_rejects hr hs
  · intro i s c hc
    cases hc

/-- Whether a value itself validates depends on its type only. -/
theorem rejects_congr (p : Schema) (h : ∀ n : TypeName, n.admits v = n.admits v') :
    p.rejects v = p.rejects v' := by
  rcases p with b | ⟨_ | type, format, properties, items, anyOf, oneOf⟩
  · rfl
  · rfl
  · exact congrArg (fun f => !type.names.any f) (funext h)

variable (sdk) in
/-- The rewriting of a value that is descended into: the value itself is as valid as before, and
each of its parts is rewritten in a mode with the schema that it is checked against. -/
structure RewritesParts (p : Schema) (mode : String → Mode) (v v' : Value) : Prop where
  rejects_eq : p.rejects v' = p.rejects v
  exists_part (i : ℕ) (s : Schema) (c : Value) (h : p.Checks v i s c) : ∃ key c',
    (Value.shape.children v)[i]? = some (key, c) ∧ (mode key).schema = some s ∧
      p.Checks v' i s c' ∧ Rewrites Value.shape (Mode.action sdk) (mode key) c c'
  exists_original (i : ℕ) (s : Schema) (c' : Value) (h : p.Checks v' i s c') : ∃ key c,
    (Value.shape.children v)[i]? = some (key, c) ∧ (mode key).schema = some s ∧
      p.Checks v i s c ∧ Rewrites Value.shape (Mode.action sdk) (mode key) c c'

theorem rewritesParts_dict {fields : Record}
    (ha : m.action sdk (.dict fields) = .ok (.descend fun key => .field (p.property key)))
    (hr : Rewrites Value.shape (Mode.action sdk) m (.dict fields) v') :
    RewritesParts sdk p (fun key => .field (p.property key)) (.dict fields) v' := by
  obtain ⟨fields', rfl, hfields⟩ := (rewrites_dict_iff ha).1 hr
  refine ⟨rejects_congr p fun n => by cases n <;> rfl, fun i s c h => ?_, fun i s c' h => ?_⟩
  · cases h with
    | field hc hs =>
      obtain ⟨⟨key, c'⟩, hc', rfl, hrc⟩ := Dict.exists_getElem?_right hfields hc
      exact ⟨_, c', hc, congrArg (fun q => (Mode.field q).schema) hs, .field hc' hs, hrc⟩
  · cases h with
    | field hc' hs =>
      obtain ⟨⟨key, c⟩, hc, rfl, hrc⟩ := Dict.exists_getElem?_left hfields hc'
      exact ⟨_, c, hc, congrArg (fun q => (Mode.field q).schema) hs, .field hc hs, hrc⟩

theorem rewritesParts_list {xs : List Value}
    (ha : m.action sdk (.list xs) = .ok (.descend fun _ => .item s)) (hs : p.items = .one s)
    (hr : Rewrites Value.shape (Mode.action sdk) m (.list xs) v') :
    RewritesParts sdk p (fun _ => .item s) (.list xs) v' := by
  obtain ⟨xs', rfl, hxs⟩ := (rewrites_list_iff ha).1 hr
  refine ⟨rejects_congr p fun n => by cases n <;> rfl, fun i s' c h => ?_, fun i s' c' h => ?_⟩
  · cases h with
    | item hc hs' =>
      obtain ⟨c', hc', hrc⟩ := Dict.exists_getElem?_right hxs hc
      refine ⟨"", c', Value.getElem?_children_list hc, ?_, .item hc' hs', hrc⟩
      rwa [hs] at hs'
  · cases h with
    | item hc' hs' =>
      obtain ⟨c, hc, hrc⟩ := Dict.exists_getElem?_left hxs hc'
      refine ⟨"", c, Value.getElem?_children_list hc, ?_, .item hc hs', hrc⟩
      rwa [hs] at hs'

theorem rewritesParts_of_descend (ha : m.action sdk v = .ok (.descend mode))
    (hm : m.schema = some p) (hr : Rewrites Value.shape (Mode.action sdk) m v v') :
    RewritesParts sdk p mode v v' := by
  rcases m with (e | _ | p') | s
  · cases ha
  · cases ha
  · obtain rfl := Option.some.inj hm
    rcases Schema.repair_eq_descend ha with
      ⟨fields, rfl, -, rfl⟩ | ⟨xs, s, rfl, -, hitems, rfl⟩
    · exact rewritesParts_dict ha hr
    · exact rewritesParts_list ha (Items.eq_one_of_objectSchema hitems).1 hr
  · obtain rfl := Option.some.inj hm
    cases v with
    | dict fields =>
      obtain ⟨⟩ := ha
      exact rewritesParts_dict rfl hr
    | _ => cases ha

/-- A value with no violations but mismatches is valid once rewritten exactly when the rewriting
meets them all. -/
theorem admits_rewritten_iff (hr : Rewrites Value.shape (Mode.action sdk) m v v')
    (hm : m.schema = some p) (hp : p.isPlain = true) (hv : p.OnlyStringMismatches v) :
    p.admits v' = true ↔ ∀ path q w, p.Violates v path q w → MeetsViolation sdk m v path := by
  induction v using Value.shape.induction generalizing m v' p with
  | h v ih =>
    obtain ⟨a, ha⟩ := exists_act_of_rewrites hr
    -- a violation that is looked at as a field is replaced
    have hhere (hkept : ∀ r, a ≠ .replace r) (s : Schema) (hs : m = .field (.ok (some s))) :
        s.rejects v = false := by
      subst hs
      obtain rfl := Option.some.inj hm
      refine Bool.eq_false_iff.2 fun hrejects => ?_
      obtain ⟨text, he⟩ :=
        action_of_isStringMismatch ha hrejects (hv [] s v (.here hrejects))
      exact hkept _ he
    cases a with
    | keep =>
      rw [(rewrites_iff_of_keep ha).1 hr, Schema.admits_iff_forall_not_violates hp]
      refine forall_congr' fun path => forall_congr' fun q => forall_congr' fun w =>
        forall_congr' fun _ => iff_of_false id ?_
      exact not_meetsViolation_of_keep ha (hhere fun r h => by cases h)
    | replace r =>
      obtain rfl := (rewrites_iff_of_replace ha).1 hr
      rcases m with (e | _ | p') | s
      · cases ha
      · cases ha
      · obtain rfl := Option.some.inj hm
        obtain ⟨hs, ⟨text, rfl⟩, hcontainer⟩ := repair_eq_replace ha
        refine iff_of_true (admits_text hp hs text) fun path q w hviolates => ?_
        refine ⟨[], p', v, List.nil_prefix, .here _ _, ?_⟩
        cases hviolates with
        | here h => exact h
        | child hc _ =>
          refine rejects_of_forall (List.ne_nil_of_mem hs) fun n hn => hcontainer n hn ?_
          cases hc <;> rfl
      · cases v <;> cases ha
    | descend mode =>
      have hhere := hhere fun r h => by cases h
      have hparts := rewritesParts_of_descend ha hm hr
      have ihPart {i : ℕ} {s : Schema} {c c' : Value} {key : String}
          (hkey : (Value.shape.children v)[i]? = some (key, c)) (hchecks : p.Checks v i s c)
          (hs : (mode key).schema = some s)
          (hrc : Rewrites Value.shape (Mode.action sdk) (mode key) c c') :
          s.admits c' = true ↔
            ∀ path q w, s.Violates c path q w → MeetsViolation sdk (mode key) c path :=
        ih key c (List.mem_of_getElem? hkey) hrc hs (Schema.isPlain_of_checks hp hchecks)
          fun path q w h => hv (i :: path) q w (.child hchecks h)
      rw [Schema.admits_iff_of_isPlain hp, hparts.rejects_eq]
      constructor
      · rintro ⟨hrejects, hchecks'⟩ path q w hviolates
        cases hviolates with
        | here h => exact absurd h (Bool.eq_false_iff.1 hrejects)
        | child hc h =>
          obtain ⟨key, c', hkey, hs, hc', hrc⟩ := hparts.exists_part _ _ _ hc
          exact meetsViolation_of_child ha hkey
            ((ihPart hkey hc hs hrc).1 (hchecks' _ _ _ hc') _ q w h)
      · intro hmeets
        refine ⟨Bool.eq_false_iff.2 fun h => ?_, fun i s c' hc' => ?_⟩
        · exact not_meetsViolation_nil hhere (hmeets [] p v (.here h))
        · obtain ⟨key, c, hkey, hs, hc, hrc⟩ := hparts.exists_original i s c' hc'
          refine (ihPart hkey hc hs hrc).2 fun path q w h => ?_
          exact meetsViolation_child ha hhere hkey (hmeets (i :: path) q w (.child hc h))

theorem onlyStringMismatches_iff : p.OnlyStringMismatches v ↔
    (p.rejects v = true → p.isStringMismatch v = true) ∧
      ∀ i s c, p.Checks v i s c → s.OnlyStringMismatches c := by
  constructor
  · intro h
    exact ⟨fun hr => h [] p v (.here hr), fun i s c hc path q w hw => h _ q w (.child hc hw)⟩
  · rintro ⟨hhere, hchecks⟩ path q w h
    cases h with
    | here h => exact hhere h
    | child hc h => exact hchecks _ _ _ hc _ q w h

theorem onlyStringMismatches_int {n : ℤ}
    (h : p.rejects (.int n) = true → p.isStringMismatch (.int n) = true) :
    p.OnlyStringMismatches (.int n) :=
  onlyStringMismatches_iff.2 ⟨h, fun i s c hc => by cases hc⟩

theorem onlyStringMismatches_field (hr : p.rejects (.dict [(key, v)]) = false)
    (h : ∀ s, p.property key = .ok (some s) → s.OnlyStringMismatches v) :
    p.OnlyStringMismatches (.dict [(key, v)]) := by
  refine onlyStringMismatches_iff.2 ⟨fun hr' => absurd hr' (Bool.eq_false_iff.1 hr), ?_⟩
  intro i s c hc
  cases hc with
  | field hc hs =>
    obtain ⟨⟩ := List.mem_singleton.1 (List.mem_of_getElem? hc)
    exact h s hs

theorem onlyStringMismatches_item (hr : p.rejects (.list [v]) = false)
    (h : ∀ s, p.items.schemaAt 0 = some s → s.OnlyStringMismatches v) :
    p.OnlyStringMismatches (.list [v]) := by
  refine onlyStringMismatches_iff.2 ⟨fun hr' => absurd hr' (Bool.eq_false_iff.1 hr), ?_⟩
  intro i s c hc
  cases hc with
  | item hc hs =>
    cases i with
    | zero =>
      obtain rfl := Option.some.inj hc
      exact h s hs
    | succ i => cases hc

variable (sdk schema record) in
/-- On the way to the position, or there, the repair of the record looks at a field that violates
its property. -/
abbrev Corrects (path : List ℕ) : Prop := MeetsViolation sdk (.item schema) (.dict record) path

/-- A record whose violations are string mismatches is valid after the repair exactly when the
schemas of the values looked at can be read, and every violation is at a field that is looked at or
inside of one that is a violation too. -/
theorem preValidate_admits_iff (hdumps : sdk.DumpsJson)
    (hrecord : (Value.dict record).isJson = true) (hp : schema.isPlain = true)
    (hv : schema.OnlyStringMismatches (.dict record)) :
    (∃ result, preValidateForStringType sdk schema record = .ok result ∧
        schema.admits (.dict result) = true) ↔
      (∀ path m v, LooksAt sdk schema record path m v → m.isReadable v = true) ∧
      ∀ path q w, schema.Violates (.dict record) path q w → Corrects sdk schema record path := by
  rw [← preValidate_isOk_iff_readable hdumps hrecord]
  constructor
  · rintro ⟨result, hresult, hadmits⟩
    exact ⟨⟨result, hresult⟩, (admits_rewritten_iff (rewrites_iff.2 hresult) rfl hp hv).1 hadmits⟩
  · rintro ⟨⟨result, hresult⟩, hmeets⟩
    exact ⟨result, hresult, (admits_rewritten_iff (rewrites_iff.2 hresult) rfl hp hv).2 hmeets⟩

/-- A number under a property of strings is the only violation. -/
theorem onlyStringMismatches_number :
    (Schema.object [("a", .typed (.one .string) none)]).OnlyStringMismatches
      (.dict [("a", .int 1)]) := by
  refine onlyStringMismatches_field rfl fun s hs => ?_
  cases hs
  exact onlyStringMismatches_int fun _ => rfl

/-- A number under a property of strings is repaired to a valid record. -/
theorem preValidate_admits_number :
    ∃ result, preValidateForStringType .verbatim (.object [("a", .typed (.one .string) none)])
        [("a", .int 1)] = .ok result ∧
      (Schema.object [("a", .typed (.one .string) none)]).admits (.dict result) = true := by
  refine (preValidate_admits_iff Sdk.verbatim_dumpsJson rfl rfl onlyStringMismatches_number).2
    ⟨fun path m v hv => ?_, fun path q w hw => ?_⟩
  · rcases looksAt_singleton (fun mode h => by cases h) hv with ⟨-, rfl, rfl⟩ | ⟨-, rfl, rfl⟩
    · rfl
    · rfl
  · -- the only violation is that of the field
    cases hw with
    | here h => cases h
    | child hc h =>
      cases hc with
      | field hc hs =>
        obtain ⟨⟩ := List.mem_singleton.1 (List.mem_of_getElem? hc)
        exact ⟨[_], _, _, List.cons_prefix_cons.2 ⟨rfl, List.nil_prefix⟩,
          .child rfl hc (.here _ _), rfl⟩

/-- The schema of an object with an array of texts. -/
def Schema.tagged : Schema :=
  .object [("tags", .dict (some (.one .array)) none none (.one (.typed (.one .string) none))
    none none)]

/-- A number in an array of texts is left as it is. -/
theorem not_preValidate_admits_tags :
    Schema.tagged.isPlain = true ∧ (Value.dict [("tags", .list [.int 1])]).isJson = true ∧
      Schema.tagged.OnlyStringMismatches (.dict [("tags", .list [.int 1])]) ∧
      ¬ ∃ result, preValidateForStringType .verbatim .tagged [("tags", .list [.int 1])] =
          .ok result ∧ Schema.tagged.admits (.dict result) = true := by
  refine ⟨rfl, rfl, onlyStringMismatches_field rfl fun s hs => ?_, ?_⟩
  · cases hs
    refine onlyStringMismatches_item rfl fun s hs => ?_
    cases hs
    exact onlyStringMismatches_int fun _ => rfl
  · rintro ⟨result, hresult, hadmits⟩
    cases hresult
    cases hadmits

end

end TargetClickhouse
