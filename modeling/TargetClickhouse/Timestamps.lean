import TargetClickhouse.PreValidation
import TargetClickhouse.SqlTypes
import TargetClickhouse.Lib.Text

/-!
# Date-like values

How `_validate_and_parse` turns the texts of date-like properties into the values that are stored,
with `None` for a text that cannot be parsed.  `nullSafe_iff` compares the result with the column
types of `to_sql_type`.
-/

namespace TargetClickhouse

open Text Dict

/-- The formats of date-like properties. -/
inductive Format where
  | date
  | dateTime
  | time
  deriving DecidableEq, Repr

namespace Format

def ofText (s : String) : Option Format :=
  if s = "date" then some date
  else if s = "date-time" then some dateTime
  else if s = "time" then some time
  else none

/-- The values that parsed texts of the format become; a time is stored as its ISO text. -/
def holds : Format → Value → Bool
  | date, .date _ => true
  | dateTime, .datetime _ => true
  | time, .str _ => true
  | _, _ => false

end Format

/-- The ISO parsers of the SDK; a time is given by the ISO text of the parsed time. -/
structure Parsers where
  date : String → Option Date
  dateTime : String → Option DateTime
  time : String → Option String
  date_empty : date "" = none
  dateTime_empty : dateTime "" = none
  time_empty : time "" = none
  date_epoch : date "1970-01-01" = some ⟨1970, 1, 1⟩
  dateTime_epoch : dateTime "1970-01-01T00:00:00" = some ⟨⟨1970, 1, 1⟩, ⟨0, 0, 0, 0⟩, none⟩
  time_midnight : time "00:00:00" = some "00:00:00"

/-! ## Parsing -/

namespace Schema

/-- `_is_string_with_format`, with the format. -/
def stringFormat : Schema → Except Exn (Option Format)
  | .bool _ => .error .attributeError
  | .dict (some type) (some format) _ _ _ _ =>
      .ok (if .string ∈ type.names then Format.ofText format else none)
  | .dict _ _ _ _ _ _ => .ok none

/-- The format of the first branch that has one. -/
def firstFormat : List Schema → Except Exn (Option Format)
  | [] => .ok none
  | s :: ss => do
      match ← s.stringFormat with
      | some format => return some format
      | none => firstFormat ss

/-- `get_datelike_property_type`. -/
def datelikeType (property : Schema) : Except Exn (Option Format) := do
  match ← property.stringFormat with
  | some format => return some format
  | none =>
      match property with
      | .dict _ _ _ _ (some branches) _ => firstFormat branches
      | _ => return none

end Schema

/-- What the parsers raise on a value that is no text. -/
def Value.parseError : Format → Value → Exn
  | .date, .list items => if items.any (fun v => v matches .str "T") then .attributeError
      else .typeError
  | .date, .dict fields => if "T" ∈ keys fields then .attributeError else .typeError
  | _, _ => .typeError

section

variable (parsers : Parsers)

/-- The value that a date-like property gets; a text that cannot be parsed becomes `None`. -/
def parseDatelike (format : Format) : Value → Except Exn Value
  | .none => .ok .none
  | .str s =>
      .ok (match format with
        | .time => ((parsers.time s).map Value.str).getD .none
        -- a date loses its time
        | .date => ((parsers.date ((split 'T' s).headD "")).map Value.date).getD .none
        | .dateTime => ((parsers.dateTime s).map Value.datetime).getD .none)
  | value => .error (value.parseError format)

/-- One round of `_parse_timestamps_in_record`. -/
def parseTimestampsInField (schema : Schema) (key : String) (value : Value) :
    Except Exn Value := do
  let properties ← schema.properties
  match properties.lookup key with
  | none => return value
  | some property =>
      match ← property.datelikeType with
      | none => return value
      | some format => parseDatelike parsers format value

/-- `_parse_timestamps_in_record`. -/
def parseTimestampsInRecord (schema : Schema) (record : Record) : Except Exn Record :=
  record.mapM fun kv => do
    let value ← parseTimestampsInField parsers schema kv.1 kv.2
    return (kv.1, value)

/-- `_validate_and_parse`. -/
def validateAndParse (sdk : Sdk) (c : Config) (schema : Schema) (record : Record) :
    Except Exn Record := do
  let record ← preValidateForStringType sdk schema record
  if c.validateRecords.getD true && !schema.admits (.dict record) then
    throw .validationError
  else parseTimestampsInRecord parsers schema record

end

/-! ## Values and column types -/

/-- The type holds the parsed values of the format. -/
def SqlType.storesFormat : SqlType → Format → Bool
  | nullable t, f => t.storesFormat f
  | varchar, .time => true
  | string, .time => true
  | date, .date => true
  | date32, .date => true
  | DATETIME, .dateTime => true
  | dateTime, .dateTime => true
  | timestamp, .dateTime => true
  | _, _ => false

theorem SqlType.stores_eq_storesFormat {f : Format} {v : Value} (h : f.holds v = true)
    (t : SqlType) : t.stores v = t.storesFormat f := by
  induction t with
  | nullable t ih =>
    cases v with
    | none => cases f <;> cases h
    | _ => exact ih
  | _ => cases f <;> cases v <;> first | rfl | cases h

/-- A date-like property gets `None` or a value of its format. -/
theorem parseDatelike_eq_ok {parsers : Parsers} {f : Format} {v w : Value}
    (h : parseDatelike parsers f v = .ok w) : w = .none ∨ f.holds w = true := by
  unfold parseDatelike at h
  cases v with
  | none => exact Or.inl (Except.ok.inj h).symm
  | str s =>
    obtain rfl := Except.ok.inj h
    cases f with
    | time => cases parsers.time s <;> simp [Format.holds]
    | date => cases parsers.date ((split 'T' s).headD "") <;> simp [Format.holds]
    | dateTime => cases parsers.dateTime s <;> simp [Format.holds]
  | _ => cases h

/-- A field of the result is what a field of the same name became. -/
theorem exists_of_mem_parseTimestamps {parsers : Parsers} {schema : Schema}
    {record record' : Record} (h : parseTimestampsInRecord parsers schema record = .ok record')
    {key : String} {value : Value} (hmem : (key, value) ∈ record') :
    ∃ v, (key, v) ∈ record ∧ parseTimestampsInField parsers schema key v = .ok value := by
  obtain ⟨⟨k, v⟩, hkv, he⟩ := exists_of_mem_right (mapM_eq_ok_iff.1 h) hmem
  obtain ⟨w, hw, hpure⟩ := bind_eq_ok_iff.1 he
  obtain ⟨rfl, rfl⟩ := Prod.mk.inj (Except.ok.inj hpure)
  exact ⟨v, hkv, hw⟩

section

variable (parsers : Parsers) (sdk : Sdk) (dispatch : SqlDispatch) (c : Config)
variable (properties : List (String × Schema)) (primaryKeys : List String)

/-- Every value that `_validate_and_parse` leaves in a date-like property can be stored in the
column that `to_sql_type` gives the property, unless it is a primary key. -/
def NullSafe : Prop :=
  ∀ record record', validateAndParse parsers sdk c (.object properties) record = .ok record' →
    ∀ key value, (key, value) ∈ record' → key ∉ primaryKeys →
      ∀ property f, properties.lookup key = some property → property.datelikeType = .ok (some f) →
        ∀ t, toSqlType c dispatch property false = .ok t → t.stores value = true

/-- The SDK maps every date-like property to a type of its format, and the column becomes
`Nullable`: for its type, or because the property's own type lists null. -/
def FormatsFit : Prop :=
  ∀ key property f, properties.lookup key = some property → key ∉ primaryKeys →
    property.datelikeType = .ok (some f) →
      ∀ t, dispatch.dispatch (c.jsonschemaToSql dispatch.base) property = .ok t →
        t.storesFormat f = true ∧
          (t.isNullable || t.isDateOrTime || property.listsNull) = true

variable {parsers sdk dispatch c properties primaryKeys}

theorem nullSafe_of_formatsFit (h : FormatsFit dispatch c properties primaryKeys) :
    NullSafe parsers sdk dispatch c properties primaryKeys := by
  intro record record' hrec key value hmem hkey property f hlookup hf t ht
  obtain ⟨repaired, -, hparse⟩ := bind_eq_ok_iff.1 hrec
  split_ifs at hparse
  obtain ⟨v, -, hfield⟩ := exists_of_mem_parseTimestamps hparse hmem
  have hvalue : parseDatelike parsers f v = .ok value := by
    simpa [parseTimestampsInField, Schema.object, Schema.properties, hlookup, hf, bind,
      Except.bind] using hfield
  rcases hd : dispatch.dispatch (c.jsonschemaToSql dispatch.base) property with e | t₀
  · rw [toSqlType_of_dispatch_error hd] at ht
    cases ht
  · rw [toSqlType_of_dispatch hd] at ht
    obtain rfl := Except.ok.inj ht
    obtain ⟨hstores, hnull⟩ := h key property f hlookup hkey hf t₀ hd
    rcases parseDatelike_eq_ok hvalue with rfl | hholds
    · rw [SqlType.stores_none, SqlType.isNullable_wrapped, hnull]
    · have hne : value ≠ .none := by
        rintro rfl
        cases f <;> cases hholds
      rw [SqlType.stores_wrapped hne, SqlType.stores_eq_storesFormat hholds, hstores]

/-! ### Texts as witnesses -/

/-- A schema with `type` and `format` only. -/
def Schema.IsTyped : Schema → Prop
  | .dict _ _ none .absent none none => True
  | _ => False

/-- A property that is described by `type` and `format`, or by `anyOf` of such. -/
def Schema.IsDescribed (property : Schema) : Prop :=
  property.IsTyped ∨ ∃ branches, property = .any branches ∧ ∀ b ∈ branches, b.IsTyped

theorem Schema.admits_text_of_stringFormat {p : Schema} (h : p.IsTyped) {f : Format}
    (hf : p.stringFormat = .ok (some f)) (s : String) : p.admits (.str s) = true := by
  rcases p with b | ⟨type, format, properties, items, anyOf, oneOf⟩
  · cases h
  · rcases type with _ | type
    · cases hf
    · rcases format with _ | format
      · cases hf
      · have hstring : TypeName.string ∈ type.names := by
          by_contra hn
          simp [stringFormat, hn] at hf
        rcases properties with _ | _
        · cases items with
          | absent =>
            rcases anyOf with _ | _
            · rcases oneOf with _ | _
              · simp only [admits, Bool.and_true, List.any_eq_true]
                exact ⟨.string, hstring, rfl⟩
              · cases h
            · cases h
          | _ => cases h
        · cases h

theorem Schema.exists_of_firstFormat {branches : List Schema} {f : Format}
    (h : firstFormat branches = .ok (some f)) :
    ∃ b ∈ branches, b.stringFormat = .ok (some f) := by
  induction branches with
  | nil => cases h
  | cons b branches ih =>
    obtain ⟨found, hb, hrest⟩ := bind_eq_ok_iff.1 h
    rcases found with _ | f'
    · obtain ⟨b', hb', hf⟩ := ih hrest
      exact ⟨b', List.mem_cons_of_mem _ hb', hf⟩
    · obtain rfl := Option.some.inj (Except.ok.inj hrest)
      exact ⟨b, List.mem_cons_self, hb⟩

/-- A date-like property accepts every text. -/
theorem Schema.admits_text_of_datelike {p : Schema} (h : p.IsDescribed) {f : Format}
    (hf : p.datelikeType = .ok (some f)) (s : String) : p.admits (.str s) = true := by
  obtain ⟨found, hp, hrest⟩ := bind_eq_ok_iff.1 hf
  rcases h with h | ⟨branches, rfl, hb⟩
  · rcases found with _ | f'
    · rcases p with b | ⟨type, format, properties, items, anyOf, oneOf⟩
      · cases h
      · rcases anyOf with _ | _
        · cases hrest
        · cases properties <;> cases items <;> cases h
    · exact admits_text_of_stringFormat h hp s
  · obtain rfl : none = found := Except.ok.inj hp
    obtain ⟨b, hmem, hbf⟩ := exists_of_firstFormat hrest
    have hcount : 0 < countAdmits branches (.str s) :=
      countAdmits_pos_iff.2 ⟨b, hmem, admits_text_of_stringFormat (hb b hmem) hbf s⟩
    simpa [any, admits] using hcount

theorem preValidateField_text {p : Schema} {f : Format} (hf : p.datelikeType = .ok (some f))
    (s : String) : preValidateField sdk p (.str s) = .ok (.str s) := by
  rcases p with b | ⟨type, format, properties, items, anyOf, oneOf⟩
  · cases hf
  · simp [preValidateField, Schema.expectedType, bind, Except.bind, pure, Except.pure]

/-- A record with one text in a date-like property is accepted and parsed. -/
theorem validateAndParse_text {key : String} {p : Schema} {f : Format}
    (hlookup : properties.lookup key = some p) (hp : p.IsDescribed)
    (hf : p.datelikeType = .ok (some f)) {s : String} {w : Value}
    (hw : parseDatelike parsers f (.str s) = .ok w) :
    validateAndParse parsers sdk c (.object properties) [(key, .str s)] = .ok [(key, w)] := by
  have hpre : preValidateForStringType sdk (.object properties) [(key, .str s)] =
      .ok [(key, .str s)] := by
    simp [preValidateForStringType, Schema.property, Schema.object, hlookup,
      preValidateField_text hf, bind, Except.bind, pure, Except.pure]
  have hadmits : (Schema.object properties).admits (.dict [(key, .str s)]) = true := by
    have hfield := Schema.admitsField_of_lookup hlookup (.str s)
    simp [Schema.object, Schema.admits, TypeKeyword.names, TypeName.admits, hfield,
      Schema.admits_text_of_datelike hp hf]
  have hparse : parseTimestampsInRecord parsers (.object properties) [(key, .str s)] =
      .ok [(key, w)] := by
    simp [parseTimestampsInRecord, parseTimestampsInField, Schema.object, Schema.properties,
      hlookup, hf, hw, bind, Except.bind, pure, Except.pure]
  rw [validateAndParse, hpre]
  simp [bind, Except.bind, hadmits, hparse]

variable (parsers) in
theorem exists_parsed (f : Format) :
    ∃ s w, parseDatelike parsers f (.str s) = .ok w ∧ f.holds w = true := by
  cases f with
  | date =>
    refine ⟨"1970-01-01", .date ⟨1970, 1, 1⟩, ?_, rfl⟩
    have hsplit : split 'T' "1970-01-01" = ["1970-01-01"] := split_of_not_mem (by decide)
    simp [parseDatelike, hsplit, parsers.date_epoch]
  | dateTime =>
    refine ⟨"1970-01-01T00:00:00", .datetime ⟨⟨1970, 1, 1⟩, ⟨0, 0, 0, 0⟩, none⟩, ?_, rfl⟩
    simp [parseDatelike, parsers.dateTime_epoch]
  | time =>
    refine ⟨"00:00:00", .str "00:00:00", ?_, rfl⟩
    simp [parseDatelike, parsers.time_midnight]

/-- The empty text is a text that cannot be parsed. -/
theorem parseDatelike_empty (f : Format) : parseDatelike parsers f (.str "") = .ok .none := by
  cases f with
  | date =>
    have hsplit : split 'T' "" = [""] := split_of_not_mem (by decide)
    simp [parseDatelike, hsplit, parsers.date_empty]
  | dateTime => simp [parseDatelike, parsers.dateTime_empty]
  | time => simp [parseDatelike, parsers.time_empty]

/-- The parser and the column types agree exactly when the SDK maps date-like properties to types of
their formats that `to_sql_type` makes `Nullable`. -/
theorem nullSafe_iff (hdescribed : ∀ key p, properties.lookup key = some p → p.IsDescribed) :
    NullSafe parsers sdk dispatch c properties primaryKeys ↔
      FormatsFit dispatch c properties primaryKeys := by
  refine ⟨fun h key p f hlookup hkey hf t ht => ?_, nullSafe_of_formatsFit⟩
  have htype := toSqlType_of_dispatch ht
  have hstores : ∀ {s w}, parseDatelike parsers f (.str s) = .ok w →
      (t.wrapped p).stores w = true := fun hw =>
    h _ _ (validateAndParse_text hlookup (hdescribed key p hlookup) hf hw) key _
      List.mem_cons_self hkey p f hlookup hf _ htype
  constructor
  · obtain ⟨s, w, hw, hholds⟩ := exists_parsed parsers f
    have hne : w ≠ .none := by
      rintro rfl
      cases f <;> cases hholds
    rw [← SqlType.stores_eq_storesFormat hholds, ← SqlType.stores_wrapped hne p]
    exact hstores hw
  · rw [← SqlType.isNullable_wrapped, ← SqlType.stores_none]
    exact hstores (parseDatelike_empty f)

end

/-! ### Parsers -/

/-- Two digits, up to a bound. -/
def digits2 (bound : ℕ) (a b : Char) : Option ℕ :=
  let n := (a.toNat - 48) * 10 + (b.toNat - 48)
  if a.isDigit ∧ b.isDigit ∧ n ≤ bound then some n else none

/-- The form `YYYY-MM-DD`. -/
def plainDate : List Char → Option Date
  | [y₁, y₂, y₃, y₄, '-', m₁, m₂, '-', d₁, d₂] => do
      let century ← digits2 99 y₁ y₂
      let year ← digits2 99 y₃ y₄
      let month ← digits2 12 m₁ m₂
      let day ← digits2 31 d₁ d₂
      if 0 < month ∧ 0 < day ∧ (month ∈ [4, 6, 9, 11] → day ≤ 30) ∧ (month = 2 → day ≤ 28) then
        return ⟨century * 100 + year, month, day⟩
      else none
  | _ => none

/-- The form `HH:MM:SS`. -/
def plainTime : List Char → Option Time
  | [h₁, h₂, ':', m₁, m₂, ':', s₁, s₂] => do
      let hour ← digits2 23 h₁ h₂
      let minute ← digits2 59 m₁ m₂
      let second ← digits2 59 s₁ s₂
      return ⟨hour, minute, second, 0⟩
  | _ => none

/-- Parsers of the plain ISO forms, without leap days. -/
def Parsers.plain : Parsers where
  date s := plainDate s.toList
  dateTime s := do
    let date ← plainDate (s.toList.take 10)
    let time ← plainTime (s.toList.drop 11)
    if s.toList[10]? = some 'T' then return ⟨date, time, none⟩ else none
  time s := (plainTime s.toList).map fun _ => s
  date_empty := rfl
  dateTime_empty := rfl
  time_empty := rfl
  date_epoch := rfl
  dateTime_epoch := rfl
  time_midnight := rfl

/-- A nullable time and a date agree with their columns. -/
theorem nullSafe_nullable_time :
    NullSafe .plain .verbatim .formatsFirst {}
      [("at", .typed (.many [.null, .string]) (some "time")),
        ("on", .typed (.one .string) (some "date"))] [] := by
  refine (nullSafe_iff ?_).2 ?_
  · intro key p hp
    rw [Dict.lookup_cons, Dict.lookup_cons] at hp
    split_ifs at hp
    · obtain rfl := Option.some.inj hp
      exact Or.inl trivial
    · obtain rfl := Option.some.inj hp
      exact Or.inl trivial
    · cases hp
  · intro key p f hp _ hf t ht
    rw [Dict.lookup_cons, Dict.lookup_cons] at hp
    split_ifs at hp
    · obtain rfl := Option.some.inj hp
      obtain rfl := Option.some.inj (Except.ok.inj hf)
      obtain rfl := Except.ok.inj ht
      decide
    · obtain rfl := Option.some.inj hp
      obtain rfl := Option.some.inj (Except.ok.inj hf)
      obtain rfl := Except.ok.inj ht
      decide
    · cases hp

/-- A time that cannot be parsed is stored as `None` in a column of type `String`. -/
theorem not_nullSafe_time :
    ¬ NullSafe .plain .verbatim .formatsFirst {}
      [("at", .typed (.one .string) (some "time"))] [] := by
  intro h
  have hstores := h [("at", .str "noon")] [("at", .none)] rfl "at" .none List.mem_cons_self
    List.not_mem_nil _ .time rfl rfl .string rfl
  exact absurd hstores (by decide)

end TargetClickhouse
