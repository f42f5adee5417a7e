import TargetClickhouse.Repairs
import TargetClickhouse.Timestamps

/-!
# The date-like fields of a record

Which texts of a date property keep their date (`keepsDate_iff`), and for which valid records
`_validate_and_parse` returns (`validateAndParse_returns_iff`).
-/

namespace TargetClickhouse

open Text Dict TopDown

/-! ## Dates -/

namespace Parsers

variable (parsers : Parsers)

/-- The texts of dates are made of digits, hyphens and the letter of the week dates. -/
def IsoDates : Prop :=
  ∀ s D, parsers.date s = some D → ∀ c ∈ s.toList, c.isDigit = true ∨ c = '-' ∨ c = 'W'

/-- The text denotes a date, or a date and a time with a separator between them. -/
inductive Denotes : Option Char → String → Date → Prop where
  | bare {s : String} {D : Date} (h : parsers.date s = some D) : Denotes none s D
  | dateTime {c : Char} {day time : String} {dt : DateTime} (hc : c ∈ ['T', 't', ' '])
      (hday : parsers.date day = some dt.date)
      (h : parsers.dateTime (day ++ String.singleton c ++ time) = some dt) :
      Denotes (some c) (day ++ String.singleton c ++ time) dt.date

variable {parsers} {sep : Option Char} {s : String} {D : Date}

theorem IsoDates.separator_not_mem (hdates : parsers.IsoDates) {c : Char} (hc : c ∈ ['T', 't', ' '])
    (h : parsers.date s = some D) : c ∉ s.toList := by
  intro hmem
  have hchar := hdates s D h c hmem
  fin_cases hc <;> revert hchar <;> decide

/-- The date of a text is kept when its time is set off by the separator that the trimming knows. -/
theorem parseDatelike_date_iff (hdates : parsers.IsoDates) (h : parsers.Denotes sep s D) :
    parseDatelike parsers .date (.str s) = .ok (.date D) ↔ sep = none ∨ sep = some 'T' := by
  have hT : 'T' ∈ ['T', 't', ' '] := by decide
  cases h with
  | bare h =>
    have hsplit := split_of_not_mem (hdates.separator_not_mem hT h)
    refine iff_of_true ?_ (Or.inl rfl)
    rw [parseDatelike, hsplit, List.headD_cons, h]
    rfl
  | @dateTime c day time dt hc hday h =>
    have hT := hdates.separator_not_mem hT hday
    by_cases hsep : c = 'T'
    · obtain rfl := hsep
      refine iff_of_true ?_ (Or.inr rfl)
      rw [parseDatelike, split_append, split_of_not_mem hT, List.singleton_append,
        List.headD_cons, hday]
      rfl
    · refine iff_of_false ?_ ?_
      · -- the first piece goes beyond the separator, and no date has one
        have hmem : c ∈ ((split 'T' (day ++ String.singleton c ++ time)).headD "").toList := by
          have htext : (day ++ String.singleton c ++ time).toList =
              day.toList ++ c :: time.toList := by simp
          have hday' : ∀ x ∈ day.toList, decide (x ≠ 'T') = true := by
            intro x hx
            rw [decide_eq_true_iff]
            rintro rfl
            exact hT hx
          rw [headD_split, htext, List.takeWhile_append_of_pos hday', List.takeWhile_cons,
            if_pos (decide_eq_true hsep)]
          simp
        have hnone : parsers.date ((split 'T' (day ++ String.singleton c ++ time)).headD "") =
            none := by
          rw [Option.eq_none_iff_forall_not_mem]
          exact fun D' hD' => hdates.separator_not_mem hc hD' hmem
        rw [parseDatelike, hnone]
        exact fun he => by cases he
      · rintro (he | he)
        · cases he
        · exact hsep (Option.some.inj he)

end Parsers

section

variable {parsers : Parsers} {sdk : Sdk} {c : Config} {schema : Schema} {record result : Record}
  {properties : List (String × Schema)}

/-- The field at a place of the record, parsed. -/
theorem getElem?_parseTimestamps (h : parseTimestampsInRecord parsers schema record = .ok result)
    {i : ℕ} {key : String} {v : Value} (hi : record[i]? = some (key, v)) :
    ∃ w, result[i]? = some (key, w) ∧ parseTimestampsInField parsers schema key v = .ok w := by
  obtain ⟨⟨key', w⟩, hi', he⟩ := exists_getElem?_right (mapM_eq_ok_iff.1 h) hi
  obtain ⟨w', hw', hpure⟩ := bind_eq_ok_iff.1 he
  obtain ⟨rfl, rfl⟩ := Prod.mk.inj (Except.ok.inj hpure)
  exact ⟨w', hi', hw'⟩

/-- What becomes of a field with a date-like property. -/
theorem parseTimestampsInField_datelike {key : String} {p : Schema} {f : Format}
    (hproperties : schema.properties = .ok properties) (hp : properties.lookup key = some p)
    (hf : p.datelikeType = .ok (some f)) (v : Value) :
    parseTimestampsInField parsers schema key v = parseDatelike parsers f v := by
  rw [parseTimestampsInField, hproperties]
  simp [bind, Except.bind, hp, hf]

/-- A date property keeps the date that its text denotes, with or without a time, exactly when the
text is a bare date or has the separator `T`. -/
theorem keepsDate_iff (hdates : parsers.IsoDates) {sep : Option Char} {s : String} {D : Date}
    (htext : parsers.Denotes sep s D) {i : ℕ} {key : String} {p : Schema}
    (hproperties : schema.properties = .ok properties) (hp : properties.lookup key = some p)
    (hf : p.datelikeType = .ok (some .date)) (hi : record[i]? = some (key, .str s))
    (h : parseTimestampsInRecord parsers schema record = .ok result) :
    result[i]? = some (key, .date D) ↔ sep = none ∨ sep = some 'T' := by
  obtain ⟨w, hi', hw⟩ := getElem?_parseTimestamps h hi
  rw [parseTimestampsInField_datelike hproperties hp hf] at hw
  rw [← Parsers.parseDatelike_date_iff hdates htext, hw, hi']
  simp

end

/-! ## Records that are parsed -/

/-- The values of a format that come out of its parser. -/
inductive Parsers.Yields (parsers : Parsers) : Format → Value → Prop where
  | date {s : String} {d : Date} (h : parsers.date s = some d) : Yields parsers .date (.date d)
  | dateTime {s : String} {dt : DateTime} (h : parsers.dateTime s = some dt) :
      Yields parsers .dateTime (.datetime dt)
  | time {s t : String} (h : parsers.time s = some t) : Yields parsers .time (.str t)

/-- The value is no text and no null. -/
def Value.isNonText : Value → Bool
  | .none => false
  | .str _ => false
  | _ => true

/-- The repair of string values leaves a null or a text, or makes a text. -/
def Schema.readsAsText (p : Schema) : Value → Bool
  | .none => true
  | .str _ => true
  | .dict _ => .string ∈ p.typeNames && .object ∉ p.typeNames
  | .list _ => .string ∈ p.typeNames && .array ∉ p.typeNames
  | _ => .string ∈ p.typeNames

section

variable {parsers : Parsers} {sdk : Sdk} {c : Config} {schema p : Schema} {f : Format}
  {record repaired result : Record} {properties : List (String × Schema)} {v w : Value}

theorem parseDatelike_eq_error (hv : v.isNonText = true) :
    ∃ e, parseDatelike parsers f v = .error e := by
  cases v <;> first | exact ⟨_, rfl⟩ | cases hv

theorem parseDatelike_eq_ok_of_text (hv : v.isNonText = false) :
    ∃ w, parseDatelike parsers f v = .ok w := by
  cases v <;> first | exact ⟨_, rfl⟩ | cases hv

/-- A parsed value is `None`, or comes out of the parser of the format. -/
theorem yields_of_parseDatelike (h : parseDatelike parsers f v = .ok w) :
    w = .none ∨ parsers.Yields f w := by
  cases v with
  | none => exact Or.inl (Except.ok.inj h).symm
  | str s =>
    obtain rfl := Except.ok.inj h
    cases f with
    | time =>
      rcases ht : parsers.time s with _ | t
      · exact Or.inl rfl
      · exact Or.inr (.time ht)
    | date =>
      rcases hd : parsers.date ((split 'T' s).headD "") with _ | d
      · exact Or.inl rfl
      · exact Or.inr (.date hd)
    | dateTime =>
      rcases hdt : parsers.dateTime s with _ | dt
      · exact Or.inl rfl
      · exact Or.inr (.dateTime hdt)
  | _ => cases h

/-- A value that may become a text. -/
theorem isNonText_of_toText {a : Action String Mode Value} (ha : p.toText sdk v = .ok a)
    (hr : Rewrites Value.shape (Mode.action sdk) (.field (.ok (some p))) v w)
    (hm : p.repair sdk v = p.toText sdk v) (hv : v.isNonText = true) :
    w.isNonText = false ↔ .string ∈ p.typeNames := by
  have haction : (Mode.field (.ok (some p))).action sdk v = .ok a := hm.trans ha
  rcases Schema.toText_eq_ok ha with ⟨hstring, text, rfl⟩ | ⟨hstring, rfl⟩
  · rw [(rewrites_iff_of_replace haction).1 hr]
    exact iff_of_true rfl hstring
  · rw [(rewrites_iff_of_keep haction).1 hr, hv]
    exact iff_of_false Bool.noConfusion hstring

/-- A container that is descended into, or kept as it is, stays a container. -/
theorem isNonText_of_container {a : Action String Mode Value}
    (haction : (Mode.field (.ok (some p))).action sdk v = .ok a)
    (hr : Rewrites Value.shape (Mode.action sdk) (.field (.ok (some p))) v w)
    (hv : v.isContainer = true) (ha : ∀ r, a ≠ .replace r) : w.isNonText = true := by
  cases a with
  | keep =>
    rw [(rewrites_iff_of_keep haction).1 hr]
    cases v <;> first | rfl | cases hv
  | replace r => exact absurd rfl (ha r)
  | descend mode =>
    cases v with
    | dict fields =>
      obtain ⟨fields', rfl, -⟩ := (rewrites_dict_iff haction).1 hr
      rfl
    | list xs =>
      obtain ⟨ys, rfl, -⟩ := (rewrites_list_iff haction).1 hr
      rfl
    | _ => cases hv

/-- A repaired value is a null or a text exactly when the property reads the value as text. -/
theorem isNonText_of_preValidateField (hp : p.datelikeType = .ok (some f))
    (h : preValidateField sdk p v = .ok w) : w.isNonText = false ↔ p.readsAsText v = true := by
  have hr := ((repairRewrites v).field p w).1 h
  obtain ⟨a, ha⟩ := exists_act_of_rewrites hr
  have harepair : p.repair sdk v = .ok a := ha
  cases p with
  | bool b => cases hp
  | dict type format properties items anyOf oneOf =>
    cases v with
    | none =>
      refine iff_of_true ?_ rfl
      rcases Schema.repair_none_eq_ok harepair with ⟨rfl, -⟩ | ⟨⟨text, rfl⟩, -⟩
      · rw [(rewrites_iff_of_keep ha).1 hr]
        rfl
      · rw [(rewrites_iff_of_replace ha).1 hr]
        rfl
    | str s =>
      obtain ⟨⟩ := ha
      refine iff_of_true ?_ rfl
      rw [(rewrites_iff_of_keep rfl).1 hr]
      rfl
    | dict fields =>
      simp only [Schema.repair] at harepair
      simp only [Schema.readsAsText, Bool.and_eq_true, decide_eq_true_iff]
      split_ifs at harepair with hobject
      · obtain ⟨⟩ := harepair
        rw [isNonText_of_container ha hr rfl fun r => nofun]
        exact iff_of_false Bool.noConfusion fun h => h.2 hobject
      · rw [isNonText_of_toText harepair hr (if_neg hobject) rfl, and_iff_left hobject]
    | list xs =>
      simp only [Schema.repair] at harepair
      simp only [Schema.readsAsText, Bool.and_eq_true, decide_eq_true_iff]
      split_ifs at harepair with harray
      · obtain ⟨itemsSchema, -, rfl⟩ := map_eq_ok_iff.1 harepair
        rw [isNonText_of_container ha hr rfl fun r => by cases itemsSchema <;> nofun]
        exact iff_of_false Bool.noConfusion fun h => h.2 harray
      · rw [isNonText_of_toText harepair hr (if_neg harray) rfl, and_iff_left harray]
    | _ =>
      rw [isNonText_of_toText harepair hr rfl rfl]
      simp [Schema.readsAsText]

variable (parsers properties) in
/-- What a repaired field is parsed to. -/
structure FieldParsed (kv kv' : String × Value) : Prop where
  key : kv'.1 = kv.1
  /-- A date-like property gets `None` or a parsed value, or keeps a value that is no text and that
  its schema admits. -/
  datelike : ∀ p f, properties.lookup kv.1 = some p → p.datelikeType = .ok (some f) →
    kv'.2 = .none ∨ parsers.Yields f kv'.2 ∨
      kv'.2 = kv.2 ∧ kv.2.isNonText = true ∧ p.admits kv.2 = true
  other : (∀ p f, properties.lookup kv.1 = some p → p.datelikeType ≠ .ok (some f)) →
    kv'.2 = kv.2

theorem Schema.eq_of_isTyped (h : p.IsTyped) :
    ∃ type format, p = .dict type format none .absent none none := by
  rcases p with b | ⟨type, format, _ | properties, _ | s | ss, _ | branches, _ | branches'⟩
  all_goals first | exact ⟨type, format, rfl⟩ | cases h

theorem Schema.exists_stringFormat (h : p.IsTyped) : ∃ found, p.stringFormat = .ok found := by
  obtain ⟨_ | type, _ | format, rfl⟩ := eq_of_isTyped h <;> exact ⟨_, rfl⟩

theorem Schema.exists_firstFormat {branches : List Schema} (h : ∀ b ∈ branches, b.IsTyped) :
    ∃ found, firstFormat branches = .ok found := by
  induction branches with
  | nil => exact ⟨none, rfl⟩
  | cons b branches ih =>
    obtain ⟨hb, hbranches⟩ := List.forall_mem_cons.1 h
    obtain ⟨found, hfound⟩ := exists_stringFormat hb
    obtain ⟨rest, hrest⟩ := ih hbranches
    rw [firstFormat, hfound]
    cases found with
    | none => exact ⟨rest, hrest⟩
    | some f => exact ⟨some f, rfl⟩

theorem Schema.exists_datelikeType (h : p.IsDescribed) : ∃ found, p.datelikeType = .ok found := by
  rcases h with h | ⟨branches, rfl, hbranches⟩
  · obtain ⟨found, hfound⟩ := exists_stringFormat h
    obtain ⟨type, format, rfl⟩ := eq_of_isTyped h
    unfold datelikeType
    rw [hfound]
    cases found with
    | some f => exact ⟨some f, rfl⟩
    | none => exact ⟨none, rfl⟩
  · exact exists_firstFormat hbranches

/-- What becomes of a field whose property is not date-like. -/
theorem parseTimestampsInField_other {key : String}
    (hdescribed : ∀ p, properties.lookup key = some p → p.IsDescribed)
    (h : ∀ p f, properties.lookup key = some p → p.datelikeType ≠ .ok (some f)) :
    parseTimestampsInField parsers (.object properties) key v = .ok v := by
  have hproperties : (Schema.object properties).properties = .ok properties := rfl
  rw [parseTimestampsInField, hproperties]
  rcases hp : properties.lookup key with _ | p
  · simp [bind, Except.bind, hp, pure, Except.pure]
  · obtain ⟨found, hfound⟩ := Schema.exists_datelikeType (hdescribed p hp)
    cases found with
    | none => simp [bind, Except.bind, hp, hfound, pure, Except.pure]
    | some f => exact absurd hfound (h p f hp)

/-- A field is parsed exactly when its property is not date-like or its value is a null or a text. -/
theorem parseTimestampsInField_isOk_iff {key : String}
    (hdescribed : ∀ p, properties.lookup key = some p → p.IsDescribed) :
    (∃ w, parseTimestampsInField parsers (.object properties) key v = .ok w) ↔
      ∀ p f, properties.lookup key = some p → p.datelikeType = .ok (some f) →
        v.isNonText = false := by
  by_cases hother : ∃ p f, properties.lookup key = some p ∧ p.datelikeType = .ok (some f)
  · obtain ⟨p, f, hp, hf⟩ := hother
    rw [parseTimestampsInField_datelike rfl hp hf]
    constructor
    · rintro ⟨w, hw⟩ _ _ _ _
      rw [Bool.eq_false_iff]
      intro hv
      obtain ⟨e, he⟩ : ∃ e, parseDatelike parsers f v = .error e := parseDatelike_eq_error hv
      cases he.symm.trans hw
    · exact fun h => parseDatelike_eq_ok_of_text (h p f hp hf)
  · have hother' : ∀ p f, properties.lookup key = some p → p.datelikeType ≠ .ok (some f) :=
      fun p f hp hf => hother ⟨p, f, hp, hf⟩
    exact iff_of_true ⟨v, parseTimestampsInField_other hdescribed hother'⟩
      fun p f hp hf => absurd hf (hother' p f hp)

theorem fieldParsed_of_parse {key : String}
    (hdescribed : ∀ p, properties.lookup key = some p → p.IsDescribed)
    (h : parseTimestampsInField parsers (.object properties) key v = .ok w) :
    FieldParsed parsers properties (key, v) (key, w) where
  key := rfl
  datelike p f hp hf := by
    rw [parseTimestampsInField_datelike rfl hp hf] at h
    rcases yields_of_parseDatelike h with hnone | hyields
    · exact Or.inl hnone
    · exact Or.inr (Or.inl hyields)
  other hother := by
    rw [parseTimestampsInField_other hdescribed hother] at h
    exact (Except.ok.inj h).symm

/-- The timestamps of a record are parsed exactly when its date-like fields hold nulls and texts. -/
theorem parseTimestampsInRecord_isOk_iff
    (hdescribed : ∀ key p, properties.lookup key = some p → p.IsDescribed) :
    (∃ result, parseTimestampsInRecord parsers (.object properties) repaired = .ok result ∧
        List.Forall₂ (FieldParsed parsers properties) repaired result) ↔
      ∀ kv ∈ repaired, ∀ p f, properties.lookup kv.1 = some p → p.datelikeType = .ok (some f) →
        kv.2.isNonText = false := by
  have hfield : ∀ kv kv' : String × Value, (do
      let value ← parseTimestampsInField parsers (.object properties) kv.1 kv.2
      return (kv.1, value)) = Except.ok kv' ↔ kv'.1 = kv.1 ∧
        parseTimestampsInField parsers (.object properties) kv.1 kv.2 = .ok kv'.2 := by
    rintro kv ⟨key', w⟩
    rcases parseTimestampsInField parsers (.object properties) kv.1 kv.2 with e | w'
    · exact iff_of_false (fun h => by cases h) fun h => by cases h.2
    · simp [bind, Except.bind, pure, Except.pure, eq_comm]
  simp only [parseTimestampsInRecord, mapM_eq_ok_iff, hfield]
  constructor
  · rintro ⟨result, h, -⟩ kv hkv
    obtain ⟨kv', -, -, hw⟩ := exists_of_mem_left h hkv
    exact (parseTimestampsInField_isOk_iff (hdescribed kv.1)).1 ⟨kv'.2, hw⟩
  · intro h
    have hparsed : ∀ kv ∈ repaired, ∃ kv' : String × Value, kv'.1 = kv.1 ∧
        parseTimestampsInField parsers (.object properties) kv.1 kv.2 = .ok kv'.2 := by
      intro kv hkv
      obtain ⟨w, hw⟩ := (parseTimestampsInField_isOk_iff (hdescribed kv.1)).2 (h kv hkv)
      exact ⟨(kv.1, w), rfl, hw⟩
    obtain ⟨result, hresult⟩ := exists_forall₂_iff.2 hparsed
    refine ⟨result, hresult, hresult.imp ?_⟩
    rintro ⟨key, v⟩ ⟨key', w⟩ ⟨hkey, hw⟩
    obtain rfl : key' = key := hkey
    exact fieldParsed_of_parse (hdescribed key') hw

/-- A record that is valid after the repair is parsed, field by field, exactly when every date-like
property reads the value of its field as a text. -/
theorem validateAndParse_returns_iff
    (hdescribed : ∀ key p, properties.lookup key = some p → p.IsDescribed)
    (hrepaired : preValidateForStringType sdk (.object properties) record = .ok repaired)
    (hvalid : (Schema.object properties).admits (.dict repaired) = true) :
    (∃ result, validateAndParse parsers sdk c (.object properties) record = .ok result ∧
        List.Forall₂ (FieldParsed parsers properties) repaired result) ↔
      ∀ kv ∈ record, ∀ p f, properties.lookup kv.1 = some p → p.datelikeType = .ok (some f) →
        p.readsAsText kv.2 = true := by
  have hparse : validateAndParse parsers sdk c (.object properties) record =
      parseTimestampsInRecord parsers (.object properties) repaired := by
    rw [validateAndParse, hrepaired]
    simp [bind, Except.bind, hvalid]
  rw [hparse, parseTimestampsInRecord_isOk_iff hdescribed]
  have hfields := preValidateForStringType_eq_ok_iff.1 hrepaired
  have hfield : ∀ kv kv' : String × Value, kv'.1 = kv.1 ∧
      preValidateProperty sdk ((Schema.object properties).property kv.1) kv.2 = .ok kv'.2 →
      ∀ p f, properties.lookup kv.1 = some p → p.datelikeType = .ok (some f) →
        (kv'.2.isNonText = false ↔ p.readsAsText kv.2 = true) := by
    rintro kv kv' ⟨-, hkv⟩ p f hp hf
    have hproperty : (Schema.object properties).property kv.1 = .ok (some p) := congrArg _ hp
    rw [hproperty] at hkv
    exact isNonText_of_preValidateField hf hkv
  constructor
  · intro h kv hkv p f hp hf
    obtain ⟨kv', hkv', hR⟩ := exists_of_mem_left hfields hkv
    exact (hfield kv kv' hR p f hp hf).1 (h kv' hkv' p f (hR.1 ▸ hp) hf)
  · intro h kv' hkv' p f hp hf
    obtain ⟨kv, hkv, hR⟩ := exists_of_mem_right hfields hkv'
    have hp' : properties.lookup kv.1 = some p := hR.1 ▸ hp
    exact (hfield kv kv' hR p f hp' hf).2 (h kv hkv p f hp' hf)

end

/-! ### Texts -/

theorem plainDate_chars {cs : List Char} {D : Date} (h : plainDate cs = some D) :
    ∀ c ∈ cs, c.isDigit = true ∨ c = '-' ∨ c = 'W' := by
  have hdigits : ∀ {bound n : ℕ} {a b : Char}, digits2 bound a b = some n →
      a.isDigit = true ∧ b.isDigit = true := by
    intro bound n a b hn
    simp only [digits2] at hn
    split_ifs at hn with hab
    exact ⟨hab.1, hab.2.1⟩
  unfold plainDate at h
  split at h
  · obtain ⟨century, hcentury, h⟩ := Option.bind_eq_some_iff.1 h
    obtain ⟨year, hyear, h⟩ := Option.bind_eq_some_iff.1 h
    obtain ⟨month, hmonth, h⟩ := Option.bind_eq_some_iff.1 h
    obtain ⟨day, hday, -⟩ := Option.bind_eq_some_iff.1 h
    simp [hdigits hcentury, hdigits hyear, hdigits hmonth, hdigits hday]
  · cases h

/-- Parsers that take any separator between the date and the time. -/
def Parsers.anySeparator : Parsers :=
  { Parsers.plain with
    dateTime := fun s => do
      let date ← plainDate (s.toList.take 10)
      let time ← plainTime (s.toList.drop 11)
      return ⟨date, time, none⟩
    dateTime_empty := rfl
    dateTime_epoch := rfl }

theorem Parsers.anySeparator_isoDates : Parsers.anySeparator.IsoDates := fun _ _ h =>
  plainDate_chars h

/-- A property of dates. -/
def dateSchema : Schema := .object [("on", .typed (.one .string) (some "date"))]

/-- Ten o'clock on New Year's Day. -/
def tenOClock : DateTime := ⟨⟨2024, 1, 1⟩, ⟨10, 0, 0, 0⟩, none⟩

/-- A date with a time after the separator `T` is kept. -/
theorem keepsDate_trimmed :
    ∃ result, parseTimestampsInRecord .anySeparator dateSchema
        [("on", .str ("2024-01-01" ++ String.singleton 'T' ++ "10:00:00"))] = .ok result ∧
      result[0]? = some ("on", .date tenOClock.date) := by
  have htext : Parsers.anySeparator.Denotes (some 'T')
      ("2024-01-01" ++ String.singleton 'T' ++ "10:00:00") tenOClock.date :=
    .dateTime (by decide) rfl rfl
  have h : parseTimestampsInRecord .anySeparator dateSchema
      [("on", .str ("2024-01-01" ++ String.singleton 'T' ++ "10:00:00"))] =
      .ok [("on", .date tenOClock.date)] := rfl
  exact ⟨_, h, (keepsDate_iff Parsers.anySeparator_isoDates htext rfl rfl rfl rfl h).2 (Or.inr rfl)⟩

/-- The date is lost when the separator is a blank. -/
theorem not_keepsDate_blank :
    Parsers.anySeparator.Denotes (some ' ')
        ("2024-01-01" ++ String.singleton ' ' ++ "10:00:00") tenOClock.date ∧
      parseTimestampsInRecord .anySeparator dateSchema
        [("on", .str ("2024-01-01" ++ String.singleton ' ' ++ "10:00:00"))] =
        .ok [("on", .none)] :=
  ⟨.dateTime (by decide) rfl rfl, rfl⟩

/-- A date or a number. -/
def dateOrNumber : Schema :=
  .any [.typed (.one .string) (some "date-time"), .typed (.one .integer) none]

theorem dateOrNumber_isDescribed {key : String} {p : Schema}
    (hp : ([("at", dateOrNumber)] : List (String × Schema)).lookup key = some p) :
    p.IsDescribed := by
  rw [Dict.lookup_cons] at hp
  split_ifs at hp
  · obtain rfl := Option.some.inj hp
    refine Or.inr ⟨_, rfl, ?_⟩
    simp [Schema.typed, Schema.IsTyped]
  · cases hp

/-- A date and a time under a property that takes numbers too. -/
theorem validateAndParse_returns_text :
    ∃ result, validateAndParse .plain .verbatim {} (.object [("at", dateOrNumber)])
        [("at", .str "2024-01-01T10:00:00")] = .ok result ∧
      List.Forall₂ (FieldParsed .plain [("at", dateOrNumber)])
        [("at", .str "2024-01-01T10:00:00")] result := by
  refine (validateAndParse_returns_iff (fun _ _ => dateOrNumber_isDescribed) rfl rfl).2 ?_
  intro kv hkv p f hp _
  obtain rfl := List.mem_singleton.1 hkv
  obtain rfl := Option.some.inj hp
  rfl

/-- A number is valid under the property, and reaches the parser of date-times. -/
theorem not_validateAndParse_returns_number :
    preValidateForStringType .verbatim (.object [("at", dateOrNumber)]) [("at", .int 5)] =
        .ok [("at", .int 5)] ∧
      (Schema.object [("at", dateOrNumber)]).admits (.dict [("at", .int 5)]) = true ∧
      validateAndParse .plain .verbatim {} (.object [("at", dateOrNumber)]) [("at", .int 5)] =
        .error .typeError :=
  ⟨rfl, rfl, rfl⟩

end TargetClickhouse
