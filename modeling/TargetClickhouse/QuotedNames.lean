import TargetClickhouse.Names

/-!
# Splitting qualified names

`_split_database_table` applied to the names that a database and a table are written as, each bare,
in backticks or in the double quotes of the dialect (`splitsBack_iff`).
-/

namespace TargetClickhouse

open Text

/-! ## Quoting -/

/-- How a backtick is written between backticks; a backslash is always doubled. -/
inductive BacktickEscape where
  | doubled
  | backslash
  deriving DecidableEq, Repr

/-- What stands before a backtick. -/
def BacktickEscape.mark : BacktickEscape → Char
  | doubled => '\x60'
  | backslash => '\\'

def BacktickEscape.char (e : BacktickEscape) (c : Char) : List Char :=
  if c = '\x60' then [e.mark, c] else if c = '\\' then [c, c] else [c]

/-- How a name is written that is no plain identifier. -/
inductive QuoteStyle where
  | backticks (escape : BacktickEscape)
  /-- The double quotes of the dialect. -/
  | doubleQuotes
  deriving DecidableEq, Repr

/-- A part of a qualified name, quoted where it has to be. -/
def Naming.writePart (naming : Naming) : QuoteStyle → String → String
  | .backticks e, s =>
      if naming.bare s then s
      else String.singleton '\x60' ++ Text.escape e.char s ++ String.singleton '\x60'
  | .doubleQuotes, s => naming.quote s

/-- The qualified name of a table in a database. -/
def Naming.writeQualified (naming : Naming) (style style' : QuoteStyle) (d t : String) : String :=
  naming.writePart style d ++ "." ++ naming.writePart style' t

/-- A part that a split reads back: it is bare, or stands between backticks that it has no use for.
-/
def Naming.SplitsPart (naming : Naming) (style : QuoteStyle) (s : String) : Prop :=
  naming.bare s = true ∨
    (∃ e, style = .backticks e) ∧ ∀ c ∈ s.toList, c ≠ '.' ∧ c ≠ '\x60' ∧ c ≠ '\\'

section

variable {naming : Naming} {style style' : QuoteStyle} {s d t : String}

theorem BacktickEscape.char_of_ne {e : BacktickEscape} {c : Char} (hb : c ≠ '\x60')
    (hs : c ≠ '\\') : e.char c = [c] := by
  rw [char, if_neg hb, if_neg hs]

theorem BacktickEscape.char_eq_self_iff {e : BacktickEscape} {c : Char} :
    e.char c = [c] ↔ c ≠ '\x60' ∧ c ≠ '\\' := by
  constructor
  · intro h
    unfold char at h
    split_ifs at h with hb hs
    · exact absurd (congrArg List.length h) (by simp)
    · exact absurd (congrArg List.length h) (by simp)
    · exact ⟨hb, hs⟩
  · exact fun h => char_of_ne h.1 h.2

/-- A character other than a backtick is written without one. -/
theorem BacktickEscape.mem_char {e : BacktickEscape} {c d : Char} (hc : c ≠ '\x60')
    (hd : d ∈ e.char c) : d = c := by
  unfold char at hd
  rw [if_neg hc] at hd
  split_ifs at hd <;> simpa using hd

/-- Between backticks, a name is stripped to itself exactly when it has nothing to escape. -/
theorem stripPart_backticks_iff (e : BacktickEscape) :
    stripPart (String.singleton '\x60' ++ Text.escape e.char s ++ String.singleton '\x60') = s ↔
      ∀ c ∈ s.toList, c ≠ '\x60' ∧ c ≠ '\\' := by
  rw [stripPart, strip_delimited (by decide), strip_enclosed (by decide), strip_escape_eq_self_iff]
  · exact forall₂_congr fun c _ => BacktickEscape.char_eq_self_iff
  · intro c
    unfold BacktickEscape.char
    split_ifs
    · exact Or.inr (by simp)
    · exact Or.inr (by simp)
    · exact Or.inl rfl
  · intro c hc
    simpa using (BacktickEscape.char_eq_self_iff.1 hc).1
  · intro c d hc hd
    have hne : c ≠ '\x60' := by simpa using hc
    rw [BacktickEscape.mem_char hne (List.mem_of_head? hd)]
    exact hc
  · intro c d hc hd
    have hne : c ≠ '\x60' := by simpa using hc
    rw [BacktickEscape.mem_char hne (List.mem_of_getLast? hd)]
    exact hc

theorem dot_mem_backticks (e : BacktickEscape) :
    '.' ∈ (String.singleton '\x60' ++ Text.escape e.char s ++ String.singleton '\x60').toList ↔
      '.' ∈ s.toList := by
  have hchar : ∀ c, '.' ∈ e.char c ↔ c = '.' := by
    intro c
    unfold BacktickEscape.char
    split_ifs with hb hs
    · cases e <;> simp [BacktickEscape.mark, hb]
    · simp [hs]
    · simp [eq_comm]
  simp [Text.escape, List.mem_flatMap, hchar]

/-- A part is read back exactly if its text has no dot and is stripped to the part. -/
theorem splitsPart_iff : naming.SplitsPart style s ↔
    '.' ∉ (naming.writePart style s).toList ∧ stripPart (naming.writePart style s) = s := by
  by_cases hb : naming.bare s = true
  · have hplain := naming.plain_of_bare hb
    have hwrite : naming.writePart style s = s := by
      cases style with
      | backticks e => exact if_pos hb
      | doubleQuotes => exact Naming.quote_of_bare hb
    rw [hwrite]
    exact iff_of_true (Or.inl hb)
      ⟨Naming.not_mem_of_plain hplain, Naming.stripPart_of_plain hplain⟩
  · rw [Naming.SplitsPart, or_iff_right hb]
    cases style with
    | backticks e =>
      rw [Naming.writePart, if_neg hb, dot_mem_backticks, stripPart_backticks_iff,
        and_iff_right ⟨e, rfl⟩]
      constructor
      · intro h
        exact ⟨fun hdot => (h '.' hdot).1 rfl, fun c hc => (h c hc).2⟩
      · rintro ⟨hdot, h⟩ c hc
        exact ⟨fun he => hdot (he ▸ hc), h c hc⟩
    | doubleQuotes =>
      -- the quotes of the dialect are not stripped
      refine iff_of_false (fun ⟨⟨e, he⟩, _⟩ => by cases he) ?_
      rintro ⟨-, hstrip⟩
      rw [Naming.writePart, Naming.quote_of_not_bare hb, stripPart_quoted,
        ← Naming.quote_of_not_bare hb] at hstrip
      exact Naming.quote_ne hb hstrip

end

/-- The split of the qualified name gives database and table, that of the table's name the table
alone, and the fast insert addresses the table that the statements do. -/
structure SplitsBack (naming : Naming) (style style' : QuoteStyle) (d t : String) : Prop where
  qualified : splitDatabaseTable (naming.writeQualified style style' d t) = (some d, t)
  unqualified : splitDatabaseTable (naming.writePart style' t) = (none, t)
  addresses : ∀ c : Config,
    naming.resolve (naming.writeQualified style style' d t) = some (some d, t) →
      ∀ stmt : Statement, (stmt.tableRef (naming.writeQualified style style' d t)).address naming c =
        some (c.address (some d) t)

section

variable {naming : Naming} {style style' : QuoteStyle} {d t : String}

/-- Two texts are split at the dot between them exactly when they have no other. -/
theorem splitDatabaseTable_eq_some_iff {a b : String} :
    splitDatabaseTable (a ++ "." ++ b) = (some d, t) ↔
      ('.' ∉ a.toList ∧ stripPart a = d) ∧ '.' ∉ b.toList ∧ stripPart b = t := by
  have hsplit : split '.' (a ++ "." ++ b) = split '.' a ++ split '.' b := split_append a b
  constructor
  · intro h
    have hfst := congrArg Prod.fst h
    rw [fst_splitDatabaseTable, hsplit, List.length_append, length_split, length_split] at hfst
    have hcount : a.toList.count '.' = 0 ∧ b.toList.count '.' = 0 := by
      split_ifs at hfst
      omega
    have ha := List.count_eq_zero.1 hcount.1
    have hb := List.count_eq_zero.1 hcount.2
    unfold splitDatabaseTable at h
    rw [hsplit, split_of_not_mem ha, split_of_not_mem hb] at h
    obtain ⟨hd, ht⟩ := Prod.mk.inj h
    exact ⟨⟨ha, Option.some.inj hd⟩, hb, ht⟩
  · rintro ⟨⟨ha, rfl⟩, hb, rfl⟩
    unfold splitDatabaseTable
    rw [hsplit, split_of_not_mem ha, split_of_not_mem hb]
    rfl

/-- A table name without a database. -/
theorem splitDatabaseTable_of_not_mem {b : String} (hb : '.' ∉ b.toList) :
    splitDatabaseTable b = (none, stripPart b) := by
  unfold splitDatabaseTable
  rw [split_of_not_mem hb]
  rfl

theorem addresses_of_split {text : String} (h : splitDatabaseTable text = (some d, t)) {c : Config}
    (hresolve : naming.resolve text = some (some d, t)) (stmt : Statement) :
    (stmt.tableRef text).address naming c = some (c.address (some d) t) := by
  refine forall_address_iff.2 ⟨?_, ?_⟩ stmt
  · rw [h]
  · rw [TableRef.address, hresolve]
    rfl

/-- The split undoes the qualification exactly when it reads both parts back. -/
theorem splitsBack_iff : SplitsBack naming style style' d t ↔
    naming.SplitsPart style d ∧ naming.SplitsPart style' t := by
  rw [splitsPart_iff, splitsPart_iff]
  constructor
  · exact fun h => splitDatabaseTable_eq_some_iff.1 h.qualified
  · intro h
    have hqualified := splitDatabaseTable_eq_some_iff.2 h
    obtain ⟨-, hdot, hstrip⟩ := h
    refine ⟨hqualified, ?_, fun c hresolve => addresses_of_split hqualified hresolve⟩
    rw [splitDatabaseTable_of_not_mem hdot, hstrip]

end

/-- A database with a dot between backticks, and one with a blank between double quotes. -/
theorem not_splitsBack_quoted :
    (splitDatabaseTable (Naming.identifiers.writeQualified (.backticks .backslash)
        (.backticks .backslash) "a.b" "t") = (none, "t") ∧
      ¬ SplitsBack .identifiers (.backticks .backslash) (.backticks .backslash) "a.b" "t") ∧
    splitDatabaseTable (Naming.identifiers.writeQualified .doubleQuotes .doubleQuotes "my db" "t") =
        (some (String.singleton '"' ++ "my db" ++ String.singleton '"'), "t") ∧
      ¬ SplitsBack .identifiers .doubleQuotes .doubleQuotes "my db" "t" := by
  refine ⟨⟨by decide, fun h => ?_⟩, by decide, fun h => ?_⟩
  · exact absurd h.qualified (by decide)
  · exact absurd h.qualified (by decide)

end TargetClickhouse
