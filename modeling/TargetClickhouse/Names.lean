import TargetClickhouse.Config
import TargetClickhouse.Lib.Text

/-!
# Table names

The name of the sink's table is derived along several routes: `full_table_name` gives the configured
name or the qualified name of the stream, `create_empty_table` parses it and creates a table, the
fast insert splits its text into the arguments of the clickhouse-connect client, and every other
statement of the sink pastes its text into SQL.  `sameTable_iff` says for which settings and streams
all routes lead to one table.
-/

namespace TargetClickhouse

open Text

/-- How the dialect writes identifiers and how the server reads the table name of a statement.
`bare` holds of the names that the dialect's `identifier_preparer` leaves unquoted, `plain` of those
that the server reads as themselves when they are written unquoted. -/
structure Naming where
  bare : String → Bool
  plain : String → Bool
  /-- What the dialect writes between the double quotes of a quoted name. -/
  escape : String → String
  /-- The database and table that a statement with this text addresses. -/
  resolve : String → Option (Option String × String)
  le_length_escape : ∀ s : String, s.toList.length ≤ (escape s).toList.length
  dot_mem_escape : ∀ s : String, '.' ∈ (escape s).toList ↔ '.' ∈ s.toList
  ne_empty_of_plain : ∀ {s}, plain s = true → s ≠ ""
  chars_of_plain : ∀ {s}, plain s = true → ∀ c ∈ s.toList, c ≠ '.' ∧ c ≠ '\x60' ∧ isSpace c = false
  plain_of_bare : ∀ {s}, bare s = true → plain s = true
  resolve_plain : ∀ {t}, plain t = true → resolve t = some (none, t)
  resolve_qualified : ∀ {d t}, plain d = true → plain t = true →
    resolve (d ++ "." ++ t) = some (some d, t)
  /-- Only a name that needs no quotes is written as itself. -/
  plain_of_resolve : ∀ {d s}, resolve s = some (d, s) → plain s = true

/-- The value of `full_table_name`: the configured text, or the SDK's `FullyQualifiedName`. -/
inductive TableName where
  | text (s : String)
  | qualified (database schema : Option String) (table : String)
  deriving DecidableEq, Repr

/-- A database and a table in it. -/
structure Address where
  database : String
  table : String
  deriving DecidableEq, Repr

/-- The address with an absent database meaning the configured one. -/
def Config.address (c : Config) (database : Option String) (table : String) : Address :=
  ⟨(database.filter (· ≠ "")).getD c.database, table⟩

namespace Naming

variable (naming : Naming)

/-- `identifier_preparer.quote`. -/
def quote (s : String) : String :=
  if naming.bare s then s
  else String.singleton '"' ++ naming.escape s ++ String.singleton '"'

end Naming

namespace TableName

variable (naming : Naming)

/-- The non-empty parts of a `FullyQualifiedName`. -/
def parts : TableName → List String
  | .text s => [s]
  | .qualified database schema table =>
      ((database.toList ++ schema.toList) ++ [table]).filter (· ≠ "")

/-- `str(full_table_name)`: the parts as the dialect quotes them, with dots between them. -/
def toText : TableName → String
  | .text s => s
  | n@(.qualified ..) => ".".intercalate (n.parts.map naming.quote)

end TableName

/-- The SDK's `parse_full_table_name`: database, schema and table. -/
def parseFullTableName : TableName → Except Exn (Option String × Option String × String)
  | .qualified database schema table => .ok (database, schema, table)
  | .text s =>
      match split '.' s with
      | [table] => .ok (none, none, table)
      | [schema, table] => .ok (none, some schema, table)
      | [database, schema, table] => .ok (some database, some schema, table)
      | _ => .error (.other 0)

/-- `p.strip().strip(backtick)`. -/
def stripPart (p : String) : String := strip (· = '\x60') (strip isSpace p)

/-- `_split_database_table`. -/
def splitDatabaseTable (fullTableName : String) : Option String × String :=
  let parts := (split '.' fullTableName).map stripPart
  match parts with
  | [database, table] => (some database, table)
  | _ => (none, parts.getLastD "")

/-- How a statement names its table: in the client's `database` and `table` arguments, or by text
pasted into SQL. -/
inductive TableRef where
  | arguments (database : Option String) (table : String)
  | pasted (text : String)
  deriving DecidableEq, Repr

/-- The statements of the sink that are built from `full_table_name`. -/
inductive Statement where
  | fastInsert
  | fastArrowInsert
  | nativeInsert
  | optimize
  | alterDelete
  | alterUpdate
  deriving DecidableEq, Repr

def Statement.tableRef (fullTableName : String) : Statement → TableRef
  | .fastInsert =>
      let (database, table) := splitDatabaseTable fullTableName
      .arguments database table
  | .fastArrowInsert =>
      let (database, table) := splitDatabaseTable fullTableName
      .arguments database table
  | .nativeInsert => .pasted fullTableName
  | .optimize => .pasted fullTableName
  | .alterDelete => .pasted fullTableName
  | .alterUpdate => .pasted fullTableName

/-- The table that a statement addresses. -/
def TableRef.address (naming : Naming) (c : Config) : TableRef → Option Address
  | .arguments database table => some (c.address database table)
  | .pasted text => (naming.resolve text).map fun (database, table) => c.address database table

/-- A statement passes its table as the split of the name, or pastes the name. -/
theorem forall_address_iff {naming : Naming} {c : Config} {text : String} {a : Address} :
    (∀ stmt : Statement, (stmt.tableRef text).address naming c = some a) ↔
      c.address (splitDatabaseTable text).1 (splitDatabaseTable text).2 = a ∧
        (TableRef.pasted text).address naming c = some a := by
  constructor
  · intro h
    exact ⟨Option.some.inj (h .fastInsert), h .optimize⟩
  · rintro ⟨hfast, hpasted⟩ stmt
    cases stmt with
    | fastInsert => exact congrArg some hfast
    | fastArrowInsert => exact congrArg some hfast
    | nativeInsert => exact hpasted
    | optimize => exact hpasted
    | alterDelete => exact hpasted
    | alterUpdate => exact hpasted

/-! ## Splitting -/

theorem snd_splitDatabaseTable (s : String) :
    (splitDatabaseTable s).2 = stripPart ((split '.' s).getLastD "") := by
  have hne := split_ne_nil '.' s
  unfold splitDatabaseTable
  rcases hs : split '.' s with _ | ⟨a, _ | ⟨b, _ | ⟨c, l⟩⟩⟩
  · exact absurd hs hne
  · rfl
  · rfl
  · simp [List.getLastD_eq_getLast?, List.getLast?_map, List.getLast?_cons]

/-- Only a text with exactly one dot names a database. -/
theorem fst_splitDatabaseTable (s : String) :
    (splitDatabaseTable s).1 =
      if (split '.' s).length = 2 then some (stripPart ((split '.' s).headD "")) else none := by
  unfold splitDatabaseTable
  rcases hs : split '.' s with _ | ⟨a, _ | ⟨b, _ | ⟨c, l⟩⟩⟩ <;> simp

theorem mem_stripPart {c : Char} {p : String} (h : c ∈ p.toList) (hs : isSpace c = false)
    (hb : c ≠ '\x60') : c ∈ (stripPart p).toList :=
  mem_strip (mem_strip h hs) (by simpa using hb)

theorem mem_of_mem_stripPart {c : Char} {p : String} (h : c ∈ (stripPart p).toList) :
    c ∈ p.toList :=
  mem_of_mem_strip (mem_of_mem_strip h)

/-- A text in double quotes is not stripped. -/
theorem stripPart_quoted (s : String) :
    stripPart (String.singleton '"' ++ s ++ String.singleton '"') =
      String.singleton '"' ++ s ++ String.singleton '"' := by
  rw [stripPart, strip_delimited (by decide), strip_delimited (by decide)]

namespace Naming

variable {naming : Naming} {s t : String}

theorem quote_of_not_bare (h : naming.bare s ≠ true) :
    naming.quote s = String.singleton '"' ++ naming.escape s ++ String.singleton '"' := by
  rw [quote, if_neg h]

theorem quote_ne (h : naming.bare s ≠ true) : naming.quote s ≠ s := by
  intro he
  have hl := congrArg (fun x : String => x.toList.length) he
  have hle := naming.le_length_escape s
  simp only [quote_of_not_bare h, String.toList_append, String.toList_singleton,
    List.length_append, List.length_singleton] at hl
  omega

theorem dot_mem_quote (h : naming.bare s ≠ true) :
    '.' ∈ (naming.quote s).toList ↔ '.' ∈ s.toList := by
  simp [quote_of_not_bare h, naming.dot_mem_escape]

theorem not_mem_of_plain (h : naming.plain s = true) : '.' ∉ s.toList :=
  fun hm => (naming.chars_of_plain h _ hm).1 rfl

theorem stripPart_of_plain (h : naming.plain s = true) : stripPart s = s := by
  have hs : strip isSpace s = s := strip_eq_self fun c hc => (naming.chars_of_plain h c hc).2.2
  rw [stripPart, hs]
  exact strip_eq_self fun c hc => by simpa using (naming.chars_of_plain h c hc).2.1

theorem quote_of_bare (h : naming.bare s = true) : naming.quote s = s := by
  rw [quote, if_pos h]

/-- The last piece of a quoted name is that name exactly when the quotes were not needed. -/
theorem stripPart_getLastD_quote_iff :
    stripPart ((split '.' (naming.quote t)).getLastD "") = t ↔ naming.bare t = true := by
  constructor
  · intro h
    by_contra hb
    have hlast : (split '.' (naming.quote t)).getLastD "" ∈ split '.' (naming.quote t) := by
      rw [List.getLastD_eq_getLast?, List.getLast?_eq_some_getLast (split_ne_nil _ _)]
      exact List.getLast_mem _
    -- the pieces have no dot, so the name has none and the quoted text is a single piece
    have hdot : '.' ∉ t.toList := by
      rw [← h]
      exact fun hm => not_mem_of_mem_split hlast (mem_of_mem_stripPart hm)
    have hq : '.' ∉ (naming.quote t).toList := fun hm => hdot ((dot_mem_quote hb).1 hm)
    rw [split_of_not_mem hq, List.getLastD_cons, List.getLastD_nil, quote_of_not_bare hb,
      stripPart_quoted, ← quote_of_not_bare hb] at h
    exact quote_ne hb h
  · intro h
    have hp := naming.plain_of_bare h
    rw [quote_of_bare h, split_of_not_mem (not_mem_of_plain hp)]
    exact stripPart_of_plain hp

/-- The last piece of a quoted name is never empty. -/
theorem stripPart_getLastD_quote_ne (h : s ≠ "") :
    stripPart ((split '.' (naming.quote s)).getLastD "") ≠ "" := by
  by_cases hb : naming.bare s = true
  · rwa [stripPart_getLastD_quote_iff.2 hb]
  · rw [quote_of_not_bare hb]
    intro he
    have hm := mem_stripPart (mem_getLastD_split (show '"' ≠ '.' by decide)
      (String.singleton '"' ++ naming.escape s)) (by decide) (by decide)
    rw [he] at hm
    simp at hm

/-! The database that a split finds in a qualified name. -/

theorem splitDatabaseTable_of_plain (ht : naming.plain t = true) :
    splitDatabaseTable t = (none, t) := by
  refine Prod.ext ?_ ?_
  · rw [fst_splitDatabaseTable, split_of_not_mem (not_mem_of_plain ht)]
    rfl
  · rw [snd_splitDatabaseTable, split_of_not_mem (not_mem_of_plain ht)]
    exact stripPart_of_plain ht

theorem split_qualified (ht : naming.plain t = true) :
    split '.' (naming.quote s ++ "." ++ t) = split '.' (naming.quote s) ++ [t] := by
  rw [← split_of_not_mem (not_mem_of_plain ht)]
  exact split_append _ _

theorem fst_split_of_dot (hs : naming.bare s ≠ true) (hdot : '.' ∈ s.toList)
    (ht : naming.plain t = true) :
    (splitDatabaseTable (naming.quote s ++ "." ++ t)).1 = none := by
  have hcount := List.count_pos_iff.2 ((dot_mem_quote hs).2 hdot)
  have hlen := length_split '.' (naming.quote s)
  rw [fst_splitDatabaseTable, split_qualified ht, if_neg]
  rw [List.length_append, List.length_singleton]
  omega

theorem fst_split_of_no_dot (hdot : '.' ∉ (naming.quote s).toList) (ht : naming.plain t = true) :
    (splitDatabaseTable (naming.quote s ++ "." ++ t)).1 = some (stripPart (naming.quote s)) := by
  rw [fst_splitDatabaseTable, split_qualified ht, split_of_not_mem hdot]
  rfl

theorem snd_split_qualified (ht : naming.plain t = true) :
    (splitDatabaseTable (naming.quote s ++ "." ++ t)).2 = t := by
  rw [snd_splitDatabaseTable, split_qualified ht, List.getLastD_eq_getLast?,
    List.getLast?_append_of_ne_nil _ (by simp)]
  exact stripPart_of_plain ht

/-- The split and the statements agree on the table `t` of the schema `s`, when `t` is bare. -/
theorem qualified_agree_iff {c : Config} (ht : naming.bare t = true) (hne : s ≠ "") :
    (c.address (splitDatabaseTable (naming.quote s ++ "." ++ t)).1
          (splitDatabaseTable (naming.quote s ++ "." ++ t)).2 = ⟨s, t⟩ ∧
        (TableRef.pasted (naming.quote s ++ "." ++ t)).address naming c = some ⟨s, t⟩) ↔
      naming.bare s = true ∨ (s = c.database ∧ '.' ∈ s.toList ∧
        (TableRef.pasted (naming.quote s ++ "." ++ t)).address naming c = some ⟨s, t⟩) := by
  have hplain := naming.plain_of_bare ht
  rw [snd_split_qualified hplain]
  by_cases hs : naming.bare s = true
  · -- both parts are bare, and both routes read them back
    refine iff_of_true ⟨?_, ?_⟩ (Or.inl hs)
    · rw [fst_split_of_no_dot _ hplain, quote_of_bare hs,
        stripPart_of_plain (naming.plain_of_bare hs)]
      · simp [Config.address, Option.filter, hne]
      · rw [quote_of_bare hs]
        exact not_mem_of_plain (naming.plain_of_bare hs)
    · rw [quote_of_bare hs, TableRef.address,
        naming.resolve_qualified (naming.plain_of_bare hs) hplain]
      simp [Config.address, Option.filter, hne]
  · by_cases hdot : '.' ∈ s.toList
    · -- the split drops the schema, and the client falls back on the configured database
      rw [fst_split_of_dot hs hdot hplain]
      simp [Config.address, hs, hdot, eq_comm]
    · -- the split keeps the quotes
      refine iff_of_false ?_ (by simp [hs, hdot])
      rintro ⟨hfast, -⟩
      rw [fst_split_of_no_dot (fun hm => hdot ((dot_mem_quote hs).1 hm)) hplain,
        quote_of_not_bare hs, stripPart_quoted, ← quote_of_not_bare hs] at hfast
      have hq : naming.quote s ≠ "" := by
        intro he
        have hl := congrArg String.toList he
        simp [quote_of_not_bare hs] at hl
      have hdb := congrArg Address.database hfast
      simp only [Config.address, Option.filter, hq, ne_eq, not_false_eq_true, decide_true,
        if_true, Option.getD_some] at hdb
      exact quote_ne hs hdb

end Naming

/-! ## A naming -/

/-- The characters of a plain identifier. -/
def isIdentifierChar (c : Char) : Bool :=
  let n := c.toNat
  (0x30 ≤ n && n ≤ 0x39) || (0x41 ≤ n && n ≤ 0x5A) || n == 0x5F || (0x61 ≤ n && n ≤ 0x7A)

def isIdentifier (s : String) : Bool := s ≠ "" && s.toList.all isIdentifierChar

theorem isIdentifierChar_spec {c : Char} (h : isIdentifierChar c = true) :
    c ≠ '.' ∧ c ≠ '\x60' ∧ isSpace c = false := by
  refine ⟨?_, ?_, ?_⟩
  · rintro rfl
    exact absurd h (by decide)
  · rintro rfl
    exact absurd h (by decide)
  · simp only [isIdentifierChar, Bool.or_eq_true, Bool.and_eq_true, decide_eq_true_eq,
      beq_iff_eq] at h
    simp only [isSpace, Bool.or_eq_false_iff, Bool.and_eq_false_iff, decide_eq_false_iff_not,
      beq_eq_false_iff_ne]
    omega

theorem isIdentifier_spec {s : String} (h : isIdentifier s = true) :
    s ≠ "" ∧ ∀ c ∈ s.toList, c ≠ '.' ∧ c ≠ '\x60' ∧ isSpace c = false := by
  rw [isIdentifier, Bool.and_eq_true, decide_eq_true_eq, List.all_eq_true] at h
  exact ⟨h.1, fun c hc => isIdentifierChar_spec (h.2 c hc)⟩

/-- The names that are read without quotes when they are written in identifier characters; other
texts address nothing. -/
def resolveIdentifiers (s : String) : Option (Option String × String) :=
  match split '.' s with
  | [t] => if isIdentifier t then some (none, t) else none
  | [d, t] => if isIdentifier d && isIdentifier t then some (some d, t) else none
  | _ => none

/-- A server and a dialect that leave exactly the identifiers unquoted. -/
def Naming.identifiers : Naming where
  bare := isIdentifier
  plain := isIdentifier
  escape := id
  resolve := resolveIdentifiers
  le_length_escape := fun _ => le_rfl
  dot_mem_escape := fun _ => Iff.rfl
  ne_empty_of_plain := fun h => (isIdentifier_spec h).1
  chars_of_plain := fun h => (isIdentifier_spec h).2
  plain_of_bare := fun h => h
  resolve_plain := by
    intro t ht
    have hdot : '.' ∉ t.toList := fun hm => ((isIdentifier_spec ht).2 _ hm).1 rfl
    simp [resolveIdentifiers, split_of_not_mem hdot, ht]
  resolve_qualified := by
    intro d t hd ht
    have hdot : ∀ {s}, isIdentifier s = true → '.' ∉ s.toList :=
      fun hs hm => ((isIdentifier_spec hs).2 _ hm).1 rfl
    have hsplit : split '.' (d ++ "." ++ t) = [d, t] := by
      rw [show d ++ "." ++ t = d ++ String.singleton '.' ++ t from rfl, split_append,
        split_of_not_mem (hdot hd), split_of_not_mem (hdot ht)]
      rfl
    simp [resolveIdentifiers, hsplit, hd, ht]
  plain_of_resolve := by
    intro d s h
    unfold resolveIdentifiers at h
    split at h
    · split_ifs at h with ht
      obtain ⟨-, rfl⟩ : none = d ∧ _ = s := by simpa using h
      exact ht
    · rename_i a t hs
      split_ifs at h with ht
      obtain ⟨-, rfl⟩ : some a = d ∧ t = s := by simpa using h
      -- the last of two pieces has no dot, so it is not the whole text
      have hdot : '.' ∉ t.toList := not_mem_of_mem_split (s := t) (by rw [hs]; simp)
      rw [split_of_not_mem hdot] at hs
      simp at hs
    · cases h

/-! ## The sink's table -/

namespace Sink

variable (naming : Naming) (sink : Sink)

/-- `full_table_name`; the SDK refuses to build a qualified name without parts. -/
def fullTableName : Except Exn TableName :=
  match sink.config.tableName with
  | some t => .ok (.text t)
  | none =>
      let name := TableName.qualified none sink.schemaName sink.tableName
      if name.parts = [] then
        .error (.valueError "Could not generate fully qualified name")
      else .ok name

/-- The database and table under which `create_empty_table` creates `full_table_name`. -/
def createdTable (c : Config) (fullTableName : TableName) : Except Exn Address := do
  let (_, schemaName, table) ← parseFullTableName fullTableName
  -- the configured name replaces the parsed one, also when it was itself parsed
  let table := if isSet c.tableName then c.tableName.getD table else table
  return c.address schemaName table

/-- Every statement built from `full_table_name` addresses the table that was created for it. -/
def SameTable : Prop :=
  ∃ name created, sink.fullTableName = .ok name ∧ createdTable sink.config name = .ok created ∧
    ∀ stmt : Statement,
      (stmt.tableRef (name.toText naming)).address naming sink.config = some created

/-- The schema part of the qualified name, when it has one. -/
def schemaPart : Option String := sink.schemaName.filter (· ≠ "")

/-- The names for which all routes lead to one table: a configured name that the server reads as
itself, or a stream whose table and schema the dialect leaves unquoted.  A schema that is also the
configured database may be quoted if it contains a dot: the split then loses it, and the client
falls back on the same database. -/
def NamesAgree : Prop :=
  match sink.config.tableName with
  | some t => naming.plain t = true
  | none =>
      naming.bare sink.tableName = true ∧ ∀ s, sink.schemaPart = some s →
        naming.bare s = true ∨ (s = sink.config.database ∧ '.' ∈ s.toList ∧
          (TableRef.pasted (naming.quote s ++ "." ++ sink.tableName)).address naming sink.config =
            some ⟨s, sink.tableName⟩)

variable {naming sink}

/-! ### A configured table name -/

theorem table_of_createdTable {t : String} {created : Address} (ht : sink.config.tableName = some t)
    (h : createdTable sink.config (.text t) = .ok created) : created.table = t := by
  unfold createdTable parseFullTableName at h
  rw [ht] at h
  by_cases he : t = ""
  · subst he
    have hs : split '.' "" = [""] := split_of_not_mem (by simp)
    simp only [hs] at h
    exact congrArg Address.table (Except.ok.inj h).symm
  · have hset : isSet (some t) = true := by simpa [isSet] using he
    rcases hs : split '.' t with _ | ⟨a, _ | ⟨b, _ | ⟨c, _ | ⟨d, l⟩⟩⟩⟩ <;>
      simp only [hs, hset] at h
    · cases h
    · exact congrArg Address.table (Except.ok.inj h).symm
    · exact congrArg Address.table (Except.ok.inj h).symm
    · exact congrArg Address.table (Except.ok.inj h).symm
    · cases h

theorem sameTable_iff_of_configured {t : String} (ht : sink.config.tableName = some t) :
    sink.SameTable naming ↔ naming.plain t = true := by
  have hname : sink.fullTableName = .ok (.text t) := by simp [fullTableName, ht]
  constructor
  · rintro ⟨name, created, hn, hc, hall⟩
    rw [hname] at hn
    obtain rfl := Except.ok.inj hn
    have htable := table_of_createdTable ht hc
    have hpasted := (forall_address_iff.1 hall).2
    simp only [TableName.toText, TableRef.address, Option.map_eq_some_iff] at hpasted
    obtain ⟨⟨d, t'⟩, hr, ha⟩ := hpasted
    obtain rfl : t' = t := (congrArg Address.table ha).trans htable
    exact naming.plain_of_resolve hr
  · intro hp
    refine ⟨.text t, sink.config.address none t, hname, ?_, forall_address_iff.2 ⟨?_, ?_⟩⟩
    · have hset : isSet (some t) = true := by
        simpa [isSet] using naming.ne_empty_of_plain hp
      simp [createdTable, parseFullTableName, split_of_not_mem (Naming.not_mem_of_plain hp), ht,
        hset]
    · rw [TableName.toText, Naming.splitDatabaseTable_of_plain hp]
    · rw [TableName.toText, TableRef.address, naming.resolve_plain hp]
      rfl

/-! ### The name of the stream -/

theorem fullTableName_eq_ok_iff (ht : sink.config.tableName = none) {name : TableName} :
    sink.fullTableName = .ok name ↔
      name = .qualified none sink.schemaName sink.tableName ∧ name.parts ≠ [] := by
  rw [fullTableName, ht]
  dsimp only
  split_ifs with h
  · constructor
    · intro hn
      cases hn
    · rintro ⟨rfl, hp⟩
      exact absurd h hp
  · constructor
    · intro hn
      obtain rfl := Except.ok.inj hn
      exact ⟨rfl, h⟩
    · rintro ⟨rfl, -⟩
      rfl

theorem createdTable_qualified (ht : sink.config.tableName = none) :
    createdTable sink.config (.qualified none sink.schemaName sink.tableName) =
      .ok ⟨sink.schemaPart.getD sink.config.database, sink.tableName⟩ := by
  have hset : isSet none = false := rfl
  simp only [createdTable, parseFullTableName, ht, hset]
  rfl

theorem parts_qualified :
    (TableName.qualified none sink.schemaName sink.tableName).parts =
      sink.schemaPart.toList ++ if sink.tableName = "" then [] else [sink.tableName] := by
  unfold TableName.parts schemaPart
  rcases sink.schemaName with _ | s
  · by_cases h : sink.tableName = "" <;> simp [h]
  · by_cases hs : s = "" <;> by_cases h : sink.tableName = "" <;> simp [hs, h, Option.filter]

/-- The text of the qualified name, whose last piece decides the table that a split finds. -/
theorem toText_qualified (ht : sink.tableName ≠ "") :
    (TableName.qualified none sink.schemaName sink.tableName).toText naming =
      match sink.schemaPart with
      | none => naming.quote sink.tableName
      | some s => naming.quote s ++ "." ++ naming.quote sink.tableName := by
  rw [TableName.toText, parts_qualified, if_neg ht]
  rcases sink.schemaPart with _ | s <;> rfl

theorem split_toText_qualified (ht : sink.tableName ≠ "") :
    split '.' ((TableName.qualified none sink.schemaName sink.tableName).toText naming) =
      (sink.schemaPart.toList.flatMap fun s => split '.' (naming.quote s)) ++
        split '.' (naming.quote sink.tableName) := by
  rw [toText_qualified ht]
  rcases sink.schemaPart with _ | s
  · simp
  · simp only [Option.toList_some, List.flatMap_cons, List.flatMap_nil, List.append_nil]
    exact split_append _ _

/-- Whatever the schema, a split finds the table exactly when its name is written bare. -/
theorem snd_split_toText_iff
    (hp : (TableName.qualified none sink.schemaName sink.tableName).parts ≠ []) :
    (splitDatabaseTable
        ((TableName.qualified none sink.schemaName sink.tableName).toText naming)).2 =
      sink.tableName ↔ naming.bare sink.tableName = true := by
  rw [snd_splitDatabaseTable]
  by_cases ht : sink.tableName = ""
  · -- only the schema is written, and a split never finds an empty table
    have hb : naming.bare sink.tableName ≠ true :=
      fun hb => naming.ne_empty_of_plain (naming.plain_of_bare hb) ht
    refine iff_of_false (fun h => ?_) hb
    rw [parts_qualified, if_pos ht, List.append_nil] at hp
    rcases hs : sink.schemaPart with _ | s
    · exact hp (by simp [hs])
    · have hse : s ≠ "" := by
        have := (Option.filter_eq_some_iff.1 hs).2
        simpa using this
      have htext : (TableName.qualified none sink.schemaName sink.tableName).toText naming =
          naming.quote s := by
        rw [TableName.toText, parts_qualified, if_pos ht, hs]
        rfl
      rw [htext, ht] at h
      exact Naming.stripPart_getLastD_quote_ne hse h
  · have hlast : ∀ l : List String,
        (l ++ split '.' (naming.quote sink.tableName)).getLastD "" =
          (split '.' (naming.quote sink.tableName)).getLastD "" := by
      intro l
      rw [List.getLastD_eq_getLast?, List.getLastD_eq_getLast?,
        List.getLast?_append_of_ne_nil _ (split_ne_nil _ _)]
    rw [split_toText_qualified ht, hlast]
    exact Naming.stripPart_getLastD_quote_iff

theorem sameTable_iff_of_unset (ht : sink.config.tableName = none) :
    sink.SameTable naming ↔ sink.NamesAgree naming := by
  have hsame : sink.SameTable naming ↔
      (TableName.qualified none sink.schemaName sink.tableName).parts ≠ [] ∧
        ∀ stmt : Statement, (stmt.tableRef ((TableName.qualified none sink.schemaName
          sink.tableName).toText naming)).address naming sink.config =
            some ⟨sink.schemaPart.getD sink.config.database, sink.tableName⟩ := by
    constructor
    · rintro ⟨name, created, hn, hc, hall⟩
      obtain ⟨rfl, hp⟩ := (fullTableName_eq_ok_iff ht).1 hn
      rw [createdTable_qualified ht] at hc
      obtain rfl := Except.ok.inj hc
      exact ⟨hp, hall⟩
    · rintro ⟨hp, hall⟩
      exact ⟨_, _, (fullTableName_eq_ok_iff ht).2 ⟨rfl, hp⟩, createdTable_qualified ht, hall⟩
  rw [hsame, forall_address_iff, NamesAgree, ht]
  dsimp only
  by_cases hb : naming.bare sink.tableName = true
  · have hne := naming.ne_empty_of_plain (naming.plain_of_bare hb)
    have hp : (TableName.qualified none sink.schemaName sink.tableName).parts ≠ [] := by
      simp [parts_qualified, hne]
    rw [toText_qualified hne, Naming.quote_of_bare hb]
    rcases hs : sink.schemaPart with _ | s
    · -- a bare table in the configured database
      simp [hp, hb, Naming.splitDatabaseTable_of_plain (naming.plain_of_bare hb), TableRef.address,
        naming.resolve_plain (naming.plain_of_bare hb), Config.address]
    · have hse : s ≠ "" := by simpa using (Option.filter_eq_some_iff.1 hs).2
      have hiff := Naming.qualified_agree_iff (c := sink.config) hb hse
      simpa [hp, hb] using hiff
  · refine iff_of_false ?_ (fun h => hb h.1)
    rintro ⟨hp, hfast, -⟩
    exact hb ((snd_split_toText_iff hp).1 (congrArg Address.table hfast))

/-- All routes lead to one table exactly for the names of `NamesAgree`. -/
theorem sameTable_iff : sink.SameTable naming ↔ sink.NamesAgree naming := by
  rcases ht : sink.config.tableName with _ | t
  · exact sameTable_iff_of_unset ht
  · rw [sameTable_iff_of_configured ht, NamesAgree, ht]

/-- With `table_name` set to `db.tbl`, the table is created under the name `db.tbl`, and every
statement addresses the table `tbl`. -/
theorem not_sameTable_qualified :
    let sink : Sink := ⟨{ tableName := some "db.tbl" }, .bool true, "users", none⟩
    createdTable sink.config (.text "db.tbl") = .ok ⟨"db", "db.tbl"⟩ ∧
      (∀ stmt : Statement, (stmt.tableRef "db.tbl").address .identifiers sink.config =
        some ⟨"db", "tbl"⟩) ∧
      ¬ sink.SameTable .identifiers := by
  refine ⟨by decide, fun stmt => by cases stmt <;> decide, ?_⟩
  rw [sameTable_iff_of_configured rfl]
  decide

end Sink

end TargetClickhouse
