import Mathlib.Tactic

/-!
# Templates

The substitution of Python's `string.Template`.  A template is cut into its pieces by one pass over
its characters, whose state is the placeholder that is being read.  The pieces are then rendered
from left to right, so that the first placeholder that is unknown or malformed is the one that is
reported (`substitute_returns_iff` says when there is none).
-/

namespace Template

inductive Piece where
  | char (c : Char)
  | placeholder (name : List Char)
  /-- A delimiter that begins no placeholder; the rest of the template is not read. -/
  | invalid
  deriving DecidableEq, Repr

inductive Error where
  | unknown (name : String)
  | invalid
  deriving DecidableEq, Repr

/-- The characters that begin an identifier. -/
def isStart (c : Char) : Bool :=
  let n := c.toNat
  (0x41 ≤ n && n ≤ 0x5A) || n == 0x5F || (0x61 ≤ n && n ≤ 0x7A)

/-- The characters that continue an identifier. -/
def isContinue (c : Char) : Bool :=
  isStart c || (0x30 ≤ c.toNat && c.toNat ≤ 0x39)

/-- What has been read of a placeholder. -/
inductive Mode where
  | plain
  | delimiter
  | named (name : List Char)
  | braced (name : List Char)
  deriving DecidableEq, Repr

/-- The pieces of a text, when reading starts in the mode. -/
def pieces : Mode → List Char → List Piece
  | .plain, [] => []
  | .plain, c :: cs => if c = '$' then pieces .delimiter cs else .char c :: pieces .plain cs
  | .delimiter, [] => [.invalid]
  | .delimiter, c :: cs =>
      if c = '$' then .char '$' :: pieces .plain cs
      else if c = '\x7b' then pieces (.braced []) cs
      else if isStart c then pieces (.named [c]) cs
      else [.invalid]
  | .named name, [] => [.placeholder name]
  | .named name, c :: cs =>
      if isContinue c then pieces (.named (name ++ [c])) cs
      else if c = '$' then .placeholder name :: pieces .delimiter cs
      else .placeholder name :: .char c :: pieces .plain cs
  | .braced _, [] => [.invalid]
  | .braced name, c :: cs =>
      if c = '\x7d' ∧ name ≠ [] then .placeholder name :: pieces .plain cs
      else if isStart c ∨ (isContinue c ∧ name ≠ []) then pieces (.braced (name ++ [c])) cs
      else [.invalid]

/-- The text of the pieces. -/
def render (mapping : String → Option String) : List Piece → Except Error (List Char)
  | [] => .ok []
  | .char c :: ps => do
      let rest ← render mapping ps
      return c :: rest
  | .placeholder name :: ps =>
      match mapping (String.ofList name) with
      | none => .error (.unknown (String.ofList name))
      | some value => do
          let rest ← render mapping ps
          return value.toList ++ rest
  | .invalid :: _ => .error .invalid

/-- `Template(text).substitute(mapping)`. -/
def substitute (mapping : String → Option String) (text : String) : Except Error String := do
  let chars ← render mapping (pieces .plain text.toList)
  return String.ofList chars

theorem pieces_of_not_mem {cs : List Char} (h : '$' ∉ cs) : pieces .plain cs = cs.map .char := by
  induction cs with
  | nil => rfl
  | cons c cs ih =>
    rw [List.mem_cons, not_or] at h
    rw [pieces, if_neg (Ne.symm h.1), ih h.2, List.map_cons]

theorem render_chars (mapping : String → Option String) (cs : List Char) :
    render mapping (cs.map .char) = .ok cs := by
  induction cs with
  | nil => rfl
  | cons c cs ih =>
    rw [List.map_cons, render, ih]
    rfl

/-! ## Success -/

/-- The piece is rendered without an error. -/
def Piece.Resolves (mapping : String → Option String) : Piece → Prop
  | .char _ => True
  | .placeholder name => (mapping (String.ofList name)).isSome = true
  | .invalid => False

theorem render_returns_iff {mapping : String → Option String} {ps : List Piece} :
    (∃ cs, render mapping ps = .ok cs) ↔ ∀ p ∈ ps, p.Resolves mapping := by
  induction ps with
  | nil => exact iff_of_true ⟨[], rfl⟩ (by simp)
  | cons p ps ih =>
    rw [List.forall_mem_cons, ← ih]
    cases p with
    | char c =>
      rw [Piece.Resolves, true_and, render]
      cases render mapping ps with
      | error e => exact iff_of_false (fun ⟨_, h⟩ => by cases h) fun ⟨_, h⟩ => by cases h
      | ok rest => exact iff_of_true ⟨_, rfl⟩ ⟨_, rfl⟩
    | placeholder name =>
      rw [Piece.Resolves, render]
      cases mapping (String.ofList name) with
      | none => exact iff_of_false (fun ⟨_, h⟩ => by cases h) fun h => by cases h.1
      | some value =>
        rw [Option.isSome_some, eq_self, true_and]
        cases render mapping ps with
        | error e => exact iff_of_false (fun ⟨_, h⟩ => by cases h) fun ⟨_, h⟩ => by cases h
        | ok rest => exact iff_of_true ⟨_, rfl⟩ ⟨_, rfl⟩
    | invalid => exact iff_of_false (fun ⟨_, h⟩ => by cases h) fun h => h.1

/-- The substitution succeeds when no piece is malformed and the mapping has every name. -/
theorem substitute_returns_iff {mapping : String → Option String} {text : String} :
    (∃ r, substitute mapping text = .ok r) ↔
      ∀ p ∈ pieces .plain text.toList, p.Resolves mapping := by
  rw [← render_returns_iff, substitute]
  cases render mapping (pieces .plain text.toList) with
  | error e => exact iff_of_false (fun ⟨_, h⟩ => by cases h) fun ⟨_, h⟩ => by cases h
  | ok cs => exact iff_of_true ⟨_, rfl⟩ ⟨_, rfl⟩

/-! ## One name -/

section

variable {mapping : String → Option String} {name : String} {ps : List Piece} {v w : String}
  {cs ds : List Char}

/-- The mapping with a value for the name. -/
def assign (mapping : String → Option String) (name value : String) : String → Option String :=
  fun x => if x = name then some value else mapping x

theorem render_char_eq_ok {c : Char} (h : render mapping (.char c :: ps) = .ok cs) :
    ∃ rest, render mapping ps = .ok rest ∧ cs = c :: rest := by
  rw [render] at h
  cases hrest : render mapping ps with
  | error e =>
    rw [hrest] at h
    cases h
  | ok rest =>
    rw [hrest] at h
    exact ⟨rest, rfl, (Except.ok.inj h).symm⟩

theorem render_placeholder_eq_ok {x : List Char}
    (h : render mapping (.placeholder x :: ps) = .ok cs) :
    ∃ value rest, mapping (String.ofList x) = some value ∧ render mapping ps = .ok rest ∧
      cs = value.toList ++ rest := by
  rw [render] at h
  cases hx : mapping (String.ofList x) with
  | none =>
    rw [hx] at h
    cases h
  | some value =>
    rw [hx] at h
    cases hrest : render mapping ps with
    | error e =>
      rw [hrest] at h
      cases h
    | ok rest =>
      rw [hrest] at h
      exact ⟨value, rest, rfl, rfl, (Except.ok.inj h).symm⟩

/-- The values of a placeholder in two mappings that differ in one name. -/
theorem assign_eq_some {x : List Char} {a b : String}
    (ha : assign mapping name v (String.ofList x) = some a)
    (hb : assign mapping name w (String.ofList x) = some b) :
    (x = name.toList ∧ a = v ∧ b = w) ∨ x ≠ name.toList ∧ a = b := by
  unfold assign at ha hb
  by_cases hx : String.ofList x = name
  · rw [if_pos hx] at ha hb
    refine Or.inl ⟨?_, (Option.some.inj ha).symm, (Option.some.inj hb).symm⟩
    rw [← hx, String.toList_ofList]
  · rw [if_neg hx] at ha hb
    refine Or.inr ⟨?_, Option.some.inj (ha.symm.trans hb)⟩
    rintro rfl
    exact hx String.ofList_toList

/-- Two renderings differ in length by what their values do, once for each placeholder. -/
theorem length_render (hv : render (assign mapping name v) ps = .ok cs)
    (hw : render (assign mapping name w) ps = .ok ds) :
    cs.length + ps.count (.placeholder name.toList) * w.toList.length =
      ds.length + ps.count (.placeholder name.toList) * v.toList.length := by
  induction ps generalizing cs ds with
  | nil =>
    obtain rfl := Except.ok.inj hv
    obtain rfl := Except.ok.inj hw
    simp
  | cons p ps ih =>
    cases p with
    | char c =>
      obtain ⟨rest, hrest, rfl⟩ := render_char_eq_ok hv
      obtain ⟨rest', hrest', rfl⟩ := render_char_eq_ok hw
      rw [List.count_cons_of_ne (by simp), List.length_cons, List.length_cons]
      have hlength := ih hrest hrest'
      omega
    | placeholder x =>
      obtain ⟨a, rest, ha, hrest, rfl⟩ := render_placeholder_eq_ok hv
      obtain ⟨b, rest', hb, hrest', rfl⟩ := render_placeholder_eq_ok hw
      have hlength := ih hrest hrest'
      rw [List.length_append, List.length_append]
      rcases assign_eq_some ha hb with ⟨rfl, rfl, rfl⟩ | ⟨hx, rfl⟩
      · rw [List.count_cons_self, Nat.succ_mul, Nat.succ_mul]
        omega
      · rw [List.count_cons_of_ne (by simpa using hx)]
        omega
    | invalid => cases hv

/-- A text that has a placeholder for the name tells the values of the name apart. -/
theorem render_injective (h : .placeholder name.toList ∈ ps)
    (hv : render (assign mapping name v) ps = .ok cs)
    (hw : render (assign mapping name w) ps = .ok cs) : v = w := by
  have hlength : v.toList.length = w.toList.length := by
    have hcount : 0 < ps.count (.placeholder name.toList) := List.count_pos_iff.2 h
    have hmul := Nat.add_left_cancel (length_render hv hw)
    exact (Nat.eq_of_mul_eq_mul_left hcount hmul).symm
  -- the values stand at the same place, after the characters before the first placeholder
  induction ps generalizing cs with
  | nil => cases h
  | cons p ps ih =>
    cases p with
    | char c =>
      obtain ⟨rest, hrest, rfl⟩ := render_char_eq_ok hv
      obtain ⟨rest', hrest', he⟩ := render_char_eq_ok hw
      obtain rfl : rest = rest' := (List.cons.inj he).2
      exact ih (by simpa using h) hrest hrest'
    | placeholder x =>
      obtain ⟨a, rest, ha, hrest, rfl⟩ := render_placeholder_eq_ok hv
      obtain ⟨b, rest', hb, hrest', he⟩ := render_placeholder_eq_ok hw
      rcases assign_eq_some ha hb with ⟨rfl, rfl, rfl⟩ | ⟨hx, rfl⟩
      · exact String.toList_injective (List.append_inj_left he hlength)
      · obtain rfl : rest = rest' := List.append_cancel_left he
        refine ih ((List.mem_cons.1 h).resolve_left ?_) hrest hrest'
        simpa using hx.symm
    | invalid => cases hv

/-- The substitution in a template that has a placeholder for the name is injective in the value of
the name. -/
theorem substitute_injective {text r : String}
    (h : .placeholder name.toList ∈ pieces .plain text.toList)
    (hv : substitute (assign mapping name v) text = .ok r)
    (hw : substitute (assign mapping name w) text = .ok r) : v = w := by
  unfold substitute at hv hw
  cases hcs : render (assign mapping name v) (pieces .plain text.toList) with
  | error e =>
    rw [hcs] at hv
    cases hv
  | ok cs =>
    cases hds : render (assign mapping name w) (pieces .plain text.toList) with
    | error e =>
      rw [hds] at hw
      cases hw
    | ok ds =>
      rw [hcs] at hv
      rw [hds] at hw
      obtain rfl : cs = ds := String.ofList_injective
        ((Except.ok.inj hv).trans (Except.ok.inj hw).symm)
      exact render_injective h hcs hds

end

/-- A text without delimiters is its own substitution. -/
theorem substitute_of_not_mem (mapping : String → Option String) {text : String}
    (h : '$' ∉ text.toList) : substitute mapping text = .ok text := by
  rw [substitute, pieces_of_not_mem h, render_chars]
  exact congrArg Except.ok String.ofList_toList

end Template
