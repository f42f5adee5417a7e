import Mathlib.Tactic

/-!
# Insertion-ordered dictionaries

A dictionary is its list of items in insertion order, read with `List.lookup`.  Assigning to a
present key keeps its place, `ofList` builds a dictionary by assigning items one after
the other, so that a later item with the same key wins.
-/

namespace Dict

variable {α β γ : Type} [DecidableEq α]

def keys (d : List (α × β)) : List α := d.map Prod.fst

/-- `d[k] = v`. -/
def set : List (α × β) → α → β → List (α × β)
  | [], k, v => [(k, v)]
  | (a, b) :: d, k, v => if a = k then (a, v) :: d else (a, b) :: set d k v

/-- `dict(items)`. -/
def ofList (l : List (α × β)) : List (α × β) := l.foldl (fun d kv => set d kv.1 kv.2) []

/-- The items with other keys. -/
def erase (d : List (α × β)) (k : α) : List (α × β) := d.filter fun kv => kv.1 ≠ k

theorem lookup_cons (k x : α) (v : β) (d : List (α × β)) :
    ((k, v) :: d).lookup x = if x = k then some v else d.lookup x := by
  rw [List.lookup_cons]
  by_cases h : x = k
  · simp [h]
  · simp [h, beq_eq_false_iff_ne.2 h]

theorem lookup_set (d : List (α × β)) (k x : α) (v : β) :
    (set d k v).lookup x = if x = k then some v else d.lookup x := by
  induction d with
  | nil => simp [set, lookup_cons]
  | cons kv d ih =>
    obtain ⟨a, b⟩ := kv
    unfold set
    by_cases hak : a = k
    · rw [if_pos hak, lookup_cons, lookup_cons, hak]
      split_ifs <;> rfl
    · rw [if_neg hak, lookup_cons, lookup_cons, ih]
      by_cases hxa : x = a
      · rw [if_pos hxa, if_pos hxa, if_neg (hxa ▸ hak)]
      · rw [if_neg hxa, if_neg hxa]

theorem lookup_erase (d : List (α × β)) (k x : α) :
    (erase d k).lookup x = if x = k then none else d.lookup x := by
  induction d with
  | nil => simp [erase]
  | cons kv d ih =>
    obtain ⟨a, b⟩ := kv
    simp only [erase, List.filter_cons] at ih ⊢
    by_cases hak : a = k
    · rw [if_neg (by simpa using hak), ih, lookup_cons, hak]
      split_ifs <;> rfl
    · rw [if_pos (by simpa using hak), lookup_cons, lookup_cons, ih]
      by_cases hxa : x = a
      · rw [if_pos hxa, if_pos hxa, if_neg (hxa ▸ hak)]
      · rw [if_neg hxa, if_neg hxa]

theorem set_of_not_mem {d : List (α × β)} {k : α} (h : k ∉ keys d) (v : β) :
    set d k v = d ++ [(k, v)] := by
  induction d with
  | nil => rfl
  | cons kv d ih =>
    obtain ⟨a, b⟩ := kv
    simp only [keys, List.map_cons, List.mem_cons, not_or] at h
    rw [set, if_neg (Ne.symm h.1), ih h.2]
    rfl

theorem keys_set_of_mem {d : List (α × β)} {k : α} (h : k ∈ keys d) (v : β) :
    keys (set d k v) = keys d := by
  induction d with
  | nil => cases h
  | cons kv d ih =>
    obtain ⟨a, b⟩ := kv
    rw [set]
    split_ifs with hak
    · rfl
    · have hmem : k ∈ keys d := (List.mem_cons.1 h).resolve_left (Ne.symm hak)
      exact congrArg (a :: ·) (ih hmem)

theorem keys_set_of_not_mem {d : List (α × β)} {k : α} (h : k ∉ keys d) (v : β) :
    keys (set d k v) = keys d ++ [k] := by
  rw [set_of_not_mem h, keys, List.map_append]
  rfl

/-- Assigning items keeps the keys distinct and adds none but theirs. -/
theorem nodup_keys_ofList (l : List (α × β)) :
    (keys (ofList l)).Nodup ∧ keys (ofList l) ⊆ keys l := by
  suffices key : ∀ (l d : List (α × β)), (keys d).Nodup →
      (keys (l.foldl (fun d kv => set d kv.1 kv.2) d)).Nodup ∧
        keys (l.foldl (fun d kv => set d kv.1 kv.2) d) ⊆ keys d ++ keys l from
    key l [] List.nodup_nil
  intro l
  induction l with
  | nil => exact fun d hd => ⟨hd, List.subset_append_left _ _⟩
  | cons kv l ih =>
    intro d hd
    by_cases hmem : kv.1 ∈ keys d
    · have hkeys := keys_set_of_mem hmem kv.2
      obtain ⟨hnodup, hsub⟩ := ih (set d kv.1 kv.2) (hkeys ▸ hd)
      rw [hkeys] at hsub
      refine ⟨hnodup, fun k hk => ?_⟩
      refine List.mem_append.2 ((List.mem_append.1 (hsub hk)).imp_right fun hl => ?_)
      exact List.mem_cons_of_mem kv.1 hl
    · have hkeys := keys_set_of_not_mem hmem kv.2
      have hset : (keys d ++ [kv.1]).Nodup := List.nodup_append_comm.1 (List.nodup_cons.2 ⟨hmem, hd⟩)
      obtain ⟨hnodup, hsub⟩ := ih (set d kv.1 kv.2) (hkeys ▸ hset)
      rw [hkeys, List.append_assoc] at hsub
      exact ⟨hnodup, hsub⟩

/-- Items with distinct keys are the dictionary they build. -/
theorem ofList_eq_self {l : List (α × β)} (h : (keys l).Nodup) : ofList l = l := by
  suffices key : ∀ (l d : List (α × β)), (keys (d ++ l)).Nodup →
      l.foldl (fun d kv => set d kv.1 kv.2) d = d ++ l from key l [] h
  intro l
  induction l with
  | nil => simp
  | cons kv l ih =>
    intro d hd
    have hmem : kv.1 ∉ keys d := by
      simp only [keys, List.map_append, List.map_cons, List.nodup_append] at hd
      exact fun hk => hd.2.2 _ hk _ List.mem_cons_self rfl
    rw [List.foldl_cons, set_of_not_mem hmem, ih]
    · simp
    · simpa using hd

theorem lookup_isSome_iff {d : List (α × β)} {k : α} : (d.lookup k).isSome ↔ k ∈ keys d := by
  induction d with
  | nil => simp [keys]
  | cons kv d ih =>
    obtain ⟨a, b⟩ := kv
    rw [lookup_cons]
    by_cases h : k = a
    · simp [h, keys]
    · rw [if_neg h, ih]
      simp [keys, h]

theorem lookup_of_mem {d : List (α × β)} (hd : (keys d).Nodup) {k : α} {v : β}
    (h : (k, v) ∈ d) : d.lookup k = some v := by
  induction d with
  | nil => cases h
  | cons kv d ih =>
    obtain ⟨a, b⟩ := kv
    obtain ⟨ha, hd⟩ := List.nodup_cons.1 hd
    rw [lookup_cons]
    rcases List.mem_cons.1 h with he | hm
    · obtain ⟨rfl, rfl⟩ : k = a ∧ v = b := by simpa using he
      rw [if_pos rfl]
    · have hk : k ∈ keys d := List.mem_map_of_mem hm
      have hka : k ≠ a := fun he => ha (he ▸ hk)
      rw [if_neg hka, ih hd hm]

theorem lookup_eq_none {d : List (α × β)} {k : α} (h : k ∉ keys d) : d.lookup k = none :=
  Option.not_isSome_iff_eq_none.1 fun hs => h (lookup_isSome_iff.1 hs)

theorem mem_of_lookup {d : List (α × β)} {k : α} {v : β} (h : d.lookup k = some v) :
    (k, v) ∈ d := by
  obtain ⟨l₁, l₂, rfl, -⟩ := List.lookup_eq_some_iff.1 h
  simp

/-- Looking up a column built from the names alone. -/
theorem lookup_map_names (names : List α) (f : α → β) (k : α) :
    (names.map fun n => (n, f n)).lookup k = if k ∈ names then some (f k) else none := by
  induction names with
  | nil => simp
  | cons n names ih =>
    rw [List.map_cons, lookup_cons, ih]
    by_cases h : k = n
    · simp [h]
    · simp [h]

omit [DecidableEq α] in
theorem keys_zip {names : List α} {values : List β} (h : names.length = values.length) :
    keys (names.zip values) = names :=
  List.map_fst_zip h.le

/-! ## Errors -/

section Except

variable {ε : Type} {f : α → Except ε β} {l : List α}

omit [DecidableEq α] in
theorem bind_eq_ok_iff {x : Except ε α} {b : β} :
    (x >>= f) = .ok b ↔ ∃ a, x = .ok a ∧ f a = .ok b := by
  rcases x with e | a
  · exact iff_of_false (by rintro ⟨⟩) (by rintro ⟨_, ⟨⟩, _⟩)
  · constructor
    · exact fun h => ⟨a, rfl, h⟩
    · rintro ⟨_, ⟨⟩, h⟩
      exact h

omit [DecidableEq α] in
theorem exists_bind_eq_ok_iff {x : Except ε α} :
    (∃ b, (x >>= f) = .ok b) ↔ ∃ a, x = .ok a ∧ ∃ b, f a = .ok b := by
  simp only [bind_eq_ok_iff, ← exists_and_left]
  exact exists_comm

omit [DecidableEq α] in
theorem map_eq_ok_iff {x : Except ε α} {g : α → β} {b : β} :
    x.map g = .ok b ↔ ∃ a, x = .ok a ∧ g a = b := by
  rcases x with e | a
  · exact iff_of_false (by rintro ⟨⟩) (by rintro ⟨_, ⟨⟩, _⟩)
  · constructor
    · exact fun h => ⟨a, rfl, Except.ok.inj h⟩
    · rintro ⟨_, ⟨⟩, rfl⟩
      rfl

omit [DecidableEq α] in
theorem mapM_eq_ok_iff {l' : List β} :
    l.mapM f = .ok l' ↔ List.Forall₂ (fun a b => f a = .ok b) l l' := by
  induction l generalizing l' with
  | nil =>
    rw [List.mapM_nil, List.forall₂_nil_left_iff]
    exact ⟨fun h => (Except.ok.inj h).symm, fun h => congrArg Except.ok h.symm⟩
  | cons a l ih =>
    rw [List.mapM_cons, List.forall₂_cons_left_iff]
    rcases ha : f a with e | b
    · refine iff_of_false (fun h => ?_) ?_
      · cases h
      · rintro ⟨b, _, h, _⟩
        cases h
    · rcases hl : l.mapM f with e | bs
      · refine iff_of_false (fun h => ?_) ?_
        · cases h
        · rintro ⟨b, bs, -, hbs, -⟩
          rw [ih.2 hbs] at hl
          cases hl
      · have hbs := ih.1 hl
        constructor
        · intro h
          exact ⟨b, bs, rfl, hbs, (Except.ok.inj h).symm⟩
        · rintro ⟨b', bs', hb, hbs', rfl⟩
          obtain rfl := Except.ok.inj hb
          rw [ih.2 hbs'] at hl
          obtain rfl := Except.ok.inj hl
          rfl

omit [DecidableEq α] in
theorem bind_eq_error {x : Except ε α} {f : α → Except ε β} {e : ε} (h : (x >>= f) = .error e) :
    x = .error e ∨ ∃ a, x = .ok a ∧ f a = .error e := by
  rcases x with e' | a
  · exact Or.inl (congrArg Except.error (Except.error.inj h))
  · exact Or.inr ⟨a, rfl, h⟩

omit [DecidableEq α] in
theorem exists_of_mapM_eq_error {e : ε} (h : l.mapM f = .error e) : ∃ a ∈ l, f a = .error e := by
  induction l with
  | nil => cases h
  | cons a l ih =>
    rw [List.mapM_cons] at h
    rcases ha : f a with e' | b <;> rw [ha] at h
    · obtain rfl := Except.error.inj h
      exact ⟨a, List.mem_cons_self, ha⟩
    · rcases hl : l.mapM f with e' | bs <;> rw [hl] at h
      · obtain rfl := Except.error.inj h
        obtain ⟨a', ha', he⟩ := ih hl
        exact ⟨a', List.mem_cons_of_mem a ha', he⟩
      · cases h

omit [DecidableEq α] in
/-- Relating the elements one by one. -/
theorem exists_forall₂_iff {R : α → β → Prop} {l : List α} :
    (∃ l', List.Forall₂ R l l') ↔ ∀ a ∈ l, ∃ b, R a b := by
  induction l with
  | nil => simp
  | cons a l ih =>
    rw [List.forall_mem_cons, ← ih]
    constructor
    · rintro ⟨l', h⟩
      obtain ⟨b, bs, hb, hbs, rfl⟩ := List.forall₂_cons_left_iff.1 h
      exact ⟨⟨b, hb⟩, bs, hbs⟩
    · rintro ⟨⟨b, hb⟩, bs, hbs⟩
      exact ⟨b :: bs, .cons hb hbs⟩

omit [DecidableEq α] in
theorem exists_of_mem_right {R : α → β → Prop} {l' : List β} (h : List.Forall₂ R l l') {b : β}
    (hb : b ∈ l') : ∃ a ∈ l, R a b := by
  induction h with
  | nil => cases hb
  | cons hab _ ih =>
    rcases List.mem_cons.1 hb with rfl | hb
    · exact ⟨_, List.mem_cons_self, hab⟩
    · obtain ⟨a, ha, hab⟩ := ih hb
      exact ⟨a, List.mem_cons_of_mem _ ha, hab⟩

omit [DecidableEq α] in
/-- Two relations that are the same on the elements of the list. -/
theorem forall₂_congr_left {R S : α → β → Prop} {l' : List β} (h : ∀ a ∈ l, ∀ b, R a b ↔ S a b) :
    List.Forall₂ R l l' ↔ List.Forall₂ S l l' := by
  induction l generalizing l' with
  | nil => rw [List.forall₂_nil_left_iff, List.forall₂_nil_left_iff]
  | cons a l ih =>
    rw [List.forall₂_cons_left_iff, List.forall₂_cons_left_iff]
    refine exists_congr fun b => exists_congr fun bs => ?_
    rw [h a List.mem_cons_self, ih fun a ha => h a (List.mem_cons_of_mem _ ha)]

omit [DecidableEq α] in
theorem exists_of_mem_left {R : α → β → Prop} {l' : List β} (h : List.Forall₂ R l l') {a : α}
    (ha : a ∈ l) : ∃ b ∈ l', R a b :=
  exists_of_mem_right h.flip ha

omit [DecidableEq α] in
theorem mapM_eq_error_iff : (∃ e, l.mapM f = .error e) ↔ ∃ a ∈ l, ∃ e, f a = .error e := by
  constructor
  · rintro ⟨e, h⟩
    obtain ⟨a, ha, he⟩ := exists_of_mapM_eq_error h
    exact ⟨a, ha, e, he⟩
  · rintro ⟨a, ha, e, he⟩
    cases hl : l.mapM f with
    | error e' => exact ⟨e', rfl⟩
    | ok bs =>
      obtain ⟨b, -, hb⟩ := exists_of_mem_left (mapM_eq_ok_iff.1 hl) ha
      rw [he] at hb
      cases hb

omit [DecidableEq α] in
/-- Relating items under the same keys. -/
theorem keys_eq_of_forall₂ {γ : Type} {R : α × β → α × γ → Prop} {d : List (α × β)}
    {d' : List (α × γ)} (h : List.Forall₂ (fun kv kv' => kv'.1 = kv.1 ∧ R kv kv') d d') :
    keys d' = keys d := by
  induction h with
  | nil => rfl
  | cons hkv _ ih => exact congrArg₂ List.cons hkv.1 ih

omit [DecidableEq α] in
/-- The element at the same place on the other side. -/
theorem exists_getElem?_right {R : α → β → Prop} {l' : List β} (h : List.Forall₂ R l l') {i : ℕ}
    {a : α} (ha : l[i]? = some a) : ∃ b, l'[i]? = some b ∧ R a b := by
  induction h generalizing i with
  | nil => cases ha
  | cons hab _ ih =>
    cases i with
    | zero =>
      obtain rfl := Option.some.inj ha
      exact ⟨_, rfl, hab⟩
    | succ i => exact ih ha

omit [DecidableEq α] in
theorem exists_getElem?_left {R : α → β → Prop} {l' : List β} (h : List.Forall₂ R l l') {i : ℕ}
    {b : β} (hb : l'[i]? = some b) : ∃ a, l[i]? = some a ∧ R a b :=
  exists_getElem?_right h.flip hb

end Except

end Dict
