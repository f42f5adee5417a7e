import Mathlib.Tactic
import Mathlib.Data.List.DropRight
import Mathlib.Data.List.TakeWhile

/-!
# Splitting and stripping texts

`split` cuts a text at every occurrence of a separator and `strip` removes a kind of character from
both ends, as the string methods of the same names do in Python.
-/

namespace Text

/-- The characters that `str.strip()` removes (those for which `str.isspace()` holds). -/
def isSpace (c : Char) : Bool :=
  let n := c.toNat
  (0x09 ≤ n && n ≤ 0x0D) || (0x1C ≤ n && n ≤ 0x20) || n == 0x85 || n == 0xA0 || n == 0x1680 ||
    (0x2000 ≤ n && n ≤ 0x200A) || n == 0x2028 || n == 0x2029 || n == 0x202F || n == 0x205F ||
    n == 0x3000

def split (sep : Char) (s : String) : List String := (s.toList.splitOn sep).map String.ofList

def strip (p : Char → Bool) (s : String) : String :=
  String.ofList ((s.toList.dropWhile p).rdropWhile p)

variable {sep : Char} {p : Char → Bool} {s t : String}

theorem split_ne_nil (sep : Char) (s : String) : split sep s ≠ [] := by
  simp [split]

theorem split_of_not_mem (h : sep ∉ s.toList) : split sep s = [s] := by
  simp [split, List.splitOn_eq_singleton h]

theorem split_append (s t : String) :
    split sep (s ++ String.singleton sep ++ t) = split sep s ++ split sep t := by
  simp [split, List.splitOn_append_cons_self]

/-- The first piece ends before the first separator. -/
theorem headD_split (sep : Char) (s : String) :
    ((split sep s).headD "").toList = s.toList.takeWhile (· ≠ sep) := by
  rw [split]
  induction s.toList with
  | nil => simp
  | cons c cs ih =>
    rw [List.splitOn_cons_eq_if_modifyHead, List.takeWhile_cons]
    obtain ⟨a, as, hl⟩ := List.exists_cons_of_ne_nil (List.splitOn_ne_nil sep cs)
    rw [hl] at ih ⊢
    by_cases h : c = sep
    · simp [h]
    · simpa [h] using ih

/-- A text is cut into one more piece than it has separators. -/
theorem length_split (sep : Char) (s : String) :
    (split sep s).length = s.toList.count sep + 1 := by
  simp only [split, List.length_map]
  induction s.toList with
  | nil => simp
  | cons c cs ih =>
    rw [List.splitOn_cons_eq_if_modifyHead, List.count_cons]
    split_ifs with h <;> simp [ih]

/-- No piece contains the separator. -/
theorem not_mem_of_mem_split {x : String} (hx : x ∈ split sep s) : sep ∉ x.toList := by
  simp only [split, List.mem_map] at hx
  obtain ⟨cs, hcs, rfl⟩ := hx
  rw [String.toList_ofList]
  revert cs
  induction s.toList with
  | nil => simp
  | cons c cs ih =>
    rw [List.splitOn_cons_eq_if_modifyHead]
    obtain ⟨a, as, hl⟩ := List.exists_cons_of_ne_nil (List.splitOn_ne_nil sep cs)
    rw [hl] at ih ⊢
    intro ds hds
    split_ifs at hds with h
    · rcases List.mem_cons.1 hds with rfl | hds
      · simp
      · exact ih ds hds
    · rcases List.mem_cons.1 hds with rfl | hds
      · intro hmem
        rcases List.mem_cons.1 hmem with rfl | hmem
        · simp at h
        · exact ih a List.mem_cons_self hmem
      · exact ih ds (List.mem_cons_of_mem _ hds)

/-- The last piece keeps the last character, unless that is the separator. -/
theorem mem_getLastD_split {c : Char} (h : c ≠ sep) (s : String) :
    c ∈ ((split sep (s ++ String.singleton c)).getLastD "").toList := by
  have e : (s ++ String.singleton c).toList = s.toList ++ [c] := by simp
  rw [split, e]
  generalize s.toList = l
  induction l with
  | nil => simp [List.splitOn_cons_eq_if_modifyHead, h]
  | cons x l ih =>
    rw [List.cons_append, List.splitOn_cons_eq_if_modifyHead]
    obtain ⟨a, as, hl⟩ := List.exists_cons_of_ne_nil (List.splitOn_ne_nil sep (l ++ [c]))
    rw [hl] at ih ⊢
    split_ifs
    · simpa using ih
    · cases as with
      | nil => simpa using Or.inr (by simpa using ih)
      | cons b bs => simpa using ih

theorem strip_eq_self (h : ∀ c ∈ s.toList, p c = false) : strip p s = s := by
  have h₁ : s.toList.dropWhile p = s.toList :=
    List.dropWhile_eq_self_iff.2 fun hl => by simp [h _ (List.getElem_mem hl)]
  have h₂ : s.toList.rdropWhile p = s.toList :=
    List.rdropWhile_eq_self_iff.2 fun hl => by simp [h _ (List.getLast_mem hl)]
  rw [strip, h₁, h₂, String.ofList_toList]

/-- A text between two characters that stay is not stripped. -/
theorem strip_delimited {c : Char} (hc : p c = false) (s : String) :
    strip p (String.singleton c ++ s ++ String.singleton c) =
      String.singleton c ++ s ++ String.singleton c := by
  have e : (String.singleton c ++ s ++ String.singleton c).toList = (c :: s.toList) ++ [c] := by
    simp
  have h₁ : ((c :: s.toList) ++ [c]).dropWhile p = (c :: s.toList) ++ [c] := by
    simp [hc]
  rw [strip, e, h₁, List.rdropWhile_concat_neg _ _ _ (by simp [hc]), ← e, String.ofList_toList]

theorem mem_of_mem_strip {c : Char} (h : c ∈ (strip p s).toList) : c ∈ s.toList := by
  rw [strip, String.toList_ofList] at h
  exact (List.dropWhile_sublist p).subset ((List.rdropWhile_prefix p _).subset h)

/-- A character of another kind stays. -/
theorem mem_strip {c : Char} (h : c ∈ s.toList) (hc : p c = false) : c ∈ (strip p s).toList := by
  have hd : ∀ {l : List Char}, c ∈ l → c ∈ l.dropWhile p := by
    intro l hl
    rw [← List.takeWhile_append_dropWhile (p := p) (l := l)] at hl
    rcases List.mem_append.1 hl with ht | hd
    · exact absurd (List.mem_takeWhile_imp ht) (by simp [hc])
    · exact hd
  rw [strip, String.toList_ofList, List.rdropWhile, List.mem_reverse]
  exact hd (List.mem_reverse.2 (hd h))

theorem dropWhile_eq_self_iff_head {l : List Char} :
    l.dropWhile p = l ↔ ∀ c, l.head? = some c → p c = false := by
  cases l with
  | nil => simp
  | cons c l =>
    rw [List.dropWhile_eq_self_iff]
    simp

theorem rdropWhile_eq_self_iff_getLast {l : List Char} :
    l.rdropWhile p = l ↔ ∀ c, l.getLast? = some c → p c = false := by
  rcases List.eq_nil_or_concat l with rfl | ⟨l, c, rfl⟩
  · simp
  · rw [List.rdropWhile_eq_self_iff]
    simp

theorem toList_strip (p : Char → Bool) (s : String) :
    (strip p s).toList = (s.toList.dropWhile p).rdropWhile p := by
  rw [strip, String.toList_ofList]

/-- What is not stripped begins and ends with characters of another kind. -/
theorem strip_eq_self_iff : strip p s = s ↔
    (∀ c, s.toList.head? = some c → p c = false) ∧
      ∀ c, s.toList.getLast? = some c → p c = false := by
  rw [← String.toList_inj, toList_strip, ← dropWhile_eq_self_iff_head,
    ← rdropWhile_eq_self_iff_getLast]
  constructor
  · intro h
    -- neither end is shortened
    have hprefix := List.rdropWhile_prefix p (l := s.toList.dropWhile p)
    have hdrop : s.toList.dropWhile p = s.toList := by
      refine (List.dropWhile_sublist p).eq_of_length_le ?_
      rw [h] at hprefix
      exact hprefix.length_le
    exact ⟨hdrop, by rwa [hdrop] at h⟩
  · rintro ⟨hhead, hlast⟩
    rw [hhead, hlast]

theorem strip_strip (p : Char → Bool) (s : String) : strip p (strip p s) = strip p s := by
  rw [strip_eq_self_iff, toList_strip, ← rdropWhile_eq_self_iff_getLast]
  refine ⟨fun c hc => ?_, List.rdropWhile_idempotent p _⟩
  -- the first character that stays is the one behind those that were dropped
  have hprefix := List.rdropWhile_prefix p (l := s.toList.dropWhile p)
  have hhead : (s.toList.dropWhile p).head? = some c := by
    obtain ⟨rest, hrest⟩ := hprefix
    rw [← hrest, List.head?_append, hc]
    rfl
  exact dropWhile_eq_self_iff_head.1 (List.dropWhile_idempotent p _) c hhead

theorem strip_enclosed {c : Char} (hc : p c = true) (s : String) :
    strip p (String.singleton c ++ s ++ String.singleton c) = strip p s := by
  rw [← String.toList_inj, toList_strip, toList_strip]
  have htext : (String.singleton c ++ s ++ String.singleton c).toList = c :: (s.toList ++ [c]) := by
    simp
  rw [htext, List.dropWhile_cons_of_pos hc, List.dropWhile_append]
  split_ifs with hnil
  · rw [List.isEmpty_iff.1 hnil]
    simp [hc]
  · exact List.rdropWhile_concat_pos _ _ _ hc

/-! ## Escaping -/

/-- The text with every character replaced. -/
def escape (f : Char → List Char) (s : String) : String := String.ofList (s.toList.flatMap f)

/-- Where a character is left alone or becomes several, only a text that has none of the latter is
left alone. -/
theorem flatMap_eq_self_iff {f : Char → List Char} (hf : ∀ c, f c = [c] ∨ 1 < (f c).length)
    {l : List Char} : l.flatMap f = l ↔ ∀ c ∈ l, f c = [c] := by
  have hle : ∀ l : List Char, l.length ≤ (l.flatMap f).length := by
    intro l
    induction l with
    | nil => exact le_rfl
    | cons c l ih =>
      rw [List.flatMap_cons, List.length_append, List.length_cons]
      rcases hf c with hc | hc
      · rw [hc, List.length_singleton]
        omega
      · omega
  induction l with
  | nil => simp
  | cons c l ih =>
    rw [List.flatMap_cons, List.forall_mem_cons]
    refine Iff.trans ?_ (and_congr_right fun _ => ih)
    rcases hf c with hc | hc
    · rw [hc, and_iff_right rfl]
      exact ⟨fun h => (List.cons.inj h).2, fun h => congrArg (c :: ·) h⟩
    · refine iff_of_false (fun h => ?_) fun h => ?_
      · have hlength := congrArg List.length h
        rw [List.length_append, List.length_cons] at hlength
        have := hle l
        omega
      · rw [h.1, List.length_singleton] at hc
        omega

/-- Stripping an escaped text gives the text back exactly when nothing in it is escaped, if the
characters that are stripped are, and no escape makes one of them the first or the last. -/
theorem strip_escape_eq_self_iff {f : Char → List Char}
    (hf : ∀ c, f c = [c] ∨ 1 < (f c).length) (hp : ∀ c, f c = [c] → p c = false)
    (hhead : ∀ c d, p c = false → (f c).head? = some d → p d = false)
    (hlast : ∀ c d, p c = false → (f c).getLast? = some d → p d = false) :
    strip p (escape f s) = s ↔ ∀ c ∈ s.toList, f c = [c] := by
  have hne : ∀ c, f c ≠ [] := by
    intro c hc
    rcases hf c with hself | hlength
    · simp [hself] at hc
    · simp [hc] at hlength
  constructor
  · intro h
    -- the text is a stripped one, so the escaped text begins and ends as a stripped one does too
    have hself : strip p s = s := by
      rw [← h]
      exact strip_strip p _
    obtain ⟨hfirst, hfinal⟩ := strip_eq_self_iff.1 hself
    have hescape : strip p (escape f s) = escape f s := by
      rw [strip_eq_self_iff, escape, String.toList_ofList]
      constructor
      · intro d hd
        cases hs : s.toList with
        | nil => simp [hs] at hd
        | cons c cs =>
          rw [hs, List.flatMap_cons, List.head?_append_of_ne_nil _ (hne c)] at hd
          exact hhead c d (hfirst c (by rw [hs]; rfl)) hd
      · intro d hd
        rcases List.eq_nil_or_concat s.toList with hs | ⟨cs, c, hs⟩
        · simp [hs] at hd
        · rw [hs, List.concat_eq_append, List.flatMap_append, List.flatMap_singleton,
            List.getLast?_append_of_ne_nil _ (hne c)] at hd
          exact hlast c d (hfinal c (by simp [hs])) hd
    have htext := congrArg String.toList (hescape.symm.trans h)
    rw [escape, String.toList_ofList] at htext
    exact (flatMap_eq_self_iff hf).1 htext
  · intro h
    rw [escape, (flatMap_eq_self_iff hf).2 h, String.ofList_toList]
    exact strip_eq_self fun c hc => hp c (h c hc)

end Text
