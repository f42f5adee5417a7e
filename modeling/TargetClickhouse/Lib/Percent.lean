import TargetClickhouse.Lib.Text

/-!
# Percent-encoding

`percentEncode` replaces every character outside a safe set by its UTF-8 bytes, each written as a
percent sign and two hexadecimal digits.
-/

namespace Text

def hexDigit (n : ℕ) : Char := "0123456789ABCDEF".toList.getD n '0'

def percentByte (b : UInt8) : List Char :=
  ['%', hexDigit (b.toNat / 16), hexDigit (b.toNat % 16)]

def percentChar (safe : Char → Bool) (c : Char) : List Char :=
  if safe c then [c] else (String.utf8EncodeChar c).flatMap percentByte

def percentEncode (safe : Char → Bool) (s : String) : String := escape (percentChar safe) s

variable {safe : Char → Bool} {c : Char} {s : String}

theorem three_le_length_percentChar (h : safe c = false) :
    3 ≤ (percentChar safe c).length := by
  have hbytes : 0 < (String.utf8EncodeChar c).length := by
    rw [String.length_utf8EncodeChar]
    exact c.utf8Size_pos
  obtain ⟨b, bs, hb⟩ := List.exists_cons_of_length_pos hbytes
  rw [percentChar, h, hb, if_neg Bool.false_ne_true, List.flatMap_cons, List.length_append]
  exact Nat.le_add_right 3 _

theorem percentChar_eq_singleton_iff : percentChar safe c = [c] ↔ safe c = true := by
  cases h : safe c with
  | true => simp [percentChar, h]
  | false =>
    refine iff_of_false (fun he => ?_) Bool.false_ne_true
    have hlength := three_le_length_percentChar h
    rw [he, List.length_singleton] at hlength
    omega

/-- Only a text of safe characters is its own encoding. -/
theorem percentEncode_eq_self_iff : percentEncode safe s = s ↔ ∀ c ∈ s.toList, safe c = true := by
  have hf : ∀ c, percentChar safe c = [c] ∨ 1 < (percentChar safe c).length := by
    intro c
    cases h : safe c with
    | true => exact Or.inl (percentChar_eq_singleton_iff.2 h)
    | false => exact Or.inr (lt_of_lt_of_le (by decide) (three_le_length_percentChar h))
  rw [← String.toList_inj, percentEncode, escape, String.toList_ofList, flatMap_eq_self_iff hf]
  exact forall₂_congr fun c _ => percentChar_eq_singleton_iff

/-- An encoding consists of safe characters, percent signs and hexadecimal digits. -/
theorem forall_mem_percentEncode {p : Char → Prop} (hsafe : ∀ c, safe c = true → p c)
    (hpercent : p '%') (hdigit : ∀ n < 16, p (hexDigit n)) :
    ∀ c ∈ (percentEncode safe s).toList, p c := by
  intro c hc
  rw [percentEncode, escape, String.toList_ofList] at hc
  obtain ⟨d, -, hc⟩ := List.mem_flatMap.1 hc
  unfold percentChar at hc
  split_ifs at hc with hd
  · obtain rfl := List.mem_singleton.1 hc
    exact hsafe c hd
  · obtain ⟨b, -, hc⟩ := List.mem_flatMap.1 hc
    have hb : b.toNat < 256 := b.toNat_lt
    simp only [percentByte, List.mem_cons, List.not_mem_nil, or_false] at hc
    rcases hc with rfl | rfl | rfl
    · exact hpercent
    · exact hdigit _ (by omega)
    · exact hdigit _ (by omega)

theorem percentEncode_cons (h : safe c = true) (cs : List Char) :
    percentEncode safe (String.ofList (c :: cs)) =
      String.ofList (c :: (percentEncode safe (String.ofList cs)).toList) := by
  simp [percentEncode, escape, percentChar, h]

end Text
