import SqlDialect.Forest.Navigation
import Mathlib.Data.List.Nodup

/-!
# Lower case and the case of ASCII letters

Words that are equal up to the case of their ASCII letters are equal in lower case, also where a
capital sigma has such letters around it: the two forms of an ASCII letter are both cased, and
neither is ignored when cased letters are looked for.
-/

namespace SqlDialect.Text

/-- A character that is not one of the 26 capital letters of ASCII is its own lower case form. -/
lemma toLower_eq_self_or (c : Char) :
    c.toLower = c ∨ ∃ n : Fin 91, 65 ≤ n.val ∧ c = Char.ofNat n.val := by
  by_cases h : c.val ≥ 'A'.val ∧ c.val ≤ 'Z'.val
  · refine .inr ⟨⟨c.toNat, Nat.lt_succ_of_le (UInt32.le_iff_toNat_le.1 h.2)⟩, ?_, ?_⟩
    · exact UInt32.le_iff_toNat_le.1 h.1
    · exact (Char.ofNat_toNat c).symm
  · exact .inl (dif_neg h)

/-- What holds of the capital letters of ASCII carries a property from a character to its lower case
form. -/
lemma apply_toLower {α : Type} {p : Char → α}
    (h : ∀ n : Fin 91, 65 ≤ n.val → p (Char.ofNat n.val).toLower = p (Char.ofNat n.val))
    (c : Char) : p c.toLower = p c := by
  obtain hsame | ⟨n, hn, rfl⟩ := toLower_eq_self_or c
  · rw [hsame]
  · exact h n hn

/-- A capital letter of ASCII is to the tables what the small one is. -/
lemma capital_toLower : ∀ n : Fin 91, 65 ≤ n.val →
    isCased (Char.ofNat n).toLower = isCased (Char.ofNat n) ∧
      isCaseIgnorable (Char.ofNat n).toLower = isCaseIgnorable (Char.ofNat n) ∧
      lowerChar (Char.ofNat n).toLower = lowerChar (Char.ofNat n) ∧
      ((Char.ofNat n).toLower == capitalSigma) = (Char.ofNat n == capitalSigma) ∧
      (Char.ofNat n).toLower.isUpper = false := by
  decide +kernel

lemma isCased_toLower (c : Char) : isCased c.toLower = isCased c :=
  apply_toLower (fun n hn => (capital_toLower n hn).1) c

lemma isCaseIgnorable_toLower (c : Char) : isCaseIgnorable c.toLower = isCaseIgnorable c :=
  apply_toLower (fun n hn => (capital_toLower n hn).2.1) c

lemma lowerChar_toLower (c : Char) : lowerChar c.toLower = lowerChar c :=
  apply_toLower (fun n hn => (capital_toLower n hn).2.2.1) c

lemma beq_capitalSigma_toLower (c : Char) : (c.toLower == capitalSigma) = (c == capitalSigma) :=
  apply_toLower (p := (· == capitalSigma)) (fun n hn => (capital_toLower n hn).2.2.2.1) c

/-- No lower case form in the table is a letter of ASCII before the small ones. -/
lemma lowerTable_targets : lowerTable.all (fun row => 90 < row.2) = true := by decide +kernel

lemma meetsCased_map_toLower (cs : List Char) :
    meetsCased (cs.map Char.toLower) = meetsCased cs := by
  induction cs with
  | nil => rfl
  | cons c cs ih =>
    rw [meetsCased, meetsCased, List.map_cons, List.dropWhile_cons, List.dropWhile_cons,
      isCaseIgnorable_toLower]
    split_ifs
    · exact ih
    · exact isCased_toLower c

lemma lowerFrom_map_toLower (before cs : List Char) :
    lowerFrom (before.map Char.toLower) (cs.map Char.toLower) = lowerFrom before cs := by
  induction cs generalizing before with
  | nil => rfl
  | cons c cs ih =>
    have hrest := ih (c :: before)
    rw [List.map_cons] at hrest
    rw [List.map_cons, lowerFrom, lowerFrom, hrest, beq_capitalSigma_toLower, lowerChar_toLower,
      lowerSigma, lowerSigma, meetsCased_map_toLower, meetsCased_map_toLower]

lemma sameWord_iff {a b : String} :
    sameWord a b ↔ a.toList.map Char.toLower = b.toList.map Char.toLower := by
  have hmap : ∀ s : String, s.toLower.toList = s.toList.map Char.toLower :=
    fun _ => String.toList_map
  rw [sameWord, beq_iff_eq, ← String.toList_inj, hmap, hmap]

/-- Words that differ in the case of ASCII letters only have one lower case form. -/
lemma lowercase_eq_of_sameWord {a b : String} (h : sameWord a b) : lowercase a = lowercase b := by
  rw [sameWord_iff] at h
  rw [lowercase, lowercase, ← lowerFrom_map_toLower [] a.toList, h, lowerFrom_map_toLower]

/-- The keywords that may name a column are in lower case. -/
lemma lowercase_namingKeywords :
    namingKeywords.all (fun word => lowercase word == word) = true := by
  decide +kernel

/-- A text that spells a naming keyword is that keyword in lower case. -/
lemma lowercase_of_namingKeyword {text word : String} (hword : word ∈ namingKeywords)
    (hsame : sameWord text word) : lowercase text = word := by
  rw [lowercase_eq_of_sameWord hsame]
  exact eq_of_beq (List.all_eq_true.1 lowercase_namingKeywords word hword)

end SqlDialect.Text
