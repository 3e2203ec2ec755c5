import SchemaViews.Proofs.EmissionInvariants

/-!
# Words in Pascal case

What Pascal case does at one character depends on its class: it is a small letter,
a capital, a digit, or a separator.  So nothing but letters and digits is left, and
there is a single word exactly if all else is separators.
-/

namespace SchemaViews

/-! ## Classes of characters -/

section Characters

variable {c : Char}

theorem isLower_iff : c.isLower = true ↔ 97 ≤ c.toNat ∧ c.toNat ≤ 122 := by
  unfold Char.isLower
  simp [UInt32.le_iff_toNat_le, ← Char.toNat_val]

theorem isUpper_iff : c.isUpper = true ↔ 65 ≤ c.toNat ∧ c.toNat ≤ 90 := by
  unfold Char.isUpper
  simp [UInt32.le_iff_toNat_le, ← Char.toNat_val]

theorem isDigit_iff : c.isDigit = true ↔ 48 ≤ c.toNat ∧ c.toNat ≤ 57 := by
  unfold Char.isDigit
  simp [UInt32.le_iff_toNat_le, ← Char.toNat_val]

theorem isAlphanum_iff :
    c.isAlphanum = true ↔ c.isLower = true ∨ c.isUpper = true ∨ c.isDigit = true := by
  unfold Char.isAlphanum Char.isAlpha
  simp only [Bool.or_eq_true]
  tauto

theorem not_isLower_of_isUpper (h : c.isUpper = true) : c.isLower = false := by
  rw [isUpper_iff] at h
  rw [← Bool.not_eq_true, isLower_iff]
  omega

theorem not_isUpper_of_isLower (h : c.isLower = true) : c.isUpper = false := by
  rw [isLower_iff] at h
  rw [← Bool.not_eq_true, isUpper_iff]
  omega

theorem not_isLower_of_isDigit (h : c.isDigit = true) : c.isLower = false := by
  rw [isDigit_iff] at h
  rw [← Bool.not_eq_true, isLower_iff]
  omega

theorem not_isUpper_of_isDigit (h : c.isDigit = true) : c.isUpper = false := by
  rw [isDigit_iff] at h
  rw [← Bool.not_eq_true, isUpper_iff]
  omega

theorem toUpper_of_not_isLower (h : c.isLower = false) : c.toUpper = c := by
  unfold Char.isLower at h
  unfold Char.toUpper
  exact dif_neg (by simpa using h)

theorem toLower_of_not_isUpper (h : c.isUpper = false) : c.toLower = c := by
  unfold Char.isUpper at h
  unfold Char.toLower
  exact dif_neg (by simpa using h)

theorem toNat_toUpper (h : c.isLower = true) : c.toUpper.toNat + 32 = c.toNat := by
  have hrange := isLower_iff.mp h
  unfold Char.isLower at h
  simp only [Bool.and_eq_true, decide_eq_true_eq] at h
  unfold Char.toUpper
  rw [dif_pos h]
  change (c.val + ('A'.val - 'a'.val)).toNat + 32 = c.toNat
  rw [UInt32.toNat_add, Char.toNat_val]
  change (c.toNat + 4294967264) % 4294967296 + 32 = c.toNat
  omega

theorem toNat_toLower (h : c.isUpper = true) : c.toLower.toNat = c.toNat + 32 := by
  have hrange := isUpper_iff.mp h
  unfold Char.isUpper at h
  simp only [decide_eq_true_eq] at h
  unfold Char.toLower
  rw [dif_pos h]
  change (c.val + ('a'.val - 'A'.val)).toNat = c.toNat + 32
  rw [UInt32.toNat_add, Char.toNat_val]
  change (c.toNat + 32) % 4294967296 = c.toNat + 32
  omega

theorem toLower_toUpper (h : c.isLower = true) : c.toUpper.toLower = c := by
  rw [← Char.toNat_inj, toNat_toLower (TypeNaming.isUpper_toUpper h), toNat_toUpper h]

theorem toUpper_injOn {d : Char} (hc : c.isLower = true) (hd : d.isLower = true)
    (h : c.toUpper = d.toUpper) : c = d := by
  have hcases := toNat_toUpper hc
  rw [h, toNat_toUpper hd] at hcases
  exact Char.toNat_inj.mp hcases.symm

end Characters

/-- No letter and no digit: such a character only separates words. -/
def Separators (text : List Char) : Prop :=
  ∀ c ∈ text, c.isAlphanum = false

theorem separators_cons {c : Char} {rest : List Char} :
    Separators (c :: rest) ↔ c.isAlphanum = false ∧ Separators rest :=
  List.forall_mem_cons

theorem separators_append {before after : List Char} :
    Separators (before ++ after) ↔ Separators before ∧ Separators after :=
  List.forall_mem_append

/-! ## One character -/

section Steps

variable {c : Char} (inWord : Bool) (rest : List Char)

theorem pascalLetters_lower (h : c.isLower = true) :
    pascalLetters inWord (c :: rest) =
      (if inWord then c else c.toUpper) :: pascalLetters true rest := by
  rw [pascalLetters, if_pos h]

theorem pascalLetters_upper (h : c.isUpper = true) :
    pascalLetters inWord (c :: rest) = c :: pascalLetters true rest := by
  rw [pascalLetters, if_neg (by simp [not_isLower_of_isUpper h]), if_pos h]

theorem pascalLetters_digit (h : c.isDigit = true) :
    pascalLetters inWord (c :: rest) = c :: pascalLetters false rest := by
  rw [pascalLetters, if_neg (by simp [not_isLower_of_isDigit h]),
    if_neg (by simp [not_isUpper_of_isDigit h]), if_pos h]

theorem pascalLetters_separator (h : c.isAlphanum = false) :
    pascalLetters inWord (c :: rest) = pascalLetters false rest := by
  rw [← Bool.not_eq_true, isAlphanum_iff, not_or, not_or] at h
  rw [pascalLetters, if_neg h.1, if_neg h.2.1, if_neg h.2.2]

end Steps

theorem char_cases (c : Char) :
    c.isAlphanum = false ∨ c.isLower = true ∨ c.isUpper = true ∨ c.isDigit = true := by
  rw [← isAlphanum_iff, ← Bool.not_eq_true]
  exact (Classical.em _).symm

/-! ## Whole texts -/

section Texts

variable {inWord : Bool} {text word : List Char}

theorem pascalLetters_separators {before : List Char} (h : Separators before)
    (rest : List Char) : pascalLetters false (before ++ rest) = pascalLetters false rest := by
  induction before with
  | nil => rfl
  | cons c others ih =>
      rw [separators_cons] at h
      rw [List.cons_append, pascalLetters_separator false _ h.1, ih h.2]

theorem isAlphanum_of_mem_pascalLetters {c : Char} (h : c ∈ pascalLetters inWord text) :
    c.isAlphanum = true := by
  induction text generalizing inWord with
  | nil => cases h
  | cons d rest ih =>
      rcases char_cases d with hseparator | hlower | hupper | hdigit
      · rw [pascalLetters_separator inWord rest hseparator] at h
        exact ih h
      · rw [pascalLetters_lower inWord rest hlower, List.mem_cons] at h
        rcases h with rfl | h
        · split
          · exact isAlphanum_iff.mpr (.inl hlower)
          · exact isAlphanum_iff.mpr (.inr (.inl (TypeNaming.isUpper_toUpper hlower)))
        · exact ih h
      · rw [pascalLetters_upper inWord rest hupper, List.mem_cons] at h
        rcases h with rfl | h
        · exact isAlphanum_iff.mpr (.inr (.inl hupper))
        · exact ih h
      · rw [pascalLetters_digit inWord rest hdigit, List.mem_cons] at h
        rcases h with rfl | h
        · exact isAlphanum_iff.mpr (.inr (.inr hdigit))
        · exact ih h

theorem pascalLetters_eq_nil_iff (inWord : Bool) :
    pascalLetters inWord text = [] ↔ Separators text := by
  induction text generalizing inWord with
  | nil => simp [pascalLetters, Separators]
  | cons c rest ih =>
      rw [separators_cons]
      rcases char_cases c with hseparator | hlower | hupper | hdigit
      · rw [pascalLetters_separator inWord rest hseparator, ih]
        exact (and_iff_right hseparator).symm
      · rw [pascalLetters_lower inWord rest hlower]
        simp [isAlphanum_iff.mpr (.inl hlower)]
      · rw [pascalLetters_upper inWord rest hupper]
        simp [isAlphanum_iff.mpr (.inr (.inl hupper))]
      · rw [pascalLetters_digit inWord rest hdigit]
        simp [isAlphanum_iff.mpr (.inr (.inr hdigit))]

theorem pascalCase_eq_empty_iff {text : String} :
    pascalCase text = "" ↔ Separators text.toList := by
  rw [← pascalLetters_eq_nil_iff false, pascalCase, ← String.toList_eq_nil_iff,
    String.toList_ofList]

/-! ## Single words -/

/-- A word with nothing but separators around it. -/
def Isolates (text word : List Char) : Prop :=
  ∃ before after, text = before ++ word ++ after ∧ Separators (before ++ after)

theorem Isolates.cons {c : Char} (h : Isolates text word) (hseparator : c.isAlphanum = false) :
    Isolates (c :: text) word := by
  obtain ⟨before, after, rfl, hnone⟩ := h
  exact ⟨c :: before, after, rfl, separators_cons.mpr ⟨hseparator, hnone⟩⟩

theorem pascalLetters_inWord_eq_iff (hword : ∀ c ∈ word, c.isLower = true) :
    pascalLetters true text = word ↔ ∃ after, text = word ++ after ∧ Separators after := by
  induction text generalizing word with
  | nil => cases word <;> simp [pascalLetters, Separators]
  | cons c rest ih =>
      cases word with
      | nil => simp [pascalLetters_eq_nil_iff]
      | cons d others =>
          rw [List.forall_mem_cons] at hword
          have hdigit : d.isDigit ≠ true := fun hdigit => by
            rw [not_isLower_of_isDigit hdigit] at hword
            exact Bool.false_ne_true hword.1
          have hupper : d.isUpper ≠ true := fun hupper => by
            rw [not_isLower_of_isUpper hupper] at hword
            exact Bool.false_ne_true hword.1
          have hfront : (∃ after, c :: rest = d :: others ++ after ∧ Separators after) ↔
              c = d ∧ ∃ after, rest = others ++ after ∧ Separators after := by
            simp [List.cons.injEq, and_assoc]
          rw [hfront, ← ih hword.2]
          rcases char_cases c with hc | hc | hc | hc
          · have hstart := TypeNaming.startsWord_pascalLetters rest
            rw [pascalLetters_separator true rest hc]
            constructor
            · intro h
              simp [h, TypeNaming.startsWord, hdigit, hupper] at hstart
            · rintro ⟨rfl, -⟩
              rw [isAlphanum_iff.mpr (.inl hword.1)] at hc
              cases hc
          · rw [pascalLetters_lower true rest hc]
            simp
          · rw [pascalLetters_upper true rest hc]
            simp
          · rw [pascalLetters_digit true rest hc]
            constructor
            · intro h
              exact absurd ((List.cons.inj h).1 ▸ hc) hdigit
            · rintro ⟨rfl, -⟩
              exact absurd hc hdigit

/-- A text is a single word in Pascal case exactly if it is that word, capitalised or
not, and separators. -/
theorem pascalLetters_eq_word_iff {small : Char} (hsmall : small.isLower = true)
    (hword : ∀ c ∈ word, c.isLower = true) :
    pascalLetters false text = small.toUpper :: word ↔
      Isolates text (small.toUpper :: word) ∨ Isolates text (small :: word) := by
  have hcapital := TypeNaming.isUpper_toUpper hsmall
  constructor
  · intro h
    induction text with
    | nil => cases h
    | cons c rest ih =>
        rcases char_cases c with hc | hc | hc | hc
        · rw [pascalLetters_separator false rest hc] at h
          exact (ih h).imp (·.cons hc) (·.cons hc)
        · rw [pascalLetters_lower false rest hc] at h
          obtain ⟨hfirst, hrest⟩ := List.cons.inj h
          obtain ⟨after, rfl, hafter⟩ := (pascalLetters_inWord_eq_iff hword).mp hrest
          have hsame : c = small := toUpper_injOn hc hsmall hfirst
          exact .inr ⟨[], after, by rw [hsame]; rfl, hafter⟩
        · rw [pascalLetters_upper false rest hc] at h
          obtain ⟨hfirst, hrest⟩ := List.cons.inj h
          obtain ⟨after, rfl, hafter⟩ := (pascalLetters_inWord_eq_iff hword).mp hrest
          exact .inl ⟨[], after, by rw [hfirst]; rfl, hafter⟩
        · rw [pascalLetters_digit false rest hc] at h
          rw [← (List.cons.inj h).1, not_isUpper_of_isDigit hc] at hcapital
          cases hcapital
  · rintro (⟨before, after, rfl, hnone⟩ | ⟨before, after, rfl, hnone⟩)
    · rw [separators_append] at hnone
      rw [List.append_assoc, pascalLetters_separators hnone.1, List.cons_append,
        pascalLetters_upper _ _ hcapital,
        (pascalLetters_inWord_eq_iff hword).mpr ⟨after, rfl, hnone.2⟩]
    · rw [separators_append] at hnone
      rw [List.append_assoc, pascalLetters_separators hnone.1, List.cons_append,
        pascalLetters_lower _ _ hsmall,
        (pascalLetters_inWord_eq_iff hword).mpr ⟨after, rfl, hnone.2⟩]
      rfl

theorem pascalCase_eq_word_iff {text capital small : String} {c : Char} {rest : List Char}
    (hcapital : capital.toList = c.toUpper :: rest) (hsmall : small.toList = c :: rest)
    (hlower : small.toList.all Char.isLower = true) :
    pascalCase text = capital ↔
      Isolates text.toList capital.toList ∨ Isolates text.toList small.toList := by
  rw [hsmall, List.all_eq_true, List.forall_mem_cons] at hlower
  rw [hsmall, hcapital, ← pascalLetters_eq_word_iff hlower.1 hlower.2, pascalCase, ← hcapital,
    ← String.toList_inj, String.toList_ofList]

end Texts
end SchemaViews
