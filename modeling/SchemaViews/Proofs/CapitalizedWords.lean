import Mathlib.Data.List.TakeWhile
import SchemaViews.Proofs.PascalWords

/-!
# Capitalised words

Pascal case, which reads one character at a time, is the row of the capitalised words
of a text, where each word goes on for as long as it can.  The words of the result need
not be those of the text, since the digits of neighbouring words join.  All the same a
text in Pascal case stays as it is.
-/

namespace SchemaViews

/-! ## Words -/

/-- The words of a text: a letter with the small letters behind it, or a row of
digits. -/
def wordsOf : List Char → List (List Char)
  | [] => []
  | c :: rest =>
    if c.isAlpha then (c :: rest.takeWhile Char.isLower) :: wordsOf (rest.dropWhile Char.isLower)
    else if c.isDigit then
      (c :: rest.takeWhile Char.isDigit) :: wordsOf (rest.dropWhile Char.isDigit)
    else wordsOf rest
termination_by text => text.length
decreasing_by
  · exact Nat.lt_succ_of_le (List.length_dropWhile_le _ _)
  · exact Nat.lt_succ_of_le (List.length_dropWhile_le _ _)
  · exact Nat.lt_succ_self _

/-- A word with a capital at its front and small letters behind it. -/
def capitalized : List Char → List Char
  | [] => []
  | c :: rest => c.toUpper :: rest.map Char.toLower

/-- A word as it stands in Pascal case. -/
inductive IsCapitalized : List Char → Prop
  | letters {capital : Char} {small : List Char} (hcapital : capital.isUpper = true)
      (hsmall : ∀ c ∈ small, c.isLower = true) : IsCapitalized (capital :: small)
  | digits {word : List Char} (hsome : word ≠ []) (hdigits : ∀ c ∈ word, c.isDigit = true) :
      IsCapitalized word

section Capitals

variable {c : Char} {word : List Char}

theorem capitalized_small (c : Char) (hsmall : ∀ d ∈ word, d.isLower = true) :
    capitalized (c :: word) = c.toUpper :: word := by
  rw [capitalized, List.map_congr_left, List.map_id']
  exact fun d hd => toLower_of_not_isUpper (not_isUpper_of_isLower (hsmall d hd))

theorem capitalized_digits (hdigits : ∀ c ∈ word, c.isDigit = true) : capitalized word = word := by
  cases word with
  | nil => rfl
  | cons c rest =>
      rw [List.forall_mem_cons] at hdigits
      have hfirst : c.toUpper = c := toUpper_of_not_isLower (not_isLower_of_isDigit hdigits.1)
      have hrest : ∀ d ∈ rest, d.toLower = d := fun d hd =>
        toLower_of_not_isUpper (not_isUpper_of_isDigit (hdigits.2 d hd))
      rw [capitalized, hfirst, List.map_congr_left hrest, List.map_id']

theorem isUpper_toUpper_of_isAlpha (h : c.isAlpha = true) : c.toUpper.isUpper = true := by
  unfold Char.isAlpha at h
  rcases Bool.or_eq_true_iff.mp h with hupper | hlower
  · rwa [toUpper_of_not_isLower (not_isLower_of_isUpper hupper)]
  · exact TypeNaming.isUpper_toUpper hlower

theorem isCapitalized_of_mem_wordsOf {text : List Char} (hword : word ∈ wordsOf text) :
    IsCapitalized (capitalized word) := by
  fun_induction wordsOf text with
  | case1 => cases hword
  | case2 c rest hletter ih =>
      rcases List.mem_cons.mp hword with rfl | hword
      · rw [capitalized_small c fun d => List.mem_takeWhile_imp]
        exact .letters (isUpper_toUpper_of_isAlpha hletter) fun d => List.mem_takeWhile_imp
      · exact ih hword
  | case3 c rest _ hdigit ih =>
      rcases List.mem_cons.mp hword with rfl | hword
      · have hdigits : ∀ d ∈ c :: rest.takeWhile Char.isDigit, d.isDigit = true :=
          List.forall_mem_cons.mpr ⟨hdigit, fun d => List.mem_takeWhile_imp⟩
        rw [capitalized_digits hdigits]
        exact .digits (List.cons_ne_nil _ _) hdigits
      · exact ih hword
  | case4 c rest _ _ ih => exact ih hword

end Capitals

/-! ## Pascal case by words -/

section Texts

variable {text : List Char}

theorem pascalLetters_letter {c : Char} (h : c.isAlpha = true) (rest : List Char) :
    pascalLetters false (c :: rest) = c.toUpper :: pascalLetters true rest := by
  unfold Char.isAlpha at h
  rcases Bool.or_eq_true_iff.mp h with hupper | hlower
  · rw [pascalLetters_upper false rest hupper,
      toUpper_of_not_isLower (not_isLower_of_isUpper hupper)]
  · exact pascalLetters_lower false rest hlower

/-- Whether a word is open matters only in front of a small letter. -/
theorem pascalLetters_of_head (inWord : Bool)
    (hhead : ∀ c ∈ text.head?, c.isLower = false) :
    pascalLetters inWord text = pascalLetters false text := by
  cases text with
  | nil => rfl
  | cons c rest =>
      rcases char_cases c with hseparator | hlower | hupper | hdigit
      · rw [pascalLetters_separator _ _ hseparator, pascalLetters_separator _ _ hseparator]
      · rw [hhead c rfl] at hlower
        cases hlower
      · rw [pascalLetters_upper _ _ hupper, pascalLetters_upper _ _ hupper]
      · rw [pascalLetters_digit _ _ hdigit, pascalLetters_digit _ _ hdigit]

theorem pascalLetters_inWord (text : List Char) :
    pascalLetters true text =
      text.takeWhile Char.isLower ++ pascalLetters false (text.dropWhile Char.isLower) := by
  induction text with
  | nil => rfl
  | cons c rest ih =>
      by_cases hlower : c.isLower = true
      · rw [pascalLetters_lower true rest hlower, List.takeWhile_cons_of_pos hlower,
          List.dropWhile_cons_of_pos hlower, ih]
        rfl
      · rw [List.takeWhile_cons_of_neg hlower, List.dropWhile_cons_of_neg hlower, List.nil_append]
        exact pascalLetters_of_head true (by simpa using hlower)

theorem pascalLetters_digits (text : List Char) :
    pascalLetters false text =
      text.takeWhile Char.isDigit ++ pascalLetters false (text.dropWhile Char.isDigit) := by
  induction text with
  | nil => rfl
  | cons c rest ih =>
      by_cases hdigit : c.isDigit = true
      · rw [pascalLetters_digit false rest hdigit, List.takeWhile_cons_of_pos hdigit,
          List.dropWhile_cons_of_pos hdigit, ih]
        rfl
      · rw [List.takeWhile_cons_of_neg hdigit, List.dropWhile_cons_of_neg hdigit, List.nil_append]

theorem pascalLetters_eq_words (text : List Char) :
    pascalLetters false text = (wordsOf text).flatMap capitalized := by
  fun_induction wordsOf text with
  | case1 => rfl
  | case2 c rest hletter ih =>
      rw [pascalLetters_letter hletter, pascalLetters_inWord, ih, List.flatMap_cons,
        capitalized_small c fun d => List.mem_takeWhile_imp, List.cons_append]
  | case3 c rest _ hdigit ih =>
      have hdigits : ∀ d ∈ c :: rest.takeWhile Char.isDigit, d.isDigit = true :=
        List.forall_mem_cons.mpr ⟨hdigit, fun d => List.mem_takeWhile_imp⟩
      rw [pascalLetters_digit false rest hdigit, pascalLetters_digits, ih, List.flatMap_cons,
        capitalized_digits hdigits, List.cons_append]
  | case4 c rest hletter hdigit ih =>
      rw [pascalLetters_separator false rest, ih]
      unfold Char.isAlphanum
      simp [hletter, hdigit]

/-! ## Laws of Pascal case -/

theorem map_toLower_pascalLetters (inWord : Bool) (text : List Char) :
    (pascalLetters inWord text).map Char.toLower =
      (text.filter Char.isAlphanum).map Char.toLower := by
  induction text generalizing inWord with
  | nil => rfl
  | cons c rest ih =>
      rcases char_cases c with hseparator | hlower | hupper | hdigit
      · rw [pascalLetters_separator _ _ hseparator, List.filter_cons_of_neg (by simp [hseparator]),
          ih]
      · have hcase : (if inWord then c else c.toUpper).toLower = c.toLower := by
          split
          · rfl
          · rw [toLower_toUpper hlower, toLower_of_not_isUpper (not_isUpper_of_isLower hlower)]
        rw [pascalLetters_lower _ _ hlower,
          List.filter_cons_of_pos (isAlphanum_iff.mpr (.inl hlower)), List.map_cons, List.map_cons,
          ih, hcase]
      · rw [pascalLetters_upper _ _ hupper,
          List.filter_cons_of_pos (isAlphanum_iff.mpr (.inr (.inl hupper))), List.map_cons,
          List.map_cons, ih]
      · rw [pascalLetters_digit _ _ hdigit,
          List.filter_cons_of_pos (isAlphanum_iff.mpr (.inr (.inr hdigit))), List.map_cons,
          List.map_cons, ih]

theorem not_isLower_of_mem_head? {c : Char} (h : c ∈ (pascalLetters false text).head?) :
    c.isLower = false := by
  have hstart := TypeNaming.startsWord_pascalLetters text
  rw [TypeNaming.startsWord, Option.mem_def.mp h] at hstart
  rcases Bool.or_eq_true_iff.mp hstart with hupper | hdigit
  · exact not_isLower_of_isUpper hupper
  · exact not_isLower_of_isDigit hdigit

theorem pascalLetters_again (inWord : Bool) (text : List Char) :
    pascalLetters inWord (pascalLetters inWord text) = pascalLetters inWord text := by
  induction text generalizing inWord with
  | nil => rfl
  | cons c rest ih =>
      rcases char_cases c with hseparator | hlower | hupper | hdigit
      · -- the separator closes the word, and what is left opens one by itself
        rw [pascalLetters_separator _ _ hseparator,
          pascalLetters_of_head inWord fun _ => not_isLower_of_mem_head?, ih]
      · rw [pascalLetters_lower _ _ hlower]
        cases inWord with
        | false =>
            rw [if_neg Bool.false_ne_true,
              pascalLetters_upper _ _ (TypeNaming.isUpper_toUpper hlower), ih]
        | true => rw [if_pos rfl, pascalLetters_lower _ _ hlower, if_pos rfl, ih]
      · rw [pascalLetters_upper _ _ hupper, pascalLetters_upper _ _ hupper, ih]
      · rw [pascalLetters_digit _ _ hdigit, pascalLetters_digit _ _ hdigit, ih]

theorem pascalLetters_append_separator {c : Char} (h : c.isAlphanum = false) (inWord : Bool)
    (text after : List Char) :
    pascalLetters inWord (text ++ c :: after) =
      pascalLetters inWord text ++ pascalLetters false after := by
  induction text generalizing inWord with
  | nil => exact pascalLetters_separator inWord after h
  | cons d rest ih =>
      rw [List.cons_append]
      rcases char_cases d with hd | hd | hd | hd
      · rw [pascalLetters_separator _ _ hd, pascalLetters_separator _ _ hd, ih]
      · rw [pascalLetters_lower _ _ hd, pascalLetters_lower _ _ hd, ih, List.cons_append]
      · rw [pascalLetters_upper _ _ hd, pascalLetters_upper _ _ hd, ih, List.cons_append]
      · rw [pascalLetters_digit _ _ hd, pascalLetters_digit _ _ hd, ih, List.cons_append]

end Texts

/-- Pascal case keeps the letters and digits of a text up to letter case, and makes a row
of its capitalised words.  It changes nothing any more the second time, and what a
separator parts it takes by itself. -/
theorem pascalCase_capitalizes (text : String) :
    (pascalCase text).toList.map Char.toLower =
        (text.toList.filter Char.isAlphanum).map Char.toLower ∧
      (pascalCase text).toList = (wordsOf text.toList).flatMap capitalized ∧
      (∀ word ∈ wordsOf text.toList, IsCapitalized (capitalized word)) ∧
      pascalCase (pascalCase text) = pascalCase text ∧
      ∀ (c : Char) (after : String), c.isAlphanum = false →
        pascalCase (text ++ String.singleton c ++ after) = pascalCase text ++ pascalCase after := by
  have hletters : ∀ text, (pascalCase text).toList = pascalLetters false text.toList :=
    fun text => String.toList_ofList
  refine ⟨?_, ?_, fun word => isCapitalized_of_mem_wordsOf, ?_, fun c after hseparator => ?_⟩
  · rw [hletters, map_toLower_pascalLetters]
  · rw [hletters, pascalLetters_eq_words]
  · rw [← String.toList_inj, hletters, hletters, pascalLetters_again]
  · rw [← String.toList_inj, String.toList_append, hletters, hletters, hletters,
      ← pascalLetters_append_separator hseparator]
    simp

theorem pascalCase_joins_digits :
    '-'.isAlphanum = false ∧ pascalCase ("petOwner2" ++ "-" ++ "2fa") = "PetOwner2" ++ "2Fa" ∧
      "PetOwner22Fa".toList = (wordsOf "petOwner2-2fa".toList).flatMap capitalized ∧
      pascalCase "PetOwner22Fa" = "PetOwner22Fa" := by
  have hfirst : pascalCase "petOwner2" = "PetOwner2" := by decide
  have hsecond : pascalCase "2fa" = "2Fa" := by decide
  have hwhole : pascalCase "petOwner2-2fa" = "PetOwner22Fa" := by decide
  obtain ⟨-, -, -, -, hapart⟩ := pascalCase_capitalizes "petOwner2"
  obtain ⟨-, hwords, -, hagain, -⟩ := pascalCase_capitalizes "petOwner2-2fa"
  rw [hwhole] at hwords hagain
  have hparts := hapart '-' "2fa" (by decide)
  rw [hfirst, hsecond] at hparts
  exact ⟨by decide, hparts, hwords, hagain⟩

end SchemaViews
