import SchemaViews.Declaration
import SchemaViews.Proofs.PascalWords

/-!
# Type names that can be declared

A type name can be declared if it is made of letters, digits and underscores, with
no digit at its front, and is no keyword.  Pascal case gives such a name whenever
there is a letter or digit to write; but three of the keywords are written in Pascal
case themselves.  A schema without letters and digits keeps its own name, and this
can be declared only if it is made of underscores.
-/

namespace SchemaViews
namespace TypeNaming

def isName (text : String) : Bool :=
  match text.toList with
  | [] => false
  | c :: rest => (c.isAlpha || c == '_') && rest.all fun d => d.isAlphanum || d == '_'

theorem isName_iff {text : String} :
    isName text = true ↔ (∃ c, text.toList.head? = some c ∧ (c.isAlpha = true ∨ c = '_')) ∧
      ∀ c ∈ text.toList, c.isAlphanum = true ∨ c = '_' := by
  unfold isName
  cases text.toList with
  | nil => simp
  | cons c rest =>
      have hfirst : c.isAlpha = true ∨ c = '_' → c.isAlphanum = true ∨ c = '_' :=
        fun h => h.imp_left fun halpha => by simp [Char.isAlphanum, halpha]
      simp only [Bool.and_eq_true, Bool.or_eq_true, beq_iff_eq, List.all_eq_true,
        List.head?_cons, Option.some.injEq, exists_eq_left', List.forall_mem_cons]
      constructor
      · exact fun h => ⟨h.1, hfirst h.1, h.2⟩
      · exact fun h => ⟨h.1, h.2.2⟩

variable {schema : String}

/-! ## Schemas with letters or digits -/

section Words

theorem isAlphanum_of_mem_pascalCase {c : Char} (h : c ∈ (pascalCase schema).toList) :
    c.isAlphanum = true := by
  rw [pascalCase, String.toList_ofList] at h
  exact isAlphanum_of_mem_pascalLetters h

theorem startsWord_pascalCase (schema : String) :
    startsWord (pascalCase schema).toList = true := by
  rw [pascalCase, String.toList_ofList]
  exact startsWord_pascalLetters schema.toList

theorem typeName_of_not_separators (h : ¬ Separators schema.toList) :
    typeName schema =
      if startsWithDigit (pascalCase schema) then "_" ++ pascalCase schema
      else pascalCase schema := by
  rw [typeName, pascalOr, if_neg fun hnone => h (pascalCase_eq_empty_iff.mp hnone)]

theorem isName_of_not_separators (h : ¬ Separators schema.toList) :
    isName (typeName schema) = true := by
  rw [typeName_of_not_separators h, isName_iff]
  split
  · refine ⟨⟨'_', by simp, .inr rfl⟩, fun c hc => ?_⟩
    rw [String.toList_append] at hc
    rcases List.mem_append.mp hc with hc | hc
    · exact .inr (by simpa using hc)
    · exact .inl (isAlphanum_of_mem_pascalCase hc)
  · next hdigit =>
      refine ⟨?_, fun c hc => .inl (isAlphanum_of_mem_pascalCase hc)⟩
      have hstart := startsWord_pascalCase schema
      have hsome : (pascalCase schema).toList ≠ [] := fun hnil =>
        h (pascalCase_eq_empty_iff.mp (String.toList_eq_nil_iff.mp hnil))
      obtain ⟨c, rest, hletters⟩ := List.exists_cons_of_ne_nil hsome
      rw [startsWithDigit, hletters] at hdigit
      rw [startsWord, hletters] at hstart
      rw [hletters]
      have hcapital : c.isUpper = true := by simp_all [Characters.isDigit]
      refine ⟨c, rfl, .inl ?_⟩
      unfold Char.isAlpha
      rw [hcapital, Bool.true_or]

/-- Three keywords are words in Pascal case, and none starts with an underscore. -/
theorem typeName_mem_keywords_iff (h : ¬ Separators schema.toList) :
    typeName schema ∈ Declaration.keywords ↔ pascalCase schema ∈ ["False", "None", "True"] := by
  have hwords : ∀ keyword ∈ Declaration.keywords, startsWord keyword.toList = true →
      keyword ∈ ["False", "None", "True"] := by decide
  have hunderscore : ∀ keyword ∈ Declaration.keywords, keyword.toList.head? ≠ some '_' := by
    decide
  have hconstants : ∀ word ∈ ["False", "None", "True"],
      word ∈ Declaration.keywords ∧ startsWithDigit word = false := by decide
  rw [typeName_of_not_separators h]
  split
  · next hdigit =>
      constructor
      · exact fun hmem => absurd (by simp) (hunderscore _ hmem)
      · intro hmem
        rw [(hconstants _ hmem).2] at hdigit
        cases hdigit
  · exact ⟨fun hmem => hwords _ hmem (startsWord_pascalCase schema),
      fun hmem => (hconstants _ hmem).1⟩

def keywordWords : List String :=
  ["False", "false", "None", "none", "True", "true"]

theorem pascalCase_mem_iff :
    pascalCase schema ∈ ["False", "None", "True"] ↔
      ∃ word ∈ keywordWords, Isolates schema.toList word.toList := by
  have hfalse : pascalCase schema = "False" ↔
      Isolates schema.toList "False".toList ∨ Isolates schema.toList "false".toList :=
    pascalCase_eq_word_iff (by simp : _ = 'f'.toUpper :: ['a', 'l', 's', 'e']) (by simp) (by simp)
  have hnone : pascalCase schema = "None" ↔
      Isolates schema.toList "None".toList ∨ Isolates schema.toList "none".toList :=
    pascalCase_eq_word_iff (by simp : _ = 'n'.toUpper :: ['o', 'n', 'e']) (by simp) (by simp)
  have htrue : pascalCase schema = "True" ↔
      Isolates schema.toList "True".toList ∨ Isolates schema.toList "true".toList :=
    pascalCase_eq_word_iff (by simp : _ = 't'.toUpper :: ['r', 'u', 'e']) (by simp) (by simp)
  simp only [keywordWords, List.mem_cons, List.not_mem_nil, or_false, hfalse, hnone, htrue,
    exists_eq_or_imp, exists_eq_left, or_assoc]

end Words

/-! ## Schemas without letters and digits -/

section Signs

theorem typeName_of_separators (h : Separators schema.toList) :
    typeName schema = if startsWithDigit schema then "_" ++ schema else schema := by
  rw [typeName, pascalOr, if_pos (pascalCase_eq_empty_iff.mpr h)]

theorem separators_typeName (h : Separators schema.toList) :
    Separators (typeName schema).toList := by
  rw [typeName_of_separators h]
  split
  · rw [String.toList_append, separators_append]
    exact ⟨by simp [Separators], h⟩
  · exact h

theorem isName_of_separators_iff (h : Separators schema.toList) :
    isName (typeName schema) = true ↔ schema ≠ "" ∧ ∀ c ∈ schema.toList, c = '_' := by
  have hsigns : ∀ c ∈ schema.toList, (c.isAlphanum = true ∨ c = '_') ↔ c = '_' := by
    intro c hc
    simp [h c hc]
  rw [typeName_of_separators h, isName_iff]
  split
  · next hdigit =>
      -- what is shown as a digit here is none of ASCII, and no underscore
      cases hchars : schema.toList with
      | nil =>
          rw [startsWithDigit, hchars] at hdigit
          cases hdigit
      | cons c rest =>
          have hc : c ∈ schema.toList := by simp [hchars]
          have hne : c ≠ '_' := by
            rintro rfl
            have hunderscore : Characters.isDigit '_' = false := by decide
            simp [startsWithDigit, hchars, hunderscore] at hdigit
          constructor
          · rintro ⟨-, hall⟩
            exact absurd ((hsigns c hc).mp (hall c (by simp [hchars]))) hne
          · rintro ⟨-, hall⟩
            exact absurd (hall c List.mem_cons_self) hne
  · constructor
    · rintro ⟨⟨c, hc, -⟩, hall⟩
      refine ⟨?_, fun d hd => (hsigns d hd).mp (hall d hd)⟩
      rintro rfl
      cases hc
    · rintro ⟨hne, hall⟩
      have hsome : schema.toList ≠ [] := by simpa using hne
      obtain ⟨c, rest, hchars⟩ := List.exists_cons_of_ne_nil hsome
      exact ⟨⟨c, by rw [hchars]; rfl, .inr (hall c (by simp [hchars]))⟩,
        fun d hd => .inr (hall d hd)⟩

theorem not_mem_keywords_of_separators {name : String} (h : Separators name.toList) :
    name ∉ Declaration.keywords := by
  have hletters : ∀ keyword ∈ Declaration.keywords,
      keyword.toList.any (fun c => c.isAlphanum) = true := by decide
  intro hmem
  obtain ⟨c, hc, hletter⟩ := List.any_eq_true.mp (hletters name hmem)
  rw [h c hc] at hletter
  cases hletter

end Signs

/-- The type name of a schema can be declared exactly if the schema has a letter or a
digit or is made of underscores, and is none of three words with separators around
it. -/
theorem typeName_declarable_iff (schema : String) :
    isName (typeName schema) = true ∧ typeName schema ∉ Declaration.keywords ↔
      ((∃ c ∈ schema.toList, c.isAlphanum = true) ∨
        schema ≠ "" ∧ ∀ c ∈ schema.toList, c = '_') ∧
      ∀ word ∈ keywordWords, ¬ Isolates schema.toList word.toList := by
  have hwords : (∀ word ∈ keywordWords, ¬ Isolates schema.toList word.toList) ↔
      pascalCase schema ∉ ["False", "None", "True"] := by
    rw [pascalCase_mem_iff]
    simp only [not_exists, not_and]
  rw [hwords]
  by_cases h : Separators schema.toList
  · have hnone : ¬ ∃ c ∈ schema.toList, c.isAlphanum = true := by
      rintro ⟨c, hc, hletter⟩
      rw [h c hc] at hletter
      cases hletter
    have hempty : pascalCase schema ∉ ["False", "None", "True"] := by
      rw [pascalCase_eq_empty_iff.mpr h]
      decide
    rw [isName_of_separators_iff h]
    simp only [not_mem_keywords_of_separators (separators_typeName h), hnone, hempty,
      not_false_eq_true, and_true, false_or]
  · have hsome : ∃ c ∈ schema.toList, c.isAlphanum = true := by
      simpa [Separators] using h
    rw [typeName_mem_keywords_iff h]
    simp only [isName_of_not_separators h, hsome, true_and, true_or]

theorem typeName_not_declarable :
    typeName "none" = "None" ∧ "None" ∈ Declaration.keywords ∧
      typeName "." = "." ∧ isName "." = false := by
  decide

end TypeNaming
end SchemaViews
