import Mathlib.Data.List.DropRight
import SchemaViews.Declaration

/-!
# Descriptions stay inside their comment or docstring

The lines of a description hold no line end, and the first of them is not empty.
So each of them is one comment above a declaration, and in a class they are one
docstring that is not empty.

The docstring is an escaped text.  Escaping leaves line feeds and blanks as they
are, so the text can be indented before or after, and no quote without a
backslash is left that could end the docstring too early.
-/

namespace SchemaViews

/-! ## Lines -/

namespace Lines

open Characters

theorem isLineEnd_of_mem_split (text : List Char) :
    ∀ line ∈ split text, ∀ c ∈ line, isLineEnd c = false := by
  fun_induction split text with
  | case1 => simp
  | case2 rest ih => simpa using ih
  | case3 c rest _ hend ih => simpa using ih
  | case4 c rest _ hend hnone ih => simpa using hend
  | case5 c rest _ hend line lines hsome ih =>
      rw [hsome, List.forall_mem_cons] at ih
      rw [List.forall_mem_cons, List.forall_mem_cons]
      exact ⟨⟨Bool.of_not_eq_true hend, ih.1⟩, ih.2⟩

theorem isBlank_of_trim {text rest : List Char} {c : Char} (h : trim text = c :: rest) :
    isBlank c = false := by
  have hkept : trim text <+: trimLeft text := List.rdropWhile_prefix isBlank _
  obtain ⟨behind, hbehind⟩ := hkept
  rw [h, trimLeft] at hbehind
  have hfirst := List.head?_dropWhile_not isBlank text
  rw [← hbehind] at hfirst
  exact hfirst

theorem trimRight_cons_ne_nil {c : Char} (h : isBlank c = false) (text : List Char) :
    trimRight (c :: text) ≠ [] := by
  intro hnil
  have hblank := List.rdropWhile_eq_nil_iff.mp hnil c List.mem_cons_self
  rw [h] at hblank
  cases hblank

theorem split_cons {c : Char} (h : isLineEnd c = false) (text : List Char) :
    ∃ line lines, split (c :: text) = (c :: line) :: lines := by
  have hreturn : c ≠ '\r' := by
    rintro rfl
    exact absurd h (by decide)
  rw [split.eq_def]
  split
  · rename_i hnil
    cases hnil
  · rename_i hcons
    exact absurd (List.cons.inj hcons).1 hreturn
  · rename_i d rest _ hcons
    cases hcons
    rw [if_neg (by simp [h])]
    split
    · exact ⟨[], [], rfl⟩
    · exact ⟨_, _, rfl⟩

/-- Lines that no line end is part of, the first of which is not empty. -/
structure Proper (lines : List String) : Prop where
  single : ∀ line ∈ lines, ∀ c ∈ line.toList, isLineEnd c = false
  headed : lines.head? ≠ some ""

theorem proper_paragraph (text : String) : Proper (paragraph text) where
  single := by
    intro line hline c hc
    obtain ⟨whole, hwhole, rfl⟩ := List.mem_map.mp hline
    rw [String.toList_ofList] at hc
    have hkept : trimRight whole <+: whole := List.rdropWhile_prefix isBlank whole
    exact isLineEnd_of_mem_split _ whole hwhole c (hkept.subset hc)
  headed := by
    unfold paragraph
    cases htrim : trim text.toList with
    | nil => simp [split]
    | cons c rest =>
        have hblank := isBlank_of_trim htrim
        have hend : isLineEnd c = false := by
          by_contra hend
          rw [isBlank_of_isLineEnd (Bool.of_not_eq_false hend)] at hblank
          cases hblank
        obtain ⟨line, lines, hsplit⟩ := split_cons hend rest
        rw [hsplit, List.map_cons, List.head?_cons]
        intro hempty
        have htext := congrArg String.toList (Option.some.inj hempty)
        rw [String.toList_ofList] at htext
        exact trimRight_cons_ne_nil hblank line htext

theorem Proper.append_paragraph {lines : List String} (h : Proper lines) (text : String) :
    Proper ((if lines.isEmpty then [] else lines ++ [""]) ++ paragraph text) := by
  have hparagraph := proper_paragraph text
  cases lines with
  | nil => exact hparagraph
  | cons first others =>
      refine ⟨fun line hline => ?_, h.headed⟩
      rcases List.mem_append.mp hline with habove | hbelow
      · rcases List.mem_append.mp habove with hline | hempty
        · exact h.single line hline
        · simp [List.mem_singleton.mp hempty]
      · exact hparagraph.single line hbelow

theorem proper_ofDescriptions (descriptions : List String) :
    Proper (ofDescriptions descriptions) :=
  List.foldlRecOn descriptions _ ⟨by simp, by simp⟩
    fun _ hlines text _ => hlines.append_paragraph text

theorem dropFinalFeeds_append {front : String} {c : Char}
    (hlast : front.toList.getLast? = some c) (hfeed : c ≠ '\n') (behind : String) :
    dropFinalFeeds (front ++ behind) = front ++ dropFinalFeeds behind := by
  obtain ⟨start, hfront⟩ := List.getLast?_eq_some_iff.mp hlast
  have hkept : front.toList.reverse.dropWhile (· == '\n') = front.toList.reverse := by
    rw [hfront, List.reverse_append, List.reverse_singleton, List.singleton_append,
      List.dropWhile_cons_of_neg (by simpa using hfeed)]
  unfold dropFinalFeeds
  rw [String.toList_append, List.reverse_append, List.dropWhile_append, hkept]
  split
  · rename_i hempty
    rw [List.isEmpty_iff.mp hempty]
    simp
  · simp [String.ofList_append]

end Lines

namespace Declaration

open Lines

/-! ## Comments -/

/-- One physical line that is a comment. -/
def IsComment (text : String) : Prop :=
  ∃ body : List Char, text.toList = '#' :: body ++ ['\n'] ∧
    ∀ c ∈ body, Characters.isLineEnd c = false

theorem isComment_commentLine {line : String}
    (h : ∀ c ∈ line.toList, Characters.isLineEnd c = false) :
    IsComment (commentLine line) := by
  unfold commentLine
  split
  · exact ⟨[], rfl, by simp⟩
  · refine ⟨' ' :: line.toList, by simp, ?_⟩
    intro c hc
    rcases List.mem_cons.mp hc with rfl | hc
    · decide
    · exact h c hc

theorem text_alias (name : String) (lines : List String) (type : String) :
    (Declaration.alias name lines type).text =
      String.join (lines.map commentLine) ++ (Declaration.alias name [] type).text := by
  have hdrop : ∀ above : String,
      dropFinalFeeds (above ++ "type " ++ (name ++ " = " ++ type)) =
        above ++ "type " ++ dropFinalFeeds (name ++ " = " ++ type) :=
    fun above => dropFinalFeeds_append (c := ' ') (by simp) (by decide) _
  simp only [text, String.append_assoc] at hdrop ⊢
  rw [hdrop, hdrop]
  simp

theorem text_functional (name : String) (lines : List String) {fields : List FieldLine}
    (h : (fields.all fun f => isPlainKey f.key) = false) :
    (record name lines fields).text =
      String.join (lines.map commentLine) ++ (record name [] fields).text := by
  have hdrop : ∀ above behind : String,
      dropFinalFeeds (above ++ name ++ " = TypedDict(" ++ behind) =
        above ++ name ++ " = TypedDict(" ++ dropFinalFeeds behind :=
    fun above => dropFinalFeeds_append (c := '(') (by simp) (by decide)
  rw [text, text, if_neg (by simp [h]), if_neg (by simp [h])]
  have hopening : " = TypedDict(\n    \"" = " = TypedDict(" ++ "\n    \"" := by decide
  simp only [functionalText, hopening, String.append_assoc] at hdrop ⊢
  rw [hdrop, hdrop]
  simp

/-! ## Docstrings -/

/-- The text up to the first three quotes that no backslash escapes, and the
text behind them. -/
def docEnd? : List Char → Option (List Char × List Char)
  | [] => none
  | '\\' :: c :: rest => (docEnd? rest).map fun reading => ('\\' :: c :: reading.1, reading.2)
  | '"' :: '"' :: '"' :: rest => some ([], rest)
  | c :: rest => (docEnd? rest).map fun reading => (c :: reading.1, reading.2)

/-- Takes the backslash off every escaped backslash and quote.  Before other
characters a backslash has other meanings. -/
def unescape? : List Char → Option (List Char)
  | [] => some []
  | '\\' :: '\\' :: rest => (unescape? rest).map ('\\' :: ·)
  | '\\' :: '"' :: rest => (unescape? rest).map ('"' :: ·)
  | '\\' :: _ => none
  | c :: rest => (unescape? rest).map (c :: ·)

/-- What a docstring says: the lines below the first one are indented like the
class body, except where they are empty, and so is the end behind several lines. -/
def docValue : List String → String
  | [] => ""
  | [line] => line
  | line :: rest =>
    "\n".intercalate (line :: rest.map fun line => if line = "" then "" else "    " ++ line) ++
      "\n    "

theorem escapeDoc_append (front behind : String) :
    escapeDoc (front ++ behind) = escapeDoc front ++ escapeDoc behind := by
  simp [escapeDoc, String.ofList_append]

theorem escapeDoc_intercalate (separator : String) (parts : List String) :
    escapeDoc (separator.intercalate parts) =
      (escapeDoc separator).intercalate (parts.map escapeDoc) := by
  induction parts with
  | nil => rfl
  | cons part rest ih =>
      cases rest with
      | nil => simp
      | cons next others =>
          simp only [List.map_cons, String.intercalate_cons_cons, escapeDoc_append] at ih ⊢
          rw [ih]

theorem escapeDoc_eq_empty_iff {line : String} : escapeDoc line = "" ↔ line = "" := by
  rw [← String.toList_eq_nil_iff, ← String.toList_eq_nil_iff, escapeDoc, String.toList_ofList,
    List.flatMap_eq_nil_iff]
  constructor
  · intro h
    rw [List.eq_nil_iff_forall_not_mem]
    intro c hc
    have hnil := h c hc
    split at hnil <;> cases hnil
  · intro h
    simp [h]

/-- Line feeds and blanks are not escaped, so the text can as well be indented
before it is escaped. -/
theorem docText_eq_escapeDoc (lines : List String) :
    docText lines = escapeDoc (docValue lines) := by
  match lines with
  | [] | [_] => rfl
  | line :: next :: others =>
      have hindent : ∀ text : String,
          escapeDoc (if text = "" then "" else "    " ++ text) =
            if text = "" then "" else "    " ++ escapeDoc text := by
        intro text
        split
        · rfl
        · exact escapeDoc_append "    " text
      have hend : escapeDoc "\n    " = "\n" ++ "    " := by decide
      have hfeed : escapeDoc "\n" = "\n" := by decide
      simp only [docText, docValue, escapeDoc_append, escapeDoc_intercalate, hend, hfeed]
      rw [String.intercalate_append_of_ne_nil (by simp) (by simp)]
      simp [hindent, Function.comp_def, String.append_assoc]

theorem docEnd?_escapeDoc (text : String) (behind : List Char) :
    docEnd? ((escapeDoc text).toList ++ '"' :: '"' :: '"' :: behind) =
      some ((escapeDoc text).toList, behind) := by
  rw [escapeDoc, String.toList_ofList]
  induction text.toList with
  | nil => rfl
  | cons c rest ih =>
      rw [List.flatMap_cons, List.append_assoc]
      split
      · simp [docEnd?, ih]
      · rename_i hplain
        push Not at hplain
        simp [docEnd?, ih, hplain]

theorem unescape?_escapeDoc (text : String) :
    unescape? (escapeDoc text).toList = some text.toList := by
  rw [escapeDoc, String.toList_ofList]
  induction text.toList with
  | nil => rfl
  | cons c rest ih =>
      rw [List.flatMap_cons]
      split
      · rename_i hescaped
        rcases hescaped with rfl | rfl <;> simp [unescape?, ih]
      · rename_i hplain
        push Not at hplain
        simp [unescape?, ih, hplain]

theorem docText_ne_empty {lines : List String} (hne : lines ≠ [])
    (hheaded : lines.head? ≠ some "") : docText lines ≠ "" := by
  rw [docText_eq_escapeDoc, ne_eq, escapeDoc_eq_empty_iff]
  match lines with
  | [] => exact absurd rfl hne
  | [line] => simpa [docValue] using hheaded
  | line :: next :: others => simp [docValue]

def classRest (fields : List FieldLine) : String :=
  Lines.dropFinalFeeds <| "\n" ++ (if fields.isEmpty then "" else "\n") ++
    String.join (fields.map fun f => "    " ++ f.key ++ ": " ++ f.type ++ "\n")

theorem text_class (name : String) {lines : List String} {fields : List FieldLine}
    (hplain : (fields.all fun f => isPlainKey f.key) = true) (hdoc : docText lines ≠ "") :
    (record name lines fields).text =
      "class " ++ name ++ "(TypedDict):\n    \"\"\"" ++ docText lines ++ "\"\"\"" ++
        classRest fields := by
  have hclass : classText name lines fields =
      "class " ++ name ++ "(TypedDict):\n    \"\"\"" ++ docText lines ++ "\"\"\"" ++
        ("\n" ++ (if fields.isEmpty then "" else "\n") ++
          String.join (fields.map fun f => "    " ++ f.key ++ ": " ++ f.type ++ "\n")) := by
    refine String.toList_inj.mp ?_
    simp [classText, hdoc]
  rw [text, if_pos (by simpa using hplain), hclass]
  refine dropFinalFeeds_append (c := '"') ?_ (by decide) _
  rw [String.toList_append, List.getLast?_append]
  rfl

/-! ## Declarations with descriptions -/

/-- Whatever the descriptions are, their lines hold no line end.  Above an alias
or a dictionary in functional syntax each line is one comment, and below the
comments stands what is declared without descriptions.  In a class they are the
text up to the first three unescaped quotes; without its escapes it is the
indented description, and what stands behind it does not depend on it. -/
theorem descriptions_confined (descriptions : List String) (name : String) :
    (∀ line ∈ ofDescriptions descriptions,
      (∀ c ∈ line.toList, Characters.isLineEnd c = false) ∧ IsComment (commentLine line)) ∧
    (∀ type : String,
      (Declaration.alias name (ofDescriptions descriptions) type).text =
        String.join ((ofDescriptions descriptions).map commentLine) ++
          (Declaration.alias name [] type).text) ∧
    (∀ fields : List FieldLine, (fields.all fun f => isPlainKey f.key) = false →
      (record name (ofDescriptions descriptions) fields).text =
        String.join ((ofDescriptions descriptions).map commentLine) ++
          (record name [] fields).text) ∧
    (∀ fields : List FieldLine, (fields.all fun f => isPlainKey f.key) = true →
      ofDescriptions descriptions ≠ [] →
      ∃ behind : String,
        (record name (ofDescriptions descriptions) fields).text =
          "class " ++ name ++ "(TypedDict):\n    \"\"\"" ++ behind ∧
        docEnd? behind.toList =
          some ((docText (ofDescriptions descriptions)).toList, (classRest fields).toList) ∧
        unescape? (docText (ofDescriptions descriptions)).toList =
          some (docValue (ofDescriptions descriptions)).toList) := by
  have hproper := proper_ofDescriptions descriptions
  refine ⟨fun line hline => ?_, text_alias name _, fun fields => text_functional name _,
    fun fields hplain hne => ?_⟩
  · have hsingle := hproper.single line hline
    exact ⟨hsingle, isComment_commentLine hsingle⟩
  · have htext := text_class name hplain (docText_ne_empty hne hproper.headed)
    refine ⟨docText (ofDescriptions descriptions) ++ "\"\"\"" ++ classRest fields, ?_, ?_, ?_⟩
    · rw [htext]
      simp only [String.append_assoc]
    · rw [docText_eq_escapeDoc, String.toList_append, String.toList_append, List.append_assoc]
      exact docEnd?_escapeDoc _ _
    · rw [docText_eq_escapeDoc]
      exact unescape?_escapeDoc _

theorem descriptions_confined_pet :
    let lines := ofDescriptions ["Says \"\"\".\nTwice."]
    let id : FieldLine := ⟨"id", "int"⟩
    let dashed : FieldLine := ⟨"a-b", "int"⟩
    (record "Pet" lines [id]).text =
        "class Pet(TypedDict):\n" ++ "    \"\"\"Says \\\"\\\"\\\".\n" ++ "    Twice.\n" ++
          "    \"\"\"\n" ++ "\n" ++ "    id: int" ∧
      unescape? (docText lines).toList = some "Says \"\"\".\n    Twice.\n    ".toList ∧
      (record "Pet" lines [dashed]).text =
        "# Says \"\"\".\n" ++ "# Twice.\n" ++ (record "Pet" [] [dashed]).text := by
  intro lines id dashed
  obtain ⟨-, -, hfunctional, hclass⟩ := descriptions_confined ["Says \"\"\".\nTwice."] "Pet"
  obtain ⟨behind, -, -, hvalue⟩ := hclass [id] (by decide) (by decide)
  have hcomments := hfunctional [dashed] (by decide +kernel)
  have hjoin : String.join (lines.map commentLine) = "# Says \"\"\".\n" ++ "# Twice.\n" := by
    decide
  refine ⟨by decide, hvalue.trans (by decide), ?_⟩
  rw [← hjoin]
  exact hcomments

end Declaration
end SchemaViews
