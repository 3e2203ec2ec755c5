import Mathlib.Data.List.Sort
import Mathlib.Data.String.Basic
import SchemaViews.Proofs.CollectedImports
import SchemaViews.Proofs.DescriptionText
import SchemaViews.Proofs.EmittedModules

/-!
# Import lines are exact

The imports of a generated module stand in its heading.  A construct is imported
from `typing` exactly if some type of the module is written with it, and a module
exactly if some reference is written behind its name.  Each list is sorted and
without repetition, so it is determined by what it holds.
-/

namespace SchemaViews

/-- The types that are written with a construct. -/
def Construct.Writes (type : TypeExpr) : Construct → Prop
  | .any => type = .freeList ∨ type = .freeMap
  | .literal => ∃ values, values ≠ [] ∧ type = .literal values
  | .never => type = .union [] ∨ type = .literal []
  | .notRequired => ∃ fields, (∃ field ∈ fields, field.optional = true) ∧ type = .struct fields
  | .typedDict => ∃ fields, type = .struct fields

namespace TypeExpr

variable {here : Value} {type : TypeExpr}

theorem needs_construct_iff {c : Construct} :
    type.Needs here (.construct c) ↔ c.Writes type := by
  cases type with
  | missing | primitive | nullable | list | freeList | freeMap | union | named =>
      cases c <;> simp [Needs, Construct.Writes]
  | literal values =>
      cases values <;> cases c <;> simp [Needs, Construct.Writes]
  | struct fields =>
      cases c <;> simp [Needs, Construct.Writes]

theorem needs_module_iff {text : String} :
    type.Needs here (.module text) ↔
      ∃ module name, type = .named module name ∧ here.ForeignTo module ∧ module.shown = text := by
  cases type with
  | named module name =>
      simp only [Needs, Import.module.injEq, named.injEq, eq_comm (a := text)]
      constructor
      · intro h
        exact ⟨module, name, ⟨rfl, rfl⟩, h⟩
      · rintro ⟨_, _, ⟨rfl, rfl⟩, h⟩
        exact h
  | _ => simp [Needs]

theorem rendered_named (name : Place → String) (place : Place) (module : Value)
    (schema : String) :
    ((named module schema).rendered here name place =
        module.shown ++ "." ++ TypeNaming.typeName schema ↔ here.ForeignTo module) ∧
      (¬ here.ForeignTo module →
        (named module schema).rendered here name place = TypeNaming.typeName schema) := by
  have hlonger : TypeNaming.typeName schema ≠
      module.shown ++ "." ++ TypeNaming.typeName schema := by
    intro h
    have hlength := congrArg String.length h
    simp only [String.length_append] at hlength
    have hdot : ".".length = 1 := rfl
    omega
  have hlocal : (module = .null ∨ module.same here = true) ↔ ¬ here.ForeignTo module := by
    simp only [Value.ForeignTo, not_and_or, not_not, Bool.not_eq_false]
  rw [rendered, referenceText]
  split
  · next h =>
      have hnot := hlocal.mp h
      exact ⟨iff_of_false hlonger hnot, fun _ => rfl⟩
  · next h =>
      have hforeign := not_not.mp fun hnot => h (hlocal.mpr hnot)
      exact ⟨iff_of_true rfl hforeign, fun hnot => absurd hforeign hnot⟩

end TypeExpr

/-- A type that stands somewhere in a definition. -/
def Outline.Occurs (outline : Outline) (type : TypeExpr) : Prop :=
  ∃ d ∈ outline.definitions, d.type.Position type

theorem Outline.imports_iff {outline : Outline} {i : Import} :
    (∃ d ∈ outline.definitions, d.type.Imports outline.module i) ↔
      ∃ type, outline.Occurs type ∧ type.Needs outline.module i := by
  constructor
  · rintro ⟨d, hd, type, hposition, hneeds⟩
    exact ⟨type, ⟨d, hd, hposition⟩, hneeds⟩
  · rintro ⟨type, ⟨d, hd, hposition⟩, hneeds⟩
    exact ⟨d, hd, type, hposition, hneeds⟩

theorem Lines.dropFinalFeeds_feed (text : String) :
    dropFinalFeeds (text ++ "\n") = dropFinalFeeds text := by
  have hfeed : "\n".toList = ['\n'] := by simp
  rw [dropFinalFeeds, String.toList_append, hfeed, List.reverse_concat,
    List.dropWhile_cons_of_pos (by decide)]
  rfl

namespace Emission

variable (e : Emission) (comment : String)

/-- Import lines that list exactly what the definitions are written with. -/
structure ImportsExactly (e : Emission) (outline : Outline) : Prop where
  typing : ∃ names : List String, names.Pairwise (· < ·) ∧
    (∀ text, text ∈ names ↔ ∃ c : Construct, c.name = text ∧
      ∃ type, outline.Occurs type ∧ c.Writes type) ∧
    e.typingLine =
      if names = [] then [] else ["from typing import " ++ ", ".intercalate names]
  modules : ∃ names : List String, names.Pairwise (· < ·) ∧
    (∀ text, text ∈ names ↔ ∃ module name, outline.Occurs (.named module name) ∧
      outline.module.ForeignTo module ∧ module.shown = text) ∧
    e.moduleLines = names.map ("import " ++ ·)
  lines : e.importLines =
    e.typingLine ++ (if e.typingLine = [] ∨ e.moduleLines = [] then [] else [""]) ++
      e.moduleLines

theorem typingLine_eq : ∃ names : List String, names.Pairwise (· < ·) ∧
    (∀ text, text ∈ names ↔ ∃ c : Construct, c.name = text ∧ e.Imports (.construct c)) ∧
    e.typingLine =
      if names = [] then [] else ["from typing import " ++ ", ".intercalate names] := by
  refine ⟨(Construct.all.filter (· ∈ e.constructs)).map Construct.name, ?_, fun text => ?_, ?_⟩
  · have hall : (Construct.all.map Construct.name).Pairwise (· < ·) := by decide
    exact hall.sublist (List.filter_sublist.map _)
  · have hevery : ∀ c, c ∈ Construct.all := by
      intro c
      cases c <;> decide
    simp only [List.mem_map, List.mem_filter, hevery, true_and, decide_eq_true_eq, Imports]
    exact exists_congr fun c => and_comm
  · unfold typingLine
    split
    · next hnone => rw [if_pos hnone]
    · next names hsome => rw [if_neg hsome]

theorem moduleLines_eq (h : e.modules.Nodup) : ∃ names : List String, names.Pairwise (· < ·) ∧
    (∀ text, text ∈ names ↔ e.Imports (.module text)) ∧
    e.moduleLines = names.map ("import " ++ ·) := by
  refine ⟨e.modules.mergeSort fun a b => decide (a ≤ b), ?_, fun text => List.mem_mergeSort, rfl⟩
  have hsorted := List.pairwise_mergeSort' (· ≤ ·) e.modules
  have hnodup : (e.modules.mergeSort fun a b => decide (a ≤ b)).Nodup :=
    (List.mergeSort_perm e.modules _).nodup_iff.mpr h
  exact hsorted.imp₂ (fun _ _ => lt_of_le_of_ne) hnodup

/-! ## The heading -/

theorem importLines_eq : e.importLines =
    e.typingLine ++ (if e.typingLine = [] ∨ e.moduleLines = [] then [] else [""]) ++
      e.moduleLines := by
  unfold importLines
  cases e.typingLine with
  | nil => simp
  | cons line rest =>
      cases e.moduleLines with
      | nil => simp
      | cons first others => simp

def opening (comment : String) : String :=
  (if comment = "" then "" else "# " ++ comment ++ "\n\n") ++ "from __future__ import annotations"

/-- The import lines, with an empty line above them.  Line feeds at the end of the
last one are no part of them. -/
def importBlock : String :=
  if e.importLines = [] then ""
  else "\n\n" ++ Lines.dropFinalFeeds ("\n".intercalate e.importLines)

theorem importLines_cons (h : e.importLines ≠ []) : ∃ front name rest,
    e.importLines = (front ++ name) :: rest ∧ front.toList.getLast? = some ' ' := by
  have htyping : "from typing import ".toList.getLast? = some ' ' := by simp
  have hmodule : "import ".toList.getLast? = some ' ' := by simp
  obtain ⟨names, -, -, hline⟩ := e.typingLine_eq
  rw [importLines_eq, hline] at h ⊢
  by_cases hnames : names = []
  · rw [if_pos hnames] at h ⊢
    unfold moduleLines at h ⊢
    cases hmodules : e.modules.mergeSort fun a b => decide (a ≤ b) with
    | nil => exact absurd (by simp [hmodules]) h
    | cons text rest => exact ⟨"import ", text, _, by simp; rfl, hmodule⟩
  · rw [if_neg hnames]
    exact ⟨"from typing import ", _, _, rfl, htyping⟩

theorem join_feeds {line : String} {rest : List String} :
    String.join ((line :: rest).map (· ++ "\n")) = "\n".intercalate (line :: rest) ++ "\n" := by
  induction rest generalizing line with
  | nil => simp
  | cons next others ih =>
      rw [List.map_cons, String.join_cons, ih, String.intercalate_cons_cons]
      simp only [String.append_assoc]

theorem heading_eq : e.heading comment = opening comment ++ e.importBlock := by
  have hlast : (opening comment).toList.getLast? = some 's' := by simp [opening]
  have hopening : "from __future__ import annotations\n" =
      "from __future__ import annotations" ++ "\n" := by simp
  have hheading : e.heading comment = Lines.dropFinalFeeds (opening comment ++ ("\n" ++
      if e.importLines.isEmpty then ""
      else "\n" ++ String.join (e.importLines.map (· ++ "\n")))) := by
    simp only [heading, opening, hopening, String.append_assoc]
  rw [hheading, Lines.dropFinalFeeds_append hlast (by decide), importBlock]
  by_cases hlines : e.importLines = []
  · simp [hlines, Lines.dropFinalFeeds]
  · obtain ⟨front, name, rest, hcons, hfront⟩ := e.importLines_cons hlines
    have hfeeds : ("\n\n" ++ front).toList.getLast? = some ' ' := by
      rw [String.toList_append, List.getLast?_append, hfront]
      rfl
    have htwo : "\n\n" = "\n" ++ "\n" := by simp
    rw [if_neg hlines, hcons, join_feeds, String.intercalate_cons_append,
      Lines.dropFinalFeeds_append hfront (by decide)]
    refine congrArg (opening comment ++ ·) ?_
    generalize "\n".intercalate (name :: rest) = behind
    calc Lines.dropFinalFeeds ("\n" ++ ("\n" ++ (front ++ behind ++ "\n")))
        = Lines.dropFinalFeeds ("\n\n" ++ front ++ (behind ++ "\n")) := by
          rw [htwo]
          simp only [String.append_assoc]
      _ = "\n\n" ++ front ++ Lines.dropFinalFeeds (behind ++ "\n") :=
          Lines.dropFinalFeeds_append hfeeds (by decide) _
      _ = "\n\n" ++ (front ++ Lines.dropFinalFeeds behind) := by
          rw [Lines.dropFinalFeeds_feed, String.append_assoc]

end Emission

namespace Emit

variable {outline : Outline}

/-- A module of complete types with different names is generated.  Its heading
imports exactly what the declarations below it are written with. -/
theorem generate_imports (withDescriptions : Bool) (e : Emission)
    (h : outline.isComplete = true) (hnodup : outline.typeNames.Nodup) :
    ∃ (name : Place → String) (e' : Emission),
      (generate withDescriptions outline).run e = (.ok (e'.text outline.comment), e') ∧
        e'.text outline.comment =
          "\n\n\n".intercalate ((Emission.opening outline.comment ++ e'.importBlock) ::
            e'.declarations.map Declaration.text) ++ "\n" ∧
        e'.declarations = (outline.layout withDescriptions name).map Prod.snd ∧
        e'.ImportsExactly outline ∧
        ∀ place module schema,
          ((TypeExpr.named module schema).rendered outline.module name place =
              module.shown ++ "." ++ TypeNaming.typeName schema ↔
            outline.module.ForeignTo module) ∧
          (¬ outline.module.ForeignTo module →
            (TypeExpr.named module schema).rendered outline.module name place =
              TypeNaming.typeName schema) := by
  obtain ⟨name, e', hrun, -, hdeclarations⟩ := generate_of_nodup withDescriptions e h hnodup
  obtain ⟨hmodules, himports⟩ := generate_gathers hrun
  refine ⟨name, e', hrun, ?_, hdeclarations, ⟨?_, ?_, e'.importLines_eq⟩,
    TypeExpr.rendered_named name⟩
  · rw [Emission.text, Emission.heading_eq]
  · obtain ⟨names, hsorted, hnames, hline⟩ := e'.typingLine_eq
    refine ⟨names, hsorted, fun text => ?_, hline⟩
    simp only [hnames, himports, Outline.imports_iff, TypeExpr.needs_construct_iff]
  · obtain ⟨names, hsorted, hnames, hlines⟩ := e'.moduleLines_eq hmodules
    refine ⟨names, hsorted, fun text => ?_, hlines⟩
    rw [hnames, himports, Outline.imports_iff]
    simp only [TypeExpr.needs_module_iff]
    constructor
    · rintro ⟨_, hoccurs, module, schema, rfl, hforeign⟩
      exact ⟨module, schema, hoccurs, hforeign⟩
    · rintro ⟨module, schema, hoccurs, hforeign⟩
      exact ⟨_, hoccurs, module, schema, rfl, hforeign⟩

theorem generate_imports_pet :
    let pet : TypeExpr := .struct
      [⟨.str "owner", true, .nullable (.named (.str "people") "owner")⟩,
        ⟨.str "tags", false, .list (.named (.str "models") "tag")⟩,
        ⟨.str "kind", false, .union [.literal ["cat"], .freeMap]⟩]
    let outline : Outline :=
      ⟨.str "models", "", [⟨.str "pet", pet, []⟩, ⟨.str "tag", .primitive .string, []⟩]⟩
    ∃ e', (generate true outline).run (.start .null) = (.ok (e'.text ""), e') ∧
      e'.ImportsExactly outline ∧
        e'.importLines =
          ["from typing import Any, Literal, NotRequired, TypedDict", "", "import people"] := by
  intro pet outline
  have hcomplete : outline.isComplete = true := by decide
  have hnodup : outline.typeNames.Nodup := by decide
  obtain ⟨_, e', hrun, -, -, himports, -⟩ :=
    generate_imports true (.start .null) hcomplete hnodup
  refine ⟨e', hrun, himports, ?_⟩
  have hlines : ((generate true outline).run (.start .null)).2.importLines =
      ["from typing import Any, Literal, NotRequired, TypedDict", "", "import people"] := by
    decide +kernel
  rwa [hrun] at hlines

end Emit
end SchemaViews
