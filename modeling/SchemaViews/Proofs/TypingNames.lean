import Mathlib.Data.List.Infix
import SchemaViews.Proofs.EmissionInvariants

/-!
# Declared names and the names of constructs

A module imports the constructs of its annotations by their names and declares its
types beside them.  Every declared name is the type name of a definition, or one with
words put behind it; so a declaration has the name of a construct only if some
definition has a type name at which that name can be split.  Nothing keeps such
definitions out.
-/

namespace SchemaViews

namespace TypeNaming

theorem startsWord_append {first second : List Char} (hfirst : startsWord first = true)
    (hsecond : startsWord second = true) : startsWord (first ++ second) = true := by
  cases first with
  | nil => exact hsecond
  | cons c rest => exact hfirst

def Continues (names : List String) (name : String) : Prop :=
  ∃ base ∈ names, ∃ word, startsWord word.toList = true ∧ name = base ++ word

variable {names : List String} {name : String}

theorem continues_of_mem (h : name ∈ names) : Continues names name :=
  ⟨name, h, "", rfl, String.append_empty.symm⟩

theorem Continues.append (h : Continues names name) {word : String}
    (hword : startsWord word.toList = true) : Continues names (name ++ word) := by
  obtain ⟨base, hbase, first, hfirst, rfl⟩ := h
  refine ⟨base, hbase, first ++ word, ?_, String.append_assoc ..⟩
  rw [String.toList_append]
  exact startsWord_append hfirst hword

end TypeNaming

namespace Construct

/-- The texts behind which the name of a construct goes on with a word, if at all. -/
def fronts (c : Construct) : List String :=
  (c.name.toList.inits.filter fun front =>
    TypeNaming.startsWord (c.name.toList.drop front.length)).map String.ofList

theorem mem_fronts {c : Construct} {base word : String} (h : c.name = base ++ word)
    (hword : TypeNaming.startsWord word.toList = true) : base ∈ c.fronts := by
  have hchars : c.name.toList = base.toList ++ word.toList := by
    rw [h, String.toList_append]
  apply List.mem_map.mpr
  refine ⟨base.toList, ?_, String.ofList_toList⟩
  rw [List.mem_filter, List.mem_inits, hchars]
  simp [hword]

example : Construct.fronts .notRequired = ["", "Not", "NotRequired"] := by decide

end Construct

namespace Emit

open TypeNaming

variable {withDescriptions : Bool} {outline : Outline} {e e' : Emission} {text : String}

theorem stable_continues (names : List String) :
    Stable (fun e => ∀ d ∈ e.declarations, Continues names d.name) (Continues names) := by
  constructor
  · exact fun _ _ he => he
  · exact fun _ _ he => he
  · intro e declaration hname he d hd
    rcases List.mem_append.mp hd with hd | hd
    · exact he d hd
    · rw [List.mem_singleton.mp hd]
      exact hname
  · exact fun hint word hhint hword => hhint.append hword

/-- Every type name is declared; the name of a construct is declared only if one of
the type names stands at its front. -/
theorem generate_typing_names
    (h : (generate withDescriptions outline).run e = (.ok text, e')) :
    (∀ name ∈ outline.typeNames, name ∈ e'.declarations.map Declaration.name) ∧
      ∀ c : Construct, (∀ name ∈ outline.typeNames, name ∉ c.fronts) →
        c.name ∉ e'.declarations.map Declaration.name := by
  refine ⟨generate_declares h, fun c hfronts hdeclared => ?_⟩
  have hall : ∀ d ∈ e'.declarations, Continues outline.typeNames d.name := by
    refine generate_keeps (stable_continues outline.typeNames) ?_ ?_ h
    · intro used d hd
      cases hd
    · intro d hd
      exact ⟨keepsReference_of_modules (fun _ _ he => he) d.type,
        continues_of_mem (List.mem_map_of_mem hd)⟩
  obtain ⟨d, hd, hname⟩ := List.mem_map.mp hdeclared
  obtain ⟨base, hbase, word, hword, heq⟩ := hall d hd
  exact hfronts base hbase (Construct.mem_fronts (hname ▸ heq) hword)

theorem generate_typing_names_pet :
    let owner : TypeExpr := .struct [⟨.str "name", true, .freeMap⟩]
    let outline : Outline :=
      ⟨.str "models", "", [⟨.str "pet", .struct [⟨.str "owner", false, owner⟩], []⟩]⟩
    ∃ text e', (generate true outline).run (.start .null) = (.ok text, e') ∧
      "Pet" ∈ e'.declarations.map Declaration.name ∧
      ∀ c : Construct, c.name ∉ e'.declarations.map Declaration.name := by
  intro owner outline
  have hnames : outline.typeNames = ["Pet"] := by decide
  have hfronts : ∀ c : Construct, "Pet" ∉ c.fronts := by
    intro c
    cases c <;> decide
  cases hresult : (generate true outline).run (.start .null) with
  | mk result e' =>
      cases result with
      | error failure =>
          have hsucceeds : ((generate true outline).run (.start .null)).1.isOk = true := by
            decide
          rw [hresult] at hsucceeds
          cases hsucceeds
      | ok text =>
          obtain ⟨hdeclared, hnone⟩ := generate_typing_names hresult
          rw [hnames] at hdeclared hnone
          refine ⟨text, e', rfl, hdeclared "Pet" List.mem_cons_self, fun c => ?_⟩
          apply hnone c
          intro name hname
          rw [List.mem_singleton.mp hname]
          exact hfronts c

/-- A schema that is an open mapping itself is declared under the name of the
construct that it needs, and another one as what its base class is called. -/
theorem generate_shadows_any :
    let outline : Outline :=
      ⟨.str "models", "",
        [⟨.str "any", .freeMap, []⟩,
          ⟨.str "typed", .struct [⟨.str "dict", false, .struct []⟩], []⟩]⟩
    let result := (generate true outline).run (.start .null)
    result.1 = .ok ("from __future__ import annotations\n\n" ++
        "from typing import Any, TypedDict\n\n\ntype Any = dict[str, Any]\n\n\n" ++
        "class TypedDict(TypedDict):\n    pass\n\n\n" ++
        "class Typed(TypedDict):\n    dict: TypedDict\n") ∧
      ∀ c ∈ [Construct.any, Construct.typedDict], c ∈ result.2.constructs ∧
        c.name ∈ result.2.declarations.map Declaration.name := by
  decide +kernel

end Emit
end SchemaViews
