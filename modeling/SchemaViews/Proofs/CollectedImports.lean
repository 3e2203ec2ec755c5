import SchemaViews.Proofs.EmissionInvariants

/-!
# What emission imports

Whatever order the types of a module are emitted in, each of them adds what it
needs to the imports and nothing else.  So in the end there is what some type of
the module needs, wherever it stands.
-/

namespace SchemaViews

inductive Import
  | construct (construct : Construct)
  | module (text : String)

/-- A module that is neither the module at hand nor left open. -/
def Value.ForeignTo (here module : Value) : Prop :=
  module ≠ .null ∧ module.same here = false

namespace TypeExpr

/-- What a type needs by itself, in the module `here`. -/
def Needs (here : Value) : TypeExpr → Import → Prop
  | .missing, _ | .primitive _, _ | .nullable _, _ | .list _, _ => False
  | .freeList, i | .freeMap, i => i = .construct .any
  | .union alternatives, i => alternatives = [] ∧ i = .construct .never
  | .literal values, i => i = .construct (if values = [] then .never else .literal)
  | .struct fields, i =>
    i = .construct .typedDict ∨
      (∃ field ∈ fields, field.optional = true) ∧ i = .construct .notRequired
  | .named module _, i => here.ForeignTo module ∧ i = .module module.shown

def Imports (here : Value) (type : TypeExpr) (i : Import) : Prop :=
  ∃ inner, type.Position inner ∧ inner.Needs here i

theorem imports_iff {here : Value} (type : TypeExpr) {i : Import} :
    type.Imports here i ↔ type.Needs here i ∨ ∃ child ∈ type.children, child.Imports here i := by
  constructor
  · rintro ⟨inner, hposition, hneeds⟩
    rcases Relation.ReflTransGen.cases_head hposition with rfl | ⟨child, hchild, hrest⟩
    · exact .inl hneeds
    · exact .inr ⟨child, hchild, inner, hrest, hneeds⟩
  · rintro (hneeds | ⟨child, hchild, inner, hrest, hneeds⟩)
    · exact ⟨type, .refl, hneeds⟩
    · exact ⟨inner, .head hchild hrest, hneeds⟩

theorem imports_iff_needs {here : Value} {type : TypeExpr} (h : type.children = []) {i : Import} :
    type.Imports here i ↔ type.Needs here i := by
  rw [imports_iff]
  simp [h]

end TypeExpr

namespace Emission

def Imports (e : Emission) : Import → Prop
  | .construct c => c ∈ e.constructs
  | .module text => text ∈ e.modules

/-- An emission with more imports, no module of which is noted twice. -/
structure Gathers (e e' : Emission) (added : Import → Prop) : Prop where
  module : e'.module = e.module
  nodup : e.modules.Nodup → e'.modules.Nodup
  imports : ∀ i, e'.Imports i ↔ e.Imports i ∨ added i

end Emission

namespace Emit

/-- A step in the module `here` that adds the given imports when it succeeds. -/
def Gathers {α : Type} (here : Value) (x : Emit α) (added : Import → Prop) : Prop :=
  ∀ e a e', e.module = here → x.run e = (.ok a, e') → e.Gathers e' added

namespace Gathers

variable {α β : Type} {here : Value} {x : Emit α} {f : α → Emit β}
  {added others : Import → Prop}

theorem none (h : ∀ e a e', x.run e = (.ok a, e') → e'.module = e.module ∧
    e'.constructs = e.constructs ∧ e'.modules = e.modules) :
    Gathers here x fun _ => False := by
  intro e a e' _ hrun
  obtain ⟨hmodule, hconstructs, hmodules⟩ := h e a e' hrun
  refine ⟨hmodule, by rw [hmodules]; exact id, fun i => ?_⟩
  rw [or_false]
  cases i with
  | construct c => simp [Emission.Imports, hconstructs]
  | module text => simp [Emission.Imports, hmodules]

theorem pure (a : α) : Gathers here (pure a : Emit α) fun _ => False := by
  refine none fun e b e' hrun => ?_
  cases hrun
  exact ⟨rfl, rfl, rfl⟩

theorem throw (failure : Failure) : Gathers here (throw failure : Emit α) added := by
  intro e a e' _ hrun
  cases hrun

theorem ofExcept (result : Except Failure α) :
    Gathers here (liftM result : Emit α) fun _ => False := by
  refine none fun e b e' hrun => ?_
  cases result with
  | error failure => cases hrun
  | ok a =>
      cases hrun
      exact ⟨rfl, rfl, rfl⟩

theorem bind (hx : Gathers here x added) (hf : ∀ a, Gathers here (f a) others) :
    Gathers here (x >>= f) fun i => added i ∨ others i := by
  intro e b e'' he hrun
  obtain ⟨a, e', hx', hf'⟩ := run_bind_eq_ok_iff.mp hrun
  have hfirst := hx e a e' he hx'
  have hsecond := hf a e' b e'' (hfirst.module.trans he) hf'
  refine ⟨hsecond.module.trans hfirst.module, hsecond.nodup ∘ hfirst.nodup, fun i => ?_⟩
  rw [hsecond.imports, hfirst.imports, or_assoc]

theorem congr (hx : Gathers here x added) (h : ∀ i, added i ↔ others i) :
    Gathers here x others := by
  intro e a e' he hrun
  have hgathers := hx e a e' he hrun
  exact ⟨hgathers.module, hgathers.nodup, fun i => by rw [hgathers.imports, h]⟩

theorem map (hx : Gathers here x added) (g : α → β) :
    Gathers here (x >>= fun a => Pure.pure (g a)) added :=
  (hx.bind fun a => pure (g a)).congr fun i => by rw [or_false]

theorem require (c : Construct) :
    Gathers here (Emit.require c) fun i => i = .construct c := by
  intro e a e' _ hrun
  cases hrun
  dsimp only
  split
  · next hmem =>
      refine ⟨rfl, id, fun i => (or_iff_left_of_imp ?_).symm⟩
      rintro rfl
      exact hmem
  · refine ⟨rfl, id, fun i => ?_⟩
    cases i <;> simp [Emission.Imports]

theorem declare (declaration : Declaration) :
    Gathers here (Emit.declare declaration) fun _ => False := by
  refine none fun e a e' hrun => ?_
  cases hrun
  exact ⟨rfl, rfl, rfl⟩

theorem fresh (hint : String) : Gathers here (Emit.fresh hint) fun _ => False := by
  refine none fun e a e' hrun => ?_
  cases hrun
  exact ⟨rfl, rfl, rfl⟩

theorem reference (module : Value) (schema : String) :
    Gathers here (Emit.reference module schema)
      ((TypeExpr.named module schema).Needs here) := by
  intro e a e' he hrun
  subst he
  unfold Emit.reference at hrun
  dsimp only at hrun
  rw [run_get_bind] at hrun
  split at hrun
  · next hlocal =>
      cases hrun
      refine ⟨rfl, id, fun i => (or_iff_left_of_imp ?_).symm⟩
      rintro ⟨⟨hnull, hother⟩, -⟩
      rcases hlocal with hlocal | hlocal
      · exact absurd hlocal hnull
      · rw [hother] at hlocal
        cases hlocal
  · next hforeign =>
      rw [not_or, Bool.not_eq_true] at hforeign
      split at hrun
      · obtain ⟨shown, e₁, hshown, hrun⟩ := run_bind_eq_ok_iff.mp hrun
        rw [run_liftM] at hshown
        obtain ⟨hwritten, rfl⟩ := Prod.mk.inj hshown
        obtain rfl := Value.written_eq_ok hwritten
        cases hrun
        dsimp only
        split
        · next hmem =>
            refine ⟨rfl, id, fun i => (or_iff_left_of_imp ?_).symm⟩
            rintro ⟨-, rfl⟩
            exact hmem
        · next hnew =>
            refine ⟨rfl, fun hnodup => ?_, fun i => ?_⟩
            · exact List.nodup_append'.mpr ⟨hnodup, List.nodup_singleton _, by simpa using hnew⟩
            · cases i <;> simp [Emission.Imports, TypeExpr.Needs, Value.ForeignTo, hforeign.1,
                hforeign.2]
      · cases hrun

end Gathers

variable {here : Value}

theorem translateAll_gathers {types : List TypeExpr}
    (htypes : ∀ type ∈ types, ∀ hint, Gathers here (translate hint type) (type.Imports here))
    (hint : String) (number : ℕ) :
    Gathers here (translateAll hint number types)
      fun i => ∃ type ∈ types, type.Imports here i := by
  induction types generalizing number with
  | nil =>
      rw [translateAll]
      exact (Gathers.pure []).congr (by simp)
  | cons type rest ih =>
      rw [List.forall_mem_cons] at htypes
      rw [translateAll]
      have hrest := fun text : String => (ih htypes.2 (number + 1)).map (text :: ·)
      exact ((htypes.1 _).bind hrest).congr (by simp)

theorem translateFields_gathers {fields : List (Field TypeExpr)}
    (hfields : ∀ field ∈ fields, ∀ hint,
      Gathers here (translate hint field.type) (field.type.Imports here))
    (owner : String) :
    Gathers here (translateFields owner fields) fun i =>
      (∃ field ∈ fields, field.optional = true) ∧ i = .construct .notRequired ∨
        ∃ field ∈ fields, field.type.Imports here i := by
  induction fields with
  | nil =>
      rw [translateFields]
      exact (Gathers.pure []).congr (by simp)
  | cons field rest ih =>
      rw [List.forall_mem_cons] at hfields
      obtain ⟨name, optional, type⟩ := field
      cases name with
      | str key =>
          have hfirst := hfields.1 (owner ++ TypeNaming.pascalOr "Field" key)
          rw [translateFields]
          cases optional with
          | false =>
              have hrest := fun text : String => (ih hfields.2).map (⟨key, text⟩ :: ·)
              refine (hfirst.bind hrest).congr fun i => ?_
              simp only [List.exists_mem_cons_iff, Bool.false_eq_true, false_or]
              exact or_left_comm
          | true =>
              have hrest := fun text : String => (Gathers.require .notRequired).bind fun _ =>
                (ih hfields.2).map (⟨key, "NotRequired[" ++ text ++ "]"⟩ :: ·)
              refine (hfirst.bind hrest).congr fun i => ?_
              simp only [List.exists_mem_cons_iff, true_or, true_and]
              tauto
      | null | bool | int | float | moment | ref =>
          simp only [translateFields]
          exact .throw _

theorem struct_imports_iff {fields : List (Field TypeExpr)} {i : Import} :
    (TypeExpr.struct fields).Imports here i ↔
      i = .construct .typedDict ∨
        (∃ field ∈ fields, field.optional = true) ∧ i = .construct .notRequired ∨
          ∃ field ∈ fields, field.type.Imports here i := by
  rw [TypeExpr.imports_iff (.struct fields), TypeExpr.Needs, or_assoc]
  simp [TypeExpr.children]

theorem translate_gathers (hint : String) (type : TypeExpr) :
    Gathers here (translate hint type) (type.Imports here) := by
  induction type using TypeExpr.induction generalizing hint with
  | step type ih =>
      cases type with
      | missing =>
          rw [translate]
          exact .throw _
      | primitive kind =>
          rw [translate]
          refine (Gathers.pure _).congr fun i => ?_
          rw [TypeExpr.imports_iff_needs rfl, TypeExpr.Needs]
      | nullable inner =>
          rw [translate]
          have hinner := ih inner (by simp [TypeExpr.children]) hint
          refine (hinner.map (· ++ " | None")).congr fun i => ?_
          rw [TypeExpr.imports_iff (.nullable inner)]
          simp [TypeExpr.Needs, TypeExpr.children]
      | list item =>
          rw [translate]
          have hitem := ih item (by simp [TypeExpr.children]) (hint ++ "Item")
          refine (hitem.map fun text => "list[" ++ text ++ "]").congr fun i => ?_
          rw [TypeExpr.imports_iff (.list item)]
          simp [TypeExpr.Needs, TypeExpr.children]
      | freeList | freeMap =>
          rw [translate]
          refine ((Gathers.require .any).map fun _ => _).congr fun i => ?_
          rw [TypeExpr.imports_iff_needs rfl, TypeExpr.Needs]
      | union alternatives =>
          rw [translate]
          cases alternatives with
          | nil =>
              refine ((Gathers.require .never).map fun _ => _).congr fun i => ?_
              rw [TypeExpr.imports_iff_needs rfl]
              simp [TypeExpr.Needs]
          | cons first rest =>
              have hall := translateAll_gathers ih hint 1
              refine (hall.map (" | ".intercalate ·)).congr fun i => ?_
              rw [TypeExpr.imports_iff (.union (first :: rest))]
              simp [TypeExpr.Needs, TypeExpr.children]
      | literal values =>
          rw [translate]
          cases values with
          | nil =>
              refine ((Gathers.require .never).map fun _ => _).congr fun i => ?_
              rw [TypeExpr.imports_iff_needs rfl]
              simp [TypeExpr.Needs]
          | cons first rest =>
              refine ((Gathers.require .literal).map fun _ => _).congr fun i => ?_
              rw [TypeExpr.imports_iff_needs rfl]
              simp [TypeExpr.Needs]
      | named module schema =>
          rw [translate]
          refine (Gathers.reference module schema).congr fun i => ?_
          rw [TypeExpr.imports_iff_needs rfl]
      | struct fields =>
          rw [translate]
          have hfields := fun owner => translateFields_gathers
            (fun field hfield => ih field.type (List.mem_map_of_mem hfield)) owner
          have hbody := fun name : String => (Gathers.require .typedDict).bind fun _ =>
            (hfields name).bind fun lines =>
              (Gathers.declare (.record name [] lines)).map fun _ => name
          refine ((Gathers.fresh hint).bind hbody).congr fun i => ?_
          rw [struct_imports_iff]
          simp

theorem define_gathers (withDescriptions : Bool) (d : Definition) :
    Gathers here (define withDescriptions d) (d.type.Imports here) := by
  unfold define
  dsimp only
  generalize (if withDescriptions then Lines.ofDescriptions d.descriptions else []) = lines
  have hname : Gathers here (d.typeName : Emit String) fun _ => False :=
    Gathers.ofExcept d.typeName
  split
  · next fields hstruct =>
      have hinner : ∀ field ∈ fields, ∀ hint,
          Gathers here (translate hint field.type) (field.type.Imports here) :=
        fun field _ hint => translate_gathers hint field.type
      have hbody := fun name : String => (Gathers.require .typedDict).bind fun _ =>
        (translateFields_gathers hinner name).bind fun written =>
          Gathers.declare (.record name lines written)
      refine (hname.bind hbody).congr fun i => ?_
      rw [hstruct, struct_imports_iff]
      simp
  · have htype : ∀ name, Gathers here (translate name d.type) (d.type.Imports here) :=
      fun name => translate_gathers name d.type
    have hbody := fun name : String => (htype name).bind fun text =>
      Gathers.declare (.alias name lines text)
    refine (hname.bind hbody).congr fun i => ?_
    simp

theorem definitions_gather (withDescriptions : Bool) (definitions : List Definition) :
    Gathers here (definitions.forM (define withDescriptions))
      fun i => ∃ d ∈ definitions, d.type.Imports here i := by
  induction definitions with
  | nil => exact (Gathers.pure ()).congr (by simp)
  | cons d rest ih =>
      have hfirst : Gathers here (define withDescriptions d) (d.type.Imports here) :=
        define_gathers withDescriptions d
      exact (hfirst.bind fun _ => ih).congr (by simp)

/-- A generated module imports what its definitions need. -/
theorem generate_gathers {withDescriptions : Bool} {outline : Outline} {e e' : Emission}
    {text : String} (h : (generate withDescriptions outline).run e = (.ok text, e')) :
    e'.modules.Nodup ∧
      ∀ i, e'.Imports i ↔ ∃ d ∈ outline.definitions, d.type.Imports outline.module i := by
  obtain ⟨declared, -, hrun, -⟩ := generate_eq_ok h
  have hgathers := definitions_gather withDescriptions outline.definitions _ _ _ rfl hrun
  refine ⟨hgathers.nodup List.nodup_nil, fun i => ?_⟩
  rw [hgathers.imports]
  cases i <;> simp [Emission.Imports, Emission.start]

end Emit
end SchemaViews
