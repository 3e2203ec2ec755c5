import Mathlib.Data.List.Flatten
import Mathlib.Data.List.Nodup
import Mathlib.Data.List.Perm.Basic
import Mathlib.Logic.Relation
import SchemaViews.Emission

/-!
# Structural objects and their declarations

A module declares its definitions and every structural object inside them.  Each
of these has a place: the number of the definition, followed by the way down.
With a name for every place, what is to be declared can be said without emitting
it.
-/

namespace SchemaViews

abbrev Place := List ℕ

namespace TypeExpr

def children : TypeExpr → List TypeExpr
  | .missing | .primitive _ | .freeList | .freeMap | .literal _ | .named _ _ => []
  | .nullable inner => [inner]
  | .list item => [item]
  | .union alternatives => alternatives
  | .struct fields => fields.map Field.type

theorem sizeOf_lt_of_child {child type : TypeExpr} (h : child ∈ type.children) :
    sizeOf child < sizeOf type := by
  cases type with
  | missing | primitive | freeList | freeMap | literal | named =>
      rw [children] at h
      cases h
  | nullable inner | list inner =>
      rw [children, List.mem_singleton] at h
      subst h
      simp
  | union alternatives =>
      rw [children] at h
      have hsize := List.sizeOf_lt_of_mem h
      simp only [union.sizeOf_spec]
      omega
  | struct fields =>
      obtain ⟨field, hfield, rfl⟩ := List.mem_map.mp h
      have hsize := List.sizeOf_lt_of_mem hfield
      obtain ⟨name, optional, type⟩ := field
      simp only [Field.mk.sizeOf_spec] at hsize
      simp only [struct.sizeOf_spec]
      omega

@[elab_as_elim]
theorem induction {motive : TypeExpr → Prop}
    (step : ∀ type, (∀ child ∈ type.children, motive child) → motive type)
    (type : TypeExpr) : motive type := by
  induction hsize : sizeOf type using Nat.strongRecOn generalizing type with
  | ind size ih =>
      refine step type fun child hchild => ?_
      exact ih _ (hsize ▸ sizeOf_lt_of_child hchild) child rfl

/-! ## Types inside types -/

def Position (type inner : TypeExpr) : Prop :=
  Relation.ReflTransGen (fun outer inner => inner ∈ outer.children) type inner

def Everywhere (P : TypeExpr → Prop) (type : TypeExpr) : Prop :=
  ∀ inner, type.Position inner → P inner

section Everywhere

variable {P : TypeExpr → Prop} {type child : TypeExpr}

theorem Everywhere.here (h : type.Everywhere P) : P type :=
  h type .refl

theorem Everywhere.inside (h : type.Everywhere P) (hchild : child ∈ type.children) :
    child.Everywhere P :=
  fun inner hinner => h inner (.head hchild hinner)

theorem everywhere_iff :
    type.Everywhere P ↔ P type ∧ ∀ child ∈ type.children, child.Everywhere P := by
  constructor
  · intro h
    exact ⟨h.here, fun child hchild => h.inside hchild⟩
  · rintro ⟨hhere, hchildren⟩ inner hinner
    rcases Relation.ReflTransGen.cases_head hinner with rfl | ⟨child, hchild, hrest⟩
    · exact hhere
    · exact hchildren child hchild inner hrest

end Everywhere

/-! ## Complete types -/

/-- Whether all that a type is made of is there, and its keys and modules are texts. -/
def isComplete : TypeExpr → Bool
  | .missing => false
  | .primitive _ | .freeList | .freeMap | .literal _ => true
  | .nullable inner | .list inner => inner.isComplete
  | .union alternatives => areComplete alternatives
  | .struct fields => areCompleteFields fields
  | .named module _ =>
    match module with
    | .null | .str _ => true
    | _ => false
where
  areComplete : List TypeExpr → Bool
    | [] => true
    | type :: rest => type.isComplete && areComplete rest
  areCompleteFields : List (Field TypeExpr) → Bool
    | [] => true
    | ⟨name, _, type⟩ :: rest =>
      name.text?.isSome && type.isComplete && areCompleteFields rest

theorem isComplete_union {alternatives : List TypeExpr} :
    (union alternatives).isComplete = true ↔
      ∀ type ∈ alternatives, type.isComplete = true := by
  rw [isComplete]
  induction alternatives with
  | nil => simp [isComplete.areComplete]
  | cons type rest ih => simp [isComplete.areComplete, ih]

theorem isComplete_struct {fields : List (Field TypeExpr)} :
    (struct fields).isComplete = true ↔ ∀ field ∈ fields,
      field.name.text?.isSome = true ∧ field.type.isComplete = true := by
  rw [isComplete]
  induction fields with
  | nil => simp [isComplete.areCompleteFields]
  | cons field rest ih => simp [isComplete.areCompleteFields, ih]

/-! ## Places of structural objects -/

def own (place : Place) : TypeExpr → List (Place × List (Field TypeExpr))
  | .struct fields => [(place, fields)]
  | _ => []

/-- The structural objects inside a type, the inner ones first. -/
def nested (place : Place) : TypeExpr → List (Place × List (Field TypeExpr))
  | .missing | .primitive _ | .freeList | .freeMap | .literal _ | .named _ _ => []
  | .nullable inner | .list inner =>
    inner.nested (place ++ [0]) ++ inner.own (place ++ [0])
  | .union alternatives => nestedAmong 0 alternatives
  | .struct fields => nestedFields 0 fields
where
  nestedAmong (number : ℕ) : List TypeExpr → List (Place × List (Field TypeExpr))
    | [] => []
    | type :: rest =>
      type.nested (place ++ [number]) ++ type.own (place ++ [number]) ++
        nestedAmong (number + 1) rest
  nestedFields (number : ℕ) :
      List (Field TypeExpr) → List (Place × List (Field TypeExpr))
    | [] => []
    | ⟨_, _, type⟩ :: rest =>
      type.nested (place ++ [number]) ++ type.own (place ++ [number]) ++
        nestedFields (number + 1) rest

def structs (place : Place) (type : TypeExpr) : List (Place × List (Field TypeExpr)) :=
  type.nested place ++ type.own place

theorem own_of_not_struct {type : TypeExpr} (h : ∀ fields, type ≠ .struct fields)
    (place : Place) : type.own place = [] := by
  unfold own
  split
  · exact absurd rfl (h _)
  · rfl

@[simp] theorem structs_nullable (place : Place) (inner : TypeExpr) :
    (nullable inner).structs place = inner.structs (place ++ [0]) :=
  List.append_nil _

@[simp] theorem structs_list (place : Place) (item : TypeExpr) :
    (list item).structs place = item.structs (place ++ [0]) :=
  List.append_nil _

@[simp] theorem structs_union (place : Place) (alternatives : List TypeExpr) :
    (union alternatives).structs place = nested.nestedAmong place 0 alternatives :=
  List.append_nil _

theorem nested_eq (place : Place) (type : TypeExpr) :
    type.nested place =
      type.children.zipIdx.flatMap fun child => child.1.structs (place ++ [child.2]) := by
  have hamong : ∀ number types, nested.nestedAmong place number types =
      (types.zipIdx number).flatMap fun child => child.1.structs (place ++ [child.2]) := by
    intro number types
    induction types generalizing number with
    | nil => rfl
    | cons type rest ih =>
        rw [nested.nestedAmong, ih, List.zipIdx_cons, List.flatMap_cons, structs]
  have hfields : ∀ number fields, nested.nestedFields place number fields =
      ((fields.map Field.type).zipIdx number).flatMap fun child =>
        child.1.structs (place ++ [child.2]) := by
    intro number fields
    induction fields generalizing number with
    | nil => rfl
    | cons field rest ih =>
        rw [nested.nestedFields, ih, List.map_cons, List.zipIdx_cons,
          List.flatMap_cons, structs]
  cases type with
  | missing | primitive | freeList | freeMap | literal | named => rfl
  | nullable inner | list inner => simp [nested, children, structs]
  | union alternatives => rw [nested, hamong, children]
  | struct fields => rw [nested, hfields, children]

end TypeExpr

/-! ## Order of places -/

/-- No place stands before one that is inside it. -/
def InnerFirst (places : List Place) : Prop :=
  places.Pairwise fun a b => ¬ a <+: b

namespace InnerFirst

theorem nodup {places : List Place} (h : InnerFirst places) : places.Nodup := by
  refine List.Pairwise.imp ?_ h
  rintro a b hinside rfl
  exact hinside List.prefix_rfl

theorem concat {places : List Place} {place : Place} (h : InnerFirst places)
    (hinside : ∀ other ∈ places, ∃ number, place ++ [number] <+: other) :
    InnerFirst (places ++ [place]) := by
  refine List.pairwise_append.mpr ⟨h, List.pairwise_singleton .., ?_⟩
  intro other hother last hlast hprefix
  obtain ⟨number, hnumber⟩ := hinside other hother
  rw [List.mem_singleton.mp hlast] at hprefix
  have hlength := (hnumber.trans hprefix).length_le
  rw [List.length_append, List.length_singleton] at hlength
  omega

theorem flatMap {α : Type} {f : α × ℕ → List Place} {members : List α} {start : ℕ}
    (place : Place)
    (hinside : ∀ member ∈ members.zipIdx start, ∀ inner ∈ f member,
      place ++ [member.2] <+: inner)
    (h : ∀ member ∈ members.zipIdx start, InnerFirst (f member)) :
    InnerFirst ((members.zipIdx start).flatMap f) := by
  -- if one were inside the other, both numbers would continue the place alike
  have hnumbers : (members.zipIdx start).Pairwise fun a b => a.2 < b.2 := by
    rw [← List.pairwise_map, List.zipIdx_map_snd]
    exact List.pairwise_lt_range'
  refine List.pairwise_flatMap.mpr ⟨h, ?_⟩
  refine List.Pairwise.imp_of_mem ?_ hnumbers
  intro a b ha hb hlt x hx y hy hprefix
  have hlow := (hinside a ha x hx).trans hprefix
  have hhigh := hinside b hb y hy
  have hsame : place ++ [a.2] = place ++ [b.2] := by
    have hshorter := List.prefix_of_prefix_length_le hlow hhigh (by simp)
    exact hshorter.eq_of_length (by simp)
  have hnumber : a.2 = b.2 := by simpa using hsame
  omega

end InnerFirst

namespace TypeExpr

theorem own_place {place : Place} {type : TypeExpr}
    {entry : Place × List (Field TypeExpr)} (h : entry ∈ type.own place) :
    entry.1 = place := by
  unfold own at h
  split at h
  · rw [List.mem_singleton.mp h]
  · cases h

theorem inside_of_mem_nested {place : Place} {type : TypeExpr}
    {entry : Place × List (Field TypeExpr)} (h : entry ∈ type.nested place) :
    ∃ number, place ++ [number] <+: entry.1 := by
  induction type using induction generalizing place with
  | step type ih =>
      rw [nested_eq] at h
      obtain ⟨child, hchild, hentry⟩ := List.mem_flatMap.mp h
      refine ⟨child.2, ?_⟩
      rcases List.mem_append.mp hentry with hnested | hown
      · have hmem : child.1 ∈ type.children := List.fst_mem_of_mem_zipIdx hchild
        obtain ⟨number, hinside⟩ := ih child.1 hmem hnested
        exact (List.prefix_append ..).trans hinside
      · exact own_place hown ▸ List.prefix_rfl

theorem inside_of_mem_structs {place : Place} {type : TypeExpr}
    {entry : Place × List (Field TypeExpr)} (h : entry ∈ type.structs place) :
    place <+: entry.1 := by
  rcases List.mem_append.mp h with hnested | hown
  · obtain ⟨number, hinside⟩ := inside_of_mem_nested hnested
    exact (List.prefix_append ..).trans hinside
  · exact own_place hown ▸ List.prefix_rfl

theorem innerFirst_nested (place : Place) (type : TypeExpr) :
    InnerFirst ((type.nested place).map Prod.fst) := by
  induction type using induction generalizing place with
  | step type ih =>
      rw [nested_eq, List.map_flatMap]
      refine InnerFirst.flatMap place ?_ ?_
      · intro child hchild inner hinner
        obtain ⟨entry, hentry, rfl⟩ := List.mem_map.mp hinner
        exact inside_of_mem_structs hentry
      · intro child hchild
        have hmem : child.1 ∈ type.children := List.fst_mem_of_mem_zipIdx hchild
        have hnested := ih child.1 hmem (place ++ [child.2])
        unfold structs own
        split
        · rw [List.map_append]
          refine hnested.concat ?_
          intro other hother
          obtain ⟨entry, hentry, rfl⟩ := List.mem_map.mp hother
          exact inside_of_mem_nested hentry
        · rwa [List.append_nil]

end TypeExpr

/-! ## Annotations and declarations -/

section Named

variable (here : Value) (name : Place → String)

def referenceText (module : Value) (schema : String) : String :=
  if module = .null ∨ module.same here then TypeNaming.typeName schema
  else module.shown ++ "." ++ TypeNaming.typeName schema

/-- The annotation of a type whose structural objects have names. -/
def TypeExpr.rendered (place : Place) : TypeExpr → String
  | .missing => ""
  | .primitive kind => Emit.primitiveName kind
  | .nullable inner => inner.rendered (place ++ [0]) ++ " | None"
  | .list item => "list[" ++ item.rendered (place ++ [0]) ++ "]"
  | .freeList => "list[Any]"
  | .freeMap => "dict[str, Any]"
  | .union alternatives =>
    if alternatives.isEmpty then "Never"
    else " | ".intercalate (renderedAll 0 alternatives)
  | .literal values => if values.isEmpty then "Never" else Emit.literalText values
  | .named module schema => referenceText here module schema
  | .struct _ => name place
where
  renderedAll (number : ℕ) : List TypeExpr → List String
    | [] => []
    | type :: rest => type.rendered (place ++ [number]) :: renderedAll (number + 1) rest

def fieldLine (field : Field TypeExpr) (text : String) : FieldLine where
  key := field.name.text?.getD ""
  type := if field.optional then "NotRequired[" ++ text ++ "]" else text

def fieldLines (place : Place) (fields : List (Field TypeExpr)) : List FieldLine :=
  fields.zipIdx.map fun field =>
    fieldLine field.1 (field.1.type.rendered here name (place ++ [field.2]))

/-- The declaration of a structural object inside a type. -/
def hoisted (entry : Place × List (Field TypeExpr)) : Declaration :=
  .record (name entry.1) [] (fieldLines here name entry.1 entry.2)

end Named

/-! ## What a declaration mentions -/

section Mentions

variable {here : Value} {name other : Place → String}

end Mentions

namespace Definition

def declaredName (d : Definition) : String :=
  TypeNaming.typeName (d.name.text?.getD "")

def declaration (withDescriptions : Bool) (here : Value) (name : Place → String)
    (place : Place) (d : Definition) : Declaration :=
  let lines := if withDescriptions then Lines.ofDescriptions d.descriptions else []
  match d.type with
  | .struct fields => .record d.declaredName lines (fieldLines here name place fields)
  | type => .alias d.declaredName lines (type.rendered here name place)

theorem typeName_eq {d : Definition} (h : d.name.text?.isSome = true) :
    d.typeName = .ok d.declaredName := by
  unfold typeName declaredName
  split
  · rename_i text htext
    rw [htext]
    rfl
  · rename_i hnot
    cases hname : d.name <;> simp_all [Scalar.text?]

def layout (withDescriptions : Bool) (here : Value) (name : Place → String)
    (place : Place) (d : Definition) : List (Place × Declaration) :=
  ((d.type.nested place).map fun entry => (entry.1, hoisted here name entry)) ++
    [(place, d.declaration withDescriptions here name place)]

end Definition

namespace Outline

/-- Whether the module and the names of all definitions are texts and their types complete. -/
def isComplete (outline : Outline) : Bool :=
  (match outline.module with
    | .str _ => true
    | _ => false)
  && outline.definitions.all fun d => d.name.text?.isSome && d.type.isComplete

def typeNames (outline : Outline) : List String :=
  outline.definitions.map Definition.declaredName

def places (outline : Outline) : List Place :=
  outline.definitions.zipIdx.map fun d => [d.2]

def nested (outline : Outline) : List Place :=
  outline.definitions.zipIdx.flatMap fun d => (d.1.type.nested [d.2]).map Prod.fst

def layout (withDescriptions : Bool) (outline : Outline) (name : Place → String) :
    List (Place × Declaration) :=
  outline.definitions.zipIdx.flatMap fun d =>
    d.1.layout withDescriptions outline.module name [d.2]

/-! ## Order of declarations -/

variable (withDescriptions : Bool) (outline : Outline) (name : Place → String)

theorem map_fst_layout :
    (outline.layout withDescriptions name).map Prod.fst =
      outline.definitions.zipIdx.flatMap fun d =>
        (d.1.type.nested [d.2]).map Prod.fst ++ [[d.2]] := by
  unfold layout Definition.layout
  rw [List.map_flatMap]
  refine List.flatMap_congr fun d _ => ?_
  rw [List.map_append, List.map_map]
  rfl

theorem innerFirst_layout :
    InnerFirst ((outline.layout withDescriptions name).map Prod.fst) := by
  rw [map_fst_layout]
  refine InnerFirst.flatMap [] ?_ ?_
  · intro d _ inner hinner
    rcases List.mem_append.mp hinner with hnested | hown
    · obtain ⟨entry, hentry, rfl⟩ := List.mem_map.mp hnested
      obtain ⟨number, hinside⟩ := TypeExpr.inside_of_mem_nested hentry
      exact (List.prefix_append ..).trans hinside
    · rw [List.mem_singleton.mp hown]
      exact List.prefix_rfl
  · intro d _
    refine (TypeExpr.innerFirst_nested [d.2] d.1.type).concat ?_
    intro other hother
    obtain ⟨entry, hentry, rfl⟩ := List.mem_map.mp hother
    exact TypeExpr.inside_of_mem_nested hentry

/-- Every definition and every structural object inside one is declared once. -/
theorem layout_perm :
    ((outline.layout withDescriptions name).map Prod.fst).Perm
      (outline.places ++ outline.nested) := by
  rw [map_fst_layout, places, List.map_eq_flatMap]
  exact ((List.flatMap_append_perm ..).symm).trans List.perm_append_comm

theorem nodup_nested : outline.nested.Nodup := by
  have hall := (outline.innerFirst_layout false fun _ => "").nodup
  rw [(outline.layout_perm false fun _ => "").nodup_iff] at hall
  exact hall.of_append_right

end Outline
end SchemaViews
