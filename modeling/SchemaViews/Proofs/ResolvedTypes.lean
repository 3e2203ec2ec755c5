import SchemaViews.Proofs.HoistedTypes
import SchemaViews.Proofs.MergedFragments

/-!
# What resolved types are made of

Resolution puts a type together from a few forms, takes its references from the scope
and its structures from the objects that it meets.  What holds of all these holds at
every position of a resolved type.
-/

namespace SchemaViews

theorem TypeExpr.Everywhere.leaf {P : TypeExpr → Prop} {type : TypeExpr} (htype : P type)
    (hleaf : type.children = []) : type.Everywhere P := by
  rw [everywhere_iff]
  simpa [hleaf] using htype

namespace Scope

/-! ## Fields and alternatives -/

theorem names_sublist {resolve : Scalar × Fragment → Except Failure (Option (Field TypeExpr))}
    (hname : ∀ entry field, resolve entry = .ok (some field) → field.name = entry.1)
    {properties : List (Scalar × Fragment)} {fields : List (Option (Field TypeExpr))}
    (h : properties.mapM resolve = .ok fields) :
    ((fields.flatMap Option.toList).map Field.name).Sublist
      (properties.map Prod.fst) := by
  have hpairs := mapM_eq_ok_iff.mp h
  clear h
  induction hpairs with
  | nil => exact .refl _
  | @cons entry field _ _ hfield _ ih =>
      rw [List.flatMap_cons, List.map_append, List.map_cons]
      cases field with
      | none => exact ih.cons _
      | some field =>
          rw [← hname entry field hfield]
          exact ih.cons_cons _

section Again

variable {s : Scope} {P : TypeExpr → Prop} {again : Fragment → Outcome TypeExpr}

theorem field_everywhere {name : Scalar} {required : Bool} {property : Fragment}
    {resolve : Unit → Outcome TypeExpr}
    (hshown : ∀ notes parts shown, property = .allOf notes parts →
      s.context.arena.shown property = .ok shown → shown.notes.hiddenIn s.view = false →
        ∀ type, (again shown).result = .ok type → type.Everywhere P)
    (hresolve : ∀ type, (resolve ()).result = .ok type → type.Everywhere P)
    {field : Field TypeExpr}
    (hfield : (s.field again name required property resolve).result = .ok (some field)) :
    field.type.Everywhere P := by
  obtain ⟨shown, hproperty, ⟨-, hnone⟩ | ⟨hvisible, type, htype, hsome⟩⟩ :=
    field_eq_ok_iff.mp hfield
  · cases hnone
  · cases hsome
    cases property with
    | allOf notes parts => exact hshown notes parts shown rfl hproperty hvisible type htype
    | reference | primitive | choice | object | freeObject | array | freeArray
    | oneOf | anyOf =>
        exact hresolve type htype

theorem alternative_everywhere {d : Discriminator} {option : Fragment}
    {resolve : Unit → Outcome TypeExpr}
    (htagged : ∀ tag flat whole, (d.tag s.context.arena option).result = .ok (some tag) →
      (Discriminator.taggedOption s.context.arena option.rawValue d.property
        tag).result = .ok flat → Fragment.read (.map flat) = .ok whole →
          ∀ type, (again whole).result = .ok type → type.Everywhere P)
    (hresolve : ∀ type, (resolve ()).result = .ok type → type.Everywhere P)
    {type : TypeExpr} (htype : (s.alternative again d option resolve).result = .ok type) :
    type.Everywhere P := by
  rw [alternative_eq] at htype
  obtain ⟨tag, htag, htype⟩ := bind_eq_ok_iff.mp htype
  cases tag with
  | none => exact hresolve type htype
  | some tag =>
      obtain ⟨flat, hflat, htype⟩ := bind_eq_ok_iff.mp htype
      obtain ⟨whole, hread, htype⟩ := bind_eq_ok_iff.mp htype
      exact htagged tag flat whole htag hflat hread type htype

end Again

/-! ## Whole types -/

/-- A class of fragments that resolution does not leave. -/
structure Closed (s : Scope) (F : Fragment → Prop) : Prop where
  inside : ∀ {fragment part}, F fragment → part ∈ fragment.inside → F part
  reopens : ∀ {fragment whole}, F fragment → s.Reopens fragment whole → F whole

/-- A property of everything that types are made of in a scope, where structures come
from the objects of a class of fragments. -/
structure MakesFrom (s : Scope) (F : Fragment → Prop) (P : TypeExpr → Prop) : Prop where
  primitive : ∀ kind, P (.primitive kind)
  literal : ∀ values, s.view = .write → P (.literal values)
  nullable : ∀ inner, P (.nullable inner)
  list : ∀ item, P (.list item)
  freeList : P .freeList
  freeMap : P .freeMap
  struct : ∀ {notes properties required}, F (.object notes properties required) →
    ∀ fields : List (Field TypeExpr),
      (fields.map Field.name).Sublist (properties.map Prod.fst) → P (.struct fields)
  union : ∀ alternatives, alternatives.length ≠ 1 → P (.union alternatives)
  named : ∀ name type, s.named name = .ok type → P type

abbrev Makes (s : Scope) (P : TypeExpr → Prop) : Prop :=
  s.MakesFrom (fun _ => True) P

namespace MakesFrom

variable {s : Scope} {F : Fragment → Prop} {P : TypeExpr → Prop} (h : s.MakesFrom F P)
include h

theorem qualify (notes : Annotations) {type : TypeExpr} (htype : type.Everywhere P) :
    (notes.qualify type).Everywhere P := by
  unfold Annotations.qualify
  split
  · rw [TypeExpr.everywhere_iff]
    simpa [TypeExpr.children] using ⟨h.nullable type, htype⟩
  · exact htype

theorem unionOf {types : List TypeExpr} (htypes : ∀ type ∈ types, type.Everywhere P) :
    (TypeExpr.unionOf types).Everywhere P := by
  unfold TypeExpr.unionOf
  split
  · exact htypes _ List.mem_cons_self
  · next hmany =>
      rw [TypeExpr.everywhere_iff]
      refine ⟨h.union types fun hlength => ?_, htypes⟩
      obtain ⟨type, rfl⟩ := List.length_eq_one_iff.mp hlength
      exact hmany type rfl

theorem primitiveType {notes : Annotations} {declared : DeclaredType} {format : Value}
    {type : TypeExpr} (htype : SchemaViews.primitiveType notes declared format = .ok type) :
    type.Everywhere P := by
  have hleaf : ∀ kind, (TypeExpr.primitive kind).Everywhere P := fun kind =>
    .leaf (h.primitive kind) rfl
  unfold SchemaViews.primitiveType at htype
  split at htype
  · cases htype
    exact hleaf _
  · cases htype
    exact hleaf _
  · split at htype
    · cases htype
      exact hleaf _
    · cases htype
      rw [TypeExpr.everywhere_iff]
      simpa [TypeExpr.children] using ⟨h.union _ (by simp), hleaf .float, hleaf .integer⟩
  · cases htype
    exact hleaf _
  · cases htype

theorem choiceType (values : List String) :
    (SchemaViews.choiceType s.view values).Everywhere P := by
  cases hview : s.view with
  | read => exact .leaf (h.primitive .string) rfl
  | write => exact .leaf (h.literal values hview) rfl

theorem reference {name : String} {type : TypeExpr} (htype : s.named name = .ok type) :
    type.Everywhere P := by
  have hleaf : type.children = [] := by
    unfold Scope.named at htype
    split at htype
    · cases htype
      rfl
    · obtain ⟨module, -, htype⟩ := bind_eq_ok_iff.mp htype
      cases htype
      rfl
  exact .leaf (h.named name type htype) hleaf

variable (hF : s.Closed F)
include hF

/-- One step of a resolution, if all that it resolves in place of merged schemas is
made of the same. -/
theorem resolveWith {again : Fragment → Outcome TypeExpr}
    (hagain : ∀ whole type, F whole → (again whole).result = .ok type →
      type.Everywhere P)
    {fragment : Fragment} (hfragment : F fragment) {type : TypeExpr}
    (htype : (s.resolveWith again fragment).result = .ok type) : type.Everywhere P := by
  induction fragment using Fragment.induction generalizing type with
  | reference notes target =>
      rw [Scope.resolveWith, Outcome.result_map] at htype
      obtain ⟨named, hnamed, rfl⟩ := map_eq_ok_iff.mp htype
      exact h.qualify notes (h.reference hnamed)
  | primitive notes declared format =>
      rw [Scope.resolveWith, Outcome.result_map] at htype
      obtain ⟨primitive, hprimitive, rfl⟩ := map_eq_ok_iff.mp htype
      exact h.qualify notes (h.primitiveType hprimitive)
  | choice notes values format =>
      cases htype
      exact h.qualify notes (h.choiceType values)
  | freeObject notes =>
      cases htype
      exact h.qualify notes (.leaf h.freeMap rfl)
  | freeArray notes =>
      cases htype
      exact h.qualify notes (.leaf h.freeList rfl)
  | object notes properties required ih =>
      rw [resolveWith_object] at htype
      obtain ⟨fields, hfields, rfl⟩ := map_eq_ok_iff.mp htype
      apply h.qualify notes
      rw [TypeExpr.everywhere_iff]
      constructor
      · apply h.struct hfragment
        exact names_sublist (fun entry field => field_name) hfields
      · intro child hchild
        obtain ⟨field, hmem, rfl⟩ := List.mem_map.mp hchild
        obtain ⟨visible, hvisible, hfield⟩ := List.mem_flatMap.mp hmem
        cases Option.mem_toList.mp hfield
        obtain ⟨⟨name, property⟩, hentry, hresolved⟩ := exists_of_mem_mapM hfields hvisible
        have hproperty : F property := hF.inside hfragment (List.mem_map_of_mem hentry)
        refine field_everywhere ?_ ?_ hresolved
        · rintro inner parts shown rfl hshown hvisible merged hmerged
          exact hagain shown merged (hF.reopens hfragment (.field hentry hshown hvisible))
            hmerged
        · exact fun type => ih _ hentry hproperty
  | array notes items ih =>
      rw [resolveWith_array] at htype
      obtain ⟨item, hitem, rfl⟩ := map_eq_ok_iff.mp htype
      apply h.qualify notes
      have hitems : F items := hF.inside hfragment (List.mem_singleton_self _)
      rw [TypeExpr.everywhere_iff]
      simpa [TypeExpr.children] using ⟨h.list item, ih hitems hitem⟩
  | oneOf notes options discriminator ih =>
      rw [resolveWith_oneOf] at htype
      obtain ⟨types, htypes, rfl⟩ := map_eq_ok_iff.mp htype
      apply h.qualify notes
      apply h.unionOf
      intro type htype
      obtain ⟨option, hoption, htype⟩ := exists_of_mem_mapM htypes htype
      have hmember : F option := hF.inside hfragment hoption
      cases discriminator with
      | none => exact ih option hoption hmember htype
      | some d =>
          refine alternative_everywhere ?_ (fun type => ih option hoption hmember) htype
          intro tag flat whole htag hflat hread merged hmerged
          exact hagain whole merged
            (hF.reopens hfragment (.tagged hoption htag hflat hread)) hmerged
  | allOf notes parts _ =>
      rw [resolveWith_allOf, merged_eq] at htype
      obtain ⟨merged, hmerged, rfl⟩ := map_eq_ok_iff.mp htype
      obtain ⟨flat, hflat, hmerged⟩ := bind_eq_ok_iff.mp hmerged
      obtain ⟨whole, hread, hmerged⟩ := bind_eq_ok_iff.mp hmerged
      exact h.qualify notes
        (hagain whole merged (hF.reopens hfragment (.allOf hflat hread)) hmerged)
  | anyOf notes parts _ =>
      rw [resolveWith_anyOf, merged_eq] at htype
      obtain ⟨merged, hmerged, rfl⟩ := map_eq_ok_iff.mp htype
      obtain ⟨flat, hflat, hmerged⟩ := bind_eq_ok_iff.mp hmerged
      obtain ⟨whole, hread, hmerged⟩ := bind_eq_ok_iff.mp hmerged
      exact h.qualify notes
        (hagain whole merged (hF.reopens hfragment (.anyOf hflat hread)) hmerged)

theorem resolveWithin (bound : ℕ) {fragment : Fragment} (hfragment : F fragment)
    {type : TypeExpr} (htype : (s.resolveWithin bound fragment).result = .ok type) :
    type.Everywhere P := by
  induction bound generalizing fragment type with
  | zero =>
      rw [Scope.resolveWithin] at htype
      refine h.resolveWith hF (fun whole merged _ hmerged => ?_) hfragment htype
      cases hmerged
  | succ bound ih =>
      rw [Scope.resolveWithin] at htype
      exact h.resolveWith hF (fun whole merged hwhole => ih hwhole)
        hfragment htype

end MakesFrom

theorem Makes.resolveSchema {s : Scope} {P : TypeExpr → Prop} (h : s.Makes P)
    {schema : Value} {type : TypeExpr}
    (htype : (SchemaViews.resolveSchema s.context s.origin schema
      (.str s.view.name)).result = .ok type) : type.Everywhere P := by
  rw [resolveSchema_eq] at htype
  obtain ⟨fragment, -, htype⟩ := bind_eq_ok_iff.mp htype
  exact h.resolveWithin ⟨fun _ _ => trivial, fun _ _ => trivial⟩ _ trivial htype

end Scope
end SchemaViews
