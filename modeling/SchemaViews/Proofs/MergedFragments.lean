import SchemaViews.Proofs.ReadingParts
import SchemaViews.Proofs.ResolutionSteps

/-!
# Fragments of merged schemas

Resolution reads three kinds of schemas that stand nowhere in a document: the
merged parts of a composition, the parts of a property merged with the keys
beside them, and an alternative merged with its tag.  They are reopened: resolution
starts again with them.  A property of schemas that every component has passes
from the fragment at hand to each of them.
-/

namespace SchemaViews

theorem Arena.expandable_of_forall {arena : Arena} {Q : Value → Prop}
    (hQ : SchemaInvariant Q) (harena : ∀ entry ∈ arena, Q entry.2) :
    arena.Expandable Q Q where
  holds := id
  part := fun hschema hpart => hQ.inside hschema (.part hpart)
  target := fun _ _ hfind => harena _ (OrderedMap.mem_of_find? hfind)

namespace Fragment

def inside : Fragment → List Fragment
  | .object _ properties _ => properties.map Prod.snd
  | .array _ items => [items]
  | .oneOf _ options _ => options
  | .allOf _ parts => parts
  | .anyOf _ parts => parts
  | _ => []

variable {arena : Arena} {Q : Value → Prop}

theorem From.inside (hQ : SchemaInvariant Q) {fragment part : Fragment}
    (hfragment : fragment.From Q) (hpart : part ∈ fragment.inside) : part.From Q := by
  cases fragment with
  | object notes properties required =>
      obtain ⟨entry, hentry, rfl⟩ := List.mem_map.mp hpart
      exact hfragment.property hQ hentry
  | array notes items =>
      cases List.mem_singleton.mp hpart
      exact hfragment.items hQ
  | oneOf notes options discriminator => exact hfragment.option hQ hpart
  | allOf notes parts => exact From.part hQ (.inl hfragment) hpart
  | anyOf notes parts => exact From.part hQ (.inr hfragment) hpart
  | reference | primitive | choice | freeObject | freeArray => cases hpart

section Merged

variable (hQ : SchemaInvariant Q) (harena : ∀ entry ∈ arena, Q entry.2)
include hQ harena

theorem From.merge {parts : List Fragment} {flat : Entries}
    (hparts : ∀ part ∈ parts, part.From Q)
    (h : (arena.merge (parts.map rawValue)).result = .ok flat) :
    Q (.map flat) := by
  apply (Arena.expandable_of_forall hQ harena).merge hQ ?_ h
  intro schema hschema
  obtain ⟨part, hpart, rfl⟩ := List.mem_map.mp hschema
  exact (hparts part hpart).raw hQ

theorem from_of_shown {notes : Annotations} {parts : List Fragment} {shown : Fragment}
    (hnotes : Q (.map notes.raw)) (hparts : ∀ part ∈ parts, Q part.rawValue)
    (h : arena.shown (.allOf notes parts) = .ok shown) : shown.From Q := by
  obtain ⟨flat, hflat, hread⟩ := bind_eq_ok_iff.mp h
  refine from_of_read ?_ hread
  apply (Arena.expandable_of_forall hQ harena).merge hQ ?_ hflat
  intro schema hschema
  rcases List.mem_append.mp hschema with hschema | hschema
  · obtain ⟨part, hpart, rfl⟩ := List.mem_map.mp hschema
    exact hparts part hpart
  · rw [List.mem_singleton.mp hschema]
    exact hQ.drop "allOf" hnotes

theorem From.shown {property shown : Fragment} (hproperty : property.From Q)
    (h : arena.shown property = .ok shown) : shown.From Q := by
  cases property with
  | allOf notes parts =>
      exact from_of_shown hQ harena (hproperty.raw hQ)
        (fun part hpart => (From.part hQ (.inl hproperty) hpart).raw hQ) h
  | reference | primitive | choice | object | freeObject | array | freeArray
  | oneOf | anyOf =>
      cases h
      exact hproperty

theorem From.tagged {option whole : Fragment} {d : Discriminator}
    {tag : Scalar} {flat : Entries} (hoption : option.From Q)
    (htag : ∀ name, d.property = .scalar name →
      Q (Discriminator.tagObject name tag))
    (hflat : (Discriminator.taggedOption arena option.rawValue d.property
      tag).result = .ok flat)
    (hread : Fragment.read (.map flat) = .ok whole) : whole.From Q :=
  from_of_read ((Arena.expandable_of_forall hQ harena).taggedOption hQ
    (hoption.raw hQ) htag hflat) hread

end Merged

end Fragment

/-! ## Reopened fragments -/

/-- The fragments of merged schemas with which the resolution of a fragment
starts again. -/
inductive Scope.Reopens (s : Scope) : Fragment → Fragment → Prop
  | allOf {notes : Annotations} {parts : List Fragment} {flat : Entries}
      {whole : Fragment} :
      (s.context.arena.merge (parts.map Fragment.rawValue)).result = .ok flat →
        Fragment.read (.map flat) = .ok whole →
          Reopens s (.allOf notes parts) whole
  | anyOf {notes : Annotations} {parts : List Fragment} {flat : Entries}
      {whole : Fragment} :
      (s.context.arena.merge (parts.map Fragment.rawValue)).result = .ok flat →
        Fragment.read (.map (flat.dropField "required")) = .ok whole →
          Reopens s (.anyOf notes parts) whole
  | field {notes inner : Annotations} {properties : List (Scalar × Fragment)}
      {required : List Scalar} {name : Scalar} {parts : List Fragment}
      {shown : Fragment} :
      (name, .allOf inner parts) ∈ properties →
        s.context.arena.shown (.allOf inner parts) = .ok shown →
          shown.notes.hiddenIn s.view = false →
            Reopens s (.object notes properties required) shown
  | property {notes : Annotations} {properties : List (Scalar × Fragment)}
      {required : List Scalar} {entry : Scalar × Fragment} {whole : Fragment} :
      entry ∈ properties → (∀ inner parts, entry.2 ≠ .allOf inner parts) →
        entry.2.notes.hiddenIn s.view = false → Reopens s entry.2 whole →
          Reopens s (.object notes properties required) whole
  | items {notes : Annotations} {items whole : Fragment} :
      Reopens s items whole → Reopens s (.array notes items) whole
  | option {notes : Annotations} {options : List Fragment}
      {option whole : Fragment} :
      option ∈ options → Reopens s option whole →
        Reopens s (.oneOf notes options none) whole
  | untagged {notes : Annotations} {options : List Fragment}
      {d : Discriminator} {option whole : Fragment} :
      option ∈ options → (d.tag s.context.arena option).result = .ok none →
        Reopens s option whole → Reopens s (.oneOf notes options (some d)) whole
  | tagged {notes : Annotations} {options : List Fragment}
      {d : Discriminator} {tag : Scalar} {flat : Entries}
      {option whole : Fragment} :
      option ∈ options → (d.tag s.context.arena option).result = .ok (some tag) →
        (Discriminator.taggedOption s.context.arena option.rawValue d.property
          tag).result = .ok flat →
          Fragment.read (.map flat) = .ok whole →
            Reopens s (.oneOf notes options (some d)) whole

/-- A discriminator finds a tag for some alternative. -/
def Discriminator.Gives (d : Discriminator) (tag : Scalar) : Prop :=
  ∃ arena option, (d.tag arena option).result = .ok (some tag)

/-- Fragments whose schemas, and the schemas inside them, have a property; the tags
of their alternatives have it as well. -/
structure Fragment.Carries (F : Fragment → Prop) (Q : Value → Prop) : Prop where
  raw : ∀ {fragment}, F fragment → Q fragment.rawValue
  inside : ∀ {fragment part}, F fragment → part ∈ fragment.inside → F part
  tag : ∀ {notes options d}, F (.oneOf notes options (some d)) →
    ∀ name tag, d.property = .scalar name → d.Gives tag → Q (Discriminator.tagObject name tag)

theorem Fragment.Carries.reopens {s : Scope} {F : Fragment → Prop} {Q : Value → Prop}
    (hF : Carries F Q) (hQ : SchemaInvariant Q)
    (harena : ∀ entry ∈ s.context.arena, Q entry.2)
    {fragment whole : Fragment} (hfragment : F fragment)
    (h : s.Reopens fragment whole) : whole.From Q := by
  have hmerge : ∀ {parts : List Fragment} {flat : Entries}, (∀ part ∈ parts, F part) →
      (s.context.arena.merge (parts.map rawValue)).result = .ok flat →
        Q (.map flat) := by
    intro parts flat hparts hflat
    apply (Arena.expandable_of_forall hQ harena).merge hQ ?_ hflat
    simpa only [List.forall_mem_map] using fun part hpart => hF.raw (hparts part hpart)
  induction h with
  | allOf hflat hread =>
      exact from_of_read (hmerge (fun part hpart => hF.inside hfragment hpart) hflat) hread
  | anyOf hflat hread =>
      have hflat := hmerge (fun part hpart => hF.inside hfragment hpart) hflat
      exact from_of_read (hQ.drop _ hflat) hread
  | field hentry hshown _ =>
      have hproperty := hF.inside hfragment (List.mem_map_of_mem hentry)
      exact from_of_shown hQ harena (hF.raw hproperty)
        (fun part hpart => hF.raw (hF.inside hproperty hpart)) hshown
  | property hentry _ _ _ ih => exact ih (hF.inside hfragment (List.mem_map_of_mem hentry))
  | items _ ih => exact ih (hF.inside hfragment (List.mem_singleton_self _))
  | option hoption _ ih => exact ih (hF.inside hfragment hoption)
  | untagged hoption _ _ ih => exact ih (hF.inside hfragment hoption)
  | tagged hoption htag hflat hread =>
      have hflat := (Arena.expandable_of_forall hQ harena).taggedOption hQ
        (hF.raw (hF.inside hfragment hoption))
        (fun name hname => hF.tag hfragment name _ hname ⟨_, _, htag⟩) hflat
      exact from_of_read hflat hread

theorem Fragment.From.reopens {s : Scope} {Q : Value → Prop}
    (hQ : SchemaInvariant Q) (harena : ∀ entry ∈ s.context.arena, Q entry.2)
    (htag : ∀ {notes options d}, (Fragment.oneOf notes options (some d)).From Q →
      ∀ name tag, d.property = .scalar name → d.Gives tag →
        Q (Discriminator.tagObject name tag))
    {fragment whole : Fragment} (hfragment : fragment.From Q)
    (h : s.Reopens fragment whole) : whole.From Q :=
  Carries.reopens ⟨From.raw hQ, From.inside hQ, htag⟩ hQ harena hfragment h

end SchemaViews
