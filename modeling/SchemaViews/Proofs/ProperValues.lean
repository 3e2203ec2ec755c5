import Mathlib.Data.List.Pairwise
import SchemaViews.Proofs.ReadingParts

/-!
# Proper values

In a proper value no mapping has two entries under one key.  All schemas that
resolution makes are proper if the components are, and so the properties of an
object have different names.
-/

namespace SchemaViews

/-! ## Keys that are apart -/

theorem Scalar.Apart.nodup {keys : List Scalar} (h : Scalar.Apart keys) :
    keys.Nodup := by
  apply List.Pairwise.imp ?_ h
  rintro first second hdifferent rfl
  exact hdifferent (Scalar.sameKey_self first)

theorem Scalar.Apart.eq_of_sameKey {keys : List Scalar} (h : Scalar.Apart keys)
    {first second : Scalar} (hfirst : first ∈ keys) (hsecond : second ∈ keys)
    (hsame : first.sameKey second) : first = second := by
  have : Std.Symm fun a b : Scalar => ¬ a.sameKey b :=
    ⟨fun a b hab hba => hab (by rwa [Scalar.sameKey_comm])⟩
  by_contra hne
  exact List.Pairwise.forall h hfirst hsecond hne hsame

theorem Scalar.apart_texts {texts : List String} (h : texts.Nodup) :
    Scalar.Apart (texts.map Scalar.str) := by
  unfold Scalar.Apart
  rw [List.pairwise_map]
  refine List.Pairwise.imp ?_ h
  intro first second hne hsame
  rw [Scalar.sameKey_str, Scalar.str.injEq] at hsame
  exact hne hsame

instance (keys : List Scalar) : Decidable (Scalar.Apart keys) :=
  inferInstanceAs (Decidable (List.Pairwise _ _))

namespace Value

inductive Proper : Value → Prop
  | scalar (s : Scalar) : Proper (.scalar s)
  | list {items : List Value} :
      (∀ item ∈ items, Proper item) → Proper (.list items)
  | map {entries : Entries} :
      Scalar.Apart (OrderedMap.keys entries) →
        (∀ entry ∈ entries, Proper entry.2) → Proper (.map entries)

namespace Proper

theorem apart {entries : Entries} (h : Proper (.map entries)) :
    Scalar.Apart (OrderedMap.keys entries) := by
  cases h with
  | map hapart _ => exact hapart

theorem distinct {entries : Entries} (h : Proper (.map entries)) :
    OrderedMap.Distinct entries :=
  h.apart.nodup

theorem entry {entries : Entries} (h : Proper (.map entries))
    {entry : Scalar × Value} (hentry : entry ∈ entries) : Proper entry.2 := by
  cases h with
  | map _ hentries => exact hentries entry hentry

theorem item {items : List Value} (h : Proper (.list items)) {item : Value}
    (hitem : item ∈ items) : Proper item := by
  cases h with
  | list hitems => exact hitems item hitem

theorem field {entries : Entries} (h : Proper (.map entries)) {name : String}
    {v : Value} (hfield : entries.field? name = some v) : Proper v :=
  h.entry (OrderedMap.mem_of_find? hfield)

end Proper

mutual

def decProper : (v : Value) → Decidable v.Proper
  | .scalar s => isTrue (.scalar s)
  | .list items =>
    match decProperItems items with
    | isTrue h => isTrue (.list h)
    | isFalse h => isFalse fun hproper => h fun _ => hproper.item
  | .map entries =>
    match (inferInstance : Decidable (Scalar.Apart (OrderedMap.keys entries))),
      decProperEntries entries with
    | isTrue hapart, isTrue h => isTrue (.map hapart h)
    | isFalse hapart, _ => isFalse fun hproper => hapart hproper.apart
    | _, isFalse h => isFalse fun hproper => h fun _ => hproper.entry

def decProperItems : (items : List Value) →
    Decidable (∀ item ∈ items, item.Proper)
  | [] => isTrue (by simp)
  | item :: rest =>
    match decProper item, decProperItems rest with
    | isTrue hitem, isTrue hrest =>
      isTrue (List.forall_mem_cons.mpr ⟨hitem, hrest⟩)
    | isFalse hitem, _ =>
      isFalse fun h => hitem (List.forall_mem_cons.mp h).1
    | _, isFalse hrest =>
      isFalse fun h => hrest (List.forall_mem_cons.mp h).2

def decProperEntries : (entries : List (Scalar × Value)) →
    Decidable (∀ entry ∈ entries, entry.2.Proper)
  | [] => isTrue (by simp)
  | (key, v) :: rest =>
    match decProper v, decProperEntries rest with
    | isTrue hv, isTrue hrest =>
      isTrue (List.forall_mem_cons.mpr ⟨hv, hrest⟩)
    | isFalse hv, _ => isFalse fun h => hv (List.forall_mem_cons.mp h).1
    | _, isFalse hrest =>
      isFalse fun h => hrest (List.forall_mem_cons.mp h).2

end

instance : DecidablePred Proper := decProper

namespace Proper

/-! ## Proper values out of proper values -/

theorem update {entries : Entries} {key : Scalar} {v : Value}
    {change : Value → Value} (h : Proper (.map entries)) (hv : Proper v)
    (hchange : ∀ old, Proper old → Proper (change old)) :
    Proper (.map (ScalarMap.update entries key v change)) := by
  refine .map ?_ ?_
  · rw [ScalarMap.keys_update]
    exact Scalar.apart_enter h.apart key
  · intro changed hchanged
    rcases OrderedMap.mem_update hchanged with hold | ⟨rfl, _⟩ | ⟨old, hold, rfl⟩
    · exact h.entry hold
    · exact hv
    · exact hchange old (h.entry hold)

theorem setField {entries : Entries} {name : String} {v : Value}
    (h : Proper (.map entries)) (hv : Proper v) :
    Proper (.map (entries.setField name v)) := by
  unfold Entries.setField OrderedMap.insert
  rw [← ScalarMap.update_str]
  exact h.update hv fun _ _ => hv

theorem dropField {entries : Entries} (h : Proper (.map entries))
    (name : String) : Proper (.map (entries.dropField name)) := by
  refine .map ?_ fun entry hentry =>
    h.entry (Entries.mem_of_mem_dropField hentry)
  have hsub := List.filter_sublist (l := entries)
    (p := fun entry => entry.1 ≠ Scalar.str name)
  exact List.Pairwise.sublist (hsub.map Prod.fst) h.apart

theorem merge {old new : Value} (hold : Proper old) (hnew : Proper new) :
    Proper (Value.merge old new) := by
  induction hnew generalizing old with
  | scalar s =>
      rw [merge_scalar]
      exact .scalar s
  | @list right hright _ =>
      cases hold with
      | list hleft =>
          rw [Value.merge]
          refine .list fun item hitem => ?_
          rcases List.mem_append.mp hitem with hitem | hitem
          · exact hleft item hitem
          · exact hright item hitem
      | scalar | map =>
          rw [Value.merge]
          · exact .list hright
          · simp
  | @map right hapart hright ih =>
      cases hold with
      | @map left hleftApart hleft =>
          rw [Value.merge]
          refine .map ?_ ?_
          · rw [keys_mergeEntries]
            exact Scalar.apart_foldl_enter hleftApart _
          · refine forall_mem_mergeEntries (Q := fun _ v => Proper v)
              hleft hright ?_
            intro key other before after hafter _ hbefore _
            exact ih _ hafter hbefore
      | scalar | list =>
          rw [Value.merge]
          · exact .map hapart hright
          · simp

theorem mergeEntries {left right : Entries} (hleft : Proper (.map left))
    (hright : Proper (.map right)) :
    Proper (.map (Value.mergeEntries left right)) := by
  have h := hleft.merge hright
  rwa [Value.merge] at h

theorem soleKind {nullable : Bool} {type : Value} (h : Proper type) :
    Proper (soleKind nullable type).2 := by
  fun_induction SchemaViews.soleKind nullable type with
  | case1 nullable types kind hkind ih =>
      have hmem : kind ∈ kindsOf types := by simp [hkind]
      exact ih (h.item (List.mem_filter.mp hmem).1)
  | case2 => exact h
  | case3 => exact h

end Proper

theorem proper_invariant : SchemaInvariant Proper where
  empty := .map List.Pairwise.nil (by simp)
  inside := by
    intro schema inner hschema hinner
    cases hinner with
    | property hproperties hmem => exact (hschema.entry hproperties).entry hmem
    | items hitems => exact hschema.entry hitems
    | part hpart =>
        cases hpart with
        | intro _ hparts hmem => exact (hschema.entry hparts).item hmem
  merge := Proper.mergeEntries
  drop := fun name h => h.dropField name
  settle := by
    intro entries h
    rcases Fragment.settle_eq_or entries with hsame |
      ⟨types, kind, nullable, htypes, hsettle, rfl⟩
    · rwa [hsame]
    · rw [hsettle]
      exact (h.setField (h.field htypes).soleKind).setField (.scalar _)
  kind := by
    intro entries types kind h htypes hkind
    refine .map (List.pairwise_singleton _ _) ?_
    simpa using (h.field htypes).item (List.mem_filter.mp hkind).1
  retag := by
    intro flat name tag hflat htag
    have htable : Proper (.map (((flat.fieldOrNull "properties").entries?).getD
        [])) := by
      cases hproperties : flat.fieldOrNull "properties" with
      | map properties =>
          exact hflat.field (Entries.field?_of_fieldOrNull hproperties (by simp))
      | scalar s => exact .map List.Pairwise.nil (by simp [entries?])
      | list items => exact .map List.Pairwise.nil (by simp [entries?])
    have htagSchema : Proper (Discriminator.tagSchema tag) := by
      have hproperties : Proper (.map [(name, Discriminator.tagSchema tag)]) :=
        htag.field (show Entries.field? _ "properties" = _ from rfl)
      exact hproperties.entry (List.mem_singleton_self _)
    exact hflat.setField (htable.update htagSchema fun _ _ => htagSchema)

theorem proper_tagObject (name tag : Scalar) :
    Proper (Discriminator.tagObject name tag) := by
  have htagSchema : Proper (Discriminator.tagSchema tag) := by
    refine .map (Scalar.apart_texts (show ["type", "enum"].Nodup by decide)) ?_
    simpa using ⟨Proper.scalar _, Proper.list (by simpa using .scalar tag)⟩
  refine .map (Scalar.apart_texts
    (show ["type", "properties", "required"].Nodup by decide)) ?_
  have hproperties : Proper (.map [(name, Discriminator.tagSchema tag)]) :=
    .map (List.pairwise_singleton _ _) (by simpa using htagSchema)
  have hrequired : Proper (.list [.scalar name]) :=
    .list (by simpa using .scalar name)
  simpa using ⟨Proper.scalar _, hproperties, hrequired⟩

end Value

/-! ## Names -/

theorem Fragment.From.names_apart {notes : Annotations}
    {properties : List (Scalar × Fragment)} {required : List Scalar}
    (h : (Fragment.object notes properties required).From Value.Proper) :
    Scalar.Apart (properties.map Prod.fst) := by
  obtain ⟨schema, hschema, hreading⟩ := h.reading
  rcases hreading.names with rfl | ⟨table, htable, hnames⟩
  · exact List.Pairwise.nil
  · rw [hnames]
    exact (hschema.field htable).apart

end SchemaViews
