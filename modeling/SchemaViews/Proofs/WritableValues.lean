import SchemaViews.Proofs.OutcomeLaws
import SchemaViews.Proofs.SchemaShapes

/-!
# Values that can be written

A value can be written when the scalars in it can.  Merging, dropping keys and
tagging put nothing into a schema that was not in its parts, so a schema made of
writable ones is writable.
-/

namespace SchemaViews
namespace Value

theorem isWritable_list_iff {items : List Value} :
    (Value.list items).isWritable = true ↔ ∀ item ∈ items, item.isWritable = true := by
  rw [isWritable]
  induction items with
  | nil => simp [itemsWritable]
  | cons item rest ih => simp [itemsWritable, ih]

theorem isWritable_map_iff {entries : Entries} :
    (Value.map entries).isWritable = true ↔
      ∀ entry ∈ entries, entry.1.isWritable = true ∧ entry.2.isWritable = true := by
  rw [isWritable]
  induction entries with
  | nil => simp [entriesWritable]
  | cons entry rest ih => simp [entriesWritable, ih]

theorem isWritable_field {entries : Entries} {name : String} {v : Value}
    (h : (Value.map entries).isWritable = true) (hfield : entries.field? name = some v) :
    v.isWritable = true :=
  (isWritable_map_iff.mp h _ (OrderedMap.mem_of_find? hfield)).2

theorem isWritable_setField {entries : Entries} {name : String} {v : Value}
    (h : (Value.map entries).isWritable = true) (hv : v.isWritable = true) :
    (Value.map (entries.setField name v)).isWritable = true := by
  rw [isWritable_map_iff] at h ⊢
  intro entry hentry
  rcases Entries.mem_setField hentry with hold | rfl
  · exact h entry hold
  · exact ⟨rfl, hv⟩

theorem isWritable_insert {entries : Entries} {key : Scalar} {v : Value}
    (h : (Value.map entries).isWritable = true) (hkey : key.isWritable = true)
    (hv : v.isWritable = true) :
    (Value.map (ScalarMap.insert entries key v)).isWritable = true := by
  rw [isWritable_map_iff] at h ⊢
  intro entry hentry
  rcases OrderedMap.mem_update hentry with hold | ⟨rfl, hnew⟩ | ⟨old, hold, rfl⟩
  · exact h entry hold
  · rcases Scalar.among_cases (OrderedMap.keys entries) key with hknown | hsame
    · exact absurd hknown.1 hnew
    · exact ⟨by rwa [hsame.1], hv⟩
  · exact ⟨(h _ hold).1, hv⟩

theorem isWritable_merge {old new : Value} (hold : old.isWritable = true)
    (hnew : new.isWritable = true) : (merge old new).isWritable = true := by
  induction hsize : new.size using Nat.strongRecOn generalizing old new with
  | ind size ih =>
      cases new with
      | scalar s => rwa [merge_scalar]
      | list right =>
          cases old with
          | list left =>
              rw [isWritable_list_iff] at hold hnew
              rw [merge, isWritable_list_iff]
              intro item hitem
              rcases List.mem_append.mp hitem with hitem | hitem
              · exact hold item hitem
              · exact hnew item hitem
          | scalar | map => simpa [merge] using hnew
      | map right =>
          cases old with
          | map left =>
              rw [isWritable_map_iff] at hold hnew
              rw [merge, isWritable_map_iff]
              apply forall_mem_mergeEntries
                (Q := fun key v => key.isWritable = true ∧ v.isWritable = true) hold hnew
              intro key other before after hafter _ hbefore hwritable
              have hlt := size_lt_of_entry hafter
              refine ⟨hbefore.1, ih _ ?_ hbefore.2 hwritable.2 rfl⟩
              omega
          | scalar | list => simpa [merge] using hnew

theorem isWritable_soleKind (nullable : Bool) {type : Value} (h : type.isWritable = true) :
    (soleKind nullable type).2.isWritable = true := by
  fun_induction soleKind nullable type with
  | case1 nullable types kind hkind ih =>
      have hmem : kind ∈ kindsOf types := by simp [hkind]
      exact ih (isWritable_list_iff.mp h _ (List.mem_filter.mp hmem).1)
  | case2 => exact h
  | case3 => exact h

theorem isWritable_tagObject {name tag : Scalar} (hname : name.isWritable = true)
    (htag : tag.isWritable = true) :
    (Discriminator.tagObject name tag).isWritable = true := by
  simp [Discriminator.tagObject, Discriminator.tagSchema, isWritable, entriesWritable,
    itemsWritable, hname, htag]

end Value

open Value in
theorem writable_invariant : SchemaInvariant fun v => v.isWritable = true where
  empty := rfl
  inside := by
    intro schema inner hschema hinner
    cases hinner with
    | property hproperties hmem =>
        have htable := (isWritable_map_iff.mp hschema _ hproperties).2
        exact (isWritable_map_iff.mp htable _ hmem).2
    | items hitems => exact (isWritable_map_iff.mp hschema _ hitems).2
    | part hpart =>
        cases hpart with
        | intro _ hparts hmem =>
            have hlist := (isWritable_map_iff.mp hschema _ hparts).2
            exact isWritable_list_iff.mp hlist _ hmem
  merge := by
    intro left right hleft hright
    have h := isWritable_merge hleft hright
    rwa [Value.merge] at h
  drop := by
    intro entries key h
    rw [isWritable_map_iff] at h ⊢
    exact fun entry hentry => h entry (Entries.mem_of_mem_dropField hentry)
  settle := by
    intro entries h
    rcases Fragment.settle_eq_or entries with hsame |
      ⟨types, kind, nullable, htypes, hsettle, rfl⟩
    · rwa [hsame]
    · rw [hsettle]
      have htype := isWritable_soleKind (entries.isTrue "nullable")
        (isWritable_field h htypes)
      exact isWritable_setField (isWritable_setField h htype) rfl
  kind := by
    intro entries types kind h htypes hkind
    have hlist := isWritable_list_iff.mp (isWritable_field h htypes)
    have hkind := hlist kind (List.mem_filter.mp hkind).1
    simpa [isWritable_map_iff] using hkind
  retag := by
    intro flat name tag hflat htag
    have hproperties : (Value.map [(name, Discriminator.tagSchema tag)]).isWritable = true :=
      isWritable_field htag (show Entries.field? _ "properties" = _ from rfl)
    have hnew := isWritable_map_iff.mp hproperties _ (List.mem_singleton_self _)
    refine isWritable_setField hflat (isWritable_insert ?_ hnew.1 hnew.2)
    refine isWritable_map_iff.mpr fun entry hentry => ?_
    obtain ⟨table, hfield, hmem⟩ := Discriminator.mem_propertyTable hentry
    exact isWritable_map_iff.mp (isWritable_field hflat hfield) entry hmem

/-! ## Legible schemas -/

/-- A well-shaped schema that can be written, if that is asked for. -/
def Value.Legible (known : String → Prop) (strict short : Prop) (schema : Value) : Prop :=
  schema.WellShaped known strict ∧ (short → schema.isWritable = true)

variable {known : String → Prop} {strict short : Prop} {allowed : Failure → Prop}

theorem legible_invariant : SchemaInvariant (Value.Legible known strict short) where
  empty := ⟨wellShaped_invariant.empty, fun _ => writable_invariant.empty⟩
  inside := fun h hinner => ⟨wellShaped_invariant.inside h.1 hinner, fun hshort =>
    writable_invariant.inside (h.2 hshort) hinner⟩
  merge := fun hleft hright => ⟨wellShaped_invariant.merge hleft.1 hright.1, fun hshort =>
    writable_invariant.merge (hleft.2 hshort) (hright.2 hshort)⟩
  drop := fun key h => ⟨wellShaped_invariant.drop key h.1, fun hshort =>
    writable_invariant.drop key (h.2 hshort)⟩
  settle := fun h => ⟨wellShaped_invariant.settle h.1, fun hshort =>
    writable_invariant.settle (h.2 hshort)⟩
  kind := fun h htypes hkind => ⟨wellShaped_invariant.kind h.1 htypes hkind, fun hshort =>
    writable_invariant.kind (h.2 hshort) htypes hkind⟩
  retag := fun hflat htag => ⟨wellShaped_invariant.retag hflat.1 htag.1, fun hshort =>
    writable_invariant.retag (hflat.2 hshort) (htag.2 hshort)⟩

theorem legible_tagObject (name tag : String) :
    (Discriminator.tagObject (.str name) (.str tag)).Legible known strict short :=
  ⟨wellShaped_tagObject name (.str tag), fun _ => Value.isWritable_tagObject rfl rfl⟩

theorem Value.written_failsOnly {v : Value} (hv : short → v.isWritable = true)
    (hlong : ¬ short → allowed (.tooLong Numerals.digitLimit)) :
    FailsOnly allowed v.written := by
  by_cases hwritable : v.isWritable = true
  · exact .of_succeeds ⟨_, written_of_isWritable hwritable⟩
  · rw [show v.written = .error _ from if_neg hwritable]
    exact failsOnly_error (hlong fun hshort => hwritable (hv hshort))

theorem Failure.allowed_worded {failure : Failure}
    (h : failure.isWritable = true → allowed failure)
    (hwritable : short → failure.isWritable = true)
    (hlong : ¬ short → allowed (.tooLong Numerals.digitLimit)) : allowed failure.worded := by
  unfold worded
  split
  · rename_i hshown
    exact h hshown
  · rename_i hnot
    exact hlong fun hshort => hnot (hwritable hshort)

end SchemaViews
