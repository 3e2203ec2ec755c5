import SchemaViews.Proofs.MergedFragments
import SchemaViews.Proofs.OverlayLaws

/-!
# Merged schemas are flat

A merged schema holds no reference and no parts to be merged, whatever it was
merged from: what is expanded has none of the keys that are expanded.  So it is
read as a fragment of its own kind, merging it once more changes nothing, and a
resolution never starts again with a composition or a reference.
-/

namespace SchemaViews

/-- A reference, or a fragment whose parts are merged before it is resolved. -/
def Fragment.isComposed : Fragment → Bool
  | .reference _ _ | .allOf _ _ | .anyOf _ _ => true
  | _ => false

namespace Entries

/-- A schema without parts to be merged. -/
def Unparted (schema : Entries) : Prop :=
  ∀ key ∈ Arena.mergedKeys, schema.field? key = none

/-- A schema that holds no reference either. -/
def Flat (schema : Entries) : Prop :=
  schema.Unparted ∧ schema.field? referenceKey = none

theorem field?_eq_none_iff {schema : Entries} {name : String} :
    schema.field? name = none ↔ ∀ entry ∈ schema, entry.1 ≠ .str name := by
  rw [field?, OrderedMap.find?_eq_none_iff, OrderedMap.keys, List.mem_map]
  push Not
  rfl

theorem Unparted.merge {left right : Entries} (hleft : left.Unparted)
    (hright : right.Unparted) :
    Unparted (Value.mergeEntries left right) := by
  intro key hkey
  have hleft := field?_eq_none_iff.mp (hleft key hkey)
  have hright := field?_eq_none_iff.mp (hright key hkey)
  rw [field?_eq_none_iff]
  exact Value.forall_mem_mergeEntries (Q := fun k _ => k ≠ .str key) hleft hright
    fun _ _ _ _ _ _ hold _ => hold

theorem Unparted.dropField {schema : Entries} (h : schema.Unparted)
    (name : String) : (schema.dropField name).Unparted := by
  intro key hkey
  rw [field?_dropField, h key hkey, ite_self]

theorem Flat.dropField {schema : Entries} (h : schema.Flat) (name : String) :
    (schema.dropField name).Flat := by
  refine ⟨h.1.dropField name, ?_⟩
  rw [field?_dropField, h.2, ite_self]

theorem Flat.reference? {schema : Entries} (h : schema.Flat) :
    schema.reference? = none := by
  rw [Entries.reference?, h.2]

theorem Flat.dropField_reference {schema : Entries} (h : schema.Flat) :
    schema.dropField referenceKey = schema :=
  OrderedMap.erase_of_not_mem (OrderedMap.find?_eq_none_iff.mp h.2)

theorem Flat.not_composed {schema : Entries} {whole : Fragment} (h : schema.Flat)
    (hread : Fragment.read (.map schema) = .ok whole) :
    whole.isComposed = false := by
  obtain ⟨_, hschema, hreading⟩ := Fragment.reading_of_read hread
  cases hschema
  cases hreading with
  | reference hreference => simp [h.reference?] at hreference
  | allOf _ _ _ hall => simp [h.1 "allOf" (by decide)] at hall
  | anyOf _ _ _ _ hany => simp [h.1 "anyOf" (by decide)] at hany
  | scalar | choice | onlyNull | kinds | object | emptyObject | freeObject | array
  | freeArray | oneOf | unknown => rfl

end Entries

/-! ## Expansions -/

namespace Arena

variable {arena : Arena}

theorem flat_overlay {expansions : List Entries}
    (h : ∀ expansion ∈ expansions, expansion.Unparted) :
    (overlay expansions).Flat := by
  have hmerged : ∀ start : Entries, start.Unparted →
      (expansions.foldl Value.mergeEntries start).Unparted := by
    induction expansions with
    | nil => exact fun start hstart => hstart
    | cons expansion rest ih =>
        rw [List.forall_mem_cons] at h
        exact fun start hstart => ih h.2 _ (hstart.merge h.1)
  refine ⟨(hmerged [] fun key _ => rfl).dropField referenceKey, ?_⟩
  rw [overlay, Entries.field?_dropField, if_pos rfl]

theorem expandWith_unparted {component : String → Option (Outcome Entries)}
    (hcomponent : ∀ name expansion flat, component name = some expansion →
      expansion.result = .ok flat → flat.Unparted)
    {schema : Value} {flat : Entries}
    (h : (expandWith component schema).result = .ok flat) : flat.Unparted := by
  induction hsize : schema.size using Nat.strongRecOn generalizing schema flat with
  | ind size ih =>
      cases schema with
      | scalar s => simp [expandWith_of_not_map] at h
      | list items => simp [expandWith_of_not_map] at h
      | map raw =>
          have hparts : ∀ key ∈ mergedKeys, ∀ parts expansions,
              Entries.field? raw key = some parts →
                (expandParts component parts).result = .ok expansions →
                  ∀ expansion ∈ expansions, expansion.Unparted := by
            intro key hkey parts expansions hfield hexpand expansion hmem
            rw [expandParts_eq] at hexpand
            split at hexpand
            · rename_i items hitems
              obtain ⟨item, hitem, hitemFlat⟩ := exists_of_mem_mapM hexpand hmem
              have hkeys : mergedKeys ⊆ compositionKeys := by decide
              have hcombines :=
                Value.combines_of_field (hkeys hkey) hfield hitems hitem
              exact ih _ (hsize ▸ hcombines.size_lt) hitemFlat rfl
            · cases hexpand
          cases hall : Entries.field? raw "allOf" with
          | some parts =>
              rw [expandWith_allOf hall, map_eq_ok_iff] at h
              obtain ⟨expansions, hexpand, rfl⟩ := h
              exact (flat_overlay
                (hparts "allOf" (by decide) _ _ hall hexpand)).1
          | none =>
              cases hany : Entries.field? raw "anyOf" with
              | some parts =>
                  rw [expandWith_anyOf hall hany, map_eq_ok_iff] at h
                  obtain ⟨expansions, hexpand, rfl⟩ := h
                  exact (flat_overlay
                    (hparts "anyOf" (by decide) _ _ hany hexpand)).1.dropField _
              | none =>
                  have hraw : Entries.Unparted raw := by
                    simp [Entries.Unparted, mergedKeys, hall, hany]
                  cases hreference : Entries.reference? raw with
                  | none =>
                      rw [expandWith_plain hall hany hreference] at h
                      cases h
                      exact hraw
                  | some target =>
                      cases hknown : component target.name with
                      | none =>
                          rw [expandWith_unknown hall hany hreference hknown] at h
                          cases h
                          exact hraw
                      | some expansion =>
                          rw [expandWith_known hall hany hreference hknown,
                            map_eq_ok_iff] at h
                          obtain ⟨expanded, hexpand, rfl⟩ := h
                          have hfirst := hcomponent _ _ _ hknown hexpand
                          have hsecond := hraw.dropField referenceKey
                          exact (flat_overlay (by simpa using ⟨hfirst, hsecond⟩)).1

theorem expandWithin_unparted {bound : ℕ} {schema : Value} {flat : Entries}
    (h : (arena.expandWithin bound schema).result = .ok flat) :
    flat.Unparted := by
  induction bound generalizing schema flat with
  | zero =>
      rw [expandWithin] at h
      refine expandWith_unparted (fun name expansion flat hknown hflat => ?_) h
      obtain ⟨component, _, rfl⟩ := Option.map_eq_some_iff.mp hknown
      cases hflat
  | succ bound ih =>
      rw [expandWithin] at h
      refine expandWith_unparted (fun name expansion flat hknown hflat => ?_) h
      obtain ⟨component, _, rfl⟩ := Option.map_eq_some_iff.mp hknown
      exact ih hflat

theorem flat_of_merge {schemas : List Value} {flat : Entries}
    (h : (arena.merge schemas).result = .ok flat) : flat.Flat := by
  rw [merge_eq] at h
  obtain ⟨expansions, hexpand, rfl⟩ := map_eq_ok_iff.mp h
  refine flat_overlay fun expansion hmem => ?_
  obtain ⟨schema, _, hschema⟩ := exists_of_mem_mapM hexpand hmem
  exact expandWithin_unparted hschema

theorem apart_of_merge {schemas : List Value} {flat : Entries}
    (h : (arena.merge schemas).result = .ok flat) :
    Scalar.Apart (OrderedMap.keys flat) := by
  rw [merge_eq] at h
  obtain ⟨expansions, _, rfl⟩ := map_eq_ok_iff.mp h
  exact apart_overlay expansions

theorem merge_flat {flat : Entries} (h : flat.Flat)
    (hkeys : Scalar.Apart (OrderedMap.keys flat)) :
    (arena.merge [.map flat]).result = .ok flat := by
  obtain ⟨component, hexpand⟩ := arena.expand_eq_expandWith
  have hplain : (arena.expand (.map flat)).result = .ok flat := by
    rw [hexpand]
    exact expandWith_plain (h.1 "allOf" (by decide)) (h.1 "anyOf" (by decide))
      h.reference?
  have hoverlay : overlay [flat] = flat := by
    rw [overlay, List.foldl_cons, List.foldl_nil, Value.mergeEntries_nil_left hkeys,
      h.dropField_reference]
  rw [merge_eq, List.mapM_cons, List.mapM_nil, hplain]
  exact congrArg Except.ok hoverlay

end Arena

/-! ## Reopened fragments -/

theorem Discriminator.flat_retag {flat : Entries} (h : flat.Flat)
    (name tag : Scalar) : (retag flat name tag).Flat := by
  constructor
  · intro key hkey
    have hname : key ≠ "properties" := by
      rintro rfl
      revert hkey
      decide
    rw [retag, Entries.field?_setField, if_neg hname, h.1 key hkey]
  · rw [retag, Entries.field?_setField, if_neg (by decide), h.2]

namespace Scope

variable {s : Scope}

theorem Reopens.not_composed {fragment whole : Fragment}
    (h : s.Reopens fragment whole) : whole.isComposed = false := by
  induction h with
  | allOf hflat hread => exact (Arena.flat_of_merge hflat).not_composed hread
  | anyOf hflat hread =>
      exact ((Arena.flat_of_merge hflat).dropField _).not_composed hread
  | field _ hshown _ =>
      obtain ⟨flat, hflat, hread⟩ := bind_eq_ok_iff.mp hshown
      exact (Arena.flat_of_merge hflat).not_composed hread
  | property _ _ _ _ ih => exact ih
  | items _ ih => exact ih
  | option _ _ ih => exact ih
  | untagged _ _ _ ih => exact ih
  | @tagged _ _ d tag _ option _ _ _ hflat hread =>
      cases hproperty : d.property with
      | list items => simp [hproperty, Discriminator.taggedOption] at hflat
      | map entries => simp [hproperty, Discriminator.taggedOption] at hflat
      | scalar name =>
          rw [hproperty, Discriminator.taggedOption_eq, map_eq_ok_iff] at hflat
          obtain ⟨merged, hmerged, rfl⟩ := hflat
          exact (Discriminator.flat_retag (Arena.flat_of_merge hmerged)
            name tag).not_composed hread

theorem resolveWith_congr {again further : Fragment → Outcome TypeExpr}
    {fragment : Fragment}
    (h : ∀ whole, s.Reopens fragment whole →
      (again whole).result = (further whole).result) :
    (s.resolveWith again fragment).result =
      (s.resolveWith further fragment).result := by
  induction fragment using Fragment.induction with
  | reference | primitive | choice | freeObject | freeArray => simp only [resolveWith]
  | object notes properties required ih =>
      rw [resolveWith_object, resolveWith_object]
      refine congrArg _ (mapM_congr fun entry hentry => ?_)
      obtain ⟨name, property⟩ := entry
      rw [field_eq, field_eq]
      refine bind_congr_of_ok fun shown hshown => ?_
      cases hhidden : shown.notes.hiddenIn s.view with
      | true => rfl
      | false =>
          cases property with
          | allOf inner parts =>
              rw [shownType, shownType, h shown (.field hentry hshown hhidden)]
          | reference | primitive | choice | object | freeObject | array | freeArray
          | oneOf | anyOf =>
              cases hshown
              have htype := ih _ hentry fun whole hwhole =>
                h whole (.property hentry (by simp) hhidden hwhole)
              simp only [shownType, htype]
  | array notes items ih =>
      rw [resolveWith_array, resolveWith_array,
        ih fun whole hwhole => h whole (.items hwhole)]
  | oneOf notes options discriminator ih =>
      rw [resolveWith_oneOf, resolveWith_oneOf]
      refine congrArg _ (mapM_congr fun option hoption => ?_)
      cases discriminator with
      | none => exact ih option hoption fun whole hwhole => h whole (.option hoption hwhole)
      | some d =>
          rw [alternative_eq, alternative_eq]
          refine bind_congr_of_ok fun tag htag => ?_
          cases tag with
          | none =>
              exact ih option hoption fun whole hwhole =>
                h whole (.untagged hoption htag hwhole)
          | some tag =>
              refine bind_congr_of_ok fun flat hflat => ?_
              exact bind_congr_of_ok fun whole hread =>
                h whole (.tagged hoption htag hflat hread)
  | allOf notes parts =>
      rw [resolveWith_allOf, resolveWith_allOf, merged_eq, merged_eq]
      refine congrArg _ (bind_congr_of_ok fun flat hflat => ?_)
      exact bind_congr_of_ok fun whole hread => h whole (.allOf hflat hread)
  | anyOf notes parts =>
      rw [resolveWith_anyOf, resolveWith_anyOf, merged_eq, merged_eq]
      refine congrArg _ (bind_congr_of_ok fun flat hflat => ?_)
      exact bind_congr_of_ok fun whole hread => h whole (.anyOf hflat hread)

end Scope

/-! ## Normal forms -/

/-- A merged schema has no key that is expanded, it is read as no composition and
no reference, and it is its own merge whatever the components.  Resolution makes
use of it: what is resolved again is never a composition at its top. -/
theorem merge_normal {arena : Arena} {schemas : List Value} {flat : Entries}
    (h : (arena.merge schemas).result = .ok flat) :
    (∀ key ∈ ["allOf", "anyOf", referenceKey], flat.field? key = none) ∧
      (∀ whole, Fragment.read (.map flat) = .ok whole → whole.isComposed = false) ∧
      (∀ (s : Scope) (again further : Fragment → Outcome TypeExpr),
        (∀ whole, whole.isComposed = false →
          (again whole).result = (further whole).result) →
            ∀ fragment, (s.resolveWith again fragment).result =
              (s.resolveWith further fragment).result) ∧
      ∀ other : Arena, (other.merge [.map flat]).result = .ok flat := by
  have hflat := Arena.flat_of_merge h
  refine ⟨?keys, fun whole => hflat.not_composed, ?resolve, fun other =>
    Arena.merge_flat hflat (Arena.apart_of_merge h)⟩
  case keys =>
    intro key hkey
    simp only [List.mem_cons, List.not_mem_nil, or_false] at hkey
    rcases hkey with rfl | rfl | rfl
    · exact hflat.1 "allOf" (by decide)
    · exact hflat.1 "anyOf" (by decide)
    · exact hflat.2
  case resolve =>
    intro s again further hagree fragment
    exact Scope.resolveWith_congr fun whole hwhole => hagree whole hwhole.not_composed

theorem merge_normal_pet :
    let owner : Value := .map [(.str "allOf",
      .list [.map [(.str referenceKey, .ref { name := "Owner" })]])]
    let table : Value := .map [(.str "owner", owner)]
    let arena : Arena :=
      [("Base", .map [(.str "anyOf", .list
        [.map [(.str "properties", table), (.str "required", .list [.str "owner"])]])])]
    let schemas : List Value :=
      [.map [(.str referenceKey, .ref { name := "Base" }), (.str "nullable", .bool true)],
        .map [(.str referenceKey, .ref { name := "Unknown" }), (.str "type", .str "object")]]
    let flat : Entries :=
      [(.str "properties", table), (.str "nullable", .bool true), (.str "type", .str "object")]
    (arena.merge schemas).result = .ok flat ∧
      (∀ whole, Fragment.read (.map flat) = .ok whole → whole.isComposed = false) ∧
        (Arena.merge [] [.map flat]).result = .ok flat := by
  intro owner table arena schemas flat
  have hflat : (arena.merge schemas).result = .ok flat := by decide +kernel
  obtain ⟨_, hread, _, hagain⟩ := merge_normal hflat
  exact ⟨hflat, hread, hagain []⟩

end SchemaViews
