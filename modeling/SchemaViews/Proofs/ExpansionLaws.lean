import SchemaViews.DiscriminatorTag
import SchemaViews.FragmentReading
import SchemaViews.Proofs.OutcomeLaws
import SchemaViews.Proofs.SchemaPositions

/-!
# Laws of expansion

One equation for each kind of schema says what it expands to.  From these it
follows once and for all how a property of schemas passes from the parts of a
composition, and from the components that they name, to the merged schema, and
which failures an expansion can have.
-/

namespace SchemaViews
namespace Arena

/-! ## One kind of schema at a time -/

section Kinds

variable {component : String → Option (Outcome Entries)} {raw : Entries}

theorem expandParts_eq (parts : Value) :
    (expandParts component parts).result =
      match parts.parts? with
      | some items => items.mapM fun item => (expandWith component item).result
      | none => .error .wrongShape := by
  cases parts with
  | list items =>
      rw [expandParts, Outcome.result_mapM]
      exact mapM_attach (fun item => (expandWith component item).result) items
  | scalar s =>
      rw [expandParts.eq_def]
      simp only [Value.parts?]
      split <;> rfl
  | map entries =>
      rw [expandParts.eq_def]
      simp only [Value.parts?]
      split <;> rfl

theorem expandWith_allOf {parts : Value}
    (hall : raw.field? "allOf" = some parts) :
    (expandWith component (.map raw)).result =
      overlay <$> (expandParts component parts).result := by
  rw [expandWith]
  split <;> simp_all

theorem expandWith_anyOf {parts : Value}
    (hall : raw.field? "allOf" = none)
    (hany : raw.field? "anyOf" = some parts) :
    (expandWith component (.map raw)).result =
      (fun expansions => (overlay expansions).dropField "required") <$>
        (expandParts component parts).result := by
  rw [expandWith]
  split
  · simp_all
  · split <;> simp_all

theorem expandWith_plain
    (hall : raw.field? "allOf" = none) (hany : raw.field? "anyOf" = none)
    (hreference : raw.reference? = none) :
    (expandWith component (.map raw)).result = .ok raw := by
  rw [expandWith]
  split
  · simp_all
  · split
    · simp_all
    · rw [hreference]
      rfl

theorem expandWith_known {target : Reference} {expansion : Outcome Entries}
    (hall : raw.field? "allOf" = none) (hany : raw.field? "anyOf" = none)
    (hreference : raw.reference? = some target)
    (hknown : component target.name = some expansion) :
    (expandWith component (.map raw)).result =
      (fun expanded => overlay [expanded, raw.dropField referenceKey]) <$>
        expansion.result := by
  rw [expandWith]
  split
  · simp_all
  · split
    · simp_all
    · simp only [hreference, hknown, Outcome.result_map]

theorem expandWith_unknown {target : Reference}
    (hall : raw.field? "allOf" = none) (hany : raw.field? "anyOf" = none)
    (hreference : raw.reference? = some target)
    (hunknown : component target.name = none) :
    (expandWith component (.map raw)).result = .ok raw := by
  rw [expandWith]
  split
  · simp_all
  · split
    · simp_all
    · simp only [hreference, hunknown, Outcome.result_bind, Outcome.result_warn,
        Outcome.result_pure]
      rfl

theorem expandWith_of_not_map {schema : Value}
    (hmap : ∀ raw, schema ≠ .map raw) :
    (expandWith component schema).result = .error .wrongShape := by
  rw [expandWith]
  · rfl
  · exact hmap

end Kinds
end Arena

/-! ## Properties that pass to merged schemas -/

namespace Discriminator

def retag (flat : Entries) (name tag : Scalar) : Entries :=
  flat.setField "properties" (.map (ScalarMap.insert
    (((flat.fieldOrNull "properties").entries?).getD []) name (tagSchema tag)))

theorem mem_propertyTable {flat : Entries} {entry : Scalar × Value}
    (h : entry ∈ ((flat.fieldOrNull "properties").entries?).getD []) :
    ∃ table, flat.field? "properties" = some (.map table) ∧ entry ∈ table := by
  cases hproperties : flat.fieldOrNull "properties" with
  | map table =>
      rw [hproperties] at h
      exact ⟨table, Entries.field?_of_fieldOrNull hproperties (by simp), h⟩
  | scalar s => simp [hproperties, Value.entries?] at h
  | list items => simp [hproperties, Value.entries?] at h

theorem taggedOption_eq (arena : Arena) (option : Value) (name tag : Scalar) :
    (taggedOption arena option (.scalar name) tag).result =
      (fun flat => retag flat name tag) <$>
        (arena.merge [option, tagObject name tag]).result := by
  rw [taggedOption, Outcome.result_bind, map_eq_pure_bind]
  rfl

end Discriminator

/-- A property of schemas that every way of making a schema out of others
preserves. -/
structure SchemaInvariant (Q : Value → Prop) : Prop where
  empty : Q (.map [])
  inside : ∀ {schema inner : Value}, Q schema → schema.Holds inner → Q inner
  merge : ∀ {left right : Entries}, Q (.map left) → Q (.map right) →
    Q (.map (Value.mergeEntries left right))
  drop : ∀ {entries : Entries} (key : String), Q (.map entries) →
    Q (.map (entries.dropField key))
  settle : ∀ {entries : Entries}, Q (.map entries) → Q (.map (settle entries))
  kind : ∀ {entries : Entries} {types : List Value} {kind : Value},
    Q (.map entries) → entries.field? "type" = some (.list types) →
      kind ∈ kindsOf types → Q (.map [(.str "type", kind)])
  retag : ∀ {flat : Entries} {name tag : Scalar}, Q (.map flat) →
    Q (Discriminator.tagObject name tag) →
      Q (.map (Discriminator.retag flat name tag))

theorem SchemaInvariant.overlay {Q : Value → Prop} (hQ : SchemaInvariant Q)
    {expansions : List Entries} (h : ∀ flat ∈ expansions, Q (.map flat)) :
    Q (.map (Arena.overlay expansions)) := by
  suffices hfold : ∀ start : Entries, Q (.map start) →
      Q (.map (expansions.foldl Value.mergeEntries start)) from
    hQ.drop _ (hfold [] hQ.empty)
  induction expansions with
  | nil => exact fun start hstart => hstart
  | cons flat rest ih =>
      rw [List.forall_mem_cons] at h
      exact fun start hstart => ih h.2 _ (hQ.merge hstart h.1)

namespace Arena

/-- `E` holds of the schemas that an expansion meets, and `Q` of each of
them. -/
structure Expandable (arena : Arena) (E Q : Value → Prop) : Prop where
  holds : ∀ {schema : Value}, E schema → Q schema
  part : ∀ {schema part : Value}, E schema → schema.Combines part → E part
  target : ∀ {raw : Entries} {target : Reference} {schema : Value},
    E (.map raw) → raw.reference? = some target →
      OrderedMap.find? arena target.name = some schema → E schema

section Invariant

variable {E Q : Value → Prop}

theorem expandWith_invariant {component : String → Option (Outcome Entries)}
    (hQ : SchemaInvariant Q) (hholds : ∀ {schema}, E schema → Q schema)
    (hpart : ∀ {schema part : Value}, E schema → schema.Combines part → E part)
    (hcomponent : ∀ {raw : Entries} {target : Reference}
      {expansion : Outcome Entries} {flat : Entries},
      E (.map raw) → raw.reference? = some target →
        component target.name = some expansion →
          expansion.result = .ok flat → Q (.map flat))
    {schema : Value} {flat : Entries} (hschema : E schema)
    (h : (expandWith component schema).result = .ok flat) : Q (.map flat) := by
  induction hsize : schema.size using Nat.strongRecOn generalizing schema flat with
  | ind size ih =>
      cases schema with
      | scalar s => simp [expandWith_of_not_map] at h
      | list items => simp [expandWith_of_not_map] at h
      | map raw =>
          have hparts : ∀ key ∈ compositionKeys, ∀ parts expansions,
              Entries.field? raw key = some parts →
                (expandParts component parts).result = .ok expansions →
                  ∀ expansion ∈ expansions, Q (.map expansion) := by
            intro key hkey parts expansions hfield hexpand expansion hmem
            rw [expandParts_eq] at hexpand
            split at hexpand
            · rename_i items hitems
              obtain ⟨item, hitem, hitemFlat⟩ := exists_of_mem_mapM hexpand hmem
              have hcombines :=
                Value.combines_of_field hkey hfield hitems hitem
              exact ih _ (hsize ▸ hcombines.size_lt)
                (hpart hschema hcombines) hitemFlat rfl
            · cases hexpand
          cases hall : Entries.field? raw "allOf" with
          | some parts =>
              rw [expandWith_allOf hall, map_eq_ok_iff] at h
              obtain ⟨expansions, hexpand, rfl⟩ := h
              exact hQ.overlay
                (hparts "allOf" (by simp [compositionKeys]) _ _ hall hexpand)
          | none =>
              cases hany : Entries.field? raw "anyOf" with
              | some parts =>
                  rw [expandWith_anyOf hall hany, map_eq_ok_iff] at h
                  obtain ⟨expansions, hexpand, rfl⟩ := h
                  exact hQ.drop _ (hQ.overlay
                    (hparts "anyOf" (by simp [compositionKeys]) _ _ hany hexpand))
              | none =>
                  cases hreference : Entries.reference? raw with
                  | none =>
                      rw [expandWith_plain hall hany hreference] at h
                      cases h
                      exact hholds hschema
                  | some target =>
                      cases hknown : component target.name with
                      | none =>
                          rw [expandWith_unknown hall hany hreference hknown] at h
                          cases h
                          exact hholds hschema
                      | some expansion =>
                          rw [expandWith_known hall hany hreference hknown,
                            map_eq_ok_iff] at h
                          obtain ⟨expanded, hexpand, rfl⟩ := h
                          refine hQ.overlay ?_
                          have hfirst := hcomponent hschema hreference hknown hexpand
                          have hsecond := hQ.drop referenceKey (hholds hschema)
                          simpa using ⟨hfirst, hsecond⟩

theorem Expandable.expandWithin {arena : Arena} (hE : arena.Expandable E Q)
    (hQ : SchemaInvariant Q) {bound : ℕ} {schema : Value} {flat : Entries}
    (hschema : E schema)
    (h : (expandWithin arena bound schema).result = .ok flat) :
    Q (.map flat) := by
  induction bound generalizing schema flat with
  | zero =>
      rw [Arena.expandWithin] at h
      refine expandWith_invariant hQ hE.holds hE.part ?_ hschema h
      intro raw target expansion flat _ _ hknown hflat
      obtain ⟨component, _, rfl⟩ := Option.map_eq_some_iff.mp hknown
      simp at hflat
  | succ bound ih =>
      rw [Arena.expandWithin] at h
      refine expandWith_invariant hQ hE.holds hE.part ?_ hschema h
      intro raw target expansion flat hraw hreference hknown hflat
      obtain ⟨component, hfind, rfl⟩ := Option.map_eq_some_iff.mp hknown
      exact ih (hE.target hraw hreference hfind) hflat

theorem Expandable.merge {arena : Arena} (hE : arena.Expandable E Q)
    (hQ : SchemaInvariant Q) {schemas : List Value} {flat : Entries}
    (hschemas : ∀ schema ∈ schemas, E schema)
    (h : (arena.merge schemas).result = .ok flat) : Q (.map flat) := by
  rw [Arena.merge, Outcome.result_map, map_eq_ok_iff, Outcome.result_mapM] at h
  obtain ⟨expansions, hexpand, rfl⟩ := h
  refine hQ.overlay ?_
  intro expansion hmem
  obtain ⟨schema, hschema, hflat⟩ := exists_of_mem_mapM hexpand hmem
  exact hE.expandWithin hQ (hschemas schema hschema) hflat

theorem Expandable.taggedOption {arena : Arena} (hE : arena.Expandable E Q)
    (hQ : SchemaInvariant Q) {option property : Value} {tag : Scalar}
    {flat : Entries} (hoption : E option)
    (htag : ∀ name, property = .scalar name →
      E (Discriminator.tagObject name tag))
    (h : (Discriminator.taggedOption arena option property tag).result =
      .ok flat) : Q (.map flat) := by
  cases property with
  | list items => simp [Discriminator.taggedOption] at h
  | map entries => simp [Discriminator.taggedOption] at h
  | scalar name =>
      rw [Discriminator.taggedOption_eq, map_eq_ok_iff] at h
      obtain ⟨merged, hmerge, rfl⟩ := h
      have hobject := htag name rfl
      refine hQ.retag (hE.merge hQ ?_ hmerge) (hE.holds hobject)
      simpa using ⟨hoption, hobject⟩

end Invariant

/-! ## Failures of an expansion -/

def Composable (schema : Value) : Prop :=
  ∃ raw : Entries, schema = .map raw ∧
    ∀ key ∈ compositionKeys, ∀ parts, raw.field? key = some parts →
      ∃ items, parts.parts? = some items

def mergedKeys : List String :=
  ["allOf", "anyOf"]

def Unfoldable (schema : Value) : Prop :=
  ∃ raw : Entries, schema = .map raw ∧
    ∀ key ∈ mergedKeys, ∀ parts, raw.field? key = some parts →
      ∃ items, parts.parts? = some items

theorem Composable.unfoldable {schema : Value} (h : Composable schema) :
    Unfoldable schema := by
  obtain ⟨raw, rfl, hparts⟩ := h
  have hkeys : mergedKeys ⊆ compositionKeys := by decide
  exact ⟨raw, rfl, fun key hkey => hparts key (hkeys hkey)⟩

section Failures

variable {E : Value → Prop} {allowed : Failure → Prop}

theorem expandWith_failsOnly {component : String → Option (Outcome Entries)}
    (hmisfit : ∀ schema, E schema → Unfoldable schema ∨ allowed .wrongShape)
    (hpart : ∀ {schema part : Value}, E schema → schema.Merges part → E part)
    (hcomponent : ∀ {raw : Entries} {target : Reference}
      {expansion : Outcome Entries},
      E (.map raw) → raw.field? "allOf" = none → raw.field? "anyOf" = none →
        raw.reference? = some target → component target.name = some expansion →
          FailsOnly allowed expansion.result)
    {schema : Value} (hschema : E schema) :
    FailsOnly allowed (expandWith component schema).result := by
  induction hsize : schema.size using Nat.strongRecOn generalizing schema with
  | ind size ih =>
      cases schema with
      | scalar s =>
          rw [expandWith_of_not_map (by simp)]
          rcases hmisfit _ hschema with ⟨raw, hraw, _⟩ | hwrong
          · cases hraw
          · exact failsOnly_error hwrong
      | list items =>
          rw [expandWith_of_not_map (by simp)]
          rcases hmisfit _ hschema with ⟨raw, hraw, _⟩ | hwrong
          · cases hraw
          · exact failsOnly_error hwrong
      | map raw =>
          have hparts : ∀ key ∈ mergedKeys, ∀ parts,
              Entries.field? raw key = some parts →
                (∀ items, parts.parts? = some items →
                  ∀ item ∈ items, (Value.map raw).Merges item) →
                  FailsOnly allowed (expandParts component parts).result := by
            intro key hkey parts hfield hmerges
            rw [expandParts_eq]
            split
            · rename_i items hitems
              refine FailsOnly.mapM fun item hitem => ?_
              have hmerge := hmerges items hitems item hitem
              exact ih _ (hsize ▸ hmerge.combines.size_lt)
                (hpart hschema hmerge) rfl
            · rename_i hnone
              rcases hmisfit _ hschema with ⟨raw', hraw, hlists⟩ | hwrong
              · cases hraw
                obtain ⟨items, hitems⟩ := hlists key hkey parts hfield
                rw [hnone] at hitems
                cases hitems
              · exact failsOnly_error hwrong
          cases hall : Entries.field? raw "allOf" with
          | some parts =>
              rw [expandWith_allOf hall]
              refine FailsOnly.map ?_ _
              exact hparts "allOf" (by simp [mergedKeys]) _ hall
                fun items hitems item => .allOf hall hitems
          | none =>
              cases hany : Entries.field? raw "anyOf" with
              | some parts =>
                  rw [expandWith_anyOf hall hany]
                  refine FailsOnly.map ?_ _
                  exact hparts "anyOf" (by simp [mergedKeys]) _ hany
                    fun items hitems item => .anyOf hall hany hitems
              | none =>
                  cases hreference : Entries.reference? raw with
                  | none =>
                      rw [expandWith_plain hall hany hreference]
                      exact failsOnly_ok raw
                  | some target =>
                      cases hknown : component target.name with
                      | none =>
                          rw [expandWith_unknown hall hany hreference hknown]
                          exact failsOnly_ok raw
                      | some expansion =>
                          rw [expandWith_known hall hany hreference hknown]
                          exact (hcomponent hschema hall hany hreference
                            hknown).map _

/-- The failures of an expansion within a bound.  A property of the bound and the
schema is kept by the parts that are merged, and where a reference is followed it
holds again with a lower bound, or else the bound is used up. -/
theorem expandWithin_failsOnly {arena : Arena} {E : ℕ → Value → Prop}
    (hmisfit : ∀ bound schema, E bound schema → Unfoldable schema ∨ allowed .wrongShape)
    (hpart : ∀ bound {schema part : Value}, E bound schema → schema.Merges part →
      E bound part)
    (hlast : ∀ {raw : Entries} {target : Reference} {component : Value},
      E 0 (.map raw) → raw.field? "allOf" = none → raw.field? "anyOf" = none →
        raw.reference? = some target →
          OrderedMap.find? arena target.name = some component → allowed .endless)
    (hnext : ∀ {bound : ℕ} {raw : Entries} {target : Reference} {component : Value},
      E (bound + 1) (.map raw) → raw.field? "allOf" = none →
        raw.field? "anyOf" = none → raw.reference? = some target →
          OrderedMap.find? arena target.name = some component → E bound component)
    {bound : ℕ} {schema : Value} (hschema : E bound schema) :
    FailsOnly allowed (arena.expandWithin bound schema).result := by
  induction bound generalizing schema with
  | zero =>
      rw [expandWithin]
      refine expandWith_failsOnly (hmisfit 0) (hpart 0) ?_ hschema
      intro raw target expansion hraw hall hany hreference hknown
      obtain ⟨component, hfind, rfl⟩ := Option.map_eq_some_iff.mp hknown
      exact failsOnly_error (hlast hraw hall hany hreference hfind)
  | succ bound ih =>
      rw [expandWithin]
      refine expandWith_failsOnly (hmisfit (bound + 1)) (hpart (bound + 1)) ?_ hschema
      intro raw target expansion hraw hall hany hreference hknown
      obtain ⟨component, hfind, rfl⟩ := Option.map_eq_some_iff.mp hknown
      exact ih (hnext hraw hall hany hreference hfind)

theorem merge_failsOnly {arena : Arena} {schemas : List Value}
    (h : ∀ schema ∈ schemas, FailsOnly allowed (arena.expand schema).result) :
    FailsOnly allowed (arena.merge schemas).result := by
  rw [merge, Outcome.result_map, Outcome.result_mapM]
  exact (FailsOnly.mapM h).map _

end Failures
end Arena
end SchemaViews
