import SchemaViews.Proofs.CompositionLeaves
import SchemaViews.Proofs.SchemaShapes

/-!
# What a flat schema keeps of its leaves

A flat schema that was merged from plain leaves declares the properties of all
of them, each where it first came, and requires what the leaves that are not
relaxed require.  This is kept by merging two flat schemas, by dropping a
reference marker, and by dropping `required` where all leaves are relaxed.
-/

namespace SchemaViews

/-! ## Names in their order -/

theorem Scalar.enter_of_any {kept : List Scalar} {key : Scalar}
    (h : kept.any (·.sameKey key) = true) : Scalar.enter kept key = kept := by
  unfold Scalar.enter
  rw [if_pos h]

theorem Scalar.any_enter {kept : List Scalar} {key other : Scalar}
    (h : kept.any (·.sameKey key) = true ∨ other.sameKey key = true) :
    (Scalar.enter kept other).any (·.sameKey key) = true := by
  unfold Scalar.enter
  split
  · rename_i hknown
    rcases h with h | hsame
    · exact h
    · obtain ⟨found, hfound, hother⟩ := List.any_eq_true.mp hknown
      refine List.any_eq_true.mpr ⟨found, hfound, ?_⟩
      rw [Scalar.sameKey_iff] at hother hsame ⊢
      exact hother.trans hsame
  · rw [List.any_append]
    rcases h with h | hsame
    · rw [h, Bool.true_or]
    · simp [hsame]

theorem Scalar.any_foldl_enter {kept keys : List Scalar} {key : Scalar}
    (h : kept.any (·.sameKey key) = true ∨ keys.any (·.sameKey key) = true) :
    (keys.foldl Scalar.enter kept).any (·.sameKey key) = true := by
  induction keys generalizing kept with
  | nil => simpa using h
  | cons other rest ih =>
      apply ih
      rcases h with h | h
      · exact .inl (Scalar.any_enter (.inl h))
      · rw [List.any_cons, Bool.or_eq_true] at h
        rcases h with hsame | hrest
        · exact .inl (Scalar.any_enter (.inr hsame))
        · exact .inr hrest

theorem Scalar.foldl_enter_foldl (kept first second : List Scalar) :
    (second.foldl enter first).foldl enter kept =
      second.foldl enter (first.foldl enter kept) := by
  induction second using List.reverseRecOn with
  | nil => rfl
  | append_singleton second key ih =>
      simp only [List.foldl_append, List.foldl_cons, List.foldl_nil, ← ih]
      rw [enter]
      split
      · next hknown => exact (enter_of_any (any_foldl_enter (.inr hknown))).symm
      · rw [List.foldl_append]
        rfl

theorem Scalar.foldl_enter_distinct (kept keys : List Scalar) :
    (Scalar.distinct keys).foldl Scalar.enter kept =
      keys.foldl Scalar.enter kept :=
  Scalar.foldl_enter_foldl kept [] keys

theorem Scalar.mem_of_mem_distinct {keys : List Scalar} {key : Scalar}
    (h : key ∈ Scalar.distinct keys) : key ∈ keys := by
  have hstep : ∀ (kept : List Scalar) (other key : Scalar),
      key ∈ Scalar.enter kept other → key ∈ kept ∨ key = other := by
    intro kept other key hkey
    unfold Scalar.enter at hkey
    split at hkey
    · exact .inl hkey
    · simpa using hkey
  rcases mem_foldl_cases hstep h with hnone | ⟨other, hother, rfl⟩
  · exact absurd hnone List.not_mem_nil
  · exact hother

theorem Scalar.any_distinct (keys : List Scalar) (key : Scalar) :
    (Scalar.distinct keys).any (·.sameKey key) = keys.any (·.sameKey key) := by
  rw [Bool.eq_iff_iff]
  constructor
  · intro h
    obtain ⟨found, hfound, hsame⟩ := List.any_eq_true.mp h
    exact List.any_eq_true.mpr ⟨found, Scalar.mem_of_mem_distinct hfound, hsame⟩
  · exact fun h => Scalar.any_foldl_enter (.inr h)

theorem Scalar.any_distinct_texts (texts : List String) (name : Scalar) :
    (Scalar.distinct (texts.map Scalar.str)).any name.sameKey =
      decide (name ∈ texts.map Scalar.str) := by
  have hcomm : name.sameKey = fun other => other.sameKey name :=
    funext fun other => Scalar.sameKey_comm name other
  rw [hcomm, Scalar.any_distinct, Bool.eq_iff_iff, List.any_eq_true, decide_eq_true_iff]
  simp only [List.mem_map, exists_exists_and_eq_and]
  refine exists_congr fun text => and_congr_right fun _ => ?_
  rw [Scalar.sameKey_comm, Scalar.sameKey_str, eq_comm]

/-! ## Plain schemas -/

namespace Entries

def propertyNames (schema : Entries) : List Scalar :=
  match schema.field? "properties" with
  | some (.map table) => OrderedMap.keys table
  | _ => []

def requiredTexts (schema : Entries) : List String :=
  match schema.field? "required" with
  | some (.list items) => items.filterMap fun
    | .str text => some text
    | _ => none
  | _ => []

/-- An object or a schema without a type, with proper properties and required
names and no alternatives. -/
structure Plain (schema : Entries) : Prop where
  type : schema.field? "type" = none ∨
    schema.field? "type" = some (.str "object")
  oneOf : schema.field? "oneOf" = none
  properties : ∀ v, schema.field? "properties" = some v →
    ∃ table : Entries, v = .map table
  required : ∀ v, schema.field? "required" = some v → v.Texts

theorem Plain.dropField {schema : Entries} (h : schema.Plain) (key : String) :
    (schema.dropField key).Plain := by
  have hfield : ∀ {name v}, (schema.dropField key).field? name = some v →
      schema.field? name = some v := by
    intro name v hv
    rw [field?_dropField] at hv
    split at hv
    · cases hv
    · exact hv
  constructor
  case type =>
    rw [field?_dropField]
    split
    · exact .inl rfl
    · exact h.type
  case oneOf =>
    rw [field?_dropField]
    split
    · rfl
    · exact h.oneOf
  case properties => exact fun v hv => h.properties v (hfield hv)
  case required => exact fun v hv => h.required v (hfield hv)

theorem requiredTexts_of_texts {schema : Entries} {texts : List String}
    (h : schema.field? "required" = some (.list (texts.map Value.str))) :
    schema.requiredTexts = texts := by
  unfold requiredTexts
  rw [h]
  dsimp only
  rw [List.filterMap_map]
  exact List.filterMap_some

theorem requiredTexts_of_none {schema : Entries}
    (h : schema.field? "required" = none) : schema.requiredTexts = [] := by
  unfold requiredTexts
  rw [h]

theorem propertyNames_of_map {schema table : Entries}
    (h : schema.field? "properties" = some (.map table)) :
    schema.propertyNames = OrderedMap.keys table := by
  unfold propertyNames
  rw [h]

theorem propertyNames_of_none {schema : Entries}
    (h : schema.field? "properties" = none) : schema.propertyNames = [] := by
  unfold propertyNames
  rw [h]

theorem apart_propertyNames {schema : Entries}
    (h : (Value.map schema).Proper) : Scalar.Apart schema.propertyNames := by
  unfold propertyNames
  split
  · rename_i table htable
    exact (h.field htable).apart
  · exact List.Pairwise.nil

section Merge

variable {left right : Entries} (hproper : (Value.map right).Proper)
include hproper

theorem Plain.merge (hleft : left.Plain) (hright : right.Plain) :
    (Value.mergeEntries left right : Entries).Plain := by
  have hfield : ∀ name, field? (Value.mergeEntries left right) name =
      Value.mergeFields (left.field? name) (right.field? name) :=
    field?_mergeEntries hproper.distinct
  constructor
  case type =>
    rw [hfield]
    rcases hright.type with hr | hr
    · rw [hr, Value.mergeFields_none_right]
      exact hleft.type
    · rw [hr]
      cases left.field? "type" with
      | none => exact .inr rfl
      | some old => exact .inr (congrArg some (Value.merge_scalar old _))
  case oneOf => rw [hfield, hleft.oneOf, hright.oneOf, Value.mergeFields_none_left]
  case properties =>
    intro v hv
    rw [hfield] at hv
    cases hr : right.field? "properties" with
    | none =>
        rw [hr, Value.mergeFields_none_right] at hv
        exact hleft.properties v hv
    | some new =>
        obtain ⟨table, rfl⟩ := hright.properties new hr
        cases hl : left.field? "properties" with
        | none =>
            rw [hl, hr, Value.mergeFields_none_left] at hv
            exact ⟨table, (Option.some.inj hv).symm⟩
        | some old =>
            obtain ⟨before, rfl⟩ := hleft.properties old hl
            rw [hl, hr, Value.mergeFields, Value.merge] at hv
            exact ⟨_, (Option.some.inj hv).symm⟩
  case required =>
    intro v hv
    rw [hfield] at hv
    cases hr : right.field? "required" with
    | none =>
        rw [hr, Value.mergeFields_none_right] at hv
        exact hleft.required v hv
    | some new =>
        cases hl : left.field? "required" with
        | none =>
            rw [hl, hr, Value.mergeFields_none_left] at hv
            exact hright.required v (hr.trans hv)
        | some old =>
            rw [hl, hr, Value.mergeFields] at hv
            rw [← Option.some.inj hv]
            exact (hleft.required old hl).merge (hright.required new hr)

theorem propertyNames_mergeEntries (hleft : left.Plain) (hright : right.Plain) :
    (Value.mergeEntries left right : Entries).propertyNames =
      right.propertyNames.foldl Scalar.enter left.propertyNames := by
  have hfield : field? (Value.mergeEntries left right) "properties" =
      Value.mergeFields (left.field? "properties") (right.field? "properties") :=
    field?_mergeEntries hproper.distinct _
  cases hr : right.field? "properties" with
  | none =>
      rw [hr, Value.mergeFields_none_right] at hfield
      rw [propertyNames_of_none hr]
      unfold propertyNames
      rw [hfield]
      rfl
  | some new =>
      obtain ⟨table, rfl⟩ := hright.properties new hr
      rw [propertyNames_of_map hr]
      cases hl : left.field? "properties" with
      | none =>
          rw [hl, hr, Value.mergeFields_none_left] at hfield
          rw [propertyNames_of_none hl, propertyNames_of_map hfield]
          have hapart := (hproper.field hr).apart
          exact (Scalar.distinct_of_apart hapart).symm
      | some old =>
          obtain ⟨before, rfl⟩ := hleft.properties old hl
          rw [hl, hr, Value.mergeFields, Value.merge] at hfield
          rw [propertyNames_of_map hl, propertyNames_of_map hfield,
            Value.keys_mergeEntries]

theorem requiredTexts_mergeEntries (hleft : left.Plain) (hright : right.Plain) :
    (Value.mergeEntries left right : Entries).requiredTexts =
      left.requiredTexts ++ right.requiredTexts := by
  have hfield : field? (Value.mergeEntries left right) "required" =
      Value.mergeFields (left.field? "required") (right.field? "required") :=
    field?_mergeEntries hproper.distinct _
  cases hr : right.field? "required" with
  | none =>
      rw [hr, Value.mergeFields_none_right] at hfield
      rw [requiredTexts_of_none hr, List.append_nil]
      unfold requiredTexts
      rw [hfield]
  | some new =>
      obtain ⟨after, rfl⟩ := hright.required new hr
      rw [requiredTexts_of_texts hr]
      cases hl : left.field? "required" with
      | none =>
          rw [hl, hr, Value.mergeFields_none_left] at hfield
          rw [requiredTexts_of_none hl, requiredTexts_of_texts hfield,
            List.nil_append]
      | some old =>
          obtain ⟨before, rfl⟩ := hleft.required old hl
          rw [hl, hr, Value.mergeFields, Value.merge, ← List.map_append] at hfield
          rw [requiredTexts_of_texts hl, requiredTexts_of_texts hfield]

end Merge

end Entries
/-! ## Summaries -/

/-- A flat schema that holds what its leaves declare and require. -/
structure Summary (flat : Entries) (leaves : List Leaf) : Prop where
  proper : (Value.map flat).Proper
  plain : flat.Plain
  allOf : flat.field? "allOf" = none
  anyOf : flat.field? "anyOf" = none
  declares : (flat.field? "properties").isSome = true ↔
    ∃ leaf ∈ leaves, (leaf.schema.field? "properties").isSome = true
  names : flat.propertyNames =
    Scalar.distinct (leaves.flatMap fun leaf => leaf.schema.propertyNames)
  required : ∀ text, text ∈ flat.requiredTexts ↔ ∃ leaf ∈ leaves,
    leaf.relaxed = false ∧ text ∈ leaf.schema.requiredTexts

namespace Summary

theorem empty : Summary [] [] where
  proper := .map List.Pairwise.nil (by simp)
  plain := ⟨.inl rfl, rfl, nofun, nofun⟩
  allOf := rfl
  anyOf := rfl
  declares := by simp [Entries.field?]
  names := rfl
  required := by simp [Entries.requiredTexts, Entries.field?]

theorem leaf {raw : Entries} (hproper : (Value.map raw).Proper)
    (hplain : raw.Plain) (hall : raw.field? "allOf" = none)
    (hany : raw.field? "anyOf" = none) : Summary raw [⟨raw, false⟩] where
  proper := hproper
  plain := hplain
  allOf := hall
  anyOf := hany
  declares := by simp
  names := by
    rw [List.flatMap_singleton]
    exact (Scalar.distinct_of_apart (Entries.apart_propertyNames hproper)).symm
  required := by simp

variable {left right flat : Entries} {first second leaves : List Leaf}

theorem merge (hleft : Summary left first) (hright : Summary right second) :
    Summary (Value.mergeEntries left right) (first ++ second) where
  proper := hleft.proper.mergeEntries hright.proper
  plain := hleft.plain.merge hright.proper hright.plain
  allOf := by
    rw [Entries.field?_mergeEntries hright.proper.distinct, hleft.allOf,
      hright.allOf, Value.mergeFields_none_left]
  anyOf := by
    rw [Entries.field?_mergeEntries hright.proper.distinct, hleft.anyOf,
      hright.anyOf, Value.mergeFields_none_left]
  declares := by
    have hsome : ∀ old new : Option Value, (Value.mergeFields old new).isSome =
        (old.isSome || new.isSome) := by
      intro old new
      cases old <;> cases new <;> rfl
    rw [Entries.field?_mergeEntries hright.proper.distinct, hsome,
      Bool.or_eq_true, hleft.declares, hright.declares]
    simp only [List.mem_append, or_and_right, exists_or]
  names := by
    rw [Entries.propertyNames_mergeEntries hright.proper hleft.plain hright.plain,
      hleft.names, hright.names, Scalar.foldl_enter_distinct,
      ← Scalar.distinct_append, List.flatMap_append]
  required := by
    intro text
    rw [Entries.requiredTexts_mergeEntries hright.proper hleft.plain hright.plain,
      List.mem_append, hleft.required, hright.required]
    simp only [List.mem_append, or_and_right, exists_or]

theorem dropReference (h : Summary flat leaves) :
    Summary (flat.dropField referenceKey) leaves := by
  have hfield : ∀ name, name ≠ referenceKey →
      (flat.dropField referenceKey).field? name = flat.field? name := by
    intro name hname
    rw [Entries.field?_dropField, if_neg hname]
  constructor
  case proper => exact h.proper.dropField _
  case plain => exact h.plain.dropField _
  case allOf =>
    rw [hfield "allOf" (by decide)]
    exact h.allOf
  case anyOf =>
    rw [hfield "anyOf" (by decide)]
    exact h.anyOf
  case declares =>
    rw [hfield "properties" (by decide)]
    exact h.declares
  case names =>
    rw [← h.names]
    unfold Entries.propertyNames
    rw [hfield "properties" (by decide)]
  case required =>
    intro text
    rw [← h.required]
    unfold Entries.requiredTexts
    rw [hfield "required" (by decide)]

theorem relax (h : Summary flat leaves) :
    Summary (flat.dropField "required") (leaves.map Leaf.relax) := by
  have hfield : ∀ name, name ≠ "required" →
      (flat.dropField "required").field? name = flat.field? name := by
    intro name hname
    rw [Entries.field?_dropField, if_neg hname]
  have hnone : (flat.dropField "required").field? "required" = none := by
    rw [Entries.field?_dropField, if_pos rfl]
  constructor
  case proper => exact h.proper.dropField _
  case plain => exact h.plain.dropField _
  case allOf =>
    rw [hfield "allOf" (by decide)]
    exact h.allOf
  case anyOf =>
    rw [hfield "anyOf" (by decide)]
    exact h.anyOf
  case declares =>
    rw [hfield "properties" (by decide), h.declares]
    simp [Leaf.relax]
  case names =>
    rw [List.flatMap_map]
    change _ = Scalar.distinct (leaves.flatMap fun leaf => leaf.schema.propertyNames)
    rw [← h.names]
    unfold Entries.propertyNames
    rw [hfield "properties" (by decide)]
  case required =>
    intro text
    rw [Entries.requiredTexts_of_none hnone]
    simp [Leaf.relax]

end Summary

/-! ## Expansions -/

namespace Arena

/-- The leaves are such that their flat schema can be described. -/
def Summarised (arena : Arena) (schema : Value) (flat : Entries) : Prop :=
  ∃ leaves, Leaves arena schema leaves ∧
    ((∀ leaf ∈ leaves, leaf.schema.Plain) → Summary flat leaves)

variable {arena : Arena}

theorem partLeaves_of_forall₂ {items : List Value} {expansions : List Entries}
    (h : List.Forall₂ (Summarised arena) items expansions) :
    ∃ leaves, PartLeaves arena items leaves ∧
      ((∀ leaf ∈ leaves, leaf.schema.Plain) → ∀ start before,
        Summary start before →
          Summary (expansions.foldl Value.mergeEntries start) (before ++ leaves)) := by
  induction h with
  | nil => exact ⟨[], .nil, fun _ start before h => by simpa using h⟩
  | @cons item flat items expansions hitem _ ih =>
      obtain ⟨first, hfirst, hflat⟩ := hitem
      obtain ⟨others, hothers, hrest⟩ := ih
      refine ⟨first ++ others, .cons hfirst hothers, ?_⟩
      intro hplain start before hbefore
      rw [List.forall_mem_append] at hplain
      have hstep := hbefore.merge (hflat hplain.1)
      have hall := hrest hplain.2 _ _ hstep
      rwa [List.append_assoc] at hall

theorem partLeaves_of_overlay {items : List Value} {expansions : List Entries}
    (h : List.Forall₂ (Summarised arena) items expansions) :
    ∃ leaves, PartLeaves arena items leaves ∧
      ((∀ leaf ∈ leaves, leaf.schema.Plain) →
        Summary (overlay expansions) leaves) := by
  obtain ⟨leaves, hleaves, hfold⟩ := partLeaves_of_forall₂ h
  refine ⟨leaves, hleaves, fun hplain => ?_⟩
  exact (hfold hplain [] [] .empty).dropReference

theorem Summarised.reference {raw expanded : Entries} {target : Reference}
    {found : Value} (hexpanded : Summarised arena found expanded)
    (hproper : (Value.map raw).Proper) (hall : raw.field? "allOf" = none)
    (hany : raw.field? "anyOf" = none) (hreference : raw.reference? = some target)
    (hfind : OrderedMap.find? arena target.name = some found) :
    Summarised arena (.map raw)
      (overlay [expanded, raw.dropField referenceKey]) := by
  obtain ⟨leaves, hleaves, hsummary⟩ := hexpanded
  refine ⟨_, .reference hall hany hreference hfind hleaves, fun hplain => ?_⟩
  rw [List.forall_mem_append] at hplain
  have hbeside := hplain.2 _ (List.mem_singleton_self _)
  have hownAll : (raw.dropField referenceKey).field? "allOf" = none := by
    rw [Entries.field?_dropField, hall, ite_self]
  have hownAny : (raw.dropField referenceKey).field? "anyOf" = none := by
    rw [Entries.field?_dropField, hany, ite_self]
  have hfirst := Summary.empty.merge (hsummary hplain.1)
  have hkeys := Summary.leaf (hproper.dropField _) hbeside hownAll hownAny
  exact (hfirst.merge hkeys).dropReference

theorem expandWith_summarised {component : String → Option (Outcome Entries)}
    (hcomponent : ∀ {name : String} {expansion : Outcome Entries} {flat : Entries},
      component name = some expansion → expansion.result = .ok flat →
        ∃ schema, OrderedMap.find? arena name = some schema ∧
          Summarised arena schema flat)
    (hunknown : ∀ {name : String}, component name = none →
      OrderedMap.find? arena name = none)
    {schema : Value} {flat : Entries} (hschema : schema.Proper)
    (h : (expandWith component schema).result = .ok flat) :
    Summarised arena schema flat := by
  induction hsize : schema.size using Nat.strongRecOn generalizing schema flat with
  | ind size ih =>
      cases schema with
      | scalar s => simp [expandWith_of_not_map] at h
      | list items => simp [expandWith_of_not_map] at h
      | map raw =>
          have hparts : ∀ key ∈ compositionKeys, ∀ parts expansions,
              Entries.field? raw key = some parts →
                (expandParts component parts).result = .ok expansions →
                  ∃ items, parts.parts? = some items ∧
                    List.Forall₂ (Summarised arena) items expansions := by
            intro key hkey parts expansions hfield hexpand
            rw [expandParts_eq] at hexpand
            split at hexpand
            · rename_i items hitems
              refine ⟨items, hitems, ?_⟩
              have hpairs := (List.forall₂_and_left (p := (· ∈ items)) items
                expansions).mpr ⟨fun _ hitem => hitem, mapM_eq_ok_iff.mp hexpand⟩
              refine hpairs.imp fun item flat hpair => ?_
              obtain ⟨hitem, hflat⟩ := hpair
              have hcombines := Value.combines_of_field hkey hfield hitems hitem
              exact ih _ (hsize ▸ hcombines.size_lt)
                (Value.proper_invariant.inside hschema (.part hcombines)) hflat rfl
            · cases hexpand
          cases hall : Entries.field? raw "allOf" with
          | some parts =>
              rw [expandWith_allOf hall, map_eq_ok_iff] at h
              obtain ⟨expansions, hexpand, rfl⟩ := h
              obtain ⟨items, hitems, hsummaries⟩ := hparts "allOf"
                (by simp [compositionKeys]) _ _ hall hexpand
              obtain ⟨leaves, hleaves, hsummary⟩ := partLeaves_of_overlay hsummaries
              exact ⟨leaves, .allOf hall hitems hleaves, hsummary⟩
          | none =>
              cases hany : Entries.field? raw "anyOf" with
              | some parts =>
                  rw [expandWith_anyOf hall hany, map_eq_ok_iff] at h
                  obtain ⟨expansions, hexpand, rfl⟩ := h
                  obtain ⟨items, hitems, hsummaries⟩ := hparts "anyOf"
                    (by simp [compositionKeys]) _ _ hany hexpand
                  obtain ⟨leaves, hleaves, hsummary⟩ :=
                    partLeaves_of_overlay hsummaries
                  refine ⟨_, .anyOf hall hany hitems hleaves, fun hplain => ?_⟩
                  refine (hsummary fun leaf hleaf => ?_).relax
                  exact hplain leaf.relax (List.mem_map_of_mem hleaf)
              | none =>
                  have hown : Entries.Plain raw →
                      Summary raw [⟨raw, false⟩] := fun hplain =>
                    .leaf hschema hplain hall hany
                  cases hreference : Entries.reference? raw with
                  | none =>
                      rw [expandWith_plain hall hany hreference] at h
                      cases h
                      refine ⟨_, .plain hall hany (by simp [hreference]), ?_⟩
                      simpa using hown
                  | some target =>
                      cases hknown : component target.name with
                      | none =>
                          rw [expandWith_unknown hall hany hreference hknown] at h
                          cases h
                          refine ⟨_, .plain hall hany ?_, by simpa using hown⟩
                          rintro other hother
                          cases hreference.symm.trans hother
                          exact hunknown hknown
                      | some expansion =>
                          rw [expandWith_known hall hany hreference hknown,
                            map_eq_ok_iff] at h
                          obtain ⟨expanded, hexpand, rfl⟩ := h
                          obtain ⟨found, hfind, hfound⟩ :=
                            hcomponent hknown hexpand
                          exact hfound.reference hschema hall hany hreference hfind

theorem expandWithin_summarised (harena : ∀ entry ∈ arena, entry.2.Proper)
    {bound : ℕ} {schema : Value} {flat : Entries} (hschema : schema.Proper)
    (h : (arena.expandWithin bound schema).result = .ok flat) :
    Summarised arena schema flat := by
  induction bound generalizing schema flat with
  | zero =>
      rw [expandWithin] at h
      refine expandWith_summarised ?_ ?_ hschema h
      · intro name expansion flat hknown hflat
        obtain ⟨component, _, rfl⟩ := Option.map_eq_some_iff.mp hknown
        simp at hflat
      · exact fun hnone => Option.map_eq_none_iff.mp hnone
  | succ bound ih =>
      rw [expandWithin] at h
      refine expandWith_summarised ?_ ?_ hschema h
      · intro name expansion flat hknown hflat
        obtain ⟨component, hfind, rfl⟩ := Option.map_eq_some_iff.mp hknown
        exact ⟨component, hfind,
          ih (harena _ (OrderedMap.mem_of_find? hfind)) hflat⟩
      · exact fun hnone => Option.map_eq_none_iff.mp hnone

end Arena
end SchemaViews
