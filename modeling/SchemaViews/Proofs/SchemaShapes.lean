import SchemaViews.Proofs.ReadingParts

/-!
# The shape of schemas

A schema is well-shaped when the values under its keys have the form that they
are read in.  The shape of a schema is a condition on its entries, one by one,
so it survives every merge: entries of merged schemas are entries of the parts
or merges of two entries under one key, and each form is kept by merging.
-/

namespace SchemaViews

/-! ## Conditions on single entries -/

def Value.Shaped (F : Scalar → Value → Prop) (schema : Value) : Prop :=
  ∃ entries : Entries, schema = .map entries ∧
    ∀ entry ∈ entries, F entry.1 entry.2

def EntryShaped (F : Scalar → Value → Prop) (entry : Scalar × Value) : Prop :=
  F entry.1 entry.2 ∧ ∀ inner, Value.Holds (.map [entry]) inner →
    inner.Everywhere (Value.Shaped F)

namespace Value

variable {F : Scalar → Value → Prop}

theorem shaped_map_iff {entries : Entries} :
    (Value.map entries).Shaped F ↔ ∀ entry ∈ entries, F entry.1 entry.2 := by
  constructor
  · rintro ⟨other, hother, h⟩
    cases hother
    exact h
  · exact fun h => ⟨entries, rfl, h⟩

theorem everywhere_shaped_iff {entries : Entries} :
    (Value.map entries).Everywhere (Shaped F) ↔
      ∀ entry ∈ entries, EntryShaped F entry := by
  rw [everywhere_iff, shaped_map_iff]
  constructor
  · rintro ⟨hhere, hinside⟩ entry hentry
    refine ⟨hhere entry hentry, fun inner hinner => ?_⟩
    exact hinside inner (holds_iff_entry.mpr ⟨entry, hentry, hinner⟩)
  · intro h
    refine ⟨fun entry hentry => (h entry hentry).1, fun inner hinner => ?_⟩
    obtain ⟨entry, hentry, hheld⟩ := holds_iff_entry.mp hinner
    exact (h entry hentry).2 inner hheld

/-- A condition on entries that is kept when two values under one key are
merged. -/
def MergesIn (F : Scalar → Value → Prop) : Prop :=
  ∀ {key other : Scalar} {old new : Value}, key.sameKey other →
    F key old → F other new → F key (merge old new)

theorem shaped_mergeEntries (hF : MergesIn F) {left right : Entries}
    (hleft : (Value.map left).Shaped F) (hright : (Value.map right).Shaped F) :
    (Value.map (mergeEntries left right)).Shaped F := by
  rw [shaped_map_iff] at hleft hright ⊢
  apply forall_mem_mergeEntries hleft hright
  intro key other old new _ hsame hold hnew
  exact hF hsame hold hnew

theorem shaped_merge (hF : MergesIn F) {old new : Value}
    (hold : old.Shaped F) (hnew : new.Shaped F) : (merge old new).Shaped F := by
  obtain ⟨before, rfl, hbefore⟩ := hold
  obtain ⟨after, rfl, hafter⟩ := hnew
  rw [merge]
  exact shaped_mergeEntries hF (shaped_map_iff.mpr hbefore)
    (shaped_map_iff.mpr hafter)

theorem everywhere_shaped_mergeEntries (hF : MergesIn F)
    {left right : Entries} (hleft : (Value.map left).Everywhere (Shaped F))
    (hright : (Value.map right).Everywhere (Shaped F)) :
    (Value.map (mergeEntries left right)).Everywhere (Shaped F) := by
  apply Everywhere.mergeEntries ?_ ?_ hleft hright
  · rintro schema ⟨entries, rfl, _⟩
    exact ⟨entries, rfl⟩
  · intro before after
    exact shaped_mergeEntries hF

theorem Everywhere.setField {entries : Entries} {name : String} {v : Value}
    (h : (Value.map entries).Everywhere (Shaped F))
    (hnew : EntryShaped F (.str name, v)) :
    (Value.map (entries.setField name v)).Everywhere (Shaped F) := by
  rw [everywhere_shaped_iff] at h ⊢
  intro entry hentry
  rcases Entries.mem_setField hentry with hold | rfl
  · exact h entry hold
  · exact hnew

theorem Everywhere.dropField {entries : Entries} (name : String)
    (h : (Value.map entries).Everywhere (Shaped F)) :
    (Value.map (entries.dropField name)).Everywhere (Shaped F) := by
  rw [everywhere_shaped_iff] at h ⊢
  exact fun entry hentry => h entry (Entries.mem_of_mem_dropField hentry)

theorem Everywhere.entry {entries : Entries}
    (h : (Value.map entries).Everywhere (Shaped F)) {key : String} {v : Value}
    (hfield : entries.field? key = some v) : EntryShaped F (.str key, v) :=
  everywhere_shaped_iff.mp h _ (OrderedMap.mem_of_find? hfield)

end Value

theorem entryShaped_of_plain {F : Scalar → Value → Prop} {key : Scalar}
    {v : Value} (hshape : F key v)
    (hkey : key ∉ [Scalar.str "properties", .str "items", .str "oneOf",
      .str "allOf", .str "anyOf"]) : EntryShaped F (key, v) :=
  ⟨hshape, fun _ hinner => absurd (Value.key_of_holds_entry hinner) hkey⟩

theorem entryShaped_properties_iff {F : Scalar → Value → Prop}
    {table : Entries} :
    EntryShaped F (.str "properties", .map table) ↔
      F (.str "properties") (.map table) ∧
        ∀ entry ∈ table, entry.2.Everywhere (Value.Shaped F) := by
  refine and_congr_right fun _ => ?_
  constructor
  · intro h entry hentry
    exact h entry.2 (.property (by simp) hentry)
  · intro h inner hinner
    obtain ⟨name, hmem⟩ := Value.holds_properties hinner
    exact h _ hmem

/-! ## The form of each field -/

/-- A list of texts. -/
def Value.Texts (v : Value) : Prop :=
  ∃ texts : List String, v = .list (texts.map Value.str)

/-- A type that says what kind of schema this is: one known kind, or some
known kinds and null. -/
def Value.Recognised (type : Value) : Prop :=
  (∃ kind ∈ knownKinds, type = .str kind) ∨
    ∃ kinds : List String, type = .list (kinds.map Value.str) ∧
      (∀ kind ∈ kinds, kind ∈ knownKinds ∨ kind = "null") ∧
      ∃ kind ∈ kinds, kind ≠ "null"

def TextEntry (key : Scalar) (v : Value) : Prop :=
  (∃ name, key = .str name) ∧ ∃ target, v = .str target

/-- The form of the property and of the mapping of a discriminator. -/
structure DiscriminatorField (key : Scalar) (v : Value) : Prop where
  property : key = .str "propertyName" → ∃ name, v = .str name
  mapping : key = .str "mapping" → v = .null ∨ v.Shaped TextEntry

/-- The form of the value under a key.  Reference markers have to be `known`;
types have to be recognised if that is asked for. -/
structure FieldShape (known : String → Prop) (strict : Prop) (key : Scalar)
    (v : Value) : Prop where
  properties : key = .str "properties" → ∃ table : Entries, v = .map table ∧
    ∀ entry ∈ table, ∃ name, entry.1 = .str name
  composition : ∀ name ∈ compositionKeys, key = .str name → ∃ items, v = .list items
  required : key = .str "required" → v.Texts
  enum : key = .str "enum" → ∃ values, v = .list values
  type : key = .str "type" → (∃ kind, v = .str kind) ∨ v.Texts
  recognised : strict → key = .str "type" → v.Recognised
  discriminator : key = .str "discriminator" → v.Shaped DiscriminatorField
  reference : key = .str referenceKey → ∀ target, v = .ref target → known target.name

/-- A schema that is well-shaped at every schema position. -/
def Value.WellShaped (known : String → Prop) (strict : Prop) : Value → Prop :=
  Value.Everywhere (Value.Shaped (FieldShape known strict))

/-! ## Forms of merged values -/

namespace Value

theorem Texts.merge {old new : Value} (hold : old.Texts) (hnew : new.Texts) :
    (merge old new).Texts := by
  obtain ⟨before, rfl⟩ := hold
  obtain ⟨after, rfl⟩ := hnew
  refine ⟨before ++ after, ?_⟩
  rw [Value.merge, List.map_append]

theorem Recognised.merge {old new : Value} (hold : old.Recognised)
    (hnew : new.Recognised) : (merge old new).Recognised := by
  rcases hnew with ⟨kind, hkind, rfl⟩ | ⟨after, rfl, hafter, hsome⟩
  · rw [merge_scalar]
    exact .inl ⟨kind, hkind, rfl⟩
  · rcases hold with ⟨kind, _, rfl⟩ | ⟨before, rfl, hbefore, _⟩
    · exact .inr ⟨after, rfl, hafter, hsome⟩
    · refine .inr ⟨before ++ after, ?_, ?_, ?_⟩
      · rw [Value.merge, List.map_append]
      · intro kind hkind
        rcases List.mem_append.mp hkind with hkind | hkind
        · exact hbefore kind hkind
        · exact hafter kind hkind
      · obtain ⟨kind, hkind, hne⟩ := hsome
        exact ⟨kind, List.mem_append_right _ hkind, hne⟩

end Value

theorem TextEntry.merge : Value.MergesIn TextEntry := by
  intro key other old new _ hold hnew
  obtain ⟨target, rfl⟩ := hnew.2
  exact ⟨hold.1, target, Value.merge_scalar old _⟩

theorem DiscriminatorField.merge : Value.MergesIn DiscriminatorField := by
  intro key other old new hsame hold hnew
  constructor
  case property =>
    rintro rfl
    rw [Scalar.sameKey_comm, Scalar.sameKey_str] at hsame
    obtain ⟨name, rfl⟩ := hnew.property hsame
    exact ⟨name, Value.merge_scalar old _⟩
  case mapping =>
    rintro rfl
    rw [Scalar.sameKey_comm, Scalar.sameKey_str] at hsame
    rcases hnew.mapping hsame with rfl | hafter
    · exact .inl (Value.merge_scalar old _)
    · rcases hold.mapping rfl with rfl | hbefore
      · obtain ⟨table, rfl, htable⟩ := hafter
        exact .inr ⟨table, by simp [Value.merge], htable⟩
      · exact .inr (Value.shaped_merge TextEntry.merge hbefore hafter)

theorem FieldShape.merge {known : String → Prop} {strict : Prop} :
    Value.MergesIn (FieldShape known strict) := by
  intro key other old new hsame hold hnew
  have hother : ∀ name, key = .str name → other = .str name := by
    rintro name rfl
    rwa [Scalar.sameKey_comm, Scalar.sameKey_str] at hsame
  constructor
  case properties =>
    intro hkey
    obtain ⟨before, rfl, hbefore⟩ := hold.properties hkey
    obtain ⟨after, rfl, hafter⟩ := hnew.properties (hother _ hkey)
    refine ⟨Value.mergeEntries before after, by rw [Value.merge], ?_⟩
    apply Value.forall_mem_mergeEntries
      (Q := fun key _ => ∃ name, key = .str name) hbefore hafter
    intro _ _ _ _ _ _ hname _
    exact hname
  case composition =>
    intro name hname hkey
    obtain ⟨before, rfl⟩ := hold.composition name hname hkey
    obtain ⟨after, rfl⟩ := hnew.composition name hname (hother _ hkey)
    exact ⟨before ++ after, by rw [Value.merge]⟩
  case required =>
    intro hkey
    exact (hold.required hkey).merge (hnew.required (hother _ hkey))
  case enum =>
    intro hkey
    obtain ⟨before, rfl⟩ := hold.enum hkey
    obtain ⟨after, rfl⟩ := hnew.enum (hother _ hkey)
    exact ⟨before ++ after, by rw [Value.merge]⟩
  case type =>
    intro hkey
    rcases hnew.type (hother _ hkey) with ⟨kind, rfl⟩ | hafter
    · exact .inl ⟨kind, Value.merge_scalar old _⟩
    · rcases hold.type hkey with ⟨kind, rfl⟩ | hbefore
      · obtain ⟨texts, rfl⟩ := hafter
        exact .inr ⟨texts, by rw [Value.merge]; simp⟩
      · exact .inr (hbefore.merge hafter)
  case recognised =>
    intro hstrict hkey
    exact (hold.recognised hstrict hkey).merge
      (hnew.recognised hstrict (hother _ hkey))
  case discriminator =>
    intro hkey
    exact Value.shaped_merge DiscriminatorField.merge (hold.discriminator hkey)
      (hnew.discriminator (hother _ hkey))
  case reference =>
    intro hkey target htarget
    exact hnew.reference (hother _ hkey) target (Value.merge_eq_scalar htarget)

/-! ## Well-shaped schemas -/

section WellShaped

variable {known : String → Prop} {strict : Prop}

theorem fieldShape_type_iff {v : Value} :
    FieldShape known strict (.str "type") v ↔
      ((∃ kind, v = .str kind) ∨ v.Texts) ∧ (strict → v.Recognised) := by
  constructor
  · intro h
    exact ⟨h.type rfl, fun hstrict => h.recognised hstrict rfl⟩
  · rintro ⟨htype, hrecognised⟩
    constructor
    case type => exact fun _ => htype
    case recognised => exact fun hstrict _ => hrecognised hstrict
    case composition => simp [compositionKeys]
    all_goals simp [referenceKey]

theorem fieldShape_properties_iff {v : Value} :
    FieldShape known strict (.str "properties") v ↔
      ∃ table : Entries, v = .map table ∧
        ∀ entry ∈ table, ∃ name, entry.1 = .str name := by
  constructor
  · exact fun h => h.properties rfl
  · intro h
    constructor
    case properties => exact fun _ => h
    case composition => simp [compositionKeys]
    all_goals simp [referenceKey]

theorem fieldShape_kind {types : List Value} {kind : Value}
    (h : FieldShape known strict (.str "type") (.list types))
    (hkind : kind ∈ kindsOf types) :
    (∃ text, kind = .str text) ∧ FieldShape known strict (.str "type") kind := by
  rw [fieldShape_type_iff] at h ⊢
  obtain ⟨hmem, hnotNull⟩ := List.mem_filter.mp hkind
  have htexts : (Value.list types).Texts := by
    rcases h.1 with ⟨text, htext⟩ | htexts
    · cases htext
    · exact htexts
  obtain ⟨texts, htexts⟩ := htexts
  rw [Value.list.inj htexts] at hmem
  obtain ⟨text, _, rfl⟩ := List.mem_map.mp hmem
  refine ⟨⟨text, rfl⟩, .inl ⟨text, rfl⟩, fun hstrict => .inl ⟨text, ?_, rfl⟩⟩
  rcases h.2 hstrict with ⟨other, _, hother⟩ | ⟨kinds, hkinds, hknown, _⟩
  · cases hother
  · rw [← Value.list.inj htexts, Value.list.inj hkinds] at hmem
    obtain ⟨known, hknownMem, heq⟩ := List.mem_map.mp hmem
    cases heq
    rcases hknown text hknownMem with hkind | rfl
    · exact hkind
    · simp [nullKind] at hnotNull

theorem fieldShape_soleKind {types : List Value} (nullable : Bool)
    (h : FieldShape known strict (.str "type") (.list types)) :
    FieldShape known strict (.str "type") (soleKind nullable (.list types)).2 := by
  rw [soleKind]
  split
  · rename_i kind hkind
    have hmem : kind ∈ kindsOf types := by simp [hkind]
    obtain ⟨⟨text, rfl⟩, hshape⟩ := fieldShape_kind h hmem
    rw [soleKind]
    · exact hshape
    · simp
  · exact h

theorem wellShaped_of_kind {kind : Value}
    (h : FieldShape known strict (.str "type") kind) :
    (Value.map [(.str "type", kind)]).WellShaped known strict := by
  apply Value.everywhere_shaped_iff.mpr
  intro entry hentry
  rw [List.mem_singleton.mp hentry]
  exact entryShaped_of_plain h (by simp)

theorem wellShaped_tagObject (name : String) (tag : Scalar) :
    (Discriminator.tagObject (.str name) tag).WellShaped known strict := by
  have hstring : FieldShape known strict (.str "type") (.str "string") :=
    fieldShape_type_iff.mpr ⟨.inl ⟨_, rfl⟩, fun _ =>
      .inl ⟨_, by simp [knownKinds, scalarKinds], rfl⟩⟩
  have hobject : FieldShape known strict (.str "type") (.str "object") :=
    fieldShape_type_iff.mpr ⟨.inl ⟨_, rfl⟩, fun _ =>
      .inl ⟨_, by simp [knownKinds, scalarKinds], rfl⟩⟩
  have henum : FieldShape known strict (.str "enum") (.list [.scalar tag]) := by
    constructor
    case enum => exact fun _ => ⟨_, rfl⟩
    case composition => simp [compositionKeys]
    all_goals simp [referenceKey]
  have hrequired : FieldShape known strict (.str "required")
      (.list [.scalar (.str name)]) := by
    constructor
    case required => exact fun _ => ⟨[name], rfl⟩
    case composition => simp [compositionKeys]
    all_goals simp [referenceKey]
  have hproperties : FieldShape known strict (.str "properties")
      (.map [(.str name, Discriminator.tagSchema tag)]) :=
    fieldShape_properties_iff.mpr ⟨_, rfl, by simp⟩
  have htagSchema : (Discriminator.tagSchema tag).WellShaped known strict := by
    apply Value.everywhere_shaped_iff.mpr
    simpa using ⟨entryShaped_of_plain hstring (by simp),
      entryShaped_of_plain henum (by simp)⟩
  apply Value.everywhere_shaped_iff.mpr
  have hproperty : EntryShaped (FieldShape known strict)
      (.str "properties", .map [(.str name, Discriminator.tagSchema tag)]) := by
    refine entryShaped_properties_iff.mpr ⟨hproperties, fun entry hentry => ?_⟩
    rw [List.mem_singleton.mp hentry]
    exact htagSchema
  simpa using ⟨entryShaped_of_plain hobject (by simp), hproperty,
    entryShaped_of_plain hrequired (by simp)⟩

theorem wellShaped_retag {flat : Entries} {name tag : Scalar}
    (hflat : (Value.map flat).WellShaped known strict)
    (htag : (Discriminator.tagObject name tag).WellShaped known strict) :
    (Value.map (Discriminator.retag flat name tag)).WellShaped known strict := by
  have htagEntry := entryShaped_properties_iff.mp
    (Value.everywhere_shaped_iff.mp htag
      (.str "properties", .map [(name, Discriminator.tagSchema tag)]) (by simp))
  have hname : ∃ text, name = .str text := by
    obtain ⟨table, htable, htexts⟩ := fieldShape_properties_iff.mp htagEntry.1
    cases htable
    exact htexts _ (List.mem_singleton_self _)
  have htagSchema := htagEntry.2 _ (List.mem_singleton_self _)
  have htable : ∀ entry ∈ ((flat.fieldOrNull "properties").entries?).getD [],
      (∃ text, entry.1 = .str text) ∧ entry.2.WellShaped known strict := by
    intro entry hentry
    obtain ⟨table, hfield, hmem⟩ := Discriminator.mem_propertyTable hentry
    have hproperties := entryShaped_properties_iff.mp (hflat.entry hfield)
    obtain ⟨_, htable, htexts⟩ := fieldShape_properties_iff.mp hproperties.1
    cases htable
    exact ⟨htexts entry hmem, hproperties.2 entry hmem⟩
  have hinserted : ∀ entry ∈ ScalarMap.insert
      (((flat.fieldOrNull "properties").entries?).getD []) name
        (Discriminator.tagSchema tag),
      (∃ text, entry.1 = .str text) ∧ entry.2.WellShaped known strict := by
    obtain ⟨text, rfl⟩ := hname
    intro entry hentry
    rw [ScalarMap.insert, ScalarMap.update_str] at hentry
    rcases OrderedMap.mem_insert hentry with hold | rfl
    · exact htable entry hold
    · exact ⟨⟨text, rfl⟩, htagSchema⟩
  apply Value.Everywhere.setField hflat
  apply entryShaped_properties_iff.mpr
  constructor
  · have hnames := fun entry hentry => (hinserted entry hentry).1
    exact fieldShape_properties_iff.mpr ⟨_, rfl, hnames⟩
  · exact fun entry hentry => (hinserted entry hentry).2

theorem wellShaped_invariant :
    SchemaInvariant (Value.WellShaped known strict) where
  empty := Value.everywhere_shaped_iff.mpr (by simp)
  inside := Value.Everywhere.inside
  merge := Value.everywhere_shaped_mergeEntries FieldShape.merge
  drop := Value.Everywhere.dropField
  settle := by
    intro entries h
    rcases Fragment.settle_eq_or entries with hsame |
      ⟨types, kind, nullable, htypes, hsettle, rfl⟩
    · rwa [hsame]
    · have hkind := fieldShape_soleKind (entries.isTrue "nullable")
        (h.entry htypes).1
      rw [hsettle]
      apply Value.Everywhere.setField
      · exact h.setField (entryShaped_of_plain hkind (by simp))
      · refine entryShaped_of_plain ?_ (by simp)
        constructor
        case composition => simp [compositionKeys]
        all_goals simp [referenceKey]
  kind := by
    intro entries types kind h htypes hkind
    exact wellShaped_of_kind (fieldShape_kind (h.entry htypes).1 hkind).2
  retag := wellShaped_retag

end WellShaped

end SchemaViews
