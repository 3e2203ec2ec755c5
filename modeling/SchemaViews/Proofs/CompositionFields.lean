import SchemaViews.Proofs.LeafSummaries
import SchemaViews.Proofs.MergedFragments
import SchemaViews.Proofs.OverlayLaws
import SchemaViews.Proofs.WellShapedReading

/-!
# The fields of a composition

A composition of plain leaves resolves to an object.  Its fields are the
properties of the leaves in the order in which they first come, without those
that the view hides, and a field is mandatory when a leaf that is not relaxed
requires it.
-/

namespace SchemaViews

def TypeExpr.bare : TypeExpr → TypeExpr
  | .nullable inner => inner.bare
  | type => type

/-- The definition of a property in a flat schema. -/
def Entries.property? (flat : Entries) (name : Scalar) : Option Value :=
  match flat.field? "properties" with
  | some (.map table) => OrderedMap.find? table name
  | _ => none

/-- Whether a property of a flat schema is hidden for its definition there. -/
def Scope.hides (s : Scope) (flat : Entries) (name : Scalar) : Bool :=
  match flat.property? name with
  | none => false
  | some definition =>
    match Fragment.read definition with
    | .error _ => false
    | .ok property =>
      match (s.resolveProperty name false property).result with
      | .ok none => true
      | _ => false

/-! ## The parts as they are read -/

namespace Arena

variable {arena : Arena}

theorem expandWith_settle {component : String → Option (Outcome Entries)}
    {schema : Entries} (hreference : schema.reference? = none) :
    (expandWith component (.map (settle schema))).result =
        (expandWith component (.map schema)).result ∨
      ((expandWith component (.map schema)).result = .ok schema ∧
        schema.field? "allOf" = none ∧ schema.field? "anyOf" = none ∧
          ∃ types, schema.field? "type" = some (.list types)) := by
  rcases Fragment.settle_eq_or schema with hsame | ⟨types, _, _, htypes, _⟩
  · rw [hsame]
    exact .inl rfl
  · have hsettled : ∀ name, name ≠ "type" → name ≠ "nullable" →
        (settle schema).field? name = schema.field? name := fun _ =>
      Fragment.field?_settle schema
    cases hall : schema.field? "allOf" with
    | some parts =>
        left
        rw [expandWith_allOf hall, expandWith_allOf
          ((hsettled "allOf" (by decide) (by decide)).trans hall)]
    | none =>
        have hsettledAll := (hsettled "allOf" (by decide) (by decide)).trans hall
        cases hany : schema.field? "anyOf" with
        | some parts =>
            left
            rw [expandWith_anyOf hall hany, expandWith_anyOf hsettledAll
              ((hsettled "anyOf" (by decide) (by decide)).trans hany)]
        | none =>
            right
            exact ⟨expandWith_plain hall hany hreference, rfl, rfl, types, htypes⟩

/-- The expansion of a part as it is read is that of the part itself, unless
the part is a leaf that is not plain. -/
theorem expand_of_read {item : Value} {part : Fragment} {flat : Entries}
    (hread : Fragment.read item = .ok part)
    (h : (arena.expand part.rawValue).result = .ok flat) :
    ∃ expansion, (arena.expand item).result = .ok expansion ∧
      ∀ leaves, Leaves arena item leaves →
        (∀ leaf ∈ leaves, leaf.schema.Plain) → flat = expansion := by
  obtain ⟨schema, rfl, hreading⟩ := Fragment.reading_of_read hread
  obtain ⟨component, hwith⟩ := arena.expand_eq_expandWith
  rw [hwith] at h ⊢
  by_cases hreference : Entries.reference? schema = none
  · have hraw : part.rawValue = .map (settle schema) := by
      rcases Fragment.raw_of_reading hreading with hraw | ⟨_, hne⟩
      · exact congrArg Value.map hraw
      · exact absurd hreference hne
    rw [hraw] at h
    rcases expandWith_settle hreference with hsame | ⟨hplain, hall, hany, types, htypes⟩
    · rw [hsame] at h
      exact ⟨flat, h, fun _ _ _ => rfl⟩
    · refine ⟨schema, hplain, fun leaves hleaves hplainLeaves => ?_⟩
      have hown : Leaves arena (.map schema) [⟨schema, false⟩] :=
        .plain hall hany (by simp [hreference])
      rw [hown.unique hleaves] at hplainLeaves
      have hleaf := hplainLeaves _ (List.mem_singleton_self _)
      rcases hleaf.type with hnone | hobject
      · simp [hnone] at htypes
      · simp [hobject] at htypes
  · have hraw : part.rawValue = .map schema := by
      unfold Fragment.rawValue
      cases hreading with
      | reference => rfl
      | onlyNull hnone | kinds hnone | scalar hnone | choice hnone | object hnone
      | emptyObject hnone | freeObject hnone | array hnone | freeArray hnone
      | oneOf hnone | allOf hnone | anyOf hnone | unknown hnone =>
          exact absurd hnone hreference
    rw [hraw] at h
    exact ⟨flat, h, fun _ _ _ => rfl⟩

theorem merge_of_read {items : List Value} {parts : List Fragment}
    {expansions : List Entries}
    (hread : List.Forall₂ (fun item part => Fragment.read item = .ok part)
      items parts)
    (h : List.Forall₂ (fun part flat =>
      (arena.expand (Fragment.rawValue part)).result = .ok flat) parts expansions) :
    ∃ others, List.Forall₂ (fun item flat =>
        (arena.expand item).result = .ok flat) items others ∧
      ∀ leaves, PartLeaves arena items leaves →
        (∀ leaf ∈ leaves, leaf.schema.Plain) → expansions = others := by
  induction hread generalizing expansions with
  | nil =>
      cases h
      exact ⟨[], .nil, fun _ _ _ => rfl⟩
  | cons hitem _ ih =>
      cases h with
      | cons hflat hrest =>
          obtain ⟨expansion, hexpansion, hfirst⟩ := expand_of_read hitem hflat
          obtain ⟨others, hothers, hsame⟩ := ih hrest
          refine ⟨expansion :: others, .cons hexpansion hothers, ?_⟩
          intro leaves hleaves hplain
          cases hleaves with
          | cons hfirstLeaves hrestLeaves =>
              rw [List.forall_mem_append] at hplain
              rw [hfirst _ hfirstLeaves hplain.1, hsame _ hrestLeaves hplain.2]

theorem summary_of_parts (harena : ∀ entry ∈ arena, entry.2.Proper)
    {items : List Value} {parts : List Fragment} {flat : Entries}
    (hitems : ∀ item ∈ items, item.Proper)
    (hread : List.Forall₂ (fun item part => Fragment.read item = .ok part)
      items parts)
    (h : (arena.merge (parts.map Fragment.rawValue)).result = .ok flat) :
    ∃ merged leaves, (arena.merge items).result = .ok merged ∧
      PartLeaves arena items leaves ∧ flat.reference? = none ∧
        ((∀ leaf ∈ leaves, leaf.schema.Plain) →
          flat = merged ∧ Summary flat leaves) := by
  rw [merge_eq, map_eq_ok_iff] at h
  obtain ⟨expansions, hexpansions, rfl⟩ := h
  rw [mapM_eq_ok_iff, List.forall₂_map_left_iff] at hexpansions
  obtain ⟨others, hothers, hsame⟩ := merge_of_read hread hexpansions
  have hpairs := (List.forall₂_and_left items others).mpr ⟨hitems, hothers⟩
  have hsummaries : List.Forall₂ (Summarised arena) items others :=
    hpairs.imp fun item flat hpair => expandWithin_summarised harena hpair.1 hpair.2
  obtain ⟨leaves, hleaves, hsummary⟩ := partLeaves_of_overlay hsummaries
  refine ⟨overlay others, leaves, ?_, hleaves, reference?_overlay expansions, ?_⟩
  · rw [merge_eq, map_eq_ok_iff]
    exact ⟨others, mapM_eq_ok_iff.mpr hothers, rfl⟩
  · intro hplain
    rw [hsame leaves hleaves hplain]
    exact ⟨rfl, hsummary hplain⟩

end Arena

/-! ## The merged schema as it is read -/

theorem Entries.Plain.requires_iff {flat : Entries} (h : flat.Plain)
    {required : List Scalar}
    (hrequired : requiredNames (flat.fieldOrNull "required") = .ok required)
    (name : Scalar) : required.any name.sameKey = true ↔
      ∃ text ∈ flat.requiredTexts, name = .str text := by
  unfold Entries.fieldOrNull at hrequired
  cases hfield : flat.field? "required" with
  | none =>
      rw [hfield] at hrequired
      cases hrequired
      rw [Entries.requiredTexts_of_none hfield]
      simp
  | some v =>
      obtain ⟨texts, rfl⟩ := h.required v hfield
      rw [hfield, Option.getD_some, requiredNames_texts] at hrequired
      cases hrequired
      rw [Entries.requiredTexts_of_texts hfield, Scalar.any_distinct_texts,
        decide_eq_true_iff]
      simp only [List.mem_map, eq_comm]

theorem Fragment.Reading.object_of_summary {flat : Entries} {leaves : List Leaf}
    {whole : Fragment} (h : Summary flat leaves)
    (hreference : flat.reference? = none)
    (hdeclares : ∃ leaf ∈ leaves, (leaf.schema.field? "properties").isSome = true)
    (hreading : Fragment.Reading flat whole) :
    ∃ (table : Entries) (fragments : List (Scalar × Fragment))
      (required : List Scalar) (notes : Annotations),
      whole = .object notes fragments required ∧
        flat.field? "properties" = some (.map table) ∧
        List.Forall₂ (fun entry fragment => fragment.1 = entry.1 ∧
          Fragment.read entry.2 = .ok fragment.2) table fragments ∧
        requiredNames (flat.fieldOrNull "required") = .ok required := by
  have hsettle : settle flat = flat := by
    unfold settle
    rcases h.plain.type with htype | htype <;> rw [htype]
  obtain ⟨v, hv⟩ := Option.isSome_iff_exists.mp (h.declares.mpr hdeclares)
  obtain ⟨table, rfl⟩ := h.plain.properties v hv
  -- so the only kind that the type can name is an object
  have hobject : ∀ type, (settle flat).field? "type" = some type →
      type = .str "object" := by
    intro type htype
    rw [hsettle] at htype
    rcases h.plain.type with hnone | hobject
    · simp [hnone] at htype
    · exact Option.some.inj (htype.symm.trans hobject)
  cases hreading with
  | reference hsome => simp [hreference] at hsome
  | object _ _ hproperties hpairs hrequired =>
      cases hv.symm.trans hproperties
      exact ⟨table, _, _, _, rfl, hv, hpairs, hrequired⟩
  | emptyObject _ _ hproperties hnot =>
      cases hv.symm.trans hproperties
      exact absurd rfl (hnot table)
  | freeObject _ _ hnone => simp [hv] at hnone
  | oneOf _ _ hone => simp [h.plain.oneOf] at hone
  | allOf _ _ _ hall => simp [h.allOf] at hall
  | anyOf _ _ _ _ hany => simp [h.anyOf] at hany
  | scalar _ hkind htype =>
      cases hobject _ htype
      simp [scalarKinds] at hkind
  | choice _ htype | onlyNull _ _ htype | kinds _ _ htype | array _ htype
  | freeArray _ htype => exact absurd (hobject _ htype) (by simp)
  | unknown _ hopen htype =>
      rw [hobject _ htype] at htype
      exact absurd htype (hopen.2 "object" (by simp [knownKinds]))

/-! ## Fields -/

namespace Scope

variable {s : Scope} {again : Fragment → Outcome TypeExpr}

theorem hides_iff {flat : Entries} {name : Scalar} {definition : Value}
    {property : Fragment} {required : Bool} {type : Unit → Outcome TypeExpr}
    {field : Option (Field TypeExpr)}
    (hdefinition : flat.property? name = some definition)
    (hread : Fragment.read definition = .ok property)
    (hfield : (s.field again name required property type).result = .ok field) :
    s.hides flat name = true ↔ field = none := by
  obtain ⟨shown, hshown, hcases⟩ := field_eq_ok_iff.mp hfield
  have hhides : s.hides flat name = true ↔
      (s.resolveProperty name false property).result = .ok none := by
    unfold hides
    rw [hdefinition]
    dsimp only
    rw [hread]
    dsimp only
    split
    · rename_i hnone
      simp [hnone]
    · rename_i hnone
      simpa using hnone
  rw [hhides]
  unfold resolveProperty
  rw [field_eq_ok_iff]
  constructor
  · rintro ⟨other, hother, ⟨hhidden, _⟩ | ⟨_, _, _, hsome⟩⟩
    · cases hshown.symm.trans hother
      rcases hcases with ⟨_, hnone⟩ | ⟨hvisible, _⟩
      · exact hnone
      · simp [hhidden] at hvisible
    · cases hsome
  · rintro rfl
    rcases hcases with ⟨hhidden, _⟩ | ⟨_, _, _, hsome⟩
    · exact ⟨shown, hshown, .inl ⟨hhidden, rfl⟩⟩
    · cases hsome

theorem fields_of_mapM {required : List Scalar} {flat table : Entries}
    {fragments : List (Scalar × Fragment)} {fields : List (Option (Field TypeExpr))}
    (htable : ∀ entry ∈ table, flat.property? entry.1 = some entry.2)
    (hread : List.Forall₂ (fun entry fragment => fragment.1 = entry.1 ∧
      Fragment.read entry.2 = .ok fragment.2) table fragments)
    (hfields : List.Forall₂ (fun fragment field =>
      (s.field again fragment.1 (required.any fragment.1.sameKey) fragment.2
        fun _ => s.resolveWith again fragment.2).result = .ok field)
      fragments fields) :
    (fields.flatMap Option.toList).map Field.name =
        (OrderedMap.keys table).filter (fun name => !s.hides flat name) ∧
      ∀ field ∈ fields.flatMap Option.toList,
        (field.optional = false ↔ required.any field.name.sameKey = true) := by
  induction hread generalizing fields with
  | nil =>
      cases hfields
      exact ⟨rfl, by simp⟩
  | @cons entry fragment table fragments hentry _ ih =>
      cases hfields with
      | @cons _ field _ rest hfield hrest =>
          obtain ⟨name, property⟩ := fragment
          obtain ⟨rfl, hproperty⟩ := hentry
          rw [List.forall_mem_cons] at htable
          obtain ⟨hnames, hoptional⟩ := ih htable.2 hrest
          have hhides := hides_iff htable.1 hproperty hfield
          have hkeys : OrderedMap.keys (entry :: table) =
              entry.1 :: OrderedMap.keys table := rfl
          rw [hkeys, List.flatMap_cons, List.map_append, hnames]
          cases field with
          | none =>
              rw [List.filter_cons_of_neg (by simpa using hhides.mpr rfl)]
              exact ⟨rfl, hoptional⟩
          | some f =>
              have hvisible : s.hides flat entry.1 = false := by
                rw [← Bool.not_eq_true, hhides]
                simp
              obtain ⟨shown, _, ⟨_, hnone⟩ | ⟨_, t, _, hf⟩⟩ :=
                field_eq_ok_iff.mp hfield
              · cases hnone
              · cases hf
                rw [List.filter_cons_of_pos (by simpa using hvisible)]
                refine ⟨rfl, ?_⟩
                simp only [Option.toList_some, List.singleton_append,
                  List.forall_mem_cons]
                exact ⟨by simp, hoptional⟩

theorem hides_dropField (s : Scope) (flat : Entries) {key : String}
    (hkey : key ≠ "properties") (name : Scalar) :
    s.hides (flat.dropField key) name = s.hides flat name := by
  have hproperty : (flat.dropField key).property? name = flat.property? name := by
    unfold Entries.property?
    rw [Entries.field?_dropField, if_neg (Ne.symm hkey)]
  unfold hides
  rw [hproperty]

/-- What the type of a composition says about its leaves. -/
def DescribesLeaves (s : Scope) (leaves : List Leaf) (flat : Entries)
    (t : TypeExpr) : Prop :=
  ∃ fields, t.bare = .struct fields ∧
    fields.map Field.name =
      (Scalar.distinct (leaves.flatMap fun leaf =>
        leaf.schema.propertyNames)).filter (fun name => !s.hides flat name) ∧
    ∀ field ∈ fields, (field.optional = false ↔ ∃ leaf ∈ leaves,
      leaf.relaxed = false ∧
        ∃ text ∈ leaf.schema.requiredTexts, field.name = .str text)

theorem bare_qualify (notes : Annotations) (t : TypeExpr) :
    (notes.qualify t).bare = t.bare := by
  unfold Annotations.qualify
  split
  · rfl
  · rfl

theorem describes_of_summary {flat : Entries} {leaves : List Leaf}
    (h : Summary flat leaves) (hreference : flat.reference? = none)
    (hdeclares : ∃ leaf ∈ leaves, (leaf.schema.field? "properties").isSome = true)
    {whole : Fragment} (hread : Fragment.read (.map flat) = .ok whole)
    {bound : ℕ} {t : TypeExpr}
    (ht : (s.resolveWithin bound whole).result = .ok t) :
    s.DescribesLeaves leaves flat t := by
  obtain ⟨_, hflat, hreading⟩ := Fragment.reading_of_read hread
  cases hflat
  obtain ⟨table, fragments, required, notes, rfl, htable, hpairs, hrequired⟩ :=
    hreading.object_of_summary h hreference hdeclares
  obtain ⟨again, hwith, _⟩ := s.resolveWithin_eq_resolveWith bound
  rw [hwith, resolveWith_object] at ht
  obtain ⟨found, hfound, rfl⟩ := map_eq_ok_iff.mp ht
  have hdefinitions : ∀ entry ∈ table, flat.property? entry.1 = some entry.2 := by
    intro entry hentry
    unfold Entries.property?
    rw [htable]
    exact OrderedMap.find?_of_mem (h.proper.field htable).distinct hentry
  obtain ⟨hnames, hoptional⟩ :=
    fields_of_mapM hdefinitions hpairs (mapM_eq_ok_iff.mp hfound)
  refine ⟨found.flatMap Option.toList, bare_qualify notes _, ?_, ?_⟩
  · rw [hnames, ← Entries.propertyNames_of_map htable, h.names]
  · intro field hfield
    rw [hoptional field hfield, h.plain.requires_iff hrequired]
    constructor
    · rintro ⟨text, htext, hname⟩
      obtain ⟨leaf, hleaf, hstrict, hmem⟩ := (h.required text).mp htext
      exact ⟨leaf, hleaf, hstrict, text, hmem, hname⟩
    · rintro ⟨leaf, hleaf, hstrict, text, hmem, hname⟩
      exact ⟨text, (h.required text).mpr ⟨leaf, hleaf, hstrict, hmem⟩, hname⟩

end Scope

/-! ## Compositions -/

/-- The parts of a composition without a type, alternatives or a reference. -/
def Entries.Composes (schema : Entries) (items : List Value) : Prop :=
  schema.field? "type" = none ∧ schema.field? "oneOf" = none ∧
    schema.reference? = none ∧
      (schema.field? "allOf" = some (.list items) ∨
        (schema.field? "allOf" = none ∧
          schema.field? "anyOf" = some (.list items)))

theorem Fragment.Reading.of_composes {schema : Entries} {items : List Value}
    {fragment : Fragment} (hcomposes : schema.Composes items)
    (h : Fragment.Reading schema fragment) :
    ∃ notes parts, List.Forall₂ (fun item part => Fragment.read item = .ok part)
      items parts ∧
        ((schema.field? "allOf" = some (.list items) ∧
            fragment = .allOf notes parts) ∨
          (schema.field? "allOf" = none ∧
            schema.field? "anyOf" = some (.list items) ∧
              fragment = .anyOf notes parts)) := by
  obtain ⟨htype, hone, hreference, hparts⟩ := hcomposes
  have hnoType : (settle schema).field? "type" = none := by
    unfold settle
    rw [htype]
    exact htype
  have hnotObject : ¬ ObjectKind schema := by
    rintro (hobject | ⟨_, hnone⟩)
    · simp [hnoType] at hobject
    · have hall := hnone "allOf" (by simp [compositionKeys])
      have hany := hnone "anyOf" (by simp [compositionKeys])
      rcases hparts with hsome | ⟨_, hsome⟩
      · simp [hall] at hsome
      · simp [hany] at hsome
  cases h with
  | reference hsome => simp [hreference] at hsome
  | scalar _ _ hkind | choice _ hkind | onlyNull _ _ hkind | kinds _ _ hkind
  | array _ hkind | freeArray _ hkind | unknown _ _ hkind =>
      simp [hnoType] at hkind
  | object _ hobject | emptyObject _ hobject | freeObject _ hobject =>
      exact absurd hobject hnotObject
  | oneOf _ _ hsome => simp [hone] at hsome
  | allOf _ _ _ hall hsequence =>
      rcases hparts with hsome | ⟨hnone, _⟩
      · obtain ⟨found, hfound, hread⟩ := hsequence
        cases hall.symm.trans hsome
        cases hfound
        exact ⟨_, _, hread, .inl ⟨hall, rfl⟩⟩
      · simp [hnone] at hall
  | anyOf _ _ _ hall hany hsequence =>
      rcases hparts with hsome | ⟨_, hsome⟩
      · simp [hall] at hsome
      · obtain ⟨found, hfound, hread⟩ := hsequence
        cases hany.symm.trans hsome
        cases hfound
        exact ⟨_, _, hread, .inr ⟨hall, hany, rfl⟩⟩

theorem Scope.merged_of_resolveWithin {s : Scope} {fragment : Fragment}
    {notes : Annotations} {parts : List Fragment} {keep : Entries → Entries}
    (hfragment : ∀ again, (s.resolveWith again fragment).result =
      notes.qualify <$> (s.merged again parts keep).result)
    {bound : ℕ} {t : TypeExpr}
    (h : (s.resolveWithin bound fragment).result = .ok t) :
    ∃ flat whole inner type,
      (s.context.arena.merge (parts.map Fragment.rawValue)).result = .ok flat ∧
        Fragment.read (.map (keep flat)) = .ok whole ∧
          (s.resolveWithin inner whole).result = .ok type ∧ type.bare = t.bare := by
  cases bound with
  | zero =>
      rw [resolveWithin, hfragment, merged_eq] at h
      obtain ⟨_, hmerged, _⟩ := map_eq_ok_iff.mp h
      obtain ⟨flat, _, hwhole⟩ := bind_eq_ok_iff.mp hmerged
      obtain ⟨whole, _, hagain⟩ := bind_eq_ok_iff.mp hwhole
      cases hagain
  | succ inner =>
      rw [resolveWithin, hfragment, merged_eq] at h
      obtain ⟨type, hmerged, rfl⟩ := map_eq_ok_iff.mp h
      obtain ⟨flat, hflat, hwhole⟩ := bind_eq_ok_iff.mp hmerged
      obtain ⟨whole, hread, hagain⟩ := bind_eq_ok_iff.mp hwhole
      exact ⟨flat, whole, inner, type, hflat, hread, hagain,
        (bare_qualify notes type).symm⟩

theorem Scope.DescribesLeaves.congr {s : Scope} {leaves : List Leaf}
    {flat other : Entries} {t type : TypeExpr}
    (h : s.DescribesLeaves leaves flat t) (hbare : t.bare = type.bare)
    (hhides : ∀ name, s.hides flat name = s.hides other name) :
    s.DescribesLeaves leaves other type := by
  unfold DescribesLeaves at h ⊢
  rw [hbare] at h
  simpa only [hhides] using h

/-- The leaves of a composition that resolves are determined; if they are
plain and declare properties, its fields are theirs. -/
theorem resolveSchema_composition {c : Context} {origin : Option String}
    {view : View} {schema : Entries} {items : List Value} {t : TypeExpr}
    (harena : ∀ entry ∈ c.arena, entry.2.Proper)
    (hproper : (Value.map schema).Proper) (hcomposes : schema.Composes items)
    (h : (resolveSchema c origin (.map schema) (.str view.name)).result = .ok t) :
    ∃ leaves, c.arena.Leaves (.map schema) leaves ∧
      (∀ other, c.arena.Leaves (.map schema) other → other = leaves) ∧
      ((∀ leaf ∈ leaves, leaf.schema.Plain) →
        (∃ leaf ∈ leaves, (leaf.schema.field? "properties").isSome = true) →
          ∃ flat, (c.arena.merge items).result = .ok flat ∧
            Scope.DescribesLeaves ⟨view, c, origin⟩ leaves flat t) := by
  rw [resolveSchema_eq] at h
  obtain ⟨fragment, hfragment, ht⟩ := bind_eq_ok_iff.mp h
  obtain ⟨_, hmap, hreading⟩ := Fragment.reading_of_read hfragment
  cases hmap
  obtain ⟨notes, parts, hread, ⟨hall, rfl⟩ | ⟨hall, hany, rfl⟩⟩ :=
    hreading.of_composes hcomposes
  · have hitems : ∀ item ∈ items, item.Proper := fun item =>
      (hproper.field hall).item
    obtain ⟨flat, whole, inner, type, hflat, hwhole, htype, hbare⟩ :=
      Scope.merged_of_resolveWithin (fun _ => Scope.resolveWith_allOf ..) ht
    obtain ⟨merged, leaves, hmerged, hleaves, hreference, hsummary⟩ :=
      Arena.summary_of_parts harena hitems hread hflat
    have hown : c.arena.Leaves (.map schema) leaves := .allOf hall rfl hleaves
    refine ⟨leaves, hown, fun other => hown.unique, fun hplain hdeclares => ?_⟩
    obtain ⟨rfl, hflatSummary⟩ := hsummary hplain
    have hdescribes := Scope.describes_of_summary hflatSummary hreference
      hdeclares hwhole htype
    exact ⟨flat, hmerged, hdescribes.congr hbare fun _ => rfl⟩
  · have hitems : ∀ item ∈ items, item.Proper := fun item =>
      (hproper.field hany).item
    obtain ⟨flat, whole, inner, type, hflat, hwhole, htype, hbare⟩ :=
      Scope.merged_of_resolveWithin (fun _ => Scope.resolveWith_anyOf ..) ht
    obtain ⟨merged, leaves, hmerged, hleaves, hreference, hsummary⟩ :=
      Arena.summary_of_parts harena hitems hread hflat
    have hown : c.arena.Leaves (.map schema) (leaves.map Leaf.relax) :=
      .anyOf hall hany rfl hleaves
    refine ⟨_, hown, fun other => hown.unique, fun hplain hdeclares => ?_⟩
    obtain ⟨rfl, hflatSummary⟩ := hsummary fun leaf hleaf =>
      hplain leaf.relax (List.mem_map_of_mem hleaf)
    have hdropped : (flat.dropField "required").reference? = none := by
      unfold Entries.reference? at hreference ⊢
      rw [Entries.field?_dropField, if_neg (by decide)]
      exact hreference
    have hdescribes := Scope.describes_of_summary hflatSummary.relax hdropped
      hdeclares hwhole htype
    exact ⟨flat, hmerged, hdescribes.congr hbare
      (Scope.hides_dropField _ flat (by decide))⟩

theorem pet_composition_describes_leaves :
    let base : Entries :=
      [(.str "type", .str "object"),
        (.str "properties", .map
          [(.str "id", .map
              [(.str "type", .str "integer"), (.str "readOnly", .bool true)]),
            (.str "name", .map [(.str "type", .str "string")])]),
        (.str "required", .list [.str "id"])]
    let tagged : Entries :=
      [(.str "properties", .map
          [(.str "tag", .map [(.str "type", .str "string")])]),
        (.str "required", .list [.str "tag"])]
    let own : Entries := [(.str "required", .list [.str "name"])]
    let items : List Value :=
      [.map ((.str referenceKey, .ref { name := "Base" }) :: own),
        .map [(.str "anyOf", .list [.map tagged])]]
    let c : Context :=
      .uniform (.str "Models") (.str "Requests") [("Base", .map base)]
    let leaves : List Leaf := [⟨base, false⟩, ⟨own, false⟩, ⟨tagged, true⟩]
    let t : TypeExpr := .struct
      [⟨.str "name", false, .primitive .string⟩,
        ⟨.str "tag", true, .primitive .string⟩]
    (resolveSchema c (some "Pet") (.map [(.str "allOf", .list items)])
        (.str View.write.name)).result = .ok t ∧
      c.arena.Leaves (.map [(.str "allOf", .list items)]) leaves ∧
        ∃ flat, (c.arena.merge items).result = .ok flat ∧
          Scope.DescribesLeaves ⟨.write, c, some "Pet"⟩ leaves flat t := by
  intro base tagged own items c leaves t
  have hresolve : (resolveSchema c (some "Pet")
      (.map [(.str "allOf", .list items)]) (.str View.write.name)).result =
        .ok t := by decide +kernel
  have harena : ∀ entry ∈ c.arena, entry.2.Proper := by decide
  have hproper : (Value.map [(.str "allOf", .list items)]).Proper := by
    decide
  have hbase : c.arena.Leaves (.map base) [⟨base, false⟩] :=
    .plain rfl rfl (by simp [base, Entries.reference?, Entries.field?,
      OrderedMap.find?, referenceKey])
  have htagged : c.arena.Leaves (.map tagged) [⟨tagged, false⟩] :=
    .plain rfl rfl (by simp [tagged, Entries.reference?, Entries.field?,
      OrderedMap.find?, referenceKey])
  have hleaves : c.arena.Leaves (.map [(.str "allOf", .list items)]) leaves :=
    .allOf rfl rfl (.cons (.reference rfl rfl rfl rfl hbase)
      (.cons (.anyOf rfl rfl rfl (.cons htagged .nil)) .nil))
  obtain ⟨found, hfound, hunique, hdescribes⟩ := resolveSchema_composition harena
    hproper ⟨rfl, rfl, rfl, .inl rfl⟩ hresolve
  have hsame : found = leaves := (hunique leaves hleaves).symm
  subst hsame
  have hplainBase : base.Plain :=
    ⟨.inr rfl, rfl, fun v hv => ⟨_, (Option.some.inj hv).symm⟩,
      fun v hv => ⟨["id"], (Option.some.inj hv).symm⟩⟩
  have hplainOwn : own.Plain :=
    ⟨.inl rfl, rfl, by simp [own, Entries.field?, OrderedMap.find?],
      fun v hv => ⟨["name"], (Option.some.inj hv).symm⟩⟩
  have hplainTagged : tagged.Plain :=
    ⟨.inl rfl, rfl, fun v hv => ⟨_, (Option.some.inj hv).symm⟩,
      fun v hv => ⟨["tag"], (Option.some.inj hv).symm⟩⟩
  have hplain : ∀ leaf ∈ leaves, leaf.schema.Plain := by
    intro leaf hleaf
    simp only [leaves, List.mem_cons, List.not_mem_nil, or_false] at hleaf
    rcases hleaf with rfl | rfl | rfl
    · exact hplainBase
    · exact hplainOwn
    · exact hplainTagged
  exact ⟨hresolve, hleaves, hdescribes hplain
    ⟨⟨base, false⟩, List.mem_cons_self, rfl⟩⟩

end SchemaViews
