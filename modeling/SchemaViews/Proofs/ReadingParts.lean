import SchemaViews.Proofs.ExpansionLaws

/-!
# What a fragment is read from

A fragment that was read comes from a schema of one of fourteen kinds, and the
fragments in it come from schemas in that schema, or from the bare types that
it lists.  So a property of schemas that passes to the schemas inside passes
through reading as well.
-/

namespace SchemaViews

def knownKinds : List String :=
  scalarKinds ++ ["object", "array"]

namespace Fragment

def OpenType (schema : Entries) : Prop :=
  (∀ types, (settle schema).field? "type" ≠ some (.list types)) ∧
    ∀ kind ∈ knownKinds, (settle schema).field? "type" ≠ some (.str kind)

/-- A schema that is an object, by its type or for want of anything else. -/
def ObjectKind (schema : Entries) : Prop :=
  (settle schema).field? "type" = some (.str "object") ∨
    ((settle schema).field? "type" = none ∧
      ∀ key ∈ compositionKeys, schema.field? key = none)

def SequenceRead (value : Value) (fragments : List Fragment) : Prop :=
  ∃ items, value.parts? = some items ∧
    List.Forall₂ (fun item fragment => Fragment.read item = .ok fragment)
      items fragments

inductive Reading (schema : Entries) : Fragment → Prop
  | reference {target : Reference} :
      schema.reference? = some target →
        Reading schema (.reference (.of schema) target)
  | scalar {kind : String} {format : Value} :
      schema.reference? = none → kind ∈ scalarKinds →
        (settle schema).field? "type" = some (.str kind) →
          Reading schema
            (.primitive (.of (settle schema)) (.single (.str kind)) format)
  | choice {values : List String} {format : Value} :
      schema.reference? = none →
        (settle schema).field? "type" = some (.str "string") →
          Reading schema (.choice (.of (settle schema)) values format)
  | onlyNull {notes : Annotations} {types : List Value} {format : Value} :
      schema.reference? = none → notes.raw = settle schema →
        (settle schema).field? "type" = some (.list types) →
          kindsOf types = [] →
            Reading schema (.primitive notes (.onlyNull types) format)
  | kinds {notes : Annotations} {types : List Value}
      {options : List Fragment} :
      schema.reference? = none → notes.raw = settle schema →
        (settle schema).field? "type" = some (.list types) →
          List.Forall₂ (fun kind option =>
            Fragment.read (.map [(.str "type", kind)]) = .ok option)
            (kindsOf types) options →
            Reading schema (.oneOf notes options none)
  | object {properties : Entries} {fragments : List (Scalar × Fragment)}
      {required : List Scalar} :
      schema.reference? = none → ObjectKind schema →
        schema.field? "properties" = some (.map properties) →
          List.Forall₂ (fun entry fragment => fragment.1 = entry.1 ∧
            Fragment.read entry.2 = .ok fragment.2) properties fragments →
            requiredNames (schema.fieldOrNull "required") = .ok required →
              Reading schema (.object (.of (settle schema)) fragments required)
  | emptyObject {other : Value} {required : List Scalar} :
      schema.reference? = none → ObjectKind schema →
        schema.field? "properties" = some other →
          (∀ properties, other ≠ .map properties) →
            Reading schema (.object (.of (settle schema)) [] required)
  | freeObject :
      schema.reference? = none → ObjectKind schema →
        schema.field? "properties" = none →
          Reading schema (.freeObject (.of (settle schema)))
  | array {items : Value} {fragment : Fragment} :
      schema.reference? = none →
        (settle schema).field? "type" = some (.str "array") →
          schema.field? "items" = some items →
            Fragment.read items = .ok fragment →
              Reading schema (.array (.of (settle schema)) fragment)
  | freeArray :
      schema.reference? = none →
        (settle schema).field? "type" = some (.str "array") →
          Reading schema (.freeArray (.of (settle schema)))
  | oneOf {value : Value} {options : List Fragment}
      {discriminator : Option Discriminator} :
      schema.reference? = none → OpenType schema →
        schema.field? "oneOf" = some value →
          readDiscriminator schema = .ok discriminator →
            SequenceRead value options →
              Reading schema
                (.oneOf (.of (settle schema)) options discriminator)
  | allOf {value : Value} {parts : List Fragment} :
      schema.reference? = none → OpenType schema →
        schema.field? "oneOf" = none → schema.field? "allOf" = some value →
          SequenceRead value parts →
            Reading schema (.allOf (.of (settle schema)) parts)
  | anyOf {value : Value} {parts : List Fragment} :
      schema.reference? = none → OpenType schema →
        schema.field? "oneOf" = none → schema.field? "allOf" = none →
          schema.field? "anyOf" = some value → SequenceRead value parts →
            Reading schema (.anyOf (.of (settle schema)) parts)
  | unknown {type format : Value} :
      schema.reference? = none → OpenType schema →
        (settle schema).field? "type" = some type →
          Reading schema (.primitive (.of (settle schema)) (.single type) format)

theorem readSequence_eq (value : Value) :
    readSequence value =
      match value.parts? with
      | some items => items.mapM Fragment.read
      | none => .error .wrongShape := by
  rw [readSequence.eq_def]
  cases value with
  | list items => rfl
  | scalar s =>
      simp only [Value.parts?]
      split <;> rfl
  | map entries =>
      simp only [Value.parts?]
      split <;> rfl

theorem sequenceRead_of_readSequence {value : Value} {fragments : List Fragment}
    (h : readSequence value = .ok fragments) : SequenceRead value fragments := by
  rw [readSequence_eq] at h
  split at h
  · rename_i items hitems
    exact ⟨items, hitems, mapM_eq_ok_iff.mp h⟩
  · cases h

private theorem reading_of_readObject {schema : Entries} {fragment : Fragment}
    (hreference : schema.reference? = none) (hkind : ObjectKind schema)
    (h : readObject (.of (settle schema)) schema = .ok fragment) :
    Reading schema fragment := by
  rw [readObject] at h
  split at h
  · rename_i properties hproperties
    obtain ⟨fragments, hfragments, h⟩ := bind_eq_ok_iff.mp h
    obtain ⟨required, hrequired, h⟩ := bind_eq_ok_iff.mp h
    cases pure_eq_ok_iff.mp h
    have hpairs := mapM_eq_ok_iff.mp ((mapM_attach
      (fun entry => do return (entry.1, ← Fragment.read entry.2))
      properties).symm.trans hfragments)
    refine .object hreference hkind hproperties (hpairs.imp ?_) hrequired
    intro entry pair hpair
    obtain ⟨property, hproperty, hpair⟩ := bind_eq_ok_iff.mp hpair
    cases pure_eq_ok_iff.mp hpair
    exact ⟨rfl, hproperty⟩
  · rename_i other hnot hproperties
    split at h
    · cases h
    · obtain ⟨required, hrequired, h⟩ := bind_eq_ok_iff.mp h
      cases pure_eq_ok_iff.mp h
      exact .emptyObject hreference hkind hproperties hnot
  · rename_i hproperties
    cases h
    exact .freeObject hreference hkind hproperties

private theorem reading_of_readComposition {schema : Entries}
    {fragment : Fragment} (hreference : schema.reference? = none)
    (hopen : OpenType schema)
    (h : readComposition (.of (settle schema)) schema
      ((settle schema).field? "type") = .ok fragment) :
    Reading schema fragment := by
  rw [readComposition.eq_def] at h
  split at h
  · rename_i options hone
    obtain ⟨discriminator, hdiscriminator, h⟩ := bind_eq_ok_iff.mp h
    obtain ⟨fragments, hfragments, h⟩ := bind_eq_ok_iff.mp h
    cases pure_eq_ok_iff.mp h
    exact .oneOf hreference hopen hone hdiscriminator
      (sequenceRead_of_readSequence hfragments)
  · rename_i parts hone hall
    obtain ⟨fragments, hfragments, h⟩ := bind_eq_ok_iff.mp h
    cases pure_eq_ok_iff.mp h
    exact .allOf hreference hopen hone hall
      (sequenceRead_of_readSequence hfragments)
  · rename_i parts hone hall hany
    obtain ⟨fragments, hfragments, h⟩ := bind_eq_ok_iff.mp h
    cases pure_eq_ok_iff.mp h
    exact .anyOf hreference hopen hone hall hany
      (sequenceRead_of_readSequence hfragments)
  · rename_i type _ _ _ htype
    cases h
    exact .unknown hreference hopen htype
  · rename_i hone hall hany htype
    refine reading_of_readObject hreference (.inr ⟨htype, ?_⟩) h
    intro key hkey
    simp only [compositionKeys, List.mem_cons, List.not_mem_nil, or_false] at hkey
    rcases hkey with rfl | rfl | rfl
    · exact hone
    · exact hall
    · exact hany

private theorem reading_of_readScalar {schema : Entries} {kind : String}
    {fragment : Fragment} (hreference : schema.reference? = none)
    (hkind : kind ∈ scalarKinds)
    (htype : (settle schema).field? "type" = some (.str kind))
    (h : readScalar (.of (settle schema)) kind schema = .ok fragment) :
    Reading schema fragment := by
  unfold readScalar at h
  split at h
  · dsimp only at h
    split at h
    · rename_i hstring
      obtain ⟨rfl, _⟩ := hstring
      obtain ⟨values, _, h⟩ := bind_eq_ok_iff.mp h
      cases pure_eq_ok_iff.mp h
      exact .choice hreference htype
    · cases h
      exact .scalar hreference hkind htype
  · cases h
    exact .scalar hreference hkind htype

theorem reading_of_read {value : Value} {fragment : Fragment}
    (h : Fragment.read value = .ok fragment) :
    ∃ schema, value = .map schema ∧ Reading schema fragment := by
  unfold Fragment.read at h
  split at h
  · rename_i schema
    refine ⟨schema, rfl, ?_⟩
    split at h
    · rename_i target hreference
      cases h
      exact .reference hreference
    · rename_i hreference
      dsimp only at h
      split at h
      · rename_i types htype
        split at h
        · rename_i hnone
          cases pure_eq_ok_iff.mp h
          exact .onlyNull hreference rfl htype hnone
        · obtain ⟨options, hoptions, h⟩ := bind_eq_ok_iff.mp h
          cases pure_eq_ok_iff.mp h
          have hpairs := mapM_eq_ok_iff.mp ((mapM_attach
            (fun kind => Fragment.read (.map [(.str "type", kind)]))
            (kindsOf types)).symm.trans hoptions)
          exact .kinds hreference rfl htype hpairs
      · rename_i kind htype
        split at h
        · rename_i hkind
          exact reading_of_readScalar hreference hkind htype h
        · rename_i hscalar
          split at h
          · rename_i hobject
            subst kind
            exact reading_of_readObject hreference (.inl htype) h
          · rename_i hobject
            split at h
            · rename_i harray
              subst kind
              split at h
              · rename_i items hitems
                obtain ⟨inner, hinner, h⟩ := bind_eq_ok_iff.mp h
                cases pure_eq_ok_iff.mp h
                exact .array hreference htype hitems hinner
              · cases h
                exact .freeArray hreference htype
            · rename_i harray
              have hopen : OpenType schema := by
                constructor
                · simp [htype]
                · intro other hother heq
                  rw [htype, Option.some.injEq, Value.scalar.injEq,
                    Scalar.str.injEq] at heq
                  subst other
                  simp only [knownKinds, List.mem_append, List.mem_cons,
                    List.not_mem_nil, or_false] at hother
                  rcases hother with hother | hother | hother
                  · exact hscalar hother
                  · exact hobject hother
                  · exact harray hother
              rw [← htype] at h
              exact reading_of_readComposition hreference hopen h
      · rename_i hlist hstring
        exact reading_of_readComposition hreference
          ⟨fun types htypes => hlist types htypes,
            fun kind _ hkind => hstring kind hkind⟩ h
  · cases h

/-! ## The schema itself -/

theorem settle_eq_or (schema : Entries) :
    settle schema = schema ∨ ∃ types kind nullable,
      schema.field? "type" = some (.list types) ∧
        settle schema = (schema.setField "type" kind).setField "nullable"
          (.bool nullable) ∧
        kind = (soleKind (schema.isTrue "nullable") (.list types)).2 := by
  unfold settle
  split
  · rename_i types htypes
    split
    · exact .inr ⟨types, _, _, htypes, rfl, rfl⟩
    · exact .inl rfl
  · exact .inl rfl

theorem field?_settle (schema : Entries) {name : String}
    (htype : name ≠ "type") (hnullable : name ≠ "nullable") :
    (settle schema).field? name = schema.field? name := by
  rcases settle_eq_or schema with h | ⟨_, _, _, _, h, _⟩
  · rw [h]
  · rw [h, Entries.field?_setField, if_neg hnullable, Entries.field?_setField,
      if_neg htype]

theorem reference?_settle (schema : Entries) :
    (settle schema).reference? = schema.reference? := by
  unfold Entries.reference?
  rw [field?_settle schema (by decide) (by decide)]

/-- A fragment keeps the schema that it was read from, settled unless it is a
reference. -/
theorem raw_of_reading {schema : Entries} {fragment : Fragment}
    (h : Reading schema fragment) :
    fragment.notes.raw = settle schema ∨
      (fragment.notes.raw = schema ∧ schema.reference? ≠ none) := by
  cases h with
  | reference hreference =>
      right
      exact ⟨rfl, by simp [hreference]⟩
  | onlyNull _ hraw _ _ => exact .inl hraw
  | kinds _ hraw _ _ => exact .inl hraw
  | scalar | choice | object | emptyObject | freeObject | array | freeArray
  | oneOf | allOf | anyOf | unknown => exact .inl rfl

/-! ## The schemas inside -/

private theorem SequenceRead.exists {key : String} {schema : Entries}
    {value : Value} {fragments : List Fragment}
    (h : SequenceRead value fragments) (hkey : key ∈ compositionKeys)
    (hfield : schema.field? key = some value)
    {fragment : Fragment} (hfragment : fragment ∈ fragments) :
    ∃ part, (Value.map schema).Combines part ∧
      Fragment.read part = .ok fragment := by
  obtain ⟨items, hitems, hpairs⟩ := h
  obtain ⟨item, hitem, hread⟩ := exists_of_mem_right hpairs hfragment
  exact ⟨item, Value.combines_of_field hkey hfield hitems hitem, hread⟩

section Inside

variable {schema : Entries} {notes : Annotations}

theorem Reading.items {items : Fragment}
    (h : Reading schema (.array notes items)) :
    ∃ inner, (Value.map schema).Holds inner ∧
      Fragment.read inner = .ok items := by
  cases h with
  | array _ _ hitems hread =>
      exact ⟨_, .items (OrderedMap.mem_of_find? hitems), hread⟩

theorem Reading.property {properties : List (Scalar × Fragment)}
    {required : List Scalar} (h : Reading schema (.object notes properties required))
    {entry : Scalar × Fragment} (hentry : entry ∈ properties) :
    ∃ inner, (Value.map schema).Holds inner ∧
      Fragment.read inner = .ok entry.2 := by
  cases h with
  | object _ _ hproperties hpairs _ =>
      obtain ⟨source, hsource, _, hread⟩ := exists_of_mem_right hpairs hentry
      exact ⟨source.2,
        .property (OrderedMap.mem_of_find? hproperties) hsource, hread⟩
  | emptyObject => simp at hentry

theorem Reading.names {fragments : List (Scalar × Fragment)}
    {required : List Scalar} (h : Reading schema (.object notes fragments required)) :
    fragments = [] ∨ ∃ properties, schema.field? "properties" = some (.map properties) ∧
      fragments.map Prod.fst = OrderedMap.keys properties := by
  cases h with
  | @object properties _ _ _ _ hproperties hpairs _ =>
      refine .inr ⟨properties, hproperties, ?_⟩
      have hnames : List.Forall₂ Eq (fragments.map Prod.fst)
          (properties.map Prod.fst) := by
        rw [List.forall₂_map_left_iff, List.forall₂_map_right_iff]
        exact hpairs.flip.imp fun _ _ hpair => hpair.1
      rwa [List.forall₂_eq_eq_eq] at hnames
  | emptyObject => exact .inl rfl

theorem Reading.option {options : List Fragment}
    {discriminator : Option Discriminator}
    (h : Reading schema (.oneOf notes options discriminator))
    {option : Fragment} (hoption : option ∈ options) :
    (∃ part, (Value.map schema).Combines part ∧
      Fragment.read part = .ok option) ∨
    (discriminator = none ∧ ∃ types kind,
      (settle schema).field? "type" = some (.list types) ∧
        kind ∈ kindsOf types ∧
        Fragment.read (.map [(.str "type", kind)]) = .ok option) := by
  cases h with
  | kinds _ _ htype hpairs =>
      obtain ⟨kind, hkind, hread⟩ := exists_of_mem_right hpairs hoption
      exact .inr ⟨rfl, _, kind, htype, hkind, hread⟩
  | oneOf _ _ hone _ hsequence =>
      exact .inl (hsequence.exists (by simp [compositionKeys]) hone hoption)

theorem Reading.part {parts : List Fragment}
    (h : Reading schema (.allOf notes parts) ∨ Reading schema (.anyOf notes parts))
    {part : Fragment} (hpart : part ∈ parts) :
    ∃ source, (Value.map schema).Combines source ∧
      Fragment.read source = .ok part := by
  rcases h with h | h
  · cases h with
    | allOf _ _ _ hall hsequence =>
        exact hsequence.exists (by simp [compositionKeys]) hall hpart
  · cases h with
    | anyOf _ _ _ _ hany hsequence =>
        exact hsequence.exists (by simp [compositionKeys]) hany hpart

end Inside

/-! ## Properties that pass through reading -/

/-- A fragment that was read from a schema with a property. -/
def From (Q : Value → Prop) (fragment : Fragment) : Prop :=
  ∃ schema, Q (.map schema) ∧ Fragment.read (.map schema) = .ok fragment

section From

variable {Q : Value → Prop} {notes : Annotations}

theorem from_of_read {value : Value} {fragment : Fragment} (hvalue : Q value)
    (hread : Fragment.read value = .ok fragment) : fragment.From Q := by
  obtain ⟨schema, rfl, _⟩ := reading_of_read hread
  exact ⟨schema, hvalue, hread⟩

theorem From.reading {fragment : Fragment} (h : fragment.From Q) :
    ∃ schema, Q (.map schema) ∧ Reading schema fragment := by
  obtain ⟨schema, hschema, hread⟩ := h
  obtain ⟨_, hmap, hreading⟩ := reading_of_read hread
  cases hmap
  exact ⟨schema, hschema, hreading⟩

theorem From.parts_reading {parts : List Fragment}
    (h : (Fragment.allOf notes parts).From Q ∨ (Fragment.anyOf notes parts).From Q) :
    ∃ schema, Q (.map schema) ∧
      (Reading schema (.allOf notes parts) ∨ Reading schema (.anyOf notes parts)) := by
  rcases h with h | h
  · obtain ⟨schema, hschema, hreading⟩ := h.reading
    exact ⟨schema, hschema, .inl hreading⟩
  · obtain ⟨schema, hschema, hreading⟩ := h.reading
    exact ⟨schema, hschema, .inr hreading⟩

variable (hQ : SchemaInvariant Q)
include hQ

theorem From.raw {fragment : Fragment} (h : fragment.From Q) :
    Q fragment.rawValue := by
  obtain ⟨schema, hschema, hreading⟩ := h.reading
  unfold rawValue
  rcases raw_of_reading hreading with hraw | ⟨hraw, _⟩
  · rw [hraw]
    exact hQ.settle hschema
  · rw [hraw]
    exact hschema

theorem From.items {items : Fragment} (h : (Fragment.array notes items).From Q) :
    items.From Q := by
  obtain ⟨schema, hschema, hreading⟩ := h.reading
  obtain ⟨inner, hinner, hread⟩ := hreading.items
  exact from_of_read (hQ.inside hschema hinner) hread

theorem From.property {properties : List (Scalar × Fragment)}
    {required : List Scalar}
    (h : (Fragment.object notes properties required).From Q)
    {entry : Scalar × Fragment} (hentry : entry ∈ properties) :
    entry.2.From Q := by
  obtain ⟨schema, hschema, hreading⟩ := h.reading
  obtain ⟨inner, hinner, hread⟩ := hreading.property hentry
  exact from_of_read (hQ.inside hschema hinner) hread

theorem From.option {options : List Fragment}
    {discriminator : Option Discriminator}
    (h : (Fragment.oneOf notes options discriminator).From Q)
    {option : Fragment} (hoption : option ∈ options) : option.From Q := by
  obtain ⟨schema, hschema, hreading⟩ := h.reading
  rcases hreading.option hoption with ⟨part, hpart, hread⟩ |
    ⟨_, types, kind, htype, hkind, hread⟩
  · exact from_of_read (hQ.inside hschema (.part hpart)) hread
  · exact from_of_read (hQ.kind (hQ.settle hschema) htype hkind) hread

theorem From.part {parts : List Fragment}
    (h : (Fragment.allOf notes parts).From Q ∨ (Fragment.anyOf notes parts).From Q)
    {part : Fragment} (hpart : part ∈ parts) : part.From Q := by
  obtain ⟨schema, hschema, hreading⟩ := From.parts_reading h
  obtain ⟨source, hsource, hread⟩ := Reading.part hreading hpart
  exact from_of_read (hQ.inside hschema (.part hsource)) hread

end From

end Fragment
end SchemaViews
