import SchemaViews.Proofs.ReadingParts
import SchemaViews.Proofs.ResolutionSteps

/-!
# Annotations apart from kinds

Eleven keys decide what kind of fragment a schema is read as; all others come
down to the annotations of that fragment.  So two schemas that agree under these
keys are read as fragments that differ in their annotations only, and a type
depends on the annotations of its fragment through nullability alone.
-/

namespace SchemaViews

def kindKeys : List String :=
  ["type", "format", "enum", "properties", "required", "items", "oneOf",
    "allOf", "anyOf", "discriminator"]

def Entries.listsNull (schema : Entries) : Bool :=
  match schema.field? "type" with
  | some (.list types) => types.contains nullKind
  | _ => false

def Annotations.read (schema : Entries) : Annotations :=
  match schema.reference? with
  | some _ => .of schema
  | none =>
    { Annotations.of (settle schema) with
      nullable := (settle schema).isTrue "nullable" || (settle schema).listsNull }

theorem Annotations.read_of_reference {schema : Entries} {target : Reference}
    (h : schema.reference? = some target) : Annotations.read schema = .of schema := by
  rw [Annotations.read, h]

theorem Annotations.read_of_not_list {schema : Entries}
    (hreference : schema.reference? = none)
    (hlist : ∀ types, (settle schema).field? "type" ≠ some (.list types)) :
    Annotations.read schema = .of (settle schema) := by
  have hnone : (settle schema).listsNull = false := by
    unfold Entries.listsNull
    split
    · rename_i types htypes
      exact absurd htypes (hlist types)
    · rfl
  rw [Annotations.read, hreference, hnone]
  simp [Annotations.of]

namespace Fragment

def withNotes (notes : Annotations) : Fragment → Fragment
  | .reference _ target => .reference notes target
  | .primitive _ declared format => .primitive notes declared format
  | .choice _ values format => .choice notes values format
  | .object _ properties required => .object notes properties required
  | .freeObject _ => .freeObject notes
  | .array _ items => .array notes items
  | .freeArray _ => .freeArray notes
  | .oneOf _ options discriminator => .oneOf notes options discriminator
  | .allOf _ parts => .allOf notes parts
  | .anyOf _ parts => .anyOf notes parts

@[simp] theorem notes_withNotes (notes : Annotations) (fragment : Fragment) :
    (fragment.withNotes notes).notes = notes := by
  cases fragment <;> rfl

/-! ## Reading with given annotations -/

def readAs (notes : Annotations) (schema : Entries) : Except Failure Fragment :=
  match schema.reference? with
  | some target => .ok (.reference notes target)
  | none =>
    match (settle schema).field? "type" with
    | some (.list types) =>
      if kindsOf types = [] then
        .ok (.primitive notes (.onlyNull types) (schema.fieldOrNull "format"))
      else
        (fun options => .oneOf notes options none) <$>
          (kindsOf types).mapM fun kind => read (.map [(.str "type", kind)])
    | some (.str kind) =>
      if kind ∈ scalarKinds then readScalar notes kind schema
      else if kind = "object" then readObject notes schema
      else if kind = "array" then
        match schema.field? "items" with
        | some items => .array notes <$> read items
        | none => .ok (.freeArray notes)
      else readComposition notes schema (some (.str kind))
    | type => readComposition notes schema type

theorem read_eq_readAs (schema : Entries) :
    read (.map schema) = readAs (.read schema) schema := by
  rw [read]
  split
  · rename_i target hreference
    rw [readAs, hreference, Annotations.read_of_reference hreference]
  · rename_i hreference
    dsimp only
    split
    · rename_i types htype
      simp only [readAs, Annotations.read, Entries.listsNull, hreference, htype]
      split
      · rfl
      · have hoptions := mapM_attach
          (fun kind => read (.map [(.str "type", kind)])) (kindsOf types)
        rw [hoptions, map_eq_pure_bind]
        rfl
    · rename_i kind htype
      rw [← Annotations.read_of_not_list hreference (by simp [htype])]
      simp only [readAs, hreference, htype]
      split
      · rfl
      · split
        · rfl
        · split
          · split
            · rename_i items hitems
              simp only [hitems, map_eq_pure_bind]
            · rename_i hitems
              simp only [hitems]
          · rfl
    · rename_i hlist hstring
      rw [← Annotations.read_of_not_list hreference hlist]
      simp only [readAs, hreference]

end Fragment

/-! ## Sole kinds -/

theorem soleKind_sole {types : List Value} {kind : Value}
    (h : kindsOf types = [kind]) (nullable : Bool) :
    soleKind nullable (.list types) =
      soleKind (nullable || types.contains nullKind) kind := by
  rw [soleKind]
  split
  · rename_i other hother
    cases h.symm.trans hother
    rfl
  · rename_i hother
    exact absurd h (hother kind)

theorem soleKind_of_not_sole {type : Value}
    (h : ∀ types kind, type = .list types → kindsOf types ≠ [kind])
    (nullable : Bool) : soleKind nullable type = (nullable, type) := by
  rw [soleKind.eq_def]
  split
  · rename_i types
    split
    · rename_i kind hkind
      exact absurd hkind (h types kind rfl)
    · rfl
  · rfl

theorem soleKind_eq (nullable : Bool) (type : Value) :
    soleKind nullable type =
      (nullable || (soleKind false type).1, (soleKind false type).2) := by
  induction hsize : type.size using Nat.strongRecOn generalizing type nullable with
  | ind size ih =>
      by_cases hsole : ∃ types kind, type = .list types ∧ kindsOf types = [kind]
      · obtain ⟨types, kind, rfl, hkind⟩ := hsole
        have hmem : kind ∈ kindsOf types := by simp [hkind]
        have hsmaller := Value.size_lt_of_mem (List.mem_filter.mp hmem).1
        have hstep := fun nullable => ih kind.size (by omega) nullable kind rfl
        rw [soleKind_sole hkind, soleKind_sole hkind,
          hstep (nullable || types.contains nullKind),
          hstep (false || types.contains nullKind)]
        simp [Bool.or_assoc]
      · have hnot : ∀ types kind, type = .list types → kindsOf types ≠ [kind] :=
          fun types kind htype hkind => hsole ⟨types, kind, htype, hkind⟩
        simp [soleKind_of_not_sole hnot]

theorem settle_eq (schema : Entries) :
    settle schema = schema ∧
        (∀ type, schema.field? "type" = some type →
          ∀ nullable, soleKind nullable type = (nullable, type)) ∨
      ∃ type, schema.field? "type" = some type ∧
        settle schema = (schema.setField "type" (soleKind false type).2).setField
          "nullable" (.bool (schema.isTrue "nullable" || (soleKind false type).1)) := by
  unfold settle
  split
  · rename_i types htypes
    split
    · rename_i kind hkind
      refine .inr ⟨.list types, htypes, ?_⟩
      rw [soleKind_eq (schema.isTrue "nullable")]
    · rename_i hnot
      refine .inl ⟨rfl, fun type htype => ?_⟩
      cases htypes.symm.trans htype
      apply soleKind_of_not_sole
      rintro other kind hother hkind
      cases hother
      exact hnot kind hkind
  · rename_i hnot
    refine .inl ⟨rfl, fun type htype => ?_⟩
    apply soleKind_of_not_sole
    rintro types kind rfl
    exact absurd htype (hnot types)

theorem settle_type (schema : Entries) :
    (settle schema).field? "type" =
      (schema.field? "type").map fun type => (soleKind false type).2 := by
  rcases settle_eq schema with ⟨hsame, hsole⟩ | ⟨type, htype, hsettle⟩
  · rw [hsame]
    cases htype : schema.field? "type" with
    | none => rfl
    | some type => simp [hsole type htype]
  · rw [hsettle, Entries.field?_setField, if_neg (by decide),
      Entries.field?_setField, if_pos rfl, htype]
    rfl

theorem settle_isTrue_nullable (schema : Entries) :
    (settle schema).isTrue "nullable" =
      (schema.isTrue "nullable" ||
        (schema.field? "type").any fun type => (soleKind false type).1) := by
  rcases settle_eq schema with ⟨hsame, hsole⟩ | ⟨type, htype, hsettle⟩
  · rw [hsame]
    cases htype : schema.field? "type" with
    | none => simp
    | some type => simp [hsole type htype]
  · rw [hsettle, Entries.isTrue, Entries.field?_setField, if_pos rfl, htype]
    simp

/-! ## Schemas that agree under the keys of kinds -/

namespace Fragment

theorem readObject_eq (notes : Annotations) (schema : Entries) :
    readObject notes schema =
      match schema.field? "properties" with
      | some (.map properties) => do
        let fragments ← properties.mapM fun entry => do
          return (entry.1, ← read entry.2)
        let required ← requiredNames (schema.fieldOrNull "required")
        return .object notes fragments required
      | some other =>
        if other.isPresent then .error .wrongShape
        else do
          let required ← requiredNames (schema.fieldOrNull "required")
          return .object notes [] required
      | none => .ok (.freeObject notes) := by
  rw [readObject]
  split
  · rename_i properties hproperties
    have hentries := mapM_attach
      (fun entry => do return (entry.1, ← read entry.2)) properties
    simp only [hproperties, ← hentries]
  · rename_i other hnot hother
    simp only [hother]
  · rename_i hnone
    simp only [hnone]

theorem readComposition_eq (notes : Annotations) (schema : Entries)
    (type : Option Value) :
    readComposition notes schema type =
      match schema.field? "oneOf", schema.field? "allOf", schema.field? "anyOf",
        type with
      | some options, _, _, _ => do
        let discriminator ← readDiscriminator schema
        return .oneOf notes (← readSequence options) discriminator
      | none, some parts, _, _ => return .allOf notes (← readSequence parts)
      | none, none, some parts, _ => return .anyOf notes (← readSequence parts)
      | none, none, none, some type =>
        .ok (.primitive notes (.single type) (schema.fieldOrNull "format"))
      | none, none, none, none => readObject notes schema := by
  rw [readComposition.eq_def]
  split <;> simp_all

section Agreement

variable {a b : Entries}
  (h : ∀ key ∈ kindKeys, key ≠ "type" → a.field? key = b.field? key)
include h

private theorem fieldOrNull_congr (key : String) (hkey : key ∈ kindKeys)
    (hother : key ≠ "type") : a.fieldOrNull key = b.fieldOrNull key := by
  rw [Entries.fieldOrNull, h key hkey hother, Entries.fieldOrNull]

variable (first second : Annotations)

theorem readScalar_congr (kind : String) :
    readScalar second kind b = withNotes second <$> readScalar first kind a := by
  have henum := h "enum" (by simp [kindKeys]) (by decide)
  have hformat := fieldOrNull_congr h "format" (by simp [kindKeys]) (by decide)
  unfold readScalar
  rw [henum, hformat]
  cases b.field? "enum" with
  | none => rfl
  | some enum =>
      dsimp only
      split
      · simp only [map_bind, map_pure, withNotes]
      · rfl

theorem readObject_congr :
    readObject second b = withNotes second <$> readObject first a := by
  have hproperties := h "properties" (by simp [kindKeys]) (by decide)
  have hrequired := fieldOrNull_congr h "required" (by simp [kindKeys]) (by decide)
  rw [readObject_eq, readObject_eq, hproperties, hrequired]
  split
  · simp only [map_bind, map_pure, withNotes]
  · split
    · rfl
    · simp only [map_bind, map_pure, withNotes]
  · rfl

theorem readDiscriminator_congr : readDiscriminator a = readDiscriminator b := by
  rw [readDiscriminator, h "discriminator" (by simp [kindKeys]) (by decide), readDiscriminator]

theorem readComposition_congr (type : Option Value) :
    readComposition second b type =
      withNotes second <$> readComposition first a type := by
  have hone := h "oneOf" (by simp [kindKeys]) (by decide)
  have hall := h "allOf" (by simp [kindKeys]) (by decide)
  have hany := h "anyOf" (by simp [kindKeys]) (by decide)
  have hformat := fieldOrNull_congr h "format" (by simp [kindKeys]) (by decide)
  rw [readComposition_eq, readComposition_eq, hone, hall, hany, hformat,
    readDiscriminator_congr h]
  split
  · simp only [map_bind, map_pure, withNotes]
  · simp only [map_bind, map_pure, withNotes]
  · simp only [map_bind, map_pure, withNotes]
  · rfl
  · exact readObject_congr h first second

theorem readAs_congr (hreference : a.reference? = b.reference?)
    (htype : (settle a).field? "type" = (settle b).field? "type") :
    readAs second b = withNotes second <$> readAs first a := by
  have hformat := fieldOrNull_congr h "format" (by simp [kindKeys]) (by decide)
  have hitems := h "items" (by simp [kindKeys]) (by decide)
  unfold readAs
  rw [hreference, htype, hformat, hitems]
  split
  · rfl
  · split
    · split
      · rfl
      · simp only [Functor.map_map, withNotes]
    · split
      · exact readScalar_congr h first second _
      · split
        · exact readObject_congr h first second
        · split
          · split
            · simp only [Functor.map_map, withNotes]
            · rfl
          · exact readComposition_congr h first second _
    · exact readComposition_congr h first second _

end Agreement

theorem read_congr {a b : Entries}
    (h : ∀ key ∈ kindKeys, a.field? key = b.field? key)
    (hreference : a.reference? = b.reference?) :
    read (.map b) = withNotes (.read b) <$> read (.map a) := by
  have htype : (settle a).field? "type" = (settle b).field? "type" := by
    rw [settle_type, settle_type, h "type" (by simp [kindKeys])]
  rw [read_eq_readAs, read_eq_readAs,
    readAs_congr (fun key hkey _ => h key hkey) _ _ hreference htype]

theorem notes_of_read {schema : Entries} {fragment : Fragment}
    (h : read (.map schema) = .ok fragment) : fragment.notes = .read schema := by
  rw [read_congr (fun _ _ => rfl) rfl, map_eq_ok_iff] at h
  obtain ⟨other, _, rfl⟩ := h
  exact notes_withNotes _ other

@[simp] theorem withNotes_notes (fragment : Fragment) :
    fragment.withNotes fragment.notes = fragment := by
  cases fragment <;> rfl

/-- A schema that is no reference is read in the form that its type is settled to. -/
theorem read_eq_of_settle {a b : Entries} (hreference : a.reference? = none)
    (h : settle a = settle b) : read (.map a) = read (.map b) := by
  have hother : b.reference? = none := by
    rw [← reference?_settle, ← h, reference?_settle, hreference]
  have hfields : ∀ key ∈ kindKeys, key ≠ "type" → a.field? key = b.field? key := by
    intro key hkey htype
    have hnullable : key ≠ "nullable" := by
      rintro rfl
      revert hkey
      decide
    rw [← field?_settle a htype hnullable, h, field?_settle b htype hnullable]
  have hnotes : Annotations.read a = .read b := by
    rw [Annotations.read, Annotations.read, hreference, hother, h]
  have hsame := readAs_congr hfields (.read b) (.read b) (hreference.trans hother.symm) (by rw [h])
  rw [read_eq_readAs, read_eq_readAs, hnotes, hsame]
  cases hread : readAs (.read b) a with
  | error failure => rfl
  | ok fragment =>
      have hfragment : read (.map a) = .ok fragment := by
        rw [read_eq_readAs, hnotes, hread]
      have hkept : withNotes (.read b) fragment = fragment := by
        rw [← hnotes, ← notes_of_read hfragment, withNotes_notes]
      exact congrArg Except.ok hkept.symm

end Fragment

/-! ## Annotations of a schema -/

/-- The annotation that hides a property in a view. -/
def View.hidingKey : View → String
  | .read => "writeOnly"
  | .write => "readOnly"

def Value.allowsNull (type : Value) : Bool :=
  (soleKind false type).1 ||
    match (soleKind false type).2 with
    | .list types => types.contains nullKind
    | _ => false

namespace Annotations

theorem raw_read (schema : Entries) :
    (Annotations.read schema).raw =
      if schema.reference? = none then settle schema else schema := by
  unfold Annotations.read
  cases schema.reference? <;> rfl

theorem hiddenIn_read (schema : Entries) (view : View) :
    (Annotations.read schema).hiddenIn view = schema.isTrue view.hidingKey := by
  have hsettled : ∀ key, key ≠ "type" → key ≠ "nullable" →
      (settle schema).isTrue key = schema.isTrue key := by
    intro key htype hnullable
    rw [Entries.isTrue, Fragment.field?_settle schema htype hnullable, Entries.isTrue]
  have hread := hsettled "writeOnly" (by decide) (by decide)
  have hwrite := hsettled "readOnly" (by decide) (by decide)
  unfold Annotations.read
  cases schema.reference? with
  | some target => cases view <;> rfl
  | none =>
      cases view with
      | read => exact hread
      | write => exact hwrite

theorem nullable_read {schema : Entries} (hreference : schema.reference? = none) :
    (Annotations.read schema).nullable =
      (schema.isTrue "nullable" || (schema.field? "type").any Value.allowsNull) := by
  unfold Annotations.read
  rw [hreference]
  dsimp only
  rw [settle_isTrue_nullable, Entries.listsNull, settle_type]
  cases schema.field? "type" with
  | none => simp
  | some type =>
      cases hkind : (soleKind false type).2 <;>
        simp [Value.allowsNull, hkind, Bool.or_assoc]

end Annotations

/-! ## Types under other annotations -/

/-- A failure without the schema that it quotes. -/
def Failure.unquoted : Failure → Failure
  | .unknownType declared _ compiled => .unknownType declared [] compiled
  | failure => failure

theorem Failure.unquoted_worded (declared : DeclaredType) (definition : Entries) :
    (Failure.worded (.unknownType declared definition none)).unquoted =
      if declared.isWritable && (Value.map definition).isWritable then
        .unknownType declared [] none
      else .tooLong Numerals.digitLimit := by
  have hwritable : (Failure.unknownType declared definition none).isWritable =
      (declared.isWritable && (Value.map definition).isWritable) := Bool.and_true _
  rw [Failure.worded, hwritable]
  split <;> rfl

theorem primitiveType_unquoted {notes other : Annotations} {declared : DeclaredType}
    {format : Value}
    (h : (Value.map notes.raw).isWritable = (Value.map other.raw).isWritable ∨
      Succeeds (primitiveType other declared format)) :
    (primitiveType notes declared format).mapError Failure.unquoted =
      (primitiveType other declared format).mapError Failure.unquoted := by
  unfold primitiveType at h ⊢
  split
  · rfl
  · rfl
  · rfl
  · rfl
  · rcases h with hwritable | ⟨type, htype⟩
    · change Except.error _ = Except.error _
      rw [Failure.unquoted_worded, Failure.unquoted_worded, hwritable]
    · simp at htype

/-- The annotations of a fragment make its type nullable and are quoted by failures, as far as
they can be written. -/
theorem Scope.resolveWith_unquoted (s : Scope) (again : Fragment → Outcome TypeExpr)
    (fragment : Fragment) :
    ∃ core : Except Failure TypeExpr, ∀ notes,
      (Value.map notes.raw).isWritable = (Value.map fragment.notes.raw).isWritable ∨
          Succeeds core →
        (s.resolveWith again (fragment.withNotes notes)).result.mapError Failure.unquoted =
          notes.qualify <$> core := by
  cases fragment with
  | reference _ target =>
      refine ⟨(s.named target.name).mapError Failure.unquoted, fun notes _ => ?_⟩
      simp only [Fragment.withNotes, resolveWith, Outcome.result_map, mapError_map]
      rfl
  | primitive own declared format =>
      refine ⟨(primitiveType own declared format).mapError Failure.unquoted,
        fun notes hnotes => ?_⟩
      simp only [Fragment.withNotes, resolveWith, Outcome.result_map, mapError_map]
      refine congrArg _ (primitiveType_unquoted (hnotes.imp_right ?_))
      rintro ⟨type, htype⟩
      exact ⟨type, mapError_eq_ok_iff.mp htype⟩
  | choice _ values => exact ⟨.ok (choiceType s.view values), fun notes _ => rfl⟩
  | freeObject => exact ⟨.ok .freeMap, fun notes _ => rfl⟩
  | freeArray => exact ⟨.ok .freeList, fun notes _ => rfl⟩
  | object _ properties required =>
      refine ⟨((fun fields => .struct (fields.flatMap Option.toList)) <$>
        properties.mapM fun entry =>
          (s.field again entry.1 (required.any entry.1.sameKey) entry.2
            fun _ => s.resolveWith again entry.2).result).mapError Failure.unquoted,
        fun notes _ => ?_⟩
      rw [Fragment.withNotes, resolveWith_object, mapError_map, mapError_map, Functor.map_map]
  | array _ items =>
      refine ⟨(.list <$> (s.resolveWith again items).result).mapError Failure.unquoted,
        fun notes _ => ?_⟩
      rw [Fragment.withNotes, resolveWith_array, mapError_map, mapError_map, Functor.map_map]
  | oneOf own options discriminator =>
      refine ⟨(.unionOf <$> (s.resolveOptions again discriminator options).result).mapError
        Failure.unquoted, fun notes _ => ?_⟩
      rw [Fragment.withNotes, resolveWith, Outcome.result_map, mapError_map, mapError_map,
        Functor.map_map]
  | allOf _ parts =>
      refine ⟨(s.merged again parts id).result.mapError Failure.unquoted, fun notes _ => ?_⟩
      rw [Fragment.withNotes, resolveWith_allOf, mapError_map]
  | anyOf _ parts =>
      refine ⟨(s.merged again parts fun flat =>
        flat.dropField "required").result.mapError Failure.unquoted, fun notes _ => ?_⟩
      rw [Fragment.withNotes, resolveWith_anyOf, mapError_map]

theorem Scope.resolveWith_withNotes {s : Scope} {again : Fragment → Outcome TypeExpr}
    {fragment : Fragment} {t : TypeExpr}
    (h : (s.resolveWith again fragment).result = .ok t) :
    ∃ core, t = fragment.notes.qualify core ∧ ∀ notes,
      (s.resolveWith again (fragment.withNotes notes)).result =
        .ok (notes.qualify core) := by
  obtain ⟨core, hcore⟩ := s.resolveWith_unquoted again fragment
  have hown := hcore fragment.notes (.inl rfl)
  rw [Fragment.withNotes_notes, h] at hown
  obtain ⟨type, rfl, ht⟩ := map_eq_ok_iff.mp hown.symm
  refine ⟨type, ht.symm, fun notes => ?_⟩
  exact mapError_eq_ok_iff.mp (hcore notes (.inr (succeeds_ok type)))

end SchemaViews
