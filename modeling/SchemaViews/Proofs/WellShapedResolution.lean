import SchemaViews.Proofs.MergedFragments
import SchemaViews.Proofs.AcyclicComposition

/-!
# Resolving well-shaped schemas

On well-shaped schemas every step of a resolution goes through, apart from the
expansions, the fragments that are reopened, scalars of unknown type, and the
writing of integers that are too long for it.  So a resolution fails in no other
ways than these do.
-/

namespace SchemaViews

/-- A context in which every component has its module in each view. -/
def Context.Covers (c : Context) : Prop :=
  ∀ view name, c.arena.Knows name → Succeeds (c.moduleOf view name)

/-! ## Tags -/

namespace Discriminator

theorem keyFor?_succeeds (path : List String)
    {mapping : OrderedMap Scalar Value}
    (h : ∀ entry ∈ mapping, TextEntry entry.1 entry.2) :
    ∃ key, keyFor? path mapping = .ok key ∧ ∀ found ∈ key, ∃ text, found = .str text := by
  induction mapping with
  | nil => exact ⟨none, rfl, by simp⟩
  | cons entry rest ih =>
      obtain ⟨key, target⟩ := entry
      rw [List.forall_mem_cons] at h
      obtain ⟨⟨⟨name, rfl⟩, text, rfl⟩, hrest⟩ := h
      rw [keyFor?]
      split
      · exact ⟨some (.str name), rfl, by simp⟩
      · exact ih hrest

theorem Gives.exists_str {d : Discriminator} {tag : Scalar} (h : d.Gives tag)
    (hd : d.Textual) : ∃ text, tag = .str text := by
  obtain ⟨arena, option, htag⟩ := h
  cases option with
  | reference notes target =>
      obtain ⟨found, hfound, htext⟩ := keyFor?_succeeds target.path hd.2
      obtain ⟨key, hkey, htag⟩ := bind_eq_ok_iff.mp ((Outcome.result_bind ..).symm.trans htag)
      cases Except.ok.inj (hfound.symm.trans hkey)
      have htag := pure_eq_ok_iff.mp htag
      cases found with
      | none =>
          cases htag
          exact ⟨target.name, rfl⟩
      | some key =>
          obtain ⟨text, rfl⟩ := htext key rfl
          cases htag
          exact ⟨text, rfl⟩
  | primitive | choice | object | freeObject | array | freeArray | oneOf | allOf
  | anyOf =>
      obtain ⟨flat, -, htag⟩ := bind_eq_ok_iff.mp ((Outcome.result_bind ..).symm.trans htag)
      obtain ⟨declared, -, htag⟩ := bind_eq_ok_iff.mp ((Outcome.result_bind ..).symm.trans htag)
      obtain ⟨text, _, rfl⟩ := Option.map_eq_some_iff.mp (pure_eq_ok_iff.mp htag)
      exact ⟨text, rfl⟩

variable {known : String → Prop} {strict short : Prop} {allowed : Failure → Prop}

theorem legible_tag {notes : Annotations} {options : List Fragment} {d : Discriminator}
    (h : (Fragment.oneOf notes options (some d)).From (Value.Legible known strict short))
    (name tag : Scalar) (hname : d.property = .scalar name) (htag : d.Gives tag) :
    (tagObject name tag).Legible known strict short := by
  obtain ⟨property, hproperty⟩ := h.textual.1
  obtain ⟨text, rfl⟩ := htag.exists_str h.textual
  rw [hproperty] at hname
  cases hname
  exact legible_tagObject property text

theorem declaredValue?_failsOnly {schema : Entries}
    (h : short → (Value.map schema).isWritable = true)
    (hlong : ¬ short → allowed (.tooLong Numerals.digitLimit)) :
    FailsOnly allowed (declaredValue? schema) := by
  unfold declaredValue?
  cases hconst : schema.field? "const" with
  | some constant =>
      refine FailsOnly.map (Value.written_failsOnly (fun hshort => ?_) hlong) _
      exact Value.isWritable_field (h hshort) hconst
  | none =>
      dsimp only
      split
      · rename_i item henum
        refine FailsOnly.map (Value.written_failsOnly (fun hshort => ?_) hlong) _
        have hlist := Value.isWritable_field (h hshort) henum
        exact Value.isWritable_list_iff.mp hlist item (List.mem_singleton_self _)
      · exact failsOnly_ok none

theorem declaredTag_failsOnly {flat : Entries} (name : String)
    (h : (Value.map flat).Legible known strict short)
    (hlong : ¬ short → allowed (.tooLong Numerals.digitLimit)) :
    FailsOnly allowed (declaredTag (.str name) flat) := by
  unfold declaredTag
  dsimp only
  cases hfield : flat.field? "properties" with
  | none =>
      have hnull : flat.fieldOrNull "properties" = .null := by
        rw [Entries.fieldOrNull, hfield]
        rfl
      rw [hnull]
      exact failsOnly_ok none
  | some properties =>
      obtain ⟨table, rfl, _⟩ := (h.1.field hfield).properties rfl
      have htable : flat.fieldOrNull "properties" = .map table := by
        rw [Entries.fieldOrNull, hfield]
        rfl
      rw [htable]
      dsimp only
      split
      · rename_i schema hschema
        rw [ScalarMap.find?_str] at hschema
        refine declaredValue?_failsOnly (fun hshort => ?_) hlong
        have hentries := Value.isWritable_field (h.2 hshort) hfield
        exact Value.isWritable_field hentries hschema
      · exact failsOnly_ok none

end Discriminator

/-! ## Failures -/

theorem primitiveType_error {notes : Annotations} {declared : DeclaredType}
    {format : Value} {failure : Failure}
    (h : primitiveType notes declared format = .error failure) :
    failure = Failure.worded (.unknownType declared notes.raw none) ∧
      ∀ kind ∈ scalarKinds, declared ≠ .single (.str kind) := by
  unfold primitiveType at h
  split at h
  · cases h
  · cases h
  · split at h <;> cases h
  · cases h
  · rename_i hstring hboolean hnumber hinteger
    cases h
    refine ⟨rfl, fun kind hkind => ?_⟩
    simp only [scalarKinds, List.mem_cons, List.not_mem_nil, or_false] at hkind
    rcases hkind with rfl | rfl | rfl | rfl
    · exact hstring
    · exact hboolean
    · exact hnumber
    · exact hinteger

section Failures

variable {s : Scope} {strict short : Prop} {allowed : Failure → Prop}
  (harena : ∀ entry ∈ s.context.arena,
    entry.2.Legible s.context.arena.Knows strict short)
  (hlong : ¬ short → allowed (.tooLong Numerals.digitLimit))
  (hexpand : ∀ {schema : Value}, schema.WellShaped s.context.arena.Knows strict →
    FailsOnly allowed (s.context.arena.expand schema).result)

section Merging

include hexpand

theorem merge_failsOnly_wellShaped {schemas : List Value}
    (h : ∀ schema ∈ schemas, schema.WellShaped s.context.arena.Knows strict) :
    FailsOnly allowed (s.context.arena.merge schemas).result :=
  Arena.merge_failsOnly fun schema hschema => hexpand (h schema hschema)

theorem mergeParts_failsOnly_legible {parts : List Fragment}
    (h : ∀ part ∈ parts,
      part.From (Value.Legible s.context.arena.Knows strict short)) :
    FailsOnly allowed
      (s.context.arena.merge (parts.map Fragment.rawValue)).result := by
  apply merge_failsOnly_wellShaped hexpand
  intro schema hschema
  obtain ⟨part, hpart, rfl⟩ := List.mem_map.mp hschema
  exact ((h part hpart).raw legible_invariant).1

include harena hlong

theorem tag_failsOnly_legible {d : Discriminator} (hd : d.Textual)
    {option : Fragment}
    (hoption : option.From (Value.Legible s.context.arena.Knows strict short)) :
    FailsOnly allowed (d.tag s.context.arena option).result := by
  have hmerged : FailsOnly allowed
      (s.context.arena.merge [option.rawValue] >>= fun flat => do
        let declared ← (Discriminator.declaredTag d.property flat :
          Outcome (Option String))
        return declared.map Scalar.str).result := by
    have hraw := hoption.raw legible_invariant
    have hmem : ∀ schema ∈ [option.rawValue],
        schema.Legible s.context.arena.Knows strict short := by simpa using hraw
    rw [Outcome.result_bind]
    have hwellShaped := fun schema hschema => (hmem schema hschema).1
    refine (merge_failsOnly_wellShaped hexpand hwellShaped).bind fun flat hflat => ?_
    have hshaped := (Arena.expandable_of_forall legible_invariant harena).merge
      legible_invariant hmem hflat
    obtain ⟨name, hname⟩ := hd.1
    rw [Outcome.result_bind, hname]
    exact (Discriminator.declaredTag_failsOnly name hshaped hlong).bind
      fun _ _ => failsOnly_ok _
  cases option with
  | reference notes target =>
      obtain ⟨key, hkey, _⟩ := Discriminator.keyFor?_succeeds target.path hd.2
      apply FailsOnly.of_succeeds
      unfold Discriminator.tag
      rw [Outcome.result_bind]
      exact succeeds_bind_iff.mpr ⟨key, hkey, succeeds_ok _⟩
  | primitive | choice | object | freeObject | array | freeArray | oneOf | allOf
  | anyOf => exact hmerged

omit harena hlong in
theorem taggedOption_failsOnly_legible {d : Discriminator} (hd : d.Textual)
    {option : Fragment} (tag : Scalar)
    (hoption : option.From (Value.Legible s.context.arena.Knows strict short)) :
    FailsOnly allowed (Discriminator.taggedOption s.context.arena option.rawValue
      d.property tag).result := by
  obtain ⟨name, hname⟩ := hd.1
  rw [hname, Discriminator.taggedOption_eq]
  refine FailsOnly.map (merge_failsOnly_wellShaped hexpand ?_) _
  have hraw := (hoption.raw legible_invariant).1
  have htagged : (Discriminator.tagObject (.str name) tag).WellShaped
      s.context.arena.Knows strict := wellShaped_tagObject name tag
  simpa using ⟨hraw, htagged⟩

theorem shown_failsOnly_legible {property : Fragment}
    (hproperty : property.From (Value.Legible s.context.arena.Knows strict short)) :
    FailsOnly allowed (s.context.arena.shown property) := by
  cases property with
  | allOf notes parts =>
      have hmem : ∀ schema ∈ parts.map Fragment.rawValue ++
          [.map (notes.raw.dropField "allOf")],
          schema.Legible s.context.arena.Knows strict short := by
        intro schema hschema
        rcases List.mem_append.mp hschema with hschema | hschema
        · obtain ⟨part, hpart, rfl⟩ := List.mem_map.mp hschema
          exact (Fragment.From.part legible_invariant (.inl hproperty)
            hpart).raw legible_invariant
        · rw [List.mem_singleton.mp hschema]
          exact legible_invariant.drop _ (hproperty.raw legible_invariant)
      have hwellShaped := fun schema hschema => (hmem schema hschema).1
      refine (merge_failsOnly_wellShaped hexpand hwellShaped).bind fun flat hflat => ?_
      have hshaped := (Arena.expandable_of_forall legible_invariant
        harena).merge legible_invariant hmem hflat
      exact read_legible hshaped hlong
  | reference | primitive | choice | object | freeObject | array | freeArray
  | oneOf | anyOf => exact failsOnly_ok _

end Merging

section Step

variable {again : Fragment → Outcome TypeExpr} {notes : Annotations}

omit harena hlong hexpand in
theorem named_succeeds (hcovers : s.context.Covers) {name : String}
    (h : s.context.arena.Knows name) : Succeeds (s.named name) := by
  unfold Scope.named
  split
  · exact succeeds_ok _
  · obtain ⟨module, hmodule⟩ := hcovers s.view _ h
    exact succeeds_bind_iff.mpr ⟨module, hmodule, succeeds_ok _⟩

section Kinds

variable (hunknown : ∀ {declared definition},
    (Failure.unknownType declared definition none).isWritable = true → ¬ strict →
      allowed (.unknownType declared definition none))
include hlong hunknown

omit harena hexpand in
theorem primitiveType_failsOnly_legible {declared : DeclaredType} {format : Value}
    (hfragment : (Fragment.primitive notes declared format).From
      (Value.Legible s.context.arena.Knows strict short)) :
    FailsOnly allowed (primitiveType notes declared format) := by
  intro failure hfailure
  obtain ⟨rfl, hnoKind⟩ := primitiveType_error hfailure
  refine Failure.allowed_worded (fun hwritable => hunknown hwritable ?_)
    (fun hshort => hfragment.unknownType_isWritable hshort) hlong
  intro hstrict
  obtain ⟨kind, hkind, hdeclared⟩ := hfragment.kind_of_recognised hstrict
  exact hnoKind kind hkind hdeclared

end Kinds

include harena hlong hexpand

theorem field_failsOnly_legible {properties : List (Scalar × Fragment)}
    {required : List Scalar} {entry : Scalar × Fragment} (hentry : entry ∈ properties)
    (hproperty : entry.2.From (Value.Legible s.context.arena.Knows strict short))
    (hown : (∀ whole, s.Reopens entry.2 whole → FailsOnly allowed (again whole).result) →
      FailsOnly allowed (s.resolveWith again entry.2).result)
    (hagain : ∀ whole, s.Reopens (.object notes properties required) whole →
      FailsOnly allowed (again whole).result) (mandatory : Bool) :
    FailsOnly allowed (s.field again entry.1 mandatory entry.2
      fun _ => s.resolveWith again entry.2).result := by
  rw [Scope.field_eq]
  refine (shown_failsOnly_legible harena hlong hexpand hproperty).bind ?_
  intro shown hshown
  split
  · exact failsOnly_ok _
  · rename_i hvisible
    rw [Bool.not_eq_true] at hvisible
    apply FailsOnly.map
    obtain ⟨name, property⟩ := entry
    cases property with
    | allOf inner parts => exact hagain shown (.field hentry hshown hvisible)
    | reference | primitive | choice | object | freeObject | array | freeArray
    | oneOf | anyOf =>
        cases hshown
        refine hown fun whole hwhole => ?_
        refine hagain whole (.property hentry ?_ hvisible hwhole)
        intro inner parts hcomposed
        cases hcomposed

theorem alternative_failsOnly_legible {options : List Fragment} {d : Discriminator}
    (hfragment : (Fragment.oneOf notes options (some d)).From
      (Value.Legible s.context.arena.Knows strict short))
    {option : Fragment} (hoption : option ∈ options)
    (hown : (∀ whole, s.Reopens option whole → FailsOnly allowed (again whole).result) →
      FailsOnly allowed (s.resolveWith again option).result)
    (hagain : ∀ whole, s.Reopens (.oneOf notes options (some d)) whole →
      FailsOnly allowed (again whole).result) :
    FailsOnly allowed (s.alternative again d option
      fun _ => s.resolveWith again option).result := by
  have hfrom := hfragment.option legible_invariant hoption
  rw [Scope.alternative_eq]
  refine (tag_failsOnly_legible harena hlong hexpand hfragment.textual hfrom).bind ?_
  intro tag htag
  cases tag with
  | none => exact hown fun whole hwhole => hagain whole (.untagged hoption htag hwhole)
  | some tag =>
      have hgives : d.Gives tag := ⟨_, _, htag⟩
      refine (taggedOption_failsOnly_legible hexpand hfragment.textual tag hfrom).bind ?_
      intro flat hflat
      have hshaped := (Arena.expandable_of_forall legible_invariant harena).taggedOption
        legible_invariant (hfrom.raw legible_invariant)
        (fun name hname => Discriminator.legible_tag hfragment name tag hname hgives) hflat
      refine (read_legible hshaped hlong).bind ?_
      intro whole hread
      exact hagain whole (.tagged hoption htag hflat hread)

/-- What is kept of a merge is read again. -/
theorem merged_failsOnly_legible {parts : List Fragment} {keep : Entries → Entries}
    (hparts : ∀ part ∈ parts, part.From (Value.Legible s.context.arena.Knows strict short))
    (hkeep : ∀ flat : Entries, (Value.map flat).Legible s.context.arena.Knows strict short →
      (Value.map (keep flat)).Legible s.context.arena.Knows strict short)
    (hagain : ∀ flat whole,
      (s.context.arena.merge (parts.map Fragment.rawValue)).result = .ok flat →
        Fragment.read (.map (keep flat)) = .ok whole → FailsOnly allowed (again whole).result) :
    FailsOnly allowed (s.merged again parts keep).result := by
  rw [Scope.merged_eq]
  refine (mergeParts_failsOnly_legible hexpand hparts).bind fun flat hflat => ?_
  have hshaped := hkeep flat (Fragment.From.merge legible_invariant harena hparts hflat)
  exact (read_legible hshaped hlong).bind fun whole hread => hagain flat whole hflat hread

theorem resolveWith_failsOnly_legible (hcovers : s.context.Covers)
    (hunknown : ∀ {declared definition},
      (Failure.unknownType declared definition none).isWritable = true → ¬ strict →
        allowed (.unknownType declared definition none)) {fragment : Fragment}
    (hfragment : fragment.From (Value.Legible s.context.arena.Knows strict short))
    (hagain : ∀ whole, s.Reopens fragment whole →
      FailsOnly allowed (again whole).result) :
    FailsOnly allowed (s.resolveWith again fragment).result := by
  induction fragment using Fragment.induction with
  | reference notes target =>
      simp only [Scope.resolveWith, Outcome.result_map]
      exact FailsOnly.map (FailsOnly.of_succeeds (named_succeeds hcovers hfragment.target_known)) _
  | primitive notes declared format =>
      simp only [Scope.resolveWith, Outcome.result_map]
      exact FailsOnly.map (primitiveType_failsOnly_legible hlong hunknown hfragment) _
  | choice notes values format => exact failsOnly_ok _
  | object notes properties required ih =>
      rw [Scope.resolveWith_object]
      refine FailsOnly.map (FailsOnly.mapM fun entry hentry => ?_) _
      have hproperty := hfragment.property legible_invariant hentry
      exact field_failsOnly_legible harena hlong hexpand hentry hproperty
        (ih entry hentry hproperty) hagain _
  | freeObject notes => exact failsOnly_ok _
  | array notes items ih =>
      rw [Scope.resolveWith_array]
      apply FailsOnly.map
      exact ih (hfragment.items legible_invariant) fun whole hwhole =>
        hagain whole (.items hwhole)
  | freeArray notes => exact failsOnly_ok _
  | oneOf notes options discriminator ih =>
      rw [Scope.resolveWith_oneOf]
      refine FailsOnly.map (FailsOnly.mapM fun option hoption => ?_) _
      have hown := ih option hoption (hfragment.option legible_invariant hoption)
      cases discriminator with
      | none => exact hown fun whole hwhole => hagain whole (.option hoption hwhole)
      | some d =>
          exact alternative_failsOnly_legible harena hlong hexpand hfragment hoption hown hagain
  | allOf notes parts ih =>
      rw [Scope.resolveWith_allOf]
      apply FailsOnly.map
      refine merged_failsOnly_legible harena hlong hexpand
        (fun part => Fragment.From.part legible_invariant (.inl hfragment))
        (fun flat hflat => hflat) ?_
      exact fun flat whole hflat hread => hagain whole (.allOf hflat hread)
  | anyOf notes parts ih =>
      rw [Scope.resolveWith_anyOf]
      apply FailsOnly.map
      refine merged_failsOnly_legible harena hlong hexpand
        (fun part => Fragment.From.part legible_invariant (.inr hfragment))
        (fun flat hflat => legible_invariant.drop "required" hflat) ?_
      exact fun flat whole hflat hread => hagain whole (.anyOf hflat hread)

end Step

end Failures
end SchemaViews
