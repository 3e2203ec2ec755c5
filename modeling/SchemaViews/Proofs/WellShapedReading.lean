import SchemaViews.Proofs.WritableValues

/-!
# Reading well-shaped schemas

A well-shaped schema can be read, unless it enumerates an integer that is too
long to be written.  Its discriminators name a property by a text and map texts
to texts, and when all types are recognised every scalar in it has a type
expression.
-/

namespace SchemaViews

/-! ## Parts of a schema -/

theorem scalars?_texts (texts : List String) :
    scalars? (texts.map Value.str) = some (texts.map Scalar.str) := by
  induction texts with
  | nil => rfl
  | cons text rest ih => simp [scalars?, ih]

theorem requiredNames_texts (texts : List String) :
    requiredNames (.list (texts.map Value.str)) =
      .ok (Scalar.distinct (texts.map Scalar.str)) := by
  unfold requiredNames
  have hscalars : (Value.list (texts.map Value.str)).elements?.bind scalars? =
      some (texts.map Scalar.str) := scalars?_texts texts
  rw [hscalars]
  cases texts with
  | nil => rfl
  | cons text rest => rfl

section WellShaped

variable {known : String → Prop} {strict short : Prop} {schema : Entries}
  {allowed : Failure → Prop}

theorem Value.WellShaped.field {name : String} {v : Value}
    (h : (Value.map schema).WellShaped known strict)
    (hfield : schema.field? name = some v) :
    FieldShape known strict (.str name) v :=
  (h.entry hfield).1

theorem Value.WellShaped.exists_map {v : Value} (h : v.WellShaped known strict) :
    ∃ schema, v = .map schema := by
  obtain ⟨schema, hschema, _⟩ := h.here
  exact ⟨schema, hschema⟩

theorem Value.WellShaped.reference_known {target : Reference}
    (h : (Value.map schema).WellShaped known strict)
    (hreference : schema.reference? = some target) : known target.name := by
  unfold Entries.reference? at hreference
  split at hreference
  · rename_i found hfield
    cases hreference
    exact (h.field hfield).reference rfl target rfl
  · cases hreference

theorem composable_of_wellShaped {v : Value}
    (h : v.WellShaped known strict) : Arena.Composable v := by
  obtain ⟨raw, rfl⟩ := h.exists_map
  refine ⟨raw, rfl, fun key hkey parts hparts => ?_⟩
  obtain ⟨items, rfl⟩ := (h.field hparts).composition key hkey rfl
  exact ⟨items, rfl⟩

theorem requiredNames_wellShaped (h : (Value.map schema).WellShaped known strict) :
    Succeeds (requiredNames (schema.fieldOrNull "required")) := by
  unfold Entries.fieldOrNull
  cases hrequired : schema.field? "required" with
  | none => exact succeeds_ok []
  | some required =>
      obtain ⟨texts, rfl⟩ := (h.field hrequired).required rfl
      exact ⟨_, requiredNames_texts texts⟩

/-- What a discriminator of a well-shaped schema looks like. -/
def Discriminator.Textual (d : Discriminator) : Prop :=
  (∃ name, d.property = .str name) ∧
    ∀ entry ∈ d.mapping, TextEntry entry.1 entry.2

theorem readDiscriminator_wellShaped
    (h : (Value.map schema).WellShaped known strict) :
    ∃ discriminator, readDiscriminator schema = .ok discriminator ∧
      ∀ d, discriminator = some d → d.Textual := by
  unfold readDiscriminator
  split
  · rename_i entries hdiscriminator
    have hshape := (h.field hdiscriminator).discriminator rfl
    rw [Value.shaped_map_iff] at hshape
    split
    · rename_i property hproperty
      have hname := (hshape _ (OrderedMap.mem_of_find? hproperty)).property rfl
      have hmapping : ∃ mapping : Entries,
          mappingEntries (Entries.fieldOrNull entries "mapping") = .ok mapping ∧
            ∀ entry ∈ mapping, TextEntry entry.1 entry.2 := by
        have hempty : mappingEntries .null = .ok [] := rfl
        unfold Entries.fieldOrNull
        cases hfield : Entries.field? entries "mapping" with
        | none => exact ⟨[], hempty, by simp⟩
        | some mapping =>
            rcases (hshape _ (OrderedMap.mem_of_find? hfield)).mapping rfl with
              rfl | ⟨table, rfl, htable⟩
            · exact ⟨[], hempty, by simp⟩
            · refine ⟨table, ?_, htable⟩
              unfold mappingEntries
              cases table <;> rfl
      obtain ⟨mapping, hmapping, htargets⟩ := hmapping
      rw [hmapping]
      refine ⟨some ⟨property, mapping⟩, rfl, ?_⟩
      intro d hd
      cases hd
      exact ⟨hname, htargets⟩
    · exact ⟨none, rfl, by simp⟩
  · exact ⟨none, rfl, by simp⟩

theorem readSequence_wellShaped {key : String} {parts : Value}
    (hkey : key ∈ compositionKeys) (hfield : schema.field? key = some parts)
    (h : (Value.map schema).WellShaped known strict)
    (hinner : ∀ inner, (Value.map schema).Holds inner →
      FailsOnly allowed (Fragment.read inner)) :
    FailsOnly allowed (Fragment.readSequence parts) := by
  obtain ⟨items, rfl⟩ := (h.field hfield).composition key hkey rfl
  rw [Fragment.readSequence_eq]
  apply FailsOnly.mapM
  intro item hitem
  exact hinner item (.part (Value.combines_of_field hkey hfield rfl hitem))

/-! ## Schemas by kind -/

theorem readScalar_legible (notes : Annotations) (kind : String)
    (h : (Value.map schema).Legible known strict short)
    (hlong : ¬ short → allowed (.tooLong Numerals.digitLimit)) :
    FailsOnly allowed (readScalar notes kind schema) := by
  unfold readScalar
  dsimp only
  split
  · rename_i enum henum
    split
    · obtain ⟨values, rfl⟩ := (h.1.field henum).enum rfl
      refine FailsOnly.bind ?_ fun _ _ => failsOnly_ok _
      change FailsOnly allowed ((values.filter (· ≠ .null)).mapM Value.written)
      apply FailsOnly.mapM
      intro item hitem
      refine Value.written_failsOnly (fun hshort => ?_) hlong
      have hlist := Value.isWritable_list_iff.mp (Value.isWritable_field (h.2 hshort) henum)
      exact hlist item (List.mem_filter.mp hitem).1
    · exact failsOnly_ok _
  · exact failsOnly_ok _

theorem readObject_wellShaped (notes : Annotations)
    (h : (Value.map schema).WellShaped known strict)
    (hinner : ∀ inner, (Value.map schema).Holds inner →
      FailsOnly allowed (Fragment.read inner)) :
    FailsOnly allowed (Fragment.readObject notes schema) := by
  obtain ⟨required, hrequired⟩ := requiredNames_wellShaped h
  rw [Fragment.readObject]
  split
  · rename_i properties hproperties
    rw [mapM_attach (fun entry => do
      return (entry.1, ← Fragment.read entry.2)) properties]
    refine FailsOnly.bind (FailsOnly.mapM fun entry hentry => ?_) fun fragments _ => ?_
    · have hread := hinner entry.2 (.property (OrderedMap.mem_of_find? hproperties) hentry)
      exact hread.bind fun _ _ => failsOnly_ok _
    · rw [hrequired]
      exact failsOnly_ok _
  · rename_i other hnot hproperties
    obtain ⟨table, rfl, _⟩ := (h.field hproperties).properties rfl
    exact absurd rfl (hnot table)
  · exact failsOnly_ok _

theorem readComposition_wellShaped (notes : Annotations) (type : Option Value)
    (h : (Value.map schema).WellShaped known strict)
    (hinner : ∀ inner, (Value.map schema).Holds inner →
      FailsOnly allowed (Fragment.read inner)) :
    FailsOnly allowed (Fragment.readComposition notes schema type) := by
  rw [Fragment.readComposition.eq_def]
  split
  · rename_i options hone
    obtain ⟨discriminator, hdiscriminator, _⟩ := readDiscriminator_wellShaped h
    rw [hdiscriminator]
    have hoptions := readSequence_wellShaped (by simp [compositionKeys]) hone h hinner
    exact hoptions.bind fun _ _ => failsOnly_ok _
  · rename_i parts _ hall
    have hparts := readSequence_wellShaped (by simp [compositionKeys]) hall h hinner
    exact hparts.bind fun _ _ => failsOnly_ok _
  · rename_i parts _ _ hany
    have hparts := readSequence_wellShaped (by simp [compositionKeys]) hany h hinner
    exact hparts.bind fun _ _ => failsOnly_ok _
  · exact failsOnly_ok _
  · exact readObject_wellShaped notes h hinner

theorem read_legible {v : Value} (h : v.Legible known strict short)
    (hlong : ¬ short → allowed (.tooLong Numerals.digitLimit)) :
    FailsOnly allowed (Fragment.read v) := by
  induction hsize : v.size using Nat.strongRecOn generalizing v with
  | ind size ih =>
      obtain ⟨schema, rfl⟩ := h.1.exists_map
      have hinner : ∀ inner, (Value.map schema).Holds inner →
          FailsOnly allowed (Fragment.read inner) := fun inner hholds =>
        ih _ (hsize ▸ hholds.size_lt) (legible_invariant.inside h hholds) rfl
      unfold Fragment.read
      split
      · exact failsOnly_ok _
      · dsimp only
        split
        · rename_i types htype
          split
          · exact failsOnly_ok _
          · refine FailsOnly.bind (FailsOnly.mapM ?_) fun _ _ => failsOnly_ok _
            rintro ⟨kind, hkind⟩ _
            have hsettled := legible_invariant.settle h
            have hbare := legible_invariant.kind hsettled htype hkind
            have hmem := Value.size_lt_of_mem (List.mem_filter.mp hkind).1
            have htypeSize := settle_type_size htype
            refine ih _ ?_ hbare rfl
            simp only [Value.size, Value.entriesSize] at *
            omega
        · rename_i kind htype
          split
          · exact readScalar_legible _ kind h hlong
          · split
            · exact readObject_wellShaped _ h.1 hinner
            · split
              · split
                · rename_i items hitems
                  have hread := hinner items (.items (OrderedMap.mem_of_find? hitems))
                  exact hread.bind fun _ _ => failsOnly_ok _
                · exact failsOnly_ok _
              · exact readComposition_wellShaped _ _ h.1 hinner
        · exact readComposition_wellShaped _ _ h.1 hinner

theorem read_succeeds {v : Value} (h : v.Legible known strict True) :
    Succeeds (Fragment.read v) := by
  have hfails : FailsOnly (fun _ => False) (Fragment.read v) :=
    read_legible h fun hnot => hnot trivial
  rcases hfails.cases with hread | ⟨_, _, hfalse⟩
  · exact hread
  · exact hfalse.elim

/-! ## Fragments of legible schemas -/

namespace Fragment

variable {notes : Annotations}

theorem From.target_known {target : Reference}
    (h : (Fragment.reference notes target).From (Value.Legible known strict short)) :
    known target.name := by
  obtain ⟨schema, hschema, hreading⟩ := h.reading
  cases hreading with
  | reference hreference =>
      exact hschema.1.reference_known hreference

theorem From.textual {options : List Fragment} {d : Discriminator}
    (h : (Fragment.oneOf notes options (some d)).From
      (Value.Legible known strict short)) : d.Textual := by
  obtain ⟨schema, hschema, hreading⟩ := h.reading
  cases hreading with
  | oneOf _ _ _ hdiscriminator _ =>
      obtain ⟨found, hfound, htextual⟩ := readDiscriminator_wellShaped hschema.1
      rw [hdiscriminator, Except.ok.injEq] at hfound
      exact htextual d hfound.symm

theorem From.kind_of_recognised (hstrict : strict) {declared : DeclaredType}
    {format : Value} (h : (Fragment.primitive notes declared format).From
      (Value.Legible known strict short)) :
    ∃ kind ∈ scalarKinds, declared = .single (.str kind) := by
  obtain ⟨schema, hschema, hreading⟩ := h.reading
  have hrecognised : ∀ type, (settle schema).field? "type" = some type →
      type.Recognised := fun type htype =>
    (Value.WellShaped.field (wellShaped_invariant.settle hschema.1)
      htype).recognised hstrict rfl
  cases hreading with
  | scalar _ hkind _ => exact ⟨_, hkind, rfl⟩
  | @onlyNull _ types _ _ _ htype hnone =>
      rcases hrecognised _ htype with ⟨kind, _, hkind⟩ |
        ⟨kinds, hkinds, _, kind, hmem, hne⟩
      · cases hkind
      · have hlisted : Value.str kind ∈ kindsOf types := by
          rw [Value.list.inj hkinds]
          refine List.mem_filter.mpr ⟨List.mem_map_of_mem hmem, ?_⟩
          simpa [nullKind] using hne
        rw [hnone] at hlisted
        cases hlisted
  | unknown _ hopen htype =>
      rcases hrecognised _ htype with ⟨kind, hkind, rfl⟩ | ⟨kinds, rfl, _⟩
      · exact absurd htype (hopen.2 kind hkind)
      · exact absurd htype (hopen.1 _)

/-- All that is quoted of a schema of unknown type can be written, if the schema can. -/
theorem From.unknownType_isWritable (hshort : short) {declared : DeclaredType}
    {format : Value} (h : (Fragment.primitive notes declared format).From
      (Value.Legible known strict short)) :
    (Failure.unknownType declared notes.raw none).isWritable = true := by
  have hraw : (Value.map notes.raw).isWritable = true := (h.raw legible_invariant).2 hshort
  obtain ⟨schema, hschema, hreading⟩ := h.reading
  have htype : ∀ type, (settle schema).field? "type" = some type → type.isWritable = true :=
    fun type => Value.isWritable_field (writable_invariant.settle (hschema.2 hshort))
  have hdeclared : declared.isWritable = true := by
    cases hreading with
    | scalar => rfl
    | onlyNull _ _ hlisted => exact htype _ hlisted
    | unknown _ _ hfield => exact htype _ hfield
  simp [Failure.isWritable, hraw, hdeclared]

end Fragment

end WellShaped
end SchemaViews
