import SchemaViews.Proofs.ReadAnnotations
import SchemaViews.Proofs.WritableValues

/-!
# Nullable types

Null is allowed by a key of its own or by the list of types.  Either way it ends up in
the annotations of the fragment, so it makes the type nullable at its top and leaves
everything else as it is, whatever the kind of the schema.  Beside a single kind, the
listed null is settled to the key before anything else is read.
-/

namespace SchemaViews

/-! ## Listed kinds -/

/-- A list of kinds that are named and not null. -/
def NamesKinds (types : List Value) : Prop :=
  ∀ type ∈ types, ∃ kind, type = .str kind ∧ kind ≠ "null"

theorem soleKind_str (nullable : Bool) (kind : String) :
    soleKind nullable (.str kind) = (nullable, .str kind) := by
  apply soleKind_of_not_sole
  intro types sole hlist
  cases hlist

theorem NamesKinds.contains_null {types : List Value} (h : NamesKinds types) :
    types.contains nullKind = false := by
  rw [List.contains_eq_mem, decide_eq_false_iff_not]
  intro hmem
  obtain ⟨kind, hkind, hother⟩ := h nullKind hmem
  cases hkind
  exact hother rfl

theorem NamesKinds.not_allowsNull {types : List Value} (h : NamesKinds types) :
    (Value.list types).allowsNull = false := by
  unfold Value.allowsNull
  by_cases hsole : ∃ kind, kindsOf types = [kind]
  · obtain ⟨kind, hkind⟩ := hsole
    have hmem : kind ∈ kindsOf types := by simp [hkind]
    obtain ⟨text, rfl, _⟩ := h kind (List.mem_filter.mp hmem).1
    rw [soleKind_sole hkind, h.contains_null, soleKind_str]
    rfl
  · have hmany : soleKind false (.list types) = (false, .list types) := by
      apply soleKind_of_not_sole
      intro others kind hlist hkind
      cases hlist
      exact hsole ⟨kind, hkind⟩
    rw [hmany]
    exact h.contains_null

theorem Value.not_allowsNull_of_not_list {type : Value} (h : ∀ types, type ≠ .list types) :
    type.allowsNull = false := by
  have hsame : soleKind false type = (false, type) :=
    soleKind_of_not_sole (fun types kind hlist => absurd hlist (h types)) false
  unfold Value.allowsNull
  rw [hsame]
  cases type with
  | scalar | map => rfl
  | list types => exact absurd rfl (h types)

theorem Value.not_allowsNull {type : Value} (h : ∀ types, type = .list types → NamesKinds types) :
    type.allowsNull = false := by
  cases type with
  | scalar | map => exact not_allowsNull_of_not_list (by simp)
  | list types => exact (h types rfl).not_allowsNull

/-! ## The key of nullability -/

theorem Annotations.qualify_of_nullable {notes : Annotations} (h : notes.nullable = true) :
    notes.qualify = TypeExpr.nullable := by
  funext type
  rw [Annotations.qualify, if_pos h]

theorem Annotations.qualify_of_not_nullable {notes : Annotations} (h : notes.nullable = false) :
    notes.qualify = id := by
  funext type
  simp [Annotations.qualify, h]

theorem Scope.resolve_unquoted (s : Scope) (fragment : Fragment) :
    ∃ core : Except Failure TypeExpr, ∀ notes,
      (Value.map notes.raw).isWritable = (Value.map fragment.notes.raw).isWritable ∨
          Succeeds core →
        (s.resolve (fragment.withNotes notes)).result.mapError Failure.unquoted =
          notes.qualify <$> core := by
  obtain ⟨again, hagain, _⟩ := s.resolveWithin_eq_resolveWith s.context.arena.nesting
  unfold resolve
  rw [hagain]
  exact s.resolveWith_unquoted again fragment

variable {schema : Entries}

theorem Annotations.nullable_setField
    (hkinds : ∀ types, schema.field? "type" = some (.list types) → NamesKinds types)
    (flag : Bool) :
    (Annotations.read (schema.setField "nullable" (.bool flag))).nullable = flag := by
  have htrue : (schema.setField "nullable" (.bool flag)).isTrue "nullable" = flag := by
    simp [Entries.isTrue, Entries.field?_setField]
  cases hreference : (schema.setField "nullable" (.bool flag)).reference? with
  | some target =>
      rw [Annotations.read_of_reference hreference]
      exact htrue
  | none =>
      have hnone : (schema.field? "type").any Value.allowsNull = false := by
        cases htype : schema.field? "type" with
        | none => rfl
        | some type =>
            have hnull : type.allowsNull = false :=
              Value.not_allowsNull fun types hlist => hkinds types (htype.trans (hlist ▸ rfl))
            simpa using hnull
      rw [Annotations.nullable_read hreference, htrue, Entries.field?_setField,
        if_neg (by decide), hnone, Bool.or_false]

theorem Fragment.read_setNullable (schema : Entries) (old new : Value) :
    Fragment.read (.map (schema.setField "nullable" new)) =
      Fragment.withNotes (.read (schema.setField "nullable" new)) <$>
        Fragment.read (.map (schema.setField "nullable" old)) := by
  have hsame : ∀ key, key ≠ "nullable" →
      (schema.setField "nullable" old).field? key =
        (schema.setField "nullable" new).field? key := by
    intro key hkey
    rw [Entries.field?_setField, if_neg hkey, Entries.field?_setField, if_neg hkey]
  apply Fragment.read_congr
  · intro key hkey
    apply hsame
    rintro rfl
    revert hkey
    decide
  · unfold Entries.reference?
    rw [hsame referenceKey (by decide)]

/-! ## What the key does to writing -/

def Entries.writable (entries : Entries) : OrderedMap Scalar Bool :=
  entries.map fun entry => (entry.1, entry.2.isWritable)

theorem Entries.writable_setField (entries : Entries) (name : String) (v : Value) :
    (entries.setField name v).writable =
      OrderedMap.insert entries.writable (.str name) v.isWritable := by
  unfold Entries.setField OrderedMap.insert
  induction entries with
  | nil => rfl
  | cons entry rest ih =>
      obtain ⟨key, old⟩ := entry
      by_cases hkey : key = .str name
      · simp [Entries.writable, OrderedMap.update, hkey]
      · simpa [Entries.writable, OrderedMap.update, hkey] using ih

theorem Value.isWritable_congr {a b : Entries} (h : a.writable = b.writable) :
    (Value.map a).isWritable = (Value.map b).isWritable := by
  have hall : ∀ entries : Entries, (Value.map entries).isWritable =
      entries.writable.all fun entry => entry.1.isWritable && entry.2 := by
    intro entries
    rw [Bool.eq_iff_iff, isWritable_map_iff]
    simp [Entries.writable]
  rw [hall, hall, h]

theorem writable_settle {a b : Entries} (h : a.writable = b.writable)
    (htype : a.field? "type" = b.field? "type") :
    (settle a).writable = (settle b).writable := by
  unfold settle
  rw [htype]
  split
  · split
    · simp only [Entries.writable_setField, h]
      rw [soleKind_eq, soleKind_eq (b.isTrue "nullable")]
      rfl
    · exact h
  · exact h

theorem Annotations.isWritable_setNullable (schema : Entries) (old new : Bool) :
    (Value.map (Annotations.read (schema.setField "nullable" (.bool new))).raw).isWritable =
      (Value.map (Annotations.read (schema.setField "nullable" (.bool old))).raw).isWritable := by
  have hfield : ∀ key, key ≠ "nullable" →
      (schema.setField "nullable" (.bool new)).field? key =
        (schema.setField "nullable" (.bool old)).field? key := by
    intro key hkey
    rw [Entries.field?_setField, if_neg hkey, Entries.field?_setField, if_neg hkey]
  have hwritable : (schema.setField "nullable" (.bool new)).writable =
      (schema.setField "nullable" (.bool old)).writable := by
    rw [Entries.writable_setField, Entries.writable_setField]
    rfl
  have hreference : (schema.setField "nullable" (.bool new)).reference? =
      (schema.setField "nullable" (.bool old)).reference? := by
    rw [Entries.reference?, hfield referenceKey (by decide), Entries.reference?]
  apply Value.isWritable_congr
  rw [raw_read, raw_read, hreference]
  split
  · exact writable_settle hwritable (hfield "type" (by decide))
  · exact hwritable

/-! ## Both notations -/

theorem settle_setType {kind : String} (hkind : kind ≠ "null") {types : List Value}
    (htypes : types = [.str kind, nullKind] ∨ types = [nullKind, .str kind]) :
    settle (schema.setField "type" (.list types)) =
      (schema.setField "type" (.str kind)).setField "nullable" (.bool true) := by
  have hkinds : kindsOf types = [.str kind] := by
    rcases htypes with rfl | rfl <;> simp [kindsOf, nullKind, hkind]
  have hnull : types.contains nullKind = true := by
    rcases htypes with rfl | rfl <;> simp [nullKind]
  have htype : (schema.setField "type" (.list types)).field? "type" = some (.list types) := by
    rw [Entries.field?_setField, if_pos rfl]
  rw [settle, htype]
  dsimp only
  rw [hkinds]
  dsimp only
  rw [soleKind_sole hkinds, hnull, Bool.or_true, soleKind_str, Entries.setField_setField]

theorem settle_str {kind : String} (h : schema.field? "type" = some (.str kind)) :
    settle schema = schema := by
  rw [settle, h]

theorem Fragment.read_setType (hreference : schema.reference? = none) {kind : String}
    (hkind : kind ≠ "null") {types : List Value}
    (htypes : types = [.str kind, nullKind] ∨ types = [nullKind, .str kind]) :
    Fragment.read (.map (schema.setField "type" (.list types))) =
      Fragment.read (.map
        ((schema.setField "type" (.str kind)).setField "nullable" (.bool true))) := by
  apply Fragment.read_eq_of_settle
  · rw [Entries.reference?, Entries.field?_setField, if_neg (by decide)]
    exact hreference
  · rw [settle_setType hkind htypes, settle_str]
    rw [Entries.field?_setField, if_neg (by decide), Entries.field?_setField, if_pos rfl]

/-- The key of nullability puts the type of any schema that lists no null under a
nullable type, and changes no failure but in the schema that it quotes.  A null listed
beside a kind is the same as that key beside the kind. -/
theorem resolveSchema_nullable (c : Context) (origin : Option String) (view : View)
    (schema : Entries) :
    ((∀ types, schema.field? "type" = some (.list types) → NamesKinds types) →
      (resolveSchema c origin (.map (schema.setField "nullable" (.bool true)))
          (.str view.name)).result.mapError Failure.unquoted =
        TypeExpr.nullable <$>
          (resolveSchema c origin (.map (schema.setField "nullable" (.bool false)))
            (.str view.name)).result.mapError Failure.unquoted) ∧
    (schema.reference? = none → ∀ kind types, kind ≠ "null" →
      types = [.str kind, nullKind] ∨ types = [nullKind, .str kind] →
        (resolveSchema c origin (.map (schema.setField "type" (.list types)))
            (.str view.name)).result =
          (resolveSchema c origin (.map
            ((schema.setField "type" (.str kind)).setField "nullable" (.bool true)))
            (.str view.name)).result) := by
  refine ⟨fun hkinds => ?key, fun hreference kind types hkind htypes => ?listed⟩
  case key =>
    rw [resolveSchema_eq, resolveSchema_eq,
      Fragment.read_setNullable schema (.bool false) (.bool true)]
    cases hread : Fragment.read (.map (schema.setField "nullable" (.bool false))) with
    | error failure => rfl
    | ok fragment =>
        obtain ⟨core, hcore⟩ := Scope.resolve_unquoted ⟨view, c, origin⟩ fragment
        have hon : (Annotations.read (schema.setField "nullable" (.bool true))).qualify =
            TypeExpr.nullable :=
          Annotations.qualify_of_nullable (Annotations.nullable_setField hkinds true)
        have hoff : fragment.notes.qualify = id := by
          apply Annotations.qualify_of_not_nullable
          rw [Fragment.notes_of_read hread, Annotations.nullable_setField hkinds]
        have hplain := hcore fragment.notes (.inl rfl)
        have hnotes := Fragment.notes_of_read hread
        rw [Fragment.withNotes_notes, hoff, id_map] at hplain
        change (Scope.resolve ⟨view, c, origin⟩ (fragment.withNotes _)).result.mapError _ =
          _ <$> (Scope.resolve ⟨view, c, origin⟩ fragment).result.mapError _
        rw [hcore _ (.inl ?_), hon, hplain]
        rw [hnotes]
        exact Annotations.isWritable_setNullable schema false true
  case listed =>
    rw [resolveSchema_eq, resolveSchema_eq, Fragment.read_setType hreference hkind htypes]

theorem resolveSchema_nullable_pet :
    let owner : Value := .map [(.str referenceKey, .ref { name := "Owner" })]
    let properties : Value := .map [(.str "owner", owner), (.str "tags", .map
      [(.str "type", .list [.str "array", nullKind])])]
    let pet : Entries :=
      [(.str "type", .list [.str "object"]), (.str "properties", properties)]
    let c : Context := .uniform (.str "Models") (.str "Requests")
      [("Owner", .map [(.str "type", .str "string")])]
    let resolved (schema : Entries) : Except Failure TypeExpr :=
      (resolveSchema c none (.map schema) (.str View.read.name)).result
    let t : TypeExpr := .struct
      [⟨.str "owner", true, .named (.str "Models") "Owner"⟩,
        ⟨.str "tags", true, .nullable .freeList⟩]
    resolved (pet.setField "nullable" (.bool false)) = .ok t ∧
      resolved (pet.setField "nullable" (.bool true)) = .ok (.nullable t) ∧
      resolved (pet.setField "type" (.list [nullKind, .str "object"])) =
        .ok (.nullable t) := by
  intro owner properties pet c resolved t
  have hkinds : ∀ types, pet.field? "type" = some (.list types) → NamesKinds types := by
    intro types htypes
    cases htypes
    simp [NamesKinds]
  have hplain : resolved (pet.setField "nullable" (.bool false)) = .ok t := by
    decide +kernel
  have hkey : (resolved (pet.setField "nullable" (.bool true))).mapError Failure.unquoted =
      TypeExpr.nullable <$>
        (resolved (pet.setField "nullable" (.bool false))).mapError Failure.unquoted :=
    (resolveSchema_nullable c none .read pet).1 hkinds
  have hlisted := (resolveSchema_nullable c none .read pet).2 rfl "object"
    [nullKind, .str "object"] (by decide) (.inr rfl)
  rw [hplain] at hkey
  refine ⟨hplain, mapError_eq_ok_iff.mp hkey, hlisted.trans ?_⟩
  decide +kernel

end SchemaViews
