import SchemaViews.Proofs.PropertyVisibility

/-!
# Types of properties

A property has the type that its definition has at any other place, with one
exception: the keys beside an `allOf` are merged into the definition of a
property and left out elsewhere.  The type of such a property is that of the
merge.  If these keys are annotations, the two types still agree up to a null
that the property allows twice or takes back.
-/

namespace SchemaViews

/-- Whether all keys beside an `allOf` are annotations of it. -/
def Entries.annotatesParts (schema : Entries) : Prop :=
  ∀ key ∈ kindKeys, key ≠ "allOf" → schema.field? key = none

instance : DecidablePred Entries.annotatesParts := fun schema =>
  inferInstanceAs (Decidable (∀ key ∈ kindKeys, key ≠ "allOf" → schema.field? key = none))

namespace Entries.annotatesParts

variable {schema : Entries} (h : schema.annotatesParts)
include h

theorem type_none : schema.field? "type" = none :=
  h "type" (by decide) (by decide)

theorem settle_eq : settle schema = schema := by
  rw [settle, h.type_none]

theorem field?_besideAllOf {key : String} (hkey : key ∈ kindKeys) :
    schema.besideAllOf.field? key = none := by
  rw [besideAllOf, h.settle_eq, field?_dropField]
  by_cases hall : key = "allOf"
  · rw [if_pos hall]
  · rw [if_neg hall, h key hkey hall]

theorem nullable_besideAllOf :
    schema.besideAllOf.field? "nullable" = schema.field? "nullable" := by
  rw [besideAllOf, h.settle_eq, field?_dropField, if_neg (by decide)]

theorem isTrue_nullable_besideAllOf :
    schema.besideAllOf.isTrue "nullable" = schema.isTrue "nullable" := by
  rw [isTrue, h.nullable_besideAllOf, isTrue]

end Entries.annotatesParts

/-! ## Annotations over parts -/

theorem Value.mergeFields_eq_true_iff {old new : Option Value} :
    mergeFields old new = some (.bool true) ↔
      new = some (.bool true) ∨ new = none ∧ old = some (.bool true) := by
  cases new with
  | none => simp
  | some v =>
      cases v with
      | scalar s => simp
      | list items =>
          cases old with
          | none => simp
          | some old => cases old <;> simp [mergeFields, merge, Value.bool]
      | map entries =>
          cases old with
          | none => simp
          | some old => cases old <;> simp [mergeFields, merge, Value.bool]

namespace Arena

variable {flats : List Entries} {last : Entries}

theorem read_overlay_concat (hlast : OrderedMap.Distinct last)
    (hkeys : ∀ key ∈ kindKeys, last.field? key = none) :
    Fragment.read (.map (overlay (flats ++ [last]))) =
      Fragment.withNotes (.read (overlay (flats ++ [last]))) <$>
        Fragment.read (.map (overlay flats)) := by
  apply Fragment.read_congr
  · intro key hkey
    have hname : key ≠ referenceKey := by
      rintro rfl
      revert hkey
      decide
    rw [field?_overlay_concat hlast key hname, hkeys key hkey,
      Value.mergeFields_none_right]
  · rw [reference?_overlay, reference?_overlay]

theorem nullable_overlay_concat (hlast : OrderedMap.Distinct last)
    (hkeys : ∀ key ∈ kindKeys, last.field? key = none) :
    (Annotations.read (overlay (flats ++ [last]))).nullable =
      (last.isTrue "nullable" ||
        ((last.field? "nullable").isNone && (overlay flats).isTrue "nullable") ||
          ((overlay flats).field? "type").any Value.allowsNull) := by
  have hnullable : (overlay (flats ++ [last])).isTrue "nullable" =
      (last.isTrue "nullable" ||
        ((last.field? "nullable").isNone && (overlay flats).isTrue "nullable")) := by
    rw [Bool.eq_iff_iff]
    simp only [Entries.isTrue, field?_overlay_concat hlast "nullable" (by decide),
      decide_eq_true_eq, Value.mergeFields_eq_true_iff, Bool.or_eq_true, Bool.and_eq_true,
      Option.isNone_iff_eq_none]
  rw [Annotations.nullable_read (reference?_overlay _), hnullable,
    field?_overlay_concat hlast "type" (by decide), hkeys "type" (by decide),
    Value.mergeFields_none_right]

theorem reference?_of_merge {arena : Arena} {schemas : List Value} {flat : Entries}
    (h : (arena.merge schemas).result = .ok flat) : flat.reference? = none := by
  rw [merge_eq] at h
  obtain ⟨flats, _, rfl⟩ := map_eq_ok_iff.mp h
  exact reference?_overlay flats

end Arena

/-! ## The type of a property -/

namespace Scope

variable {s : Scope} {schema : Entries} {name : Scalar} {required : Bool}
  {notes : Annotations} {parts : List Fragment} {f : Field TypeExpr} {t : TypeExpr}

theorem resolve_withNotes {fragment : Fragment}
    (h : (s.resolve fragment).result = .ok t) :
    ∃ core, t = fragment.notes.qualify core ∧ ∀ notes,
      (s.resolve (fragment.withNotes notes)).result = .ok (notes.qualify core) := by
  obtain ⟨again, hagain, _⟩ := s.resolveWithin_eq_resolveWith s.context.arena.nesting
  unfold resolve at h ⊢
  rw [hagain] at h ⊢
  exact resolveWith_withNotes h

theorem resolve_allOf_eq_ok (h : (s.resolve (.allOf notes parts)).result = .ok t) :
    ∃ flat whole core,
      (s.context.arena.merge (parts.map Fragment.rawValue)).result = .ok flat ∧
        Fragment.read (.map flat) = .ok whole ∧
          (s.resolve whole).result = .ok core ∧ t = notes.qualify core := by
  obtain ⟨again, hagain, hsettles⟩ :=
    s.resolveWithin_eq_resolveWith s.context.arena.nesting
  rw [resolve, hagain, resolveWith_allOf, merged_eq] at h
  obtain ⟨core, hcore, rfl⟩ := map_eq_ok_iff.mp h
  obtain ⟨flat, hflat, hcore⟩ := bind_eq_ok_iff.mp hcore
  obtain ⟨whole, hwhole, hcore⟩ := bind_eq_ok_iff.mp hcore
  exact ⟨flat, whole, core, hflat, hwhole, (hsettles whole).eq_ok hcore, rfl⟩

theorem resolveProperty_eq_some {property : Fragment}
    (h : (s.resolveProperty name required property).result = .ok (some f)) :
    ∃ shown, s.context.arena.shown property = .ok shown ∧
      shownType s.resolve property shown (fun _ => s.resolve property) = .ok f.type := by
  obtain ⟨shown, hshown, hfield⟩ := field_eq_ok_iff.mp h
  rcases hfield with ⟨_, hnone⟩ | ⟨_, type, htype, hsome⟩
  · cases hnone
  · cases hsome
    exact ⟨shown, hshown, htype⟩

theorem resolveProperty_allOf_eq_some
    (hread : Fragment.read (.map schema) = .ok (.allOf notes parts))
    (h : (s.resolveProperty name required (.allOf notes parts)).result = .ok (some f)) :
    ∃ flat whole, (s.context.arena.merge (parts.map Fragment.rawValue ++
        [.map schema.besideAllOf])).result = .ok flat ∧
      Fragment.read (.map flat) = .ok whole ∧ (s.resolve whole).result = .ok f.type := by
  obtain ⟨shown, hshown, htype⟩ := resolveProperty_eq_some h
  obtain ⟨flat, hflat, hwhole⟩ := bind_eq_ok_iff.mp hshown
  rw [(Fragment.besideAllOf_of_read hread).1] at hflat
  exact ⟨flat, shown, hflat, hwhole, htype⟩

/-- Where annotations alone stand beside the parts, both types are that of the
merged parts under nullabilities of their own. -/
theorem resolveProperty_annotated (hproper : (Value.map schema).Proper)
    (hread : Fragment.read (.map schema) = .ok (.allOf notes parts))
    (hannotates : schema.annotatesParts)
    (hfield : (s.resolveProperty name required (.allOf notes parts)).result =
      .ok (some f))
    (hresolve : (s.resolve (.allOf notes parts)).result = .ok t) :
    ∃ flat core whole,
      (s.context.arena.merge (parts.map Fragment.rawValue)).result = .ok flat ∧
        t = notes.qualify ((Annotations.read flat).qualify core) ∧
          f.type = Annotations.qualify whole core ∧
            whole.nullable = (schema.isTrue "nullable" ||
              ((schema.field? "nullable").isNone && flat.isTrue "nullable") ||
                (flat.field? "type").any Value.allowsNull) := by
  have hlast := hproper.besideAllOf.distinct
  have hkeys : ∀ key ∈ kindKeys, schema.besideAllOf.field? key = none := fun _ =>
    hannotates.field?_besideAllOf
  obtain ⟨flat, bare, type, hflat, hbare, htype, rfl⟩ := resolve_allOf_eq_ok hresolve
  obtain ⟨all, whole, hall, hwhole, hshown⟩ := resolveProperty_allOf_eq_some hread hfield
  obtain ⟨flats, expansion, hflats, hexpansion, rfl⟩ := Arena.merge_concat_eq_ok_iff.mp hall
  have hreference := (Fragment.besideAllOf_of_read hread).2
  cases (Arena.expand_besideAllOf hreference
    (hannotates "anyOf" (by decide) (by decide))).symm.trans hexpansion
  have hsame : flat = Arena.overlay flats := by
    rw [Arena.merge_eq, hflats] at hflat
    exact (Except.ok.inj hflat).symm
  -- what is beside the parts changes no key that a fragment is read by
  rw [hsame] at hbare
  rw [Arena.read_overlay_concat hlast hkeys, hbare] at hwhole
  cases hwhole
  obtain ⟨core, rfl, hcore⟩ := resolve_withNotes htype
  refine ⟨flat, core, _, hflat, ?_, Except.ok.inj (hshown.symm.trans (hcore _)), ?_⟩
  · rw [Fragment.notes_of_read hbare, hsame]
  · rw [Arena.nullable_overlay_concat hlast hkeys, hsame,
      hannotates.isTrue_nullable_besideAllOf, hannotates.nullable_besideAllOf]

theorem resolveProperty_annotated_type (hproper : (Value.map schema).Proper)
    (hread : Fragment.read (.map schema) = .ok (.allOf notes parts))
    (hannotates : schema.annotatesParts)
    (hfield : (s.resolveProperty name required (.allOf notes parts)).result =
      .ok (some f))
    (hresolve : (s.resolve (.allOf notes parts)).result = .ok t) :
    (f.type = t ∨ t = .nullable f.type) ∧
      ((schema.field? "nullable" = none ∨ ∀ flat,
          (s.context.arena.merge (parts.map Fragment.rawValue)).result = .ok flat →
            (Annotations.read flat).nullable = false) → f.type = t) := by
  obtain ⟨flat, core, whole, hflat, rfl, htype, hwhole⟩ :=
    resolveProperty_annotated hproper hread hannotates hfield hresolve
  have hown : notes.nullable = schema.isTrue "nullable" := by
    have hnotes : notes = .read schema := Fragment.notes_of_read hread
    rw [hnotes, Annotations.nullable_read (Fragment.besideAllOf_of_read hread).2,
      hannotates.type_none]
    simp
  have hmerged : (Annotations.read flat).nullable =
      (flat.isTrue "nullable" || (flat.field? "type").any Value.allowsNull) :=
    Annotations.nullable_read (Arena.reference?_of_merge hflat)
  cases hkey : schema.field? "nullable" with
  | none =>
      have hequal : f.type = notes.qualify ((Annotations.read flat).qualify core) := by
        rw [htype]
        simp [Annotations.qualify, hown, hwhole, hmerged, Entries.isTrue, hkey]
      exact ⟨.inl hequal, fun _ => hequal⟩
  | some v =>
      by_cases hinner : (Annotations.read flat).nullable = true
      · constructor
        · by_cases hv : v = .bool true
          · right
            simp [htype, Annotations.qualify, hown, hwhole, hinner, Entries.isTrue,
              hkey, hv]
          · cases hlisted : (flat.field? "type").any Value.allowsNull <;>
              simp [htype, Annotations.qualify, hown, hwhole, hinner,
                Entries.isTrue, hkey, hv, hlisted]
        · rintro (hnone | hnot)
          · cases hnone
          · simp [hnot flat hflat] at hinner
      · have hequal : f.type = notes.qualify ((Annotations.read flat).qualify core) := by
          rw [Bool.not_eq_true] at hinner
          have hparts := hmerged.symm.trans hinner
          rw [Bool.or_eq_false_iff] at hparts
          simp [htype, Annotations.qualify, hown, hwhole, hinner, hkey, hparts.2]
        exact ⟨.inl hequal, fun _ => hequal⟩

/-- A property has the type of its definition, unless keys beside an `allOf` are
merged into it. -/
theorem resolveProperty_type {property : Fragment}
    (hproper : (Value.map schema).Proper)
    (hread : Fragment.read (.map schema) = .ok property)
    (hfield : (s.resolveProperty name required property).result = .ok (some f))
    (hresolve : (s.resolve property).result = .ok t) :
    ((∀ notes parts, property ≠ .allOf notes parts) → f.type = t) ∧
      ∀ notes parts, property = .allOf notes parts →
        (∃ flat, (s.context.arena.merge (parts.map Fragment.rawValue ++
            [.map schema.besideAllOf])).result = .ok flat ∧
          (resolveSchema s.context s.origin (.map flat)
            (.str s.view.name)).result = .ok f.type) ∧
        (schema.annotatesParts →
          (f.type = t ∨ t = .nullable f.type) ∧
            ((schema.field? "nullable" = none ∨ ∀ flat,
                (s.context.arena.merge (parts.map Fragment.rawValue)).result = .ok flat →
                  (Annotations.read flat).nullable = false) → f.type = t)) := by
  constructor
  · intro hnot
    obtain ⟨shown, _, htype⟩ := resolveProperty_eq_some hfield
    have hsame : shownType s.resolve property shown (fun _ => s.resolve property) =
        (s.resolve property).result := by
      cases property with
      | allOf notes parts => exact absurd rfl (hnot notes parts)
      | _ => rfl
    rw [hsame, hresolve] at htype
    exact (Except.ok.inj htype).symm
  · rintro notes parts rfl
    constructor
    · obtain ⟨flat, whole, hflat, hwhole, htype⟩ := resolveProperty_allOf_eq_some hread hfield
      refine ⟨flat, hflat, ?_⟩
      rw [resolveSchema_eq, hwhole]
      exact htype
    · exact fun hannotates =>
        resolveProperty_annotated_type hproper hread hannotates hfield hresolve

theorem resolveProperty_type_merges_siblings :
    let schema : Entries :=
      [(.str "allOf", .list [.map
          [(.str "type", .str "object"),
            (.str "properties", .map
              [(.str "a", .map [(.str "type", .str "string")])])]]),
        (.str "properties", .map
          [(.str "b", .map [(.str "type", .str "string")])])]
    let s : Scope := ⟨.read, ⟨[], [], []⟩, none⟩
    ∃ property f t, Fragment.read (.map schema) = .ok property ∧
      (s.resolveProperty (.str "p") true property).result = .ok (some f) ∧
        (s.resolve property).result = .ok t ∧ f.type ≠ t := by
  intro schema s
  let a : Field TypeExpr := ⟨.str "a", true, .primitive .string⟩
  let b : Field TypeExpr := ⟨.str "b", true, .primitive .string⟩
  have hrun : (Fragment.read (.map schema) >>= fun property =>
      (s.resolveProperty (.str "p") true property).result) =
        .ok (some ⟨.str "p", false, .struct [a, b]⟩) := by decide +kernel
  have halone : (Fragment.read (.map schema) >>= fun property =>
      (s.resolve property).result) = .ok (.struct [a]) := by decide +kernel
  obtain ⟨property, hread, hfield⟩ := bind_eq_ok_iff.mp hrun
  rw [hread] at halone
  exact ⟨property, _, _, hread, hfield, halone, by decide⟩

theorem resolveProperty_type_pet :
    let schema : Entries :=
      [(.str "allOf", .list [.map [(.str referenceKey, .ref { name := "Pet" })]]),
        (.str "description", .str "Its pet."), (.str "readOnly", .bool true)]
    let pet : Value := .map
      [(.str "type", .list [.str "object", .str "null"]),
        (.str "properties", .map
          [(.str "name", .map [(.str "type", .str "string")])])]
    let s : Scope :=
      ⟨.read, .uniform (.str "Models") (.str "Requests") [("Pet", pet)], none⟩
    let t : TypeExpr := .nullable (.struct [⟨.str "name", true, .primitive .string⟩])
    ∃ property f, Fragment.read (.map schema) = .ok property ∧
      (s.resolveProperty (.str "pet") true property).result = .ok (some f) ∧
        (s.resolve property).result = .ok t ∧ f.type = t := by
  intro schema pet s t
  have hproper : (Value.map schema).Proper := by decide
  have hrun : (Fragment.read (.map schema) >>= fun property =>
      (s.resolveProperty (.str "pet") true property).result) =
        .ok (some ⟨.str "pet", false, t⟩) := by decide +kernel
  have halone : (Fragment.read (.map schema) >>= fun property =>
      (s.resolve property).result) = .ok t := by decide +kernel
  obtain ⟨property, hread, hfield⟩ := bind_eq_ok_iff.mp hrun
  rw [hread] at halone
  have htype := resolveProperty_type hproper hread hfield halone
  refine ⟨property, _, hread, hfield, halone, ?_⟩
  by_cases hall : ∃ notes parts, property = .allOf notes parts
  · obtain ⟨notes, parts, hall⟩ := hall
    exact ((htype.2 notes parts hall).2 (by decide)).2 (.inl rfl)
  · exact htype.1 fun notes parts heq => hall ⟨notes, parts, heq⟩

end Scope
end SchemaViews
