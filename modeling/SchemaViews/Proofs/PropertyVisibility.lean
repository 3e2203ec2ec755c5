import SchemaViews.Proofs.OverlayLaws
import SchemaViews.Proofs.ProperValues
import SchemaViews.Proofs.ReadAnnotations

/-!
# Visibility of a property

A property that carries the annotation which hides it in a view has no field in
that view.  There is one exception: beside an `allOf`, an `anyOf` stands for all
keys of the property, so that only the annotations in its parts and in those of
the `allOf` count.
-/

namespace SchemaViews

instance : DecidableEq (Field TypeExpr) := fun a b =>
  decidable_of_iff (a.name = b.name ∧ a.optional = b.optional ∧ a.type = b.type) (by
    cases a
    cases b
    simp)

/-- The keys that stand beside the parts of an `allOf`, as it is read. -/
def Entries.besideAllOf (schema : Entries) : Entries :=
  (settle schema).dropField "allOf"

namespace Entries

theorem field?_besideAllOf (schema : Entries) {name : String}
    (hname : name ∉ ["type", "nullable", "allOf"]) :
    schema.besideAllOf.field? name = schema.field? name := by
  simp only [List.mem_cons, List.not_mem_nil, or_false, not_or] at hname
  rw [besideAllOf, field?_dropField, if_neg hname.2.2,
    Fragment.field?_settle schema hname.1 hname.2.1]

theorem field?_besideAllOf_allOf (schema : Entries) :
    schema.besideAllOf.field? "allOf" = none := by
  rw [besideAllOf, field?_dropField, if_pos rfl]

theorem reference?_besideAllOf (schema : Entries) :
    schema.besideAllOf.reference? = schema.reference? := by
  rw [reference?, field?_besideAllOf schema (by decide), reference?]

end Entries

theorem Value.Proper.besideAllOf {schema : Entries} (h : (Value.map schema).Proper) :
    (Value.map schema.besideAllOf).Proper :=
  (proper_invariant.settle h).dropField "allOf"

namespace Arena

variable {arena : Arena} {schema : Entries}

theorem expand_besideAllOf (hreference : schema.reference? = none)
    (hany : schema.field? "anyOf" = none) :
    (arena.expand (.map schema.besideAllOf)).result = .ok schema.besideAllOf := by
  obtain ⟨component, hexpand⟩ := arena.expand_eq_expandWith
  rw [hexpand]
  apply expandWith_plain schema.field?_besideAllOf_allOf
  · rwa [Entries.field?_besideAllOf schema (by decide)]
  · rwa [Entries.reference?_besideAllOf]

theorem expand_besideAllOf_anyOf {alternatives : Value}
    (hany : schema.field? "anyOf" = some alternatives) :
    (arena.expand (.map schema.besideAllOf)).result =
      (arena.expand (.map [(.str "anyOf", alternatives)])).result := by
  obtain ⟨component, hexpand⟩ := arena.expand_eq_expandWith
  have hbeside : schema.besideAllOf.field? "anyOf" = some alternatives := by
    rwa [Entries.field?_besideAllOf schema (by decide)]
  have halone : Entries.field? [(.str "anyOf", alternatives)] "anyOf" =
      some alternatives := rfl
  rw [hexpand, expandWith_anyOf schema.field?_besideAllOf_allOf hbeside,
    expandWith_anyOf rfl halone]

end Arena

/-! ## Properties composed of parts -/

namespace Fragment

variable {schema : Entries} {notes : Annotations} {parts : List Fragment}

theorem Reading.allOf_reference? (h : Reading schema (.allOf notes parts)) :
    schema.reference? = none := by
  cases h with
  | allOf hreference => exact hreference

theorem besideAllOf_of_read
    (h : read (.map schema) = .ok (.allOf notes parts)) :
    notes.raw.dropField "allOf" = schema.besideAllOf ∧ schema.reference? = none := by
  obtain ⟨_, hmap, hreading⟩ := reading_of_read h
  cases hmap
  have hreference := hreading.allOf_reference?
  have hnotes : notes = .read schema := notes_of_read h
  refine ⟨?_, hreference⟩
  rw [hnotes, Annotations.raw_read, if_pos hreference, Entries.besideAllOf]

end Fragment

namespace Scope

variable {s : Scope} {schema : Entries} {name : Scalar} {required : Bool}

theorem resolveProperty_eq_none_iff {property : Fragment}
    {field : Option (Field TypeExpr)}
    (h : (s.resolveProperty name required property).result = .ok field) :
    ∃ shown, s.context.arena.shown property = .ok shown ∧
      (field = none ↔ shown.notes.hiddenIn s.view = true) := by
  obtain ⟨shown, hshown, hfield⟩ := field_eq_ok_iff.mp h
  refine ⟨shown, hshown, ?_⟩
  rcases hfield with ⟨hhidden, rfl⟩ | ⟨hvisible, _, _, rfl⟩
  · simp [hhidden]
  · simp [hvisible]

/-- The field of a property that is composed of parts is hidden exactly if the
merge of the parts and the keys beside them is annotated so. -/
theorem resolveProperty_allOf_eq_none_iff {notes : Annotations}
    {parts : List Fragment} {field : Option (Field TypeExpr)}
    (hread : Fragment.read (.map schema) = .ok (.allOf notes parts))
    (h : (s.resolveProperty name required (.allOf notes parts)).result = .ok field) :
    ∃ flat, (s.context.arena.merge (parts.map Fragment.rawValue ++
        [.map schema.besideAllOf])).result = .ok flat ∧
      (field = none ↔ flat.isTrue s.view.hidingKey = true) := by
  obtain ⟨shown, hshown, hfield⟩ := resolveProperty_eq_none_iff h
  obtain ⟨flat, hflat, hwhole⟩ := bind_eq_ok_iff.mp hshown
  rw [(Fragment.besideAllOf_of_read hread).1] at hflat
  rw [Fragment.notes_of_read hwhole, Annotations.hiddenIn_read] at hfield
  exact ⟨flat, hflat, hfield⟩

theorem isTrue_of_merge_besideAllOf {schemas : List Value} {flat : Entries}
    (hproper : (Value.map schema).Proper) (hreference : schema.reference? = none)
    (hany : schema.field? "anyOf" = none)
    (hown : schema.isTrue s.view.hidingKey = true)
    (h : (s.context.arena.merge (schemas ++ [.map schema.besideAllOf])).result = .ok flat) :
    flat.isTrue s.view.hidingKey = true := by
  obtain ⟨flats, expansion, _, hexpansion, rfl⟩ := Arena.merge_concat_eq_ok_iff.mp h
  cases (Arena.expand_besideAllOf hreference hany).symm.trans hexpansion
  have hkey : s.view.hidingKey ≠ referenceKey ∧
      s.view.hidingKey ∉ ["type", "nullable", "allOf"] := by
    cases s.view <;> decide
  have hannotated : schema.besideAllOf.field? s.view.hidingKey = some (.bool true) := by
    rw [Entries.field?_besideAllOf schema hkey.2]
    simpa [Entries.isTrue] using hown
  rw [Entries.isTrue, Arena.field?_overlay_concat hproper.besideAllOf.distinct _ hkey.1,
    hannotated, Value.mergeFields_scalar]
  simp

theorem resolveProperty_eq_none_of_not_allOf {property : Fragment}
    {field : Option (Field TypeExpr)} (hread : Fragment.read (.map schema) = .ok property)
    (hnot : ∀ notes parts, property ≠ .allOf notes parts)
    (hown : schema.isTrue s.view.hidingKey = true)
    (h : (s.resolveProperty name required property).result = .ok field) :
    field = none := by
  obtain ⟨shown, hshown, hfield⟩ := resolveProperty_eq_none_iff h
  have hsame : shown = property := by
    cases property with
    | allOf notes parts => exact absurd rfl (hnot notes parts)
    | _ =>
        cases hshown
        rfl
  rw [hfield, hsame, Fragment.notes_of_read hread, Annotations.hiddenIn_read]
  exact hown

/-- A property has no field in a view that its own annotation hides it from,
unless it has an `anyOf` beside an `allOf`. -/
theorem resolveProperty_hidden {property : Fragment}
    {field : Option (Field TypeExpr)} (hproper : (Value.map schema).Proper)
    (hread : Fragment.read (.map schema) = .ok property)
    (hown : schema.isTrue s.view.hidingKey = true)
    (h : (s.resolveProperty name required property).result = .ok field) :
    ((schema.field? "anyOf" = none ∨ ∀ notes parts, property ≠ .allOf notes parts) →
        field = none) ∧
      ∀ notes parts alternatives, property = .allOf notes parts →
        schema.field? "anyOf" = some alternatives →
          ∃ flat, (s.context.arena.merge (parts.map Fragment.rawValue ++
              [.map [(.str "anyOf", alternatives)]])).result = .ok flat ∧
            (field = none ↔ flat.isTrue s.view.hidingKey = true) := by
  constructor
  · intro hcase
    by_cases hall : ∃ notes parts, property = .allOf notes parts
    · obtain ⟨notes, parts, rfl⟩ := hall
      have hany : schema.field? "anyOf" = none := by
        rcases hcase with hany | hnot
        · exact hany
        · exact absurd rfl (hnot notes parts)
      obtain ⟨flat, hflat, hfield⟩ := resolveProperty_allOf_eq_none_iff hread h
      have hreference := (Fragment.besideAllOf_of_read hread).2
      exact hfield.mpr (isTrue_of_merge_besideAllOf hproper hreference hany hown hflat)
    · have hnot : ∀ notes parts, property ≠ .allOf notes parts :=
        fun notes parts heq => hall ⟨notes, parts, heq⟩
      exact resolveProperty_eq_none_of_not_allOf hread hnot hown h
  · rintro notes parts alternatives rfl hany
    obtain ⟨flat, hflat, hfield⟩ := resolveProperty_allOf_eq_none_iff hread h
    refine ⟨flat, ?_, hfield⟩
    obtain ⟨flats, expansion, hflats, hexpansion, hoverlay⟩ :=
      Arena.merge_concat_eq_ok_iff.mp hflat
    rw [Arena.expand_besideAllOf_anyOf hany] at hexpansion
    exact Arena.merge_concat_eq_ok_iff.mpr ⟨flats, expansion, hflats, hexpansion, hoverlay⟩

/-- An `anyOf` beside an `allOf` shows a property in the view that the property
is hidden from by its own annotation. -/
theorem resolveProperty_anyOf_beside_allOf :
    let schema : Entries :=
      [(.str "allOf", .list [.map [(.str "type", .str "string")]]),
        (.str "anyOf", .list [.map [(.str "description", .str "x")]]),
        (.str "readOnly", .bool true)]
    let s : Scope := ⟨.write, ⟨[], [], []⟩, none⟩
    ∃ property, Fragment.read (.map schema) = .ok property ∧
      schema.isTrue s.view.hidingKey = true ∧
        (s.resolveProperty (.str "id") true property).result =
          .ok (some ⟨.str "id", false, .primitive .string⟩) := by
  intro schema s
  have hrun : (Fragment.read (.map schema) >>= fun property =>
      (s.resolveProperty (.str "id") true property).result) =
        .ok (some ⟨.str "id", false, .primitive .string⟩) := by decide +kernel
  obtain ⟨property, hread, hfield⟩ := bind_eq_ok_iff.mp hrun
  exact ⟨property, hread, by decide, hfield⟩

theorem resolveProperty_pet_hidden :
    let schema : Entries :=
      [(.str "allOf", .list [.map [(.str referenceKey, .ref { name := "Pet" })]]),
        (.str "readOnly", .bool true)]
    let pet : Value := .map
      [(.str "type", .str "object"), (.str "readOnly", .bool false)]
    let s : Scope :=
      ⟨.write, .uniform (.str "Models") (.str "Requests") [("Pet", pet)], none⟩
    ∃ property, Fragment.read (.map schema) = .ok property ∧
      (s.resolveProperty (.str "pet") true property).result = .ok none := by
  intro schema pet s
  have hproper : (Value.map schema).Proper := by decide
  have hown : schema.isTrue s.view.hidingKey = true := by decide
  have hends : ((Fragment.read (.map schema) >>= fun property =>
      (s.resolveProperty (.str "pet") true property).result).toOption).isSome = true := by
    decide +kernel
  cases hrun : Fragment.read (.map schema) >>= fun property =>
      (s.resolveProperty (.str "pet") true property).result with
  | error failure => simp [hrun, Except.toOption] at hends
  | ok field =>
      obtain ⟨property, hread, hfield⟩ := bind_eq_ok_iff.mp hrun
      have hnone := (resolveProperty_hidden hproper hread hown hfield).1
        (.inl (by decide))
      exact ⟨property, hread, hnone ▸ hfield⟩

end Scope
end SchemaViews
