import SchemaViews.Proofs.LeafSummaries
import SchemaViews.Proofs.MergedFragments
import SchemaViews.Proofs.OverlayLaws
import SchemaViews.Proofs.ProperValues
import SchemaViews.Proofs.ReadAnnotations
import SchemaViews.Proofs.WellShapedReading

/-!
# Tagged alternatives

An alternative that has a tag is merged with an object that requires the tag, and
the property of the tag is overwritten.  Merging settles the kind of the whole, so
whatever the alternative was, it becomes an object: with the properties of its own
merge, the tag in the place of the one that was declared under its name, and that
name among the required ones.
-/

namespace SchemaViews

/-! ## Entries in their places -/

namespace OrderedMap

variable {κ α : Type} [DecidableEq κ]

theorem insert_cases {m : OrderedMap κ α} (hdistinct : Distinct m) (key : κ) (value : α) :
    ∃ before after, insert m key value = before ++ (key, value) :: after ∧
      (∀ entry ∈ before ++ after, entry.1 ≠ key) ∧
        ((∃ old, m = before ++ (key, old) :: after) ∨ (m = before ∧ after = [])) := by
  induction m with
  | nil => exact ⟨[], [], rfl, by simp, .inr ⟨rfl, rfl⟩⟩
  | cons entry rest ih =>
      obtain ⟨k, a⟩ := entry
      obtain ⟨hfirst, hrest⟩ := List.nodup_cons.mp hdistinct
      by_cases hkey : k = key
      · subst k
        refine ⟨[], rest, by simp [insert, update], ?_, .inl ⟨a, rfl⟩⟩
        rintro other hother rfl
        exact hfirst (List.mem_map.mpr ⟨other, hother, rfl⟩)
      · obtain ⟨before, after, hinsert, hothers, hplace⟩ := ih hrest
        refine ⟨(k, a) :: before, after, ?_, ?_, ?_⟩
        · rw [insert, update, if_neg hkey, ← insert, hinsert, List.cons_append]
        · rw [List.cons_append, List.forall_mem_cons]
          exact ⟨hkey, hothers⟩
        · rcases hplace with ⟨old, rfl⟩ | ⟨rfl, rfl⟩
          · exact .inl ⟨old, rfl⟩
          · exact .inr ⟨rfl, rfl⟩

end OrderedMap

/-! ## Declared properties -/

namespace Entries

def propertyTable (schema : Entries) : Entries :=
  ((schema.fieldOrNull "properties").entries?).getD []

/-- A schema that declares properties in a mapping and requires texts, if it does so
at all. -/
structure Declares (schema : Entries) : Prop where
  properties : ∀ v, schema.field? "properties" = some v → ∃ table : Entries, v = .map table
  required : ∀ v, schema.field? "required" = some v → v.Texts

theorem propertyTable_of_field {schema table : Entries}
    (h : schema.field? "properties" = some (.map table)) : schema.propertyTable = table := by
  simp [propertyTable, fieldOrNull, h, Value.entries?]

theorem propertyTable_of_none {schema : Entries}
    (h : schema.field? "properties" = none) : schema.propertyTable = [] := by
  simp [propertyTable, fieldOrNull, h, Value.entries?]

theorem distinct_propertyTable {schema : Entries} (h : (Value.map schema).Proper)
    (hdeclares : schema.Declares) : OrderedMap.Distinct schema.propertyTable := by
  cases hproperties : schema.field? "properties" with
  | none =>
      rw [propertyTable_of_none hproperties]
      exact List.nodup_nil
  | some v =>
      obtain ⟨table, rfl⟩ := hdeclares.properties v hproperties
      rw [propertyTable_of_field hproperties]
      exact (h.field hproperties).distinct

end Entries

/-! ## The schema of an alternative -/

namespace Discriminator

variable {arena : Arena}

theorem tag_ne_null {d : Discriminator} {option : Fragment} {tag : Scalar}
    (h : (d.tag arena option).result = .ok (some tag)) : tag ≠ .null := by
  rintro rfl
  cases option with
  | reference notes target =>
      obtain ⟨key, -, hkey⟩ := bind_eq_ok_iff.mp ((Outcome.result_bind ..).symm.trans h)
      cases hscalar : key.getD (.str target.name) <;> rw [hscalar] at hkey <;> cases hkey
  | primitive | choice | object | freeObject | array | freeArray | oneOf | allOf
  | anyOf =>
      obtain ⟨flat, -, h⟩ := bind_eq_ok_iff.mp ((Outcome.result_bind ..).symm.trans h)
      obtain ⟨declared, -, h⟩ := bind_eq_ok_iff.mp ((Outcome.result_bind ..).symm.trans h)
      cases declared <;> cases h

def tagFields (name : String) (tag : Scalar) : Entries :=
  [(.str "type", .str "object"),
    (.str "properties", .map [(.str name, tagSchema tag)]),
    (.str "required", .list [.str name])]

theorem merge_tagObject {option : Value} {name : String} {tag : Scalar} {merged : Entries}
    (h : (arena.merge [option, tagObject (.str name) tag]).result = .ok merged) :
    ∃ flat, (arena.merge [option]).result = .ok flat ∧ merged.reference? = none ∧
      ∀ key, key ≠ referenceKey → merged.field? key =
        Value.mergeFields (flat.field? key) ((tagFields name tag).field? key) := by
  change (arena.merge ([option] ++ [tagObject (.str name) tag])).result = _ at h
  obtain ⟨flats, expansion, hflats, hexpansion, rfl⟩ :=
    Arena.merge_concat_eq_ok_iff.mp h
  obtain ⟨component, hexpand⟩ := arena.expand_eq_expandWith
  have hplain : (arena.expand (tagObject (.str name) tag)).result =
      .ok (tagFields name tag) := by
    rw [hexpand]
    exact Arena.expandWith_plain rfl rfl rfl
  cases hplain.symm.trans hexpansion
  refine ⟨Arena.overlay flats, ?_, Arena.reference?_overlay _, fun key hkey => ?_⟩
  · rw [Arena.merge_eq, hflats]
    rfl
  · exact Arena.field?_overlay_concat
      (Value.proper_tagObject (.str name) tag).distinct key hkey

/-- An object in which a property is the tag and nothing else, and which is like a
flat schema otherwise. -/
structure Retagged (flat : Entries) (name : String) (tag : Scalar) (schema : Entries) :
    Prop where
  reference : schema.reference? = none
  type : schema.field? "type" = some (.str "object")
  properties : schema.field? "properties" =
    some (.map (OrderedMap.insert flat.propertyTable (.str name) (tagSchema tag)))
  required : schema.field? "required" =
    some (.list ((flat.requiredTexts ++ [name]).map Value.str))
  nullable : schema.isTrue "nullable" = flat.isTrue "nullable"

theorem retagged_of_taggedOption {option : Value} {name : String} {tag : Scalar}
    {schema : Entries}
    (hdeclares : ∀ flat, (arena.merge [option]).result = .ok flat → flat.Declares)
    (h : (taggedOption arena option (.str name) tag).result = .ok schema) :
    ∃ flat, (arena.merge [option]).result = .ok flat ∧ Retagged flat name tag schema := by
  rw [taggedOption_eq] at h
  obtain ⟨merged, hmerged, rfl⟩ := map_eq_ok_iff.mp h
  obtain ⟨flat, hflat, hreference, hfield⟩ := merge_tagObject hmerged
  have hflatDeclares := hdeclares flat hflat
  have htable : merged.propertyTable =
      OrderedMap.update flat.propertyTable (.str name) (tagSchema tag) fun old =>
        Value.merge old (tagSchema tag) := by
    have hproperties := hfield "properties" (by decide)
    cases hdeclared : flat.field? "properties" with
    | none =>
        rw [hdeclared] at hproperties
        rw [Entries.propertyTable_of_none hdeclared,
          Entries.propertyTable_of_field hproperties]
        rfl
    | some v =>
        obtain ⟨table, rfl⟩ := hflatDeclares.properties v hdeclared
        rw [hdeclared] at hproperties
        rw [Entries.propertyTable_of_field hdeclared]
        apply Entries.propertyTable_of_field
        -- merging one entry into the table updates the table at its name
        rw [hproperties, ← ScalarMap.update_str]
        change some (Value.merge (.map table) (.map [(.str name, tagSchema tag)])) = _
        rw [Value.merge, Value.mergeEntries_cons, Value.mergeEntries_nil]
  have hother : ∀ key, key ≠ "properties" →
      (retag merged (.str name) tag).field? key = merged.field? key := by
    intro key hkey
    rw [retag, Entries.field?_setField, if_neg hkey]
  refine ⟨flat, hflat, ?_⟩
  constructor
  case reference =>
    rw [Entries.reference?, hother _ (by decide)]
    exact hreference
  case type =>
    rw [hother _ (by decide), hfield _ (by decide)]
    exact Value.mergeFields_scalar _ _
  case properties =>
    rw [retag, Entries.field?_setField, if_pos rfl, ScalarMap.insert, ScalarMap.update_str,
      ← OrderedMap.insert, ← Entries.propertyTable, htable, OrderedMap.insert_update]
  case required =>
    rw [hother _ (by decide), hfield _ (by decide)]
    cases hrequired : flat.field? "required" with
    | none =>
        rw [Entries.requiredTexts_of_none hrequired]
        rfl
    | some v =>
        obtain ⟨texts, rfl⟩ := hflatDeclares.required v hrequired
        rw [Entries.requiredTexts_of_texts hrequired, List.map_append]
        change some (Value.merge (.list (texts.map Value.str)) (.list [.str name])) = _
        rw [Value.merge]
        rfl
  case nullable =>
    rw [Entries.isTrue, hother _ (by decide), hfield _ (by decide), Entries.isTrue]
    exact congrArg (fun v => decide (v = _)) (Value.mergeFields_none_right _)

end Discriminator

/-! ## Reading an object -/

theorem Annotations.nullable_read_scalar {schema : Entries} {kind : Scalar}
    (hreference : schema.reference? = none)
    (htype : schema.field? "type" = some (.scalar kind)) :
    (Annotations.read schema).nullable = schema.isTrue "nullable" := by
  have hkind : soleKind false (.scalar kind) = (false, .scalar kind) :=
    soleKind_of_not_sole (by simp) false
  rw [nullable_read hreference, htype]
  simp [Value.allowsNull, hkind]

namespace Fragment

theorem read_object {schema table : Entries} (hreference : schema.reference? = none)
    (htype : schema.field? "type" = some (.str "object"))
    (hproperties : schema.field? "properties" = some (.map table)) :
    read (.map schema) = do
      let fragments ← table.mapM fun entry => do
        return (entry.1, ← read entry.2)
      let required ← requiredNames (schema.fieldOrNull "required")
      return .object (.read schema) fragments required := by
  have hsettle : settle schema = schema := by
    unfold settle
    rw [htype]
  rw [read_eq_readAs, readAs, hreference, hsettle, htype]
  dsimp only
  rw [if_neg (by decide), if_pos rfl, readObject_eq, hproperties]

theorem read_tagSchema {tag : Scalar} (htag : tag ≠ .null) :
    ∃ notes, read (Discriminator.tagSchema tag) =
        (fun text => .choice notes [text] .null) <$> (Value.scalar tag).written ∧
      notes.nullable = false ∧ ∀ view, notes.hiddenIn view = false := by
  let schema : Entries :=
    [(.str "type", .str "string"), (.str "enum", .list [.scalar tag])]
  have htexts : enumTexts (.list [.scalar tag]) =
      (fun text => [text]) <$> (Value.scalar tag).written := by
    have hvalue : Value.scalar tag ≠ .null := by simpa using htag
    unfold enumTexts
    simp [Value.elements?, hvalue]
  have hscalar : readScalar (.read schema) "string" schema =
      (fun text => .choice (.read schema) [text] .null) <$> (Value.scalar tag).written := by
    unfold readScalar
    change (if "string" = "string" ∧ Value.null ∉ binaryFormats then _ else _) = _
    rw [if_pos (by decide), htexts]
    cases (Value.scalar tag).written <;> rfl
  refine ⟨.read schema, (read_eq_readAs schema).trans hscalar, ?_, fun view => ?_⟩
  · exact Annotations.nullable_read_scalar rfl rfl
  · rw [Annotations.hiddenIn_read]
    cases view <;> rfl

end Fragment

/-! ## Resolving an object -/

namespace Scope

variable {s : Scope}

theorem resolve_object {notes : Annotations} {properties : List (Scalar × Fragment)}
    {required : List Scalar} {type : TypeExpr}
    (h : (s.resolve (.object notes properties required)).result = .ok type) :
    ∃ fields, (properties.mapM fun entry => (s.resolveProperty entry.1
        (required.any entry.1.sameKey) entry.2).result) = .ok fields ∧
      type = notes.qualify (.struct (fields.flatMap Option.toList)) := by
  obtain ⟨again, hagain, hsettles⟩ := s.resolveWithin_eq_resolveWith s.context.arena.nesting
  rw [resolve, hagain, resolveWith_object] at h
  obtain ⟨fields, hfields, rfl⟩ := map_eq_ok_iff.mp h
  refine ⟨fields, ?_, rfl⟩
  refine Settles.eq_ok (Settles.mapM fun entry _ => ?_) hfields
  apply field_settles hsettles
  rw [resolve, hagain]
  exact .refl _

/-- The field of a declared property, among given names that are required. -/
def declaredField (s : Scope) (required : List String) (entry : Scalar × Value) :
    Except Failure (Option (Field TypeExpr)) :=
  Fragment.read entry.2 >>= fun property =>
    (s.resolveProperty entry.1 (decide (entry.1 ∈ required.map Scalar.str)) property).result

theorem name_of_declaredFields {required : List String} {entries : Entries}
    {fields : List (Option (Field TypeExpr))} {field : Field TypeExpr}
    (h : entries.mapM (s.declaredField required) = .ok fields)
    (hfield : field ∈ fields.flatMap Option.toList) :
    ∃ entry ∈ entries, field.name = entry.1 := by
  obtain ⟨visible, hvisible, hfield⟩ := List.mem_flatMap.mp hfield
  cases Option.mem_toList.mp hfield
  obtain ⟨entry, hentry, hdeclared⟩ := exists_of_mem_mapM h hvisible
  obtain ⟨property, -, hresolved⟩ := bind_eq_ok_iff.mp hdeclared
  exact ⟨entry, hentry, field_name hresolved⟩

theorem declaredField_concat {required : List String} {name : String}
    {entry : Scalar × Value} (hname : entry.1 ≠ .str name) :
    s.declaredField (required ++ [name]) entry = s.declaredField required entry := by
  have hrequired : entry.1 ∈ (required ++ [name]).map Scalar.str ↔
      entry.1 ∈ required.map Scalar.str := by
    simp [hname]
  simp only [declaredField, hrequired]

theorem declaredField_tagSchema {required : List String} {name : String} {tag : Scalar}
    (htag : tag ≠ .null) {own : Option (Field TypeExpr)}
    (h : s.declaredField (required ++ [name]) (.str name, Discriminator.tagSchema tag) =
      .ok own) :
    own = some ⟨.str name, false, choiceType s.view [(Value.scalar tag).shown]⟩ := by
  obtain ⟨notes, hread, hnullable, hvisible⟩ := Fragment.read_tagSchema htag
  obtain ⟨property, hproperty, hfield⟩ := bind_eq_ok_iff.mp h
  obtain ⟨text, htext, rfl⟩ := map_eq_ok_iff.mp (hread.symm.trans hproperty)
  have htype : (s.resolve (.choice notes [text] .null)).result =
      .ok (choiceType s.view [text]) := by
    obtain ⟨again, hagain, -⟩ :=
      s.resolveWithin_eq_resolveWith s.context.arena.nesting
    rw [resolve, hagain, resolveWith, Annotations.qualify, hnullable]
    rfl
  have hshown : (s.resolveProperty (.str name) true (.choice notes [text] .null)).result =
      .ok (some ⟨.str name, false, choiceType s.view [text]⟩) :=
    field_eq_ok_iff.mpr ⟨_, rfl, .inr ⟨hvisible s.view, _, htype, rfl⟩⟩
  rw [decide_eq_true (by simp)] at hfield
  rw [Value.written_eq_ok htext]
  exact Except.ok.inj (hfield.symm.trans hshown)

theorem fields_of_object {schema table : Entries} {required : List String}
    {whole : Fragment} {type : TypeExpr} (hreference : schema.reference? = none)
    (hkind : schema.field? "type" = some (.str "object"))
    (hproperties : schema.field? "properties" = some (.map table))
    (hrequired : schema.field? "required" = some (.list (required.map Value.str)))
    (hread : Fragment.read (.map schema) = .ok whole)
    (htype : (s.resolve whole).result = .ok type) :
    ∃ fields, table.mapM (s.declaredField required) = .ok fields ∧
      type = (Annotations.read schema).qualify (.struct (fields.flatMap Option.toList)) := by
  rw [Fragment.read_object hreference hkind hproperties] at hread
  obtain ⟨fragments, hfragments, hread⟩ := bind_eq_ok_iff.mp hread
  obtain ⟨names, hnames, hread⟩ := bind_eq_ok_iff.mp hread
  cases pure_eq_ok_iff.mp hread
  rw [Entries.fieldOrNull, hrequired, Option.getD_some, requiredNames_texts] at hnames
  cases hnames
  obtain ⟨fields, hfields, rfl⟩ := resolve_object htype
  refine ⟨fields, ?_, rfl⟩
  rw [← mapM_bind_eq_ok hfragments hfields]
  refine mapM_congr fun entry _ => ?_
  rw [declaredField, bind_assoc]
  simp only [pure_bind, Scalar.any_distinct_texts]

/-! ## Alternatives -/

def resolveAlternative (s : Scope) (d : Discriminator) (option : Fragment) :
    Outcome TypeExpr :=
  s.alternative s.resolve d option fun _ => s.resolve option

theorem resolve_oneOf_tagged {notes : Annotations} {options : List Fragment}
    {d : Discriminator} {type : TypeExpr}
    (h : (s.resolve (.oneOf notes options (some d))).result = .ok type) :
    ∃ types, (options.mapM fun option => (s.resolveAlternative d option).result) =
        .ok types ∧ type = notes.qualify (.unionOf types) := by
  obtain ⟨again, hagain, hsettles⟩ := s.resolveWithin_eq_resolveWith s.context.arena.nesting
  rw [resolve, hagain, resolveWith_oneOf] at h
  obtain ⟨types, htypes, rfl⟩ := map_eq_ok_iff.mp h
  refine ⟨types, ?_, rfl⟩
  refine Settles.eq_ok (Settles.mapM fun option _ => ?_) htypes
  apply alternative_settles hsettles
  rw [resolve, hagain]
  exact .refl _

/-- An object with the fields of a flat schema, where the tag stands in the place of
the property with its name, or behind everything else. -/
def IsTagged (s : Scope) (name : String) (tag : Scalar) (flat : Entries)
    (type : TypeExpr) : Prop :=
  ∃ (before after : Entries) (firsts lasts : List (Option (Field TypeExpr))),
    ((∃ declared, flat.propertyTable = before ++ (.str name, declared) :: after) ∨
      (flat.propertyTable = before ∧ after = [])) ∧
    (∀ entry ∈ before ++ after, entry.1 ≠ .str name) ∧
    before.mapM (s.declaredField flat.requiredTexts) = .ok firsts ∧
    after.mapM (s.declaredField flat.requiredTexts) = .ok lasts ∧
    (∀ field ∈ (firsts ++ lasts).flatMap Option.toList, field.name ≠ .str name) ∧
    type = (if flat.isTrue "nullable" then TypeExpr.nullable else id)
      (.struct (firsts.flatMap Option.toList ++
        ⟨.str name, false, match s.view with
          | .read => .primitive .string
          | .write => .literal [(Value.scalar tag).shown]⟩ ::
        lasts.flatMap Option.toList))

theorem isTagged_of_retagged {flat schema : Entries} {name : String} {tag : Scalar}
    {whole : Fragment} {type : TypeExpr} (htag : tag ≠ .null)
    (hdistinct : OrderedMap.Distinct flat.propertyTable)
    (hschema : Discriminator.Retagged flat name tag schema)
    (hread : Fragment.read (.map schema) = .ok whole)
    (htype : (s.resolve whole).result = .ok type) : s.IsTagged name tag flat type := by
  obtain ⟨fields, hfields, rfl⟩ := fields_of_object hschema.reference hschema.type
    hschema.properties hschema.required hread htype
  obtain ⟨before, after, hinsert, hothers, hplace⟩ :=
    OrderedMap.insert_cases hdistinct (.str name) (Discriminator.tagSchema tag)
  rw [hinsert] at hfields
  obtain ⟨firsts, own, lasts, hfirsts, hown, hlasts, rfl⟩ := mapM_split_eq_ok hfields
  cases declaredField_tagSchema htag hown
  -- only the tag is required on account of its name
  have hsame : ∀ entry ∈ before ++ after,
      s.declaredField (flat.requiredTexts ++ [name]) entry =
        s.declaredField flat.requiredTexts entry :=
    fun entry hentry => declaredField_concat (hothers entry hentry)
  rw [mapM_congr fun entry hentry => hsame entry (List.mem_append_left _ hentry)]
    at hfirsts
  rw [mapM_congr fun entry hentry => hsame entry (List.mem_append_right _ hentry)]
    at hlasts
  refine ⟨before, after, firsts, lasts, hplace, hothers, hfirsts, hlasts, ?_, ?_⟩
  · intro field hfield
    rw [List.flatMap_append, List.mem_append] at hfield
    rcases hfield with hfield | hfield
    · obtain ⟨entry, hentry, hname⟩ := name_of_declaredFields hfirsts hfield
      exact hname ▸ hothers entry (List.mem_append_left _ hentry)
    · obtain ⟨entry, hentry, hname⟩ := name_of_declaredFields hlasts hfield
      exact hname ▸ hothers entry (List.mem_append_right _ hentry)
  · rw [List.flatMap_append, List.flatMap_cons, Annotations.qualify,
      Annotations.nullable_read_scalar hschema.reference hschema.type, hschema.nullable]
    cases s.view <;> split <;> rfl

/-- The type of a discriminated union is made of those of its alternatives, and an
alternative that has a tag is an object with this tag. -/
theorem resolve_tagged_alternatives (s : Scope)
    (harena : ∀ entry ∈ s.context.arena, entry.2.Proper) :
    (∀ (notes : Annotations) (options : List Fragment) (d : Discriminator)
        (type : TypeExpr), (s.resolve (.oneOf notes options (some d))).result = .ok type →
      ∃ types, (options.mapM fun option => (s.resolveAlternative d option).result) =
        .ok types ∧ type = notes.qualify (.unionOf types)) ∧
    ∀ (d : Discriminator) (name : String) (option : Fragment) (tag : Scalar)
      (type : TypeExpr), d.property = .str name → option.rawValue.Proper →
        (d.tag s.context.arena option).result = .ok (some tag) →
          (∀ flat, (s.context.arena.merge [option.rawValue]).result = .ok flat →
            flat.Declares) →
            (s.resolveAlternative d option).result = .ok type →
              ∃ flat, (s.context.arena.merge [option.rawValue]).result = .ok flat ∧
                s.IsTagged name tag flat type := by
  refine ⟨fun notes options d type => resolve_oneOf_tagged, ?_⟩
  intro d name option tag type hname hproper htag hdeclares htype
  rw [resolveAlternative, alternative_eq, hname] at htype
  obtain ⟨found, hfound, htype⟩ := bind_eq_ok_iff.mp htype
  cases htag.symm.trans hfound
  obtain ⟨schema, hschema, htype⟩ := bind_eq_ok_iff.mp htype
  obtain ⟨whole, hread, htype⟩ := bind_eq_ok_iff.mp htype
  obtain ⟨flat, hflat, hretagged⟩ :=
    Discriminator.retagged_of_taggedOption hdeclares hschema
  have hflatProper : (Value.map flat).Proper := by
    apply (Arena.expandable_of_forall Value.proper_invariant harena).merge
      Value.proper_invariant ?_ hflat
    simpa using hproper
  have hdistinct := Entries.distinct_propertyTable hflatProper (hdeclares flat hflat)
  exact ⟨flat, hflat, isTagged_of_retagged (Discriminator.tag_ne_null htag) hdistinct
    hretagged hread htype⟩

theorem resolve_tagged_cat :
    let reference : Entries := [(.str referenceKey, .ref { name := "Cat" })]
    let cat : Entries :=
      [(.str "type", .str "object"), (.str "nullable", .bool true),
        (.str "properties", .map
          [(.str "lives", .map [(.str "type", .str "integer")]),
            (.str "kind", .map [(.str "type", .str "number"), (.str "readOnly", .bool true)]),
            (.str "name", .map [(.str "type", .str "string")])]),
        (.str "required", .list [.str "name"])]
    let d : Discriminator := ⟨.str "kind", [(.str "tabby", .str "#/components/schemas/Cat")]⟩
    let s : Scope :=
      ⟨.write, .uniform (.str "Models") (.str "Requests") [("Cat", .map cat)], none⟩
    let type : TypeExpr := .nullable (.struct
      [⟨.str "lives", true, .primitive .integer⟩, ⟨.str "kind", false, .literal ["tabby"]⟩,
        ⟨.str "name", false, .primitive .string⟩])
    ∃ option, Fragment.read (.map reference) = .ok option ∧
      (s.resolveAlternative d option).result = .ok type ∧
        ∃ flat, (s.context.arena.merge [option.rawValue]).result = .ok flat ∧
          s.IsTagged "kind" (.str "tabby") flat type := by
  intro reference cat d s type
  let option : Fragment := .reference (.of reference) { name := "Cat" }
  have hread : Fragment.read (.map reference) = .ok option := by
    rw [Fragment.read_eq_readAs]
    rfl
  have harena : ∀ entry ∈ s.context.arena, entry.2.Proper := by decide
  have hproper : option.rawValue.Proper := by decide
  have htag : (d.tag s.context.arena option).result = .ok (some (.str "tabby")) := by
    decide
  have hmerge : (s.context.arena.merge [option.rawValue]).result = .ok cat := by
    decide +kernel
  have hdeclares : ∀ flat, (s.context.arena.merge [option.rawValue]).result = .ok flat →
      flat.Declares := by
    intro flat hflat
    cases hmerge.symm.trans hflat
    constructor <;> intro v hv <;> cases hv
    · exact ⟨_, rfl⟩
    · exact ⟨["name"], rfl⟩
  have htype : (s.resolveAlternative d option).result = .ok type := by decide +kernel
  exact ⟨option, hread, htype, (resolve_tagged_alternatives s harena).2 d "kind" option
    (.str "tabby") type rfl hproper htag hdeclares htype⟩

end Scope
end SchemaViews
