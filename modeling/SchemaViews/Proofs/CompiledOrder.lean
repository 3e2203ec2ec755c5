import SchemaViews.Proofs.LeafSummaries
import SchemaViews.Proofs.SessionAnswers

/-!
# The order of compiled schemas

The configured order can repeat a name, and it can name schemas that are ignored or do
not exist.  Names that do not exist are left out, all other schemas are put behind, and
the ignored ones are taken out at the end; a name that is repeated stays until its type
is entered a second time.  What is compiled in the end are the names of the configured
order and of the document, one list behind the other, as far as they exist and are not
ignored, each where it stands first.
-/

namespace SchemaViews

/-! ## First occurrences -/

namespace Scalar

theorem foldl_enter_filter {kept keys : List Scalar} {p : Scalar → Bool}
    (h : ∀ key ∈ keys, p key = false → kept.any (·.sameKey key) = true) :
    (keys.filter p).foldl enter kept = keys.foldl enter kept := by
  induction keys generalizing kept with
  | nil => rfl
  | cons key rest ih =>
      rw [List.forall_mem_cons] at h
      by_cases hp : p key = true
      · rw [List.filter_cons_of_pos hp, List.foldl_cons, List.foldl_cons]
        exact ih fun other hother hnot => any_enter (.inl (h.2 other hother hnot))
      · have hknown : kept.any (·.sameKey key) = true := h.1 (by simpa using hp)
        rw [List.filter_cons_of_neg hp, List.foldl_cons, enter_of_any hknown]
        exact ih h.2

theorem distinct_filter_order (keys : List Scalar) (p : Scalar → Bool) :
    (distinct (keys.filter p)).Pairwise fun first second =>
      keys.idxOf first < keys.idxOf second := by
  induction keys using List.reverseRecOn with
  | nil => exact List.Pairwise.nil
  | append_singleton keys key ih =>
      have hmem : ∀ {other}, other ∈ distinct (keys.filter p) → other ∈ keys :=
        fun hother => List.mem_of_mem_filter (mem_of_mem_distinct hother)
      have hbefore : (distinct (keys.filter p)).Pairwise fun first second =>
          (keys ++ [key]).idxOf first < (keys ++ [key]).idxOf second := by
        apply ih.imp_of_mem
        intro first second hfirst hsecond hlt
        rwa [List.idxOf_append_of_mem (hmem hfirst), List.idxOf_append_of_mem (hmem hsecond)]
      by_cases hp : p key = true
      · have hlast : distinct ((keys ++ [key]).filter p) =
            enter (distinct (keys.filter p)) key := by
          rw [List.filter_append, distinct_append, List.filter_cons_of_pos hp]
          rfl
        rw [hlast, enter]
        split
        · exact hbefore
        · next hnew =>
            have habsent : key ∉ keys := by
              intro hkey
              apply hnew
              rw [any_distinct]
              exact List.any_eq_true.mpr
                ⟨key, List.mem_filter.mpr ⟨hkey, hp⟩, sameKey_self key⟩
            rw [List.pairwise_append]
            refine ⟨hbefore, List.pairwise_singleton _ _, fun other hother last hlast => ?_⟩
            have hplace : keys.idxOf other < keys.length :=
              List.idxOf_lt_length_of_mem (hmem hother)
            rw [List.mem_singleton.mp hlast, List.idxOf_append_of_mem (hmem hother),
              List.idxOf_append_of_notMem habsent]
            omega
      · rw [List.filter_append, List.filter_cons_of_neg hp, List.filter_nil, List.append_nil]
        exact hbefore

end Scalar

theorem Scalar.same_str {name : Scalar} {text : String} :
    name.same (.str text) = true ↔ name = .str text := by
  rw [same, Bool.and_eq_true, sameKey_str]
  constructor
  · exact And.right
  · rintro rfl
    exact ⟨rfl, rfl⟩

theorem ScalarMap.find?_eq_some_iff {α : Type} {m : ScalarMap α}
    (h : Scalar.Apart (OrderedMap.keys m)) {key : Scalar} (hkey : key ∈ OrderedMap.keys m)
    {a : α} : find? m key = some a ↔ (key, a) ∈ m := by
  have hsame : key.among (OrderedMap.keys m) = key := by
    rcases Scalar.among_cases (OrderedMap.keys m) key with ⟨hmem, hsame⟩ | ⟨heq, -⟩
    · exact h.eq_of_sameKey hmem hkey hsame
    · exact heq
  rw [find?, hsame]
  exact ⟨OrderedMap.mem_of_find?, OrderedMap.find?_of_mem h.nodup⟩

/-! ## Names -/

/-- Whether a schema is compiled: it exists and is not ignored. -/
def Chosen (known : List Scalar) (ignored : List String) (name : Scalar) : Prop :=
  name ∈ known ∧ ∀ text ∈ ignored, name ≠ .str text

instance (known : List Scalar) (ignored : List String) :
    DecidablePred (Chosen known ignored) := fun _ =>
  inferInstanceAs (Decidable (_ ∧ _))

/-- The chosen names, each once, in the order in which they first occur in the configured
order and, behind it, among the known names. -/
structure Arranged (known : List Scalar) (ordered ignored : List String)
    (names : List Scalar) : Prop where
  once : names.Nodup
  chosen : ∀ name, name ∈ names ↔ Chosen known ignored name
  order : names.Pairwise fun first second =>
    (ordered.map Scalar.str ++ known).idxOf first <
      (ordered.map Scalar.str ++ known).idxOf second

theorem arranged_distinct {known : List Scalar} (hknown : Scalar.Apart known)
    (ordered ignored : List String) :
    Arranged known ordered ignored
      (Scalar.distinct ((ordered.map Scalar.str ++ known).filter (Chosen known ignored))) := by
  have hmem : ∀ {name}, name ∈ Scalar.distinct
      ((ordered.map Scalar.str ++ known).filter (Chosen known ignored)) →
        Chosen known ignored name := by
    intro name hname
    simpa using (List.mem_filter.mp (Scalar.mem_of_mem_distinct hname)).2
  constructor
  · exact (Scalar.apart_foldl_enter List.Pairwise.nil _).nodup
  · refine fun name => ⟨hmem, fun hchosen => ?_⟩
    have hlisted : name ∈ (ordered.map Scalar.str ++ known).filter (Chosen known ignored) :=
      List.mem_filter.mpr ⟨List.mem_append_right _ hchosen.1, decide_eq_true hchosen⟩
    obtain ⟨other, hother, hsame⟩ := List.any_eq_true.mp ((Scalar.any_distinct _ name).trans
      (List.any_eq_true.mpr ⟨name, hlisted, Scalar.sameKey_self name⟩))
    rwa [← hknown.eq_of_sameKey (hmem hother).1 hchosen.1 hsame]
  · exact Scalar.distinct_filter_order _ _

namespace Session

variable {s : Session} {mode : Value} {ordered ignored : List String} {names : List Scalar}
  {types : ScalarMap TypeExpr}

section Order

variable
  (hordered : s.settings.orderSchemas = some (.list (ordered.map Value.str)))
  (hignored : s.settings.ignoreSchemas = some (.list (ignored.map Value.str)))
include hordered hignored

theorem distinct_names (hnames : s.names = .ok names) :
    Scalar.distinct names =
      Scalar.distinct ((ordered.map Scalar.str ++ OrderedMap.keys s.schemas).filter
        (Chosen (OrderedMap.keys s.schemas) ignored)) := by
  rw [names_eq hordered hignored] at hnames
  cases hnames
  generalize OrderedMap.keys s.schemas = known
  generalize hfirst : (ordered.map Scalar.str).filter (fun name => known.any name.same) = first
  have hexists : ∀ name ∈ ordered.map Scalar.str,
      (known.any name.same = true ↔ name ∈ known) := by
    intro name hname
    obtain ⟨text, -, rfl⟩ := List.mem_map.mp hname
    simp [Scalar.str_same]
  have hkept : (fun name => !(ignored.map Value.str).any ((Value.scalar name).same ·)) =
      fun name => decide (∀ text ∈ ignored, name ≠ .str text) := by
    funext name
    have hsame : ∀ text, (Value.scalar name).same (.str text) = true ↔ name = .str text :=
      fun _ => Scalar.same_str
    rw [Bool.eq_iff_iff, Bool.not_eq_true', List.any_eq_false, List.forall_mem_map,
      decide_eq_true_iff]
    simp only [hsame, ne_eq]
  have hfront : first.filter (fun name => decide (∀ text ∈ ignored, name ≠ .str text)) =
      (ordered.map Scalar.str).filter (Chosen known ignored) := by
    rw [← hfirst, List.filter_filter]
    apply List.filter_congr
    intro name hname
    rw [Bool.eq_iff_iff, Bool.and_eq_true, hexists name hname, decide_eq_true_iff,
      decide_eq_true_iff]
    exact and_comm
  have hbehind : (known.filter fun name => !first.any name.same).filter
        (fun name => decide (∀ text ∈ ignored, name ≠ .str text)) =
      (known.filter (Chosen known ignored)).filter fun name => !first.any name.same := by
    rw [List.filter_filter, List.filter_filter]
    apply List.filter_congr
    intro name hname
    simp [Chosen, hname, Bool.and_comm]
  rw [hkept, List.filter_append, List.filter_append, hfront, hbehind, Scalar.distinct_append,
    Scalar.distinct_append]
  apply Scalar.foldl_enter_filter
  -- what stands in the configured order as well has been entered there
  intro name hname hlisted
  rw [List.mem_filter, decide_eq_true_iff] at hname
  rw [Bool.not_eq_false', List.any_eq_true] at hlisted
  obtain ⟨other, hother, hsame⟩ := hlisted
  rw [← hfirst, List.mem_filter] at hother
  obtain ⟨text, -, rfl⟩ := List.mem_map.mp hother.1
  rw [Scalar.same_str] at hsame
  rw [Scalar.any_distinct, List.any_eq_true]
  exact ⟨name, List.mem_filter.mpr ⟨hsame ▸ hother.1, decide_eq_true hname.2⟩,
    Scalar.sameKey_self name⟩

theorem known_of_mem_names (hnames : s.names = .ok names) {name : Scalar}
    (h : name ∈ names) : name ∈ OrderedMap.keys s.schemas := by
  rw [names_eq hordered hignored] at hnames
  cases hnames
  rcases List.mem_append.mp (List.mem_of_mem_filter h) with hfirst | hrest
  · obtain ⟨hlisted, hexists⟩ := List.mem_filter.mp hfirst
    obtain ⟨text, -, rfl⟩ := List.mem_map.mp hlisted
    simpa [Scalar.str_same] using hexists
  · exact List.mem_of_mem_filter hrest

theorem arranged_compiled (hknown : Scalar.Apart (OrderedMap.keys s.schemas))
    (hcompile : s.compile mode = .ok types) :
    Arranged (OrderedMap.keys s.schemas) ordered ignored (OrderedMap.keys types) := by
  obtain ⟨pairs, hnames, -, rfl⟩ := compile_pairs hcompile
  rw [ScalarMap.keys_ofPairs, distinct_names hordered hignored hnames]
  exact arranged_distinct hknown ordered ignored

end Order

/-! ## Types -/

section Types

variable (hknown : Scalar.Apart (OrderedMap.keys s.schemas))
include hknown

theorem mem_schemas_of_compileSchema {name : Scalar}
    (hname : name ∈ OrderedMap.keys s.schemas) {type : TypeExpr}
    (h : s.compileSchema name mode = .ok type) :
    ∃ schema, (name, schema) ∈ s.schemas ∧
      (resolveSchema s.context name.text? schema mode).result = .ok type := by
  obtain ⟨view, hview, -⟩ := bind_eq_ok_iff.mp h
  rw [view_eq_ok hview] at h ⊢
  obtain ⟨schema, hfind, htype⟩ := compileSchema_eq_ok h
  exact ⟨schema, (ScalarMap.find?_eq_some_iff hknown hname).mp hfind, htype⟩

variable
  (hordered : s.settings.orderSchemas = some (.list (ordered.map Value.str)))
  (hignored : s.settings.ignoreSchemas = some (.list (ignored.map Value.str)))
include hordered hignored

theorem compiled_own (hcompile : s.compile mode = .ok types) :
    ∀ entry ∈ types, ∃ schema, (entry.1, schema) ∈ s.schemas ∧
      (resolveSchema s.context entry.1.text? schema mode).result = .ok entry.2 := by
  intro entry hentry
  have harranged := arranged_compiled hordered hignored hknown hcompile
  have hmem : entry.1 ∈ OrderedMap.keys s.schemas :=
    ((harranged.chosen entry.1).mp (List.mem_map_of_mem hentry)).1
  obtain ⟨pairs, hnames, hcompiled, rfl⟩ := compile_pairs hcompile
  obtain ⟨name, hpair, hsame⟩ := ScalarMap.mem_ofPairs hentry
  have hname : name ∈ OrderedMap.keys s.schemas :=
    known_of_mem_names hordered hignored hnames (List.mem_map_of_mem hpair)
  have hown : entry.1 = name := hknown.eq_of_sameKey hmem hname hsame
  rw [← hown] at hpair
  exact mem_schemas_of_compileSchema hknown hmem (hcompiled _ hpair)

end Types

end Session

/-! ## Descriptions -/

namespace Document

/-- The descriptions of a schema can be read if what stands under its `allOf` are schemas,
whether they are composed or stand beside another kind. -/
def Describable (schema : Value) : Prop :=
  ∃ entries : Entries, schema = .map entries ∧
    ((entries.fieldOrNull "allOf").isPresent = true →
      ∃ parts, (entries.fieldOrNull "allOf").elements? = some parts ∧
        ∀ part ∈ parts, ∃ fields, part = .map fields)

theorem succeeds_descriptionOf_iff {fragment : Value} :
    Succeeds (descriptionOf fragment) ↔ ∃ fields, fragment = .map fields := by
  cases fragment with
  | map fields =>
      refine iff_of_true ?_ ⟨fields, rfl⟩
      unfold descriptionOf
      dsimp only
      split
      · exact succeeds_ok _
      · exact succeeds_ok _
  | scalar s =>
      refine iff_of_false ?_ (by simp)
      rintro ⟨texts, h⟩
      cases h
  | list items =>
      refine iff_of_false ?_ (by simp)
      rintro ⟨texts, h⟩
      cases h

theorem succeeds_descriptions_iff {schema : Value} :
    Succeeds (descriptions schema) ↔ Describable schema := by
  have hother : ∀ {value : Value}, descriptions value = .error .wrongShape →
      (∀ entries, value ≠ .map entries) → (Succeeds (descriptions value) ↔ Describable value) := by
    intro value hfails hvalue
    refine iff_of_false ?_ ?_
    · rw [hfails]
      rintro ⟨texts, h⟩
      cases h
    · rintro ⟨entries, rfl, -⟩
      exact hvalue entries rfl
  cases schema with
  | scalar s => exact hother rfl (by simp)
  | list items => exact hother rfl (by simp)
  | map entries =>
      have hread : ∀ fragments : List Value,
          Succeeds (do
            let texts ← (Value.map entries :: fragments).mapM descriptionOf
            return texts.flatten) ↔ ∀ part ∈ fragments, ∃ fields, part = .map fields := by
        intro fragments
        rw [bind_pure_comp, succeeds_map_iff, succeeds_mapM_iff, List.forall_mem_cons]
        simp only [succeeds_descriptionOf_iff, Value.map.injEq, exists_eq', true_and]
      have hmap : Describable (.map entries) ↔
          ((Entries.fieldOrNull entries "allOf").isPresent = true →
            ∃ parts, (Entries.fieldOrNull entries "allOf").elements? = some parts ∧
              ∀ part ∈ parts, ∃ fields, part = .map fields) := by
        simp [Describable]
      rw [hmap]
      unfold descriptions
      dsimp only
      generalize Entries.fieldOrNull entries "allOf" = stated
      by_cases hpresent : stated.isPresent = true
      · rw [if_pos hpresent]
        cases stated.elements? with
        | none => simp [hpresent, Succeeds]
        | some parts =>
            rw [hread]
            simp [hpresent]
      · rw [if_neg hpresent, hread]
        simp [hpresent]

end Document

namespace Session

variable {s : Session} {mode : Value} {comment : String} {types : ScalarMap TypeExpr}

/-! ## Outlines -/

theorem succeeds_view_iff :
    Succeeds (Session.view mode) ↔ ∃ view : View, mode = .str view.name := by
  constructor
  · rintro ⟨view, h⟩
    exact ⟨view, view_eq_ok h⟩
  · rintro ⟨view, rfl⟩
    cases view <;> exact succeeds_ok _

theorem succeeds_outline_iff (hcompile : s.compile mode = .ok types) :
    Succeeds (s.outline mode comment) ↔ (∃ view : View, mode = .str view.name) ∧
      ∀ entry ∈ types, ∃ schema, ScalarMap.find? s.schemas entry.1 = some schema ∧
        Document.Describable schema := by
  rw [← succeeds_view_iff, outline, hcompile, succeeds_bind_iff]
  refine Iff.trans (exists_congr fun view => and_congr_right fun _ => ?_) exists_and_right
  change Succeeds (types.mapM _ >>= _) ↔ _
  rw [bind_pure_comp, succeeds_map_iff, succeeds_mapM_iff]
  refine forall₂_congr fun entry _ => ?_
  dsimp only
  cases ScalarMap.find? s.schemas entry.1 with
  | none => simp [Succeeds, bind, Except.bind]
  | some schema =>
      dsimp only
      rw [bind_pure_comp, succeeds_map_iff, Document.succeeds_descriptions_iff]
      simp

theorem outline_descriptions {outline : Outline} (h : s.outline mode comment = .ok outline) :
    ∀ d ∈ outline.definitions, ∃ schema, ScalarMap.find? s.schemas d.name = some schema ∧
      Document.descriptions schema = .ok d.descriptions := by
  intro d hd
  obtain ⟨view, hview, h⟩ := bind_eq_ok_iff.mp h
  obtain ⟨types, htypes, h⟩ := bind_eq_ok_iff.mp h
  obtain ⟨definitions, hdefinitions, h⟩ := bind_eq_ok_iff.mp h
  cases h
  obtain ⟨⟨name, type⟩, -, hdefined⟩ := exists_of_mem_mapM hdefinitions hd
  dsimp only at hdefined
  split at hdefined
  · next schema hfind =>
      obtain ⟨descriptions, hread, hdefined⟩ := bind_eq_ok_iff.mp hdefined
      cases hdefined
      exact ⟨schema, hfind, hread⟩
  · cases hdefined

/-- The schemas that are compiled, in their order, each with its own type.  They can be
outlined for a view as long as all of them can be described, and then stand in the
outline as they were compiled, each with its own descriptions. -/
theorem compiled_in_order {ordered ignored : List String}
    (hknown : Scalar.Apart (OrderedMap.keys s.schemas))
    (hordered : s.settings.orderSchemas = some (.list (ordered.map Value.str)))
    (hignored : s.settings.ignoreSchemas = some (.list (ignored.map Value.str)))
    (hcompile : s.compile mode = .ok types) :
    Arranged (OrderedMap.keys s.schemas) ordered ignored (OrderedMap.keys types) ∧
      (∀ entry ∈ types, ∃ schema, (entry.1, schema) ∈ s.schemas ∧
        (resolveSchema s.context entry.1.text? schema mode).result = .ok entry.2) ∧
      ∀ comment,
        (Succeeds (s.outline mode comment) ↔ (∃ view : View, mode = .str view.name) ∧
          ∀ entry ∈ s.schemas, (∀ text ∈ ignored, entry.1 ≠ .str text) →
            Document.Describable entry.2) ∧
        ∀ outline, s.outline mode comment = .ok outline →
          outline.definitions.map (fun d => (d.name, d.type)) = types ∧
          ∀ d ∈ outline.definitions, ∃ schema, (d.name, schema) ∈ s.schemas ∧
            Document.descriptions schema = .ok d.descriptions := by
  have harranged := arranged_compiled hordered hignored hknown hcompile
  have hfind : ∀ {name : Scalar} {schema : Value}, name ∈ OrderedMap.keys types →
      (ScalarMap.find? s.schemas name = some schema ↔ (name, schema) ∈ s.schemas) :=
    fun hname => ScalarMap.find?_eq_some_iff hknown ((harranged.chosen _).mp hname).1
  refine ⟨harranged, compiled_own hknown hordered hignored hcompile, fun comment =>
    ⟨?_, fun outline houtline => ?_⟩⟩
  · rw [succeeds_outline_iff hcompile]
    refine and_congr_right fun _ => ⟨fun h entry hentry hkept => ?_, fun h entry hentry => ?_⟩
    · have hname : entry.1 ∈ OrderedMap.keys types :=
        (harranged.chosen entry.1).mpr ⟨List.mem_map_of_mem hentry, hkept⟩
      obtain ⟨compiled, hcompiled, hown⟩ := List.mem_map.mp hname
      obtain ⟨schema, hschema, hdescribable⟩ := h compiled hcompiled
      rw [hown, (hfind hname).mpr hentry, Option.some.injEq] at hschema
      rwa [hschema]
    · have hname : entry.1 ∈ OrderedMap.keys types := List.mem_map_of_mem hentry
      obtain ⟨hmem, hkept⟩ := (harranged.chosen entry.1).mp hname
      obtain ⟨⟨_, schema⟩, hschema, rfl⟩ := List.mem_map.mp hmem
      exact ⟨schema, (hfind hname).mpr hschema, h _ hschema hkept⟩
  · obtain ⟨_, types, -, hcompiled, -, -, hdefinitions⟩ := outline_eq_ok houtline
    cases hcompile.symm.trans hcompiled
    refine ⟨hdefinitions, fun d hd => ?_⟩
    obtain ⟨schema, hschema, hread⟩ := outline_descriptions houtline d hd
    have hname : d.name ∈ OrderedMap.keys types := by
      rw [← hdefinitions]
      simpa [OrderedMap.keys] using ⟨d, hd, rfl⟩
    exact ⟨schema, (hfind hname).mp hschema, hread⟩

theorem compiled_in_order_price :
    let schemas : Entries :=
      [(.str "Owner", .map [(.str "type", .str "string")]),
        (.str "Tag", .map [(.str "type", .str "widget")]),
        (.int 200, .map [(.str "type", .str "boolean"), (.str "description", .str "Done.")]),
        (.str "Price", .map [(.str "allOf", .list
          [.map [(.str "description", .str "An amount.")],
            .map [(.str "type", .str "integer")]])])]
    let document : Value := .map [(.str "components", .map [(.str "schemas", .map schemas)])]
    let ordered := ["Price", "Missing", "Tag", "Price"]
    let ignored := ["Tag", "Other"]
    let settings : Settings :=
      { orderSchemas := some (.list (ordered.map Value.str))
        ignoreSchemas := some (.list (ignored.map Value.str)) }
    let types : ScalarMap TypeExpr :=
      [(.str "Price", .primitive .integer), (.str "Owner", .primitive .string),
        (.int 200, .primitive .boolean)]
    ∃ s outline, ofDocument document settings (fun _ => none) = .ok s ∧ s.schemas = schemas ∧
      Scalar.Apart (OrderedMap.keys schemas) ∧
      s.compile (.str View.write.name) = .ok types ∧
      Arranged (OrderedMap.keys schemas) ordered ignored (OrderedMap.keys types) ∧
      s.outline (.str View.write.name) "" = .ok outline ∧
      outline.definitions.map (fun d => (d.name, d.type)) = types := by
  intro schemas document ordered ignored settings types
  obtain ⟨s, hs, hschemas, hsettings, hcompile⟩ : ∃ s,
      ofDocument document settings (fun _ => none) = .ok s ∧ s.schemas = schemas ∧
      s.settings = settings ∧ s.compile (.str View.write.name) = .ok types := by
    refine ⟨_, rfl, rfl, rfl, ?_⟩
    decide +kernel
  have hknown : Scalar.Apart (OrderedMap.keys s.schemas) := by
    rw [hschemas]
    decide
  have hdescribable : ∀ entry ∈ schemas, Document.Describable entry.2 := by
    simp only [schemas, List.forall_mem_cons, ← Document.succeeds_descriptions_iff]
    refine ⟨⟨[], ?_⟩, ⟨[], ?_⟩, ⟨["Done."], ?_⟩, ⟨["An amount."], ?_⟩, by simp⟩ <;>
      decide
  have hordered : s.settings.orderSchemas = some (.list (ordered.map Value.str)) := by
    rw [hsettings]
  have hignored : s.settings.ignoreSchemas = some (.list (ignored.map Value.str)) := by
    rw [hsettings]
  obtain ⟨harranged, -, houtline⟩ := compiled_in_order hknown hordered hignored hcompile
  rw [hschemas] at hknown harranged houtline
  obtain ⟨outline, hdefined⟩ := (houtline "").1.mpr
    ⟨⟨.write, rfl⟩, fun entry hentry _ => hdescribable entry hentry⟩
  exact ⟨s, outline, hs, hschemas, hknown, hcompile, harranged, hdefined,
    ((houtline "").2 outline hdefined).1⟩

/-- A part that is no schema is not met when the schema beside it is compiled, but when it
is described. -/
theorem compiled_beside_parts :
    let document : Value := .map [(.str "components", .map [(.str "schemas", .map
      [(.str "Pet", .map [(.str "type", .str "string"), (.str "allOf", .list [.null])])])])]
    ∃ s, ofDocument document {} (fun _ => none) = .ok s ∧
      s.compile (.str View.read.name) = .ok [(.str "Pet", .primitive .string)] ∧
      ¬ Succeeds (s.outline (.str View.read.name) "") := by
  intro document
  obtain ⟨s, hs, hschemas, hcompile⟩ : ∃ s, ofDocument document {} (fun _ => none) = .ok s ∧
      s.schemas =
        [(.str "Pet", .map [(.str "type", .str "string"), (.str "allOf", .list [.null])])] ∧
      s.compile (.str View.read.name) = .ok [(.str "Pet", .primitive .string)] := by
    refine ⟨_, rfl, rfl, ?_⟩
    decide +kernel
  refine ⟨s, hs, hcompile, fun houtline => ?_⟩
  obtain ⟨-, hdescribed⟩ := (succeeds_outline_iff hcompile).mp houtline
  obtain ⟨schema, hfind, hdescribable⟩ := hdescribed _ List.mem_cons_self
  rw [hschemas] at hfind
  cases hfind
  obtain ⟨entries, heq, hparts⟩ := hdescribable
  cases heq
  obtain ⟨parts, helements, hmaps⟩ := hparts rfl
  cases helements
  obtain ⟨fields, hnull⟩ := hmaps .null List.mem_cons_self
  cases hnull

end Session
end SchemaViews
