import SchemaViews.Compilation
import SchemaViews.Proofs.WellShapedResolution

/-!
# How compiling a schema can fail

A schema of a well-shaped document compiles to a type unless a composition
leads back to itself, a scalar is of an unknown type, or an integer is too long
to be written.  Types are only ever copied and put together, so an unknown type
that is met goes back to one that a schema of the document declares, and so does
an integer that is met.
-/

namespace SchemaViews

/-- The failures of a resolution of well-shaped schemas; if their types are
recognised and their integers are short, only endless ones. -/
inductive Refusal (strict short : Prop) : Failure → Prop
  | endless : Refusal strict short .endless
  | unknownType {declared : DeclaredType} {definition : Entries} :
      (Failure.unknownType declared definition none).isWritable = true → ¬ strict →
        Refusal strict short (.unknownType declared definition none)
  | tooLong : ¬ short → Refusal strict short (.tooLong Numerals.digitLimit)

section Resolution

variable {s : Scope} {strict short : Prop}
  (harena : ∀ entry ∈ s.context.arena,
    entry.2.Legible s.context.arena.Knows strict short)
include harena

theorem expandWithin_refusals {bound : ℕ} {schema : Value}
    (h : schema.WellShaped s.context.arena.Knows strict) :
    FailsOnly (Refusal strict short)
      (s.context.arena.expandWithin bound schema).result := by
  refine Arena.expandWithin_failsOnly
    (E := fun _ schema => schema.WellShaped s.context.arena.Knows strict)
    (fun _ _ h => .inl (composable_of_wellShaped h).unfoldable)
    (fun _ _ _ h hpart => h.inside (.part hpart.combines))
    (fun _ _ _ _ _ => .endless) ?_ h
  intro bound raw target component _ _ _ _ hfind
  exact (harena _ (OrderedMap.mem_of_find? hfind)).1

theorem resolveWithin_refusals (hcovers : s.context.Covers) (bound : ℕ)
    {fragment : Fragment}
    (hfragment : fragment.From (Value.Legible s.context.arena.Knows strict short)) :
    FailsOnly (Refusal strict short) (s.resolveWithin bound fragment).result := by
  have hstep : ∀ (again : Fragment → Outcome TypeExpr) (fragment : Fragment),
      fragment.From (Value.Legible s.context.arena.Knows strict short) →
      (∀ whole, whole.From (Value.Legible s.context.arena.Knows strict short) →
        FailsOnly (Refusal strict short) (again whole).result) →
      FailsOnly (Refusal strict short) (s.resolveWith again fragment).result := by
    intro again fragment hfragment hagain
    refine resolveWith_failsOnly_legible harena .tooLong
      (fun h => expandWithin_refusals harena h) hcovers .unknownType hfragment ?_
    intro whole hwhole
    exact hagain whole (hfragment.reopens legible_invariant harena
      Discriminator.legible_tag hwhole)
  induction bound generalizing fragment with
  | zero =>
      rw [Scope.resolveWithin]
      exact hstep _ fragment hfragment fun _ _ => failsOnly_error .endless
  | succ bound ih =>
      rw [Scope.resolveWithin]
      exact hstep _ fragment hfragment fun _ hwhole => ih hwhole

theorem resolveSchema_refusals (hcovers : s.context.Covers) {schema : Value}
    (hschema : schema.Legible s.context.arena.Knows strict short) :
    FailsOnly (Refusal strict short)
      (resolveSchema s.context s.origin schema (.str s.view.name)).result := by
  rw [resolveSchema_eq]
  refine (read_legible hschema .tooLong).bind fun fragment hfragment => ?_
  exact resolveWithin_refusals harena hcovers _
    (Fragment.from_of_read hschema hfragment)

end Resolution

/-! ## Documents -/

namespace Document

/-- Every component schema is well-shaped at all of its schema positions, and
its reference markers name component schemas. -/
def WellShaped (document : Value) : Prop :=
  ∃ schemas, components document = .ok schemas ∧ ∀ component ∈ schemas,
    component.2.WellShaped (fun name => .str name ∈ OrderedMap.keys schemas) False

/-- Some schema position of a component declares a type that is not
recognised. -/
def DeclaresUnrecognised (document : Value) : Prop :=
  ∃ schemas, components document = .ok schemas ∧ ∃ component ∈ schemas,
    ∃ (position : Entries) (type : Value),
      component.2.Position (.map position) ∧
        (.str "type", type) ∈ position ∧ ¬ type.Recognised

/-- Some integer in the components, or among their names, has too many digits to
be written. -/
def HoldsLong (document : Value) : Prop :=
  ∃ schemas, components document = .ok schemas ∧ (Value.map schemas).isWritable = false

end Document

theorem Value.WellShaped.recognise {known : String → Prop} {strict : Prop}
    {schema : Value} (h : schema.WellShaped known False)
    (htypes : strict → ∀ (position : Entries) (type : Value),
      schema.Position (.map position) → (.str "type", type) ∈ position →
        type.Recognised) : schema.WellShaped known strict := by
  intro inner hinner
  obtain ⟨entries, rfl, hentries⟩ := h inner hinner
  refine ⟨entries, rfl, ?_⟩
  rintro ⟨key, v⟩ hentry
  have hshape := hentries _ hentry
  exact { hshape with
    recognised := by
      rintro hstrict rfl
      exact htypes hstrict entries v hinner hentry }

namespace Document

/-- The types are recognised and the integers short as long as no position of the
document says otherwise. -/
theorem components_legible {document : Value} {known : String → Prop} {schemas : Entries}
    (hschemas : components document = .ok schemas)
    (hshaped : ∀ component ∈ schemas, component.2.WellShaped known False) :
    ∀ component ∈ schemas, component.2.Legible known (¬ DeclaresUnrecognised document)
      (¬ HoldsLong document) := by
  intro component hcomponent
  constructor
  · apply (hshaped component hcomponent).recognise
    intro hnone position type hposition htype
    by_contra hunrecognised
    exact hnone ⟨schemas, hschemas, component, hcomponent, position, type,
      hposition, htype, hunrecognised⟩
  · intro hnone
    have hwritable : (Value.map schemas).isWritable = true := by
      by_contra hlong
      exact hnone ⟨schemas, hschemas, by simpa using hlong⟩
    exact (Value.isWritable_map_iff.mp hwritable component hcomponent).2

end Document

namespace Arena

theorem find?_ofEntries (schemas : Entries) (name : String) :
    OrderedMap.find? (ofEntries schemas) name = schemas.field? name := by
  unfold Entries.field?
  induction schemas with
  | nil => rfl
  | cons entry rest ih =>
      obtain ⟨key, schema⟩ := entry
      rw [OrderedMap.find?_cons, ← ih]
      cases key with
      | str other =>
          have hcons : ofEntries ((.str other, schema) :: rest) =
              (other, schema) :: ofEntries rest := rfl
          rw [hcons, OrderedMap.find?_cons]
          simp
      | null | bool | int | float | moment | ref =>
          rw [if_neg (by simp)]
          rfl

theorem knows_ofEntries (schemas : Entries) :
    (ofEntries schemas).Knows =
      fun name => .str name ∈ OrderedMap.keys schemas := by
  funext name
  unfold Knows
  rw [find?_ofEntries, Entries.field?, ← Option.isSome_iff_exists,
    ← Option.ne_none_iff_isSome, Ne, OrderedMap.find?_eq_none_iff, not_not]

theorem mem_of_mem_ofEntries {schemas : Entries} {entry : String × Value}
    (h : entry ∈ ofEntries schemas) : (.str entry.1, entry.2) ∈ schemas := by
  obtain ⟨⟨key, schema⟩, hmem, heq⟩ := List.mem_filterMap.mp h
  cases key with
  | str name =>
      cases heq
      exact hmem
  | null | bool | int | float | moment | ref => cases heq

end Arena

theorem OrderedMap.find?_map_const {κ α β : Type} [DecidableEq κ]
    (m : OrderedMap κ α) (key : κ) (b : β) :
    find? (m.map fun entry => (entry.1, b)) key = (find? m key).map fun _ => b := by
  induction m with
  | nil => rfl
  | cons entry rest ih =>
      obtain ⟨k, v⟩ := entry
      rw [List.map_cons, find?_cons, find?_cons]
      by_cases hk : k = key
      · rw [if_pos hk, if_pos hk, Option.map_some]
      · rw [if_neg hk, if_neg hk, ih]

def View.choose (readModule writeModule : Value) : View → Value
  | .read => readModule
  | .write => writeModule

namespace Context

variable (readModule writeModule : Value) (arena : Arena)

theorem uniform_moduleOf (view : View) (name : String) :
    (uniform readModule writeModule arena).moduleOf view name =
      match OrderedMap.find? arena name with
      | some _ => .ok (view.choose readModule writeModule)
      | none => .error (.unknownSchema (.str name)) := by
  unfold moduleOf modules uniform
  cases view with
  | read =>
      dsimp only
      rw [OrderedMap.find?_map_const]
      cases OrderedMap.find? arena name <;> rfl
  | write =>
      dsimp only
      rw [OrderedMap.find?_map_const]
      cases OrderedMap.find? arena name <;> rfl

theorem uniform_covers : (uniform readModule writeModule arena).Covers := by
  rintro view name ⟨schema, hschema⟩
  have hfind : OrderedMap.find? arena name = some schema := hschema
  rw [uniform_moduleOf, hfind]
  exact succeeds_ok _

end Context

/-- The message of a failure quotes the component as well once it names it. -/
theorem Failure.whileCompiling_unknownType {declared : DeclaredType} {definition : Entries}
    (h : (Failure.unknownType declared definition none).isWritable = true)
    (name : Scalar) (view : View) :
    whileCompiling name view (.unknownType declared definition none) =
      if name.isWritable then .unknownType declared definition (some (name, view))
      else .tooLong Numerals.digitLimit := by
  have hnamed : (Failure.unknownType declared definition (some (name, view))).isWritable =
      name.isWritable := by
    have hquoted : declared.isWritable = true ∧ (Value.map definition).isWritable = true := by
      simpa [isWritable] using h
    simp [isWritable, hquoted]
  rw [whileCompiling, worded, hnamed]

theorem Session.compileSchema_eq {s : Session} {name : Scalar} {schema : Value}
    (h : ScalarMap.find? s.schemas name = some schema) (view : View) :
    s.compileSchema name (.str view.name) =
      (resolveSchema s.context name.text? schema (.str view.name)).result.mapError
        (Failure.whileCompiling name view) := by
  have hview : Session.view (.str view.name) = .ok view := by
    cases view <;> rfl
  rw [compileSchema, hview]
  change Except.bind (.ok view) _ = _
  simp only [Except.bind, h]

/-- Compiling a schema of a well-shaped document gives a type, unless it is
endless, the document declares a type that is not recognised, or it holds an
integer that is too long to be written. -/
theorem Session.compileSchema_wellShaped {document : Value} {settings : Settings}
    {installed : Formatters} {s : Session} (hdocument : Document.WellShaped document)
    (hsession : Session.ofDocument document settings installed = .ok s)
    {name : Scalar} {schema : Value}
    (hname : ScalarMap.find? s.schemas name = some schema) (view : View) :
    Succeeds (s.compileSchema name (.str view.name)) ∨
      s.compileSchema name (.str view.name) = .error .endless ∨
      ((∃ declared definition, s.compileSchema name (.str view.name) =
          .error (.unknownType declared definition (some (name, view)))) ∧
        Document.DeclaresUnrecognised document) ∨
      (s.compileSchema name (.str view.name) = .error (.tooLong Numerals.digitLimit) ∧
        (name.isWritable = false ∨ Document.HoldsLong document)) := by
  obtain ⟨schemas, hschemas, hshaped⟩ := hdocument
  unfold ofDocument at hsession
  rw [hschemas] at hsession
  cases hsession
  rw [← Arena.knows_ofEntries] at hshaped
  have hlegible := Document.components_legible hschemas hshaped
  let scope : Scope := ⟨view, .uniform settings.readModule settings.writeModule
    (Arena.ofEntries schemas), name.text?⟩
  have harena : ∀ entry ∈ scope.context.arena,
      entry.2.Legible scope.context.arena.Knows (¬ Document.DeclaresUnrecognised document)
        (¬ Document.HoldsLong document) :=
    fun entry hentry => hlegible _ (Arena.mem_of_mem_ofEntries hentry)
  have hcovers : scope.context.Covers := Context.uniform_covers _ _ _
  have hrefusals := resolveSchema_refusals harena hcovers
    (hlegible _ (OrderedMap.mem_of_find? hname))
  rw [compileSchema_eq hname]
  rcases hrefusals.cases with ⟨type, htype⟩ | ⟨failure, hfailure, hrefusal⟩
  · left
    refine ⟨type, ?_⟩
    rw [show (resolveSchema _ _ schema _).result = .ok type from htype]
    rfl
  · right
    rw [show (resolveSchema _ _ schema _).result = .error failure from hfailure, Except.mapError]
    cases hrefusal with
    | endless => exact .inl rfl
    | tooLong hlong => exact .inr (.inr ⟨rfl, .inr (not_not.mp hlong)⟩)
    | unknownType hwritable hdeclares =>
        right
        rw [Failure.whileCompiling_unknownType hwritable]
        by_cases hshown : name.isWritable = true
        · rw [if_pos hshown]
          exact .inl ⟨⟨_, _, rfl⟩, not_not.mp hdeclares⟩
        · rw [if_neg hshown]
          exact .inr ⟨rfl, .inl (by simpa using hshown)⟩

/-! ## One component with one property -/

/-- A document whose only component is an object with one property. -/
def petDocument (kind : Entries) : Value :=
  .map [(.str "components", .map [(.str "schemas", .map [(.str "Pet", .map
    [(.str "type", .str "object"),
      (.str "properties", .map [(.str "kind", .map kind)])])])])]

theorem wellShaped_petDocument {kind : Entries}
    (h : ∀ known, (Value.map kind).WellShaped known False) :
    Document.WellShaped (petDocument kind) := by
  refine ⟨_, rfl, fun component hcomponent => ?_⟩
  rw [List.mem_singleton.mp hcomponent]
  refine Value.everywhere_shaped_iff.mpr fun entry hentry => ?_
  rcases List.mem_cons.mp hentry with rfl | hentry
  · refine entryShaped_of_plain (fieldShape_type_iff.mpr ?_) (by simp)
    exact ⟨.inl ⟨"object", rfl⟩, False.elim⟩
  · rw [List.mem_singleton.mp hentry]
    refine entryShaped_properties_iff.mpr ⟨?_, fun inner hinner => ?_⟩
    · exact fieldShape_properties_iff.mpr ⟨_, rfl, by simp⟩
    · rw [List.mem_singleton.mp hinner]
      exact h _

theorem wellShaped_named (known : String → Prop) (kind : String) :
    (Value.map [(.str "type", .str kind)]).WellShaped known False :=
  wellShaped_of_kind (fieldShape_type_iff.mpr ⟨.inl ⟨kind, rfl⟩, False.elim⟩)

theorem Session.compileSchema_pet :
    (∃ s, Session.ofDocument (petDocument [(.str "type", .str "string")]) {}
        (fun _ => none) = .ok s ∧
      s.compileSchema (.str "Pet") (.str View.read.name) =
        .ok (.struct [⟨.str "kind", true, .primitive .string⟩])) ∧
    ∃ s, Session.ofDocument (petDocument [(.str "type", .str "widget")]) {}
        (fun _ => none) = .ok s ∧
      s.compileSchema (.str "Pet") (.str View.read.name) =
        .error (.unknownType (.single (.str "widget")) [(.str "type", .str "widget")]
          (some (.str "Pet", .read))) ∧
      Document.DeclaresUnrecognised (petDocument [(.str "type", .str "widget")]) := by
  have hcases := @Session.compileSchema_wellShaped _ {} (fun _ => none) _
    (wellShaped_petDocument fun known => wellShaped_named known "widget") rfl
    (.str "Pet") _ rfl .read
  refine ⟨⟨_, rfl, by decide +kernel⟩, _, rfl, ?_⟩
  refine (and_iff_left_of_imp fun hunknown => ?_).mpr (by decide +kernel)
  rw [hunknown] at hcases
  simpa [Succeeds] using hcases

/-- An enumerated integer of one digit too many is neither of these. -/
theorem Session.compileSchema_longEnum :
    let least : Int := tenTo Numerals.digitLimit
    let document := petDocument
      [(.str "type", .str "string"), (.str "enum", .list [.int least])]
    Document.WellShaped document ∧
      ∃ s, Session.ofDocument document {} (fun _ => none) = .ok s ∧
        s.compileSchema (.str "Pet") (.str View.read.name) = .error (.tooLong 4300) := by
  intro least document
  refine ⟨wellShaped_petDocument fun known => ?_, _, rfl, by decide +kernel⟩
  have henum : FieldShape known False (.str "enum") (.list [.int least]) := by
    constructor
    case enum => exact fun _ => ⟨_, rfl⟩
    case composition => simp [compositionKeys]
    all_goals simp [referenceKey]
  have htype : FieldShape known False (.str "type") (.str "string") :=
    fieldShape_type_iff.mpr ⟨.inl ⟨_, rfl⟩, False.elim⟩
  apply Value.everywhere_shaped_iff.mpr
  simpa using ⟨entryShaped_of_plain htype (by simp), entryShaped_of_plain henum (by simp)⟩

end SchemaViews
