import SchemaViews.Proofs.OverlayLaws
import SchemaViews.Proofs.ReadAnnotations

/-!
# A composition at the front of a composition

The parts of a composition are merged as they were read, the parts inside them
as they stand.  These are the same unless reading rewrites a part: a list of a
single kind becomes that kind, with a nullability of its own.  So a composition
at the front of another can be replaced by its parts if none of them is
rewritten.
-/

namespace SchemaViews

/-- Whether the type of a schema lists a single kind beside null. -/
def Entries.listsSoleKind (schema : Entries) : Bool :=
  match schema.field? "type" with
  | some (.list types) => (kindsOf types).length = 1
  | _ => false

def Value.isRewritten : Value → Bool
  | .map schema =>
    Entries.listsSoleKind schema && (Entries.reference? schema).isNone
      && (Entries.field? schema "allOf").isNone && (Entries.field? schema "anyOf").isNone
  | _ => false

def composition (parts : List Value) : Value :=
  .map [(.str "allOf", .list parts)]

theorem settle_of_not_listsSoleKind {schema : Entries}
    (h : schema.listsSoleKind = false) : settle schema = schema := by
  unfold settle
  split
  · rename_i types htypes
    split
    · rename_i kind hkind
      simp [Entries.listsSoleKind, htypes, hkind] at h
    · rfl
  · rfl

/-! ## Parts as they are read -/

namespace Arena

variable {arena : Arena}

theorem expand_of_not_rewritten {item : Value} {part : Fragment}
    (hread : Fragment.read item = .ok part) (hitem : item.isRewritten = false) :
    (arena.expand part.rawValue).result = (arena.expand item).result := by
  obtain ⟨schema, rfl, _⟩ := Fragment.reading_of_read hread
  unfold Fragment.rawValue
  rw [Fragment.notes_of_read hread, Annotations.raw_read]
  by_cases hreference : Entries.reference? schema = none
  · rw [if_pos hreference]
    by_cases hsole : Entries.listsSoleKind schema = true
    · -- only what is composed of other schemas can still list a sole kind
      obtain ⟨component, hexpand⟩ := arena.expand_eq_expandWith
      have hsettled : ∀ name, name ≠ "type" → name ≠ "nullable" →
          (settle schema).field? name = Entries.field? schema name := fun _ =>
        Fragment.field?_settle schema
      have hall := hsettled "allOf" (by decide) (by decide)
      have hany := hsettled "anyOf" (by decide) (by decide)
      rw [hexpand]
      cases hallOf : Entries.field? schema "allOf" with
      | some parts =>
          rw [expandWith_allOf hallOf, expandWith_allOf (hall.trans hallOf)]
      | none =>
          cases hanyOf : Entries.field? schema "anyOf" with
          | some parts =>
              rw [expandWith_anyOf hallOf hanyOf,
                expandWith_anyOf (hall.trans hallOf) (hany.trans hanyOf)]
          | none => simp [Value.isRewritten, hsole, hreference, hallOf, hanyOf] at hitem
    · rw [settle_of_not_listsSoleKind (by simpa using hsole)]
  · rw [if_neg hreference]

theorem merge_of_not_rewritten {items : List Value} {parts : List Fragment}
    (hread : items.mapM Fragment.read = .ok parts)
    (hitems : ∀ item ∈ items, item.isRewritten = false) (others : List Value) :
    (arena.merge (parts.map Fragment.rawValue ++ others)).result =
      (arena.merge (items ++ others)).result := by
  have hexpand : (parts.map Fragment.rawValue).mapM
        (fun part => (arena.expand part).result) =
      items.mapM fun item => (arena.expand item).result := by
    rw [mapM_eq_ok_iff] at hread
    induction hread with
    | nil => rfl
    | cons hitem _ ih =>
        rw [List.forall_mem_cons] at hitems
        rw [List.map_cons, List.mapM_cons, List.mapM_cons, ih hitems.2,
          expand_of_not_rewritten hitem hitems.1]
  rw [merge_eq, merge_eq, List.mapM_append, List.mapM_append, hexpand]

end Arena

/-! ## Resolving a composition -/

theorem Fragment.read_composition (parts : List Value) :
    ∃ notes : Annotations, notes.nullable = false ∧
      .map notes.raw = composition parts ∧
        Fragment.read (composition parts) =
          Fragment.allOf notes <$> parts.mapM Fragment.read := by
  let schema : Entries := [(.str "allOf", .list parts)]
  have hother : ∀ name, name ≠ "allOf" → schema.field? name = none := by
    intro name hname
    simp [schema, Entries.field?, OrderedMap.find?_cons, Ne.symm hname]
  have hreference : schema.reference? = none := by
    rw [Entries.reference?, hother referenceKey (by decide)]
  have hsettle : settle schema = schema := by
    rw [settle, hother "type" (by decide)]
  refine ⟨.of schema, ?_, rfl, ?_⟩
  · rw [Annotations.of, Entries.isTrue, hother "nullable" (by decide)]
    rfl
  · have hnotes : Annotations.read schema = .of schema := by
      rw [Annotations.read_of_not_list hreference, hsettle]
      simp [hsettle, hother "type" (by decide)]
    have hall : schema.field? "allOf" = some (.list parts) := rfl
    unfold composition
    rw [read_eq_readAs, hnotes, readAs, hreference, hsettle,
      hother "type" (by decide)]
    dsimp only
    rw [readComposition_eq, hother "oneOf" (by decide), hall]
    dsimp only
    rw [readSequence_eq]
    exact (map_eq_pure_bind ..).symm

theorem resolveSchema_composition_parts (c : Context) (origin : Option String)
    (view : Value) :
    ∃ finish : Except Failure Entries → Except Failure TypeExpr, ∀ parts,
      (resolveSchema c origin (composition parts) view).result =
        parts.mapM Fragment.read >>= fun fragments =>
          finish (c.arena.merge (fragments.map Fragment.rawValue)).result := by
  cases hview : View.ofValue? view with
  | none =>
      refine ⟨fun _ => .error (Failure.worded (.unknownView view)), fun parts => ?_⟩
      obtain ⟨notes, _, _, hread⟩ := Fragment.read_composition parts
      rw [resolveSchema, Outcome.result_bind, hview]
      change (Fragment.read _ >>= _) = _
      rw [hread, bind_map_left]
      rfl
  | some v =>
      obtain ⟨again, hagain, _⟩ := Scope.resolveWithin_eq_resolveWith
        ⟨v, c, origin⟩ c.arena.nesting
      refine ⟨fun flat => flat >>= fun flat => Fragment.read (.map flat) >>=
        fun whole => (again whole).result, fun parts => ?_⟩
      obtain ⟨notes, hnullable, _, hread⟩ := Fragment.read_composition parts
      have hqualify : notes.qualify = id := by
        funext t
        simp [Annotations.qualify, hnullable]
      rw [resolveSchema, Outcome.result_bind, hview]
      change (Fragment.read _ >>= _) = _
      rw [hread, bind_map_left]
      congr 1
      funext fragments
      change (Scope.resolveWithin _ c.arena.nesting _).result = _
      rw [hagain, Scope.resolveWith_allOf, hqualify, id_map, Scope.merged_eq]
      rfl

/-- A composition at the front gives the same type, or the same failure, as its
parts there, if none of them is rewritten. -/
theorem resolveSchema_leading_composition {c : Context} {origin : Option String}
    {view : Value} {inner rest : List Value}
    (hinner : ∀ part ∈ inner, part.isRewritten = false) :
    (resolveSchema c origin (composition (composition inner :: rest)) view).result =
      (resolveSchema c origin (composition (inner ++ rest)) view).result := by
  obtain ⟨finish, hfinish⟩ := resolveSchema_composition_parts c origin view
  obtain ⟨notes, _, hraw, hread⟩ := Fragment.read_composition inner
  rw [hfinish, hfinish, List.mapM_cons, List.mapM_append, hread]
  cases hparts : inner.mapM Fragment.read with
  | error failure => rfl
  | ok parts =>
      cases rest.mapM Fragment.read with
      | error failure => rfl
      | ok others =>
          have hmerge : (c.arena.merge (composition inner ::
                others.map Fragment.rawValue)).result =
              (c.arena.merge ((parts ++ others).map Fragment.rawValue)).result := by
            rw [List.map_append, Arena.merge_of_not_rewritten hparts hinner]
            exact Arena.merge_cons_allOf rfl rfl _
          change finish (c.arena.merge (.map notes.raw :: _)).result = _
          rw [hraw, hmerge]
          rfl

/-- Behind a part that may be null, a part that lists a single kind leaves null
out, unless both stand in a composition of their own. -/
theorem leading_composition_sole_kind :
    let inner : List Value :=
      [.map [(.str "nullable", .bool true)],
        .map [(.str "type", .list [.str "string"])]]
    let c : Context := ⟨[], [], []⟩
    (resolveSchema c none (composition [composition inner])
        (.str View.read.name)).result = .ok (.nullable (.primitive .string)) ∧
      (resolveSchema c none (composition inner)
        (.str View.read.name)).result = .ok (.primitive .string) := by
  decide +kernel

theorem leading_composition_pet :
    let base : Value := .map
      [(.str "type", .str "object"),
        (.str "properties", .map [(.str "id", .map
          [(.str "type", .list [.str "integer", .str "null"])])])]
    let inner : List Value :=
      [.map [(.str referenceKey, .ref { name := "Base" })],
        .map [(.str "nullable", .bool true)]]
    let rest : List Value :=
      [.map [(.str "type", .list [.str "object"]),
        (.str "required", .list [.str "id"])]]
    let c : Context := .uniform (.str "Models") (.str "Requests") [("Base", base)]
    let t : TypeExpr := .struct [⟨.str "id", false, .nullable (.primitive .integer)⟩]
    (∀ part ∈ inner, part.isRewritten = false) ∧
      (resolveSchema c (some "Pet") (composition (inner ++ rest))
          (.str View.read.name)).result = .ok t ∧
        (resolveSchema c (some "Pet") (composition (composition inner :: rest))
          (.str View.read.name)).result = .ok t := by
  intro base inner rest c t
  have hinner : ∀ part ∈ inner, part.isRewritten = false := by decide
  have hflat : (resolveSchema c (some "Pet") (composition (inner ++ rest))
      (.str View.read.name)).result = .ok t := by decide +kernel
  exact ⟨hinner, hflat, (resolveSchema_leading_composition hinner).trans hflat⟩

end SchemaViews
