import SchemaViews.Proofs.ResolutionSteps

/-!
# References to the component at hand

The component that is being compiled, the origin of a scope, is looked at where a
reference gets its module and nowhere else.  So a schema resolves in one way with
and without an origin, except that references to the origin have no module.
-/

namespace SchemaViews

namespace TypeExpr

def localized (name : String) : TypeExpr → TypeExpr
  | .missing => .missing
  | .primitive kind => .primitive kind
  | .nullable inner => .nullable (inner.localized name)
  | .list item => .list (item.localized name)
  | .freeList => .freeList
  | .freeMap => .freeMap
  | .struct fields => .struct (localizedFields fields)
  | .union alternatives => .union (localizedAll alternatives)
  | .literal values => .literal values
  | .named module other => .named (if other = name then .null else module) other
where
  localizedAll : List TypeExpr → List TypeExpr
    | [] => []
    | type :: rest => type.localized name :: localizedAll rest
  localizedFields : List (Field TypeExpr) → List (Field TypeExpr)
    | [] => []
    | ⟨key, optional, type⟩ :: rest =>
      ⟨key, optional, type.localized name⟩ :: localizedFields rest

end TypeExpr

def Field.localized (name : String) (field : Field TypeExpr) : Field TypeExpr :=
  { field with type := field.type.localized name }

namespace TypeExpr

variable (name : String)

@[simp] theorem localized_union (alternatives : List TypeExpr) :
    (union alternatives).localized name = .union (alternatives.map (localized name)) := by
  have hall : localized.localizedAll name alternatives =
      alternatives.map (localized name) := by
    induction alternatives with
    | nil => rfl
    | cons type rest ih => rw [localized.localizedAll, ih, List.map_cons]
  rw [localized, hall]

@[simp] theorem localized_struct (fields : List (Field TypeExpr)) :
    (struct fields).localized name = .struct (fields.map (Field.localized name)) := by
  have hall : localized.localizedFields name fields =
      fields.map (Field.localized name) := by
    induction fields with
    | nil => rfl
    | cons field rest ih =>
        rw [localized.localizedFields, ih, List.map_cons]
        rfl
  rw [localized, hall]

theorem localized_unionOf (alternatives : List TypeExpr) :
    (unionOf alternatives).localized name = .unionOf (alternatives.map (localized name)) := by
  match alternatives with
  | [] => exact localized_union name []
  | [_] => rfl
  | first :: second :: rest => exact localized_union name (first :: second :: rest)

theorem localized_qualify (notes : Annotations) (type : TypeExpr) :
    (notes.qualify type).localized name = notes.qualify (type.localized name) := by
  unfold Annotations.qualify
  split
  · rfl
  · rfl

end TypeExpr

namespace Scope

variable {view : View} {c : Context} {name : String}

/-- Both scopes know the origin, so a reference fails in one as in the other. -/
theorem named_localized {module : Value} (hknown : c.moduleOf view name = .ok module)
    (other : String) :
    named ⟨view, c, some name⟩ other =
      TypeExpr.localized name <$> named ⟨view, c, none⟩ other := by
  unfold named
  by_cases hother : other = name
  · have hlocal : (TypeExpr.named module name).localized name = .named .null name := by
      simp [TypeExpr.localized]
    rw [hother, if_pos rfl, if_neg (by simp), hknown]
    exact congrArg Except.ok hlocal.symm
  · have hfar : ¬ some name = some other := by
      simpa [eq_comm] using hother
    rw [if_neg hfar, if_neg (by simp), map_bind]
    refine bind_congr fun target => ?_
    simp [TypeExpr.localized, hother]

theorem primitiveType_localized (name : String) (notes : Annotations) (declared : DeclaredType)
    (format : Value) :
    primitiveType notes declared format =
      TypeExpr.localized name <$> primitiveType notes declared format := by
  unfold primitiveType
  split
  · rfl
  · rfl
  · split <;> rfl
  · rfl
  · rfl

section Step

variable {near far : Fragment → Outcome TypeExpr}
  (hagain : ∀ whole, (near whole).result = TypeExpr.localized name <$> (far whole).result)
include hagain

theorem field_localized {key : Scalar} {required : Bool} {property : Fragment}
    {type type' : Unit → Outcome TypeExpr}
    (htype : (type ()).result = TypeExpr.localized name <$> (type' ()).result) :
    (field ⟨view, c, some name⟩ near key required property type).result =
      Option.map (Field.localized name) <$>
        (field ⟨view, c, none⟩ far key required property type').result := by
  rw [field_eq, field_eq, map_bind]
  refine bind_congr fun shown => ?_
  by_cases hhidden : shown.notes.hiddenIn view = true
  · simp [hhidden]
  · have hshown : shownType near property shown type =
        TypeExpr.localized name <$> shownType far property shown type' := by
      unfold shownType
      split
      · exact hagain shown
      · exact htype
    rw [if_neg hhidden, if_neg hhidden, hshown, Functor.map_map, Functor.map_map]
    rfl

theorem alternative_localized {d : Discriminator} {option : Fragment}
    {type type' : Unit → Outcome TypeExpr}
    (htype : (type ()).result = TypeExpr.localized name <$> (type' ()).result) :
    (alternative ⟨view, c, some name⟩ near d option type).result =
      TypeExpr.localized name <$>
        (alternative ⟨view, c, none⟩ far d option type').result := by
  rw [alternative_eq, alternative_eq, map_bind]
  refine bind_congr fun tag => ?_
  cases tag with
  | none => exact htype
  | some tag =>
      simp only [map_bind]
      refine bind_congr fun flat => ?_
      exact bind_congr fun whole => hagain whole

theorem merged_localized (parts : List Fragment) (keep : Entries → Entries) :
    (merged ⟨view, c, some name⟩ near parts keep).result =
      TypeExpr.localized name <$> (merged ⟨view, c, none⟩ far parts keep).result := by
  rw [merged_eq, merged_eq]
  simp only [map_bind]
  refine bind_congr fun flat => ?_
  exact bind_congr fun whole => hagain whole

theorem resolveWith_localized {module : Value} (hknown : c.moduleOf view name = .ok module)
    (fragment : Fragment) :
    (resolveWith ⟨view, c, some name⟩ near fragment).result =
      TypeExpr.localized name <$> (resolveWith ⟨view, c, none⟩ far fragment).result := by
  have hqualify : ∀ (notes : Annotations) (core : Except Failure TypeExpr),
      notes.qualify <$> TypeExpr.localized name <$> core =
        TypeExpr.localized name <$> notes.qualify <$> core := by
    intro notes core
    simp only [Functor.map_map, TypeExpr.localized_qualify]
  have hplain : ∀ (notes : Annotations) {core : TypeExpr}, core.localized name = core →
      (.ok (notes.qualify core) : Except Failure TypeExpr) =
        TypeExpr.localized name <$> .ok (notes.qualify core) := by
    intro notes core hcore
    have hqualified := TypeExpr.localized_qualify name notes core
    rw [hcore] at hqualified
    exact congrArg Except.ok hqualified.symm
  induction fragment using Fragment.induction with
  | reference notes target =>
      have hnamed := named_localized hknown target.name
      simp only [resolveWith, Outcome.result_map]
      rw [← hqualify]
      exact congrArg _ hnamed
  | primitive notes declared format =>
      have hprimitive := primitiveType_localized name notes declared format
      simp only [resolveWith, Outcome.result_map]
      rw [← hqualify]
      exact congrArg _ hprimitive
  | choice notes values format =>
      apply hplain
      cases view <;> rfl
  | freeObject notes => exact hplain notes rfl
  | freeArray notes => exact hplain notes rfl
  | object notes properties required ih =>
      have hfields : (properties.mapM fun entry =>
            (field ⟨view, c, some name⟩ near entry.1 (required.any entry.1.sameKey) entry.2
              fun _ => resolveWith ⟨view, c, some name⟩ near entry.2).result) =
          List.map (Option.map (Field.localized name)) <$> properties.mapM fun entry =>
            (field ⟨view, c, none⟩ far entry.1 (required.any entry.1.sameKey) entry.2
              fun _ => resolveWith ⟨view, c, none⟩ far entry.2).result :=
        mapM_eq_map fun entry hentry => field_localized hagain (ih entry hentry)
      rw [resolveWith_object, resolveWith_object, hfields, Functor.map_map, Functor.map_map]
      simp only [TypeExpr.localized_qualify, TypeExpr.localized_struct, List.flatMap_map,
        List.map_flatMap, Option.toList_map]
  | array notes items ih =>
      rw [resolveWith_array, resolveWith_array, ih, Functor.map_map, Functor.map_map]
      simp only [TypeExpr.localized_qualify, TypeExpr.localized]
  | oneOf notes options discriminator ih =>
      rw [resolveWith_oneOf, resolveWith_oneOf]
      cases discriminator with
      | none =>
          rw [mapM_eq_map ih, Functor.map_map, Functor.map_map]
          simp only [TypeExpr.localized_qualify, TypeExpr.localized_unionOf]
      | some d =>
          have halternatives : (options.mapM fun option =>
                (alternative ⟨view, c, some name⟩ near d option
                  fun _ => resolveWith ⟨view, c, some name⟩ near option).result) =
              List.map (TypeExpr.localized name) <$> options.mapM fun option =>
                (alternative ⟨view, c, none⟩ far d option
                  fun _ => resolveWith ⟨view, c, none⟩ far option).result :=
            mapM_eq_map fun option hoption => alternative_localized hagain (ih option hoption)
          rw [halternatives, Functor.map_map, Functor.map_map]
          simp only [TypeExpr.localized_qualify, TypeExpr.localized_unionOf]
  | allOf notes parts =>
      rw [resolveWith_allOf, resolveWith_allOf, merged_localized hagain, hqualify]
  | anyOf notes parts =>
      rw [resolveWith_anyOf, resolveWith_anyOf, merged_localized hagain, hqualify]

end Step

theorem resolveWithin_localized {module : Value}
    (hknown : c.moduleOf view name = .ok module) (bound : ℕ) (fragment : Fragment) :
    (resolveWithin ⟨view, c, some name⟩ bound fragment).result =
      TypeExpr.localized name <$> (resolveWithin ⟨view, c, none⟩ bound fragment).result := by
  induction bound generalizing fragment with
  | zero =>
      rw [resolveWithin, resolveWithin]
      exact resolveWith_localized (fun _ => rfl) hknown fragment
  | succ bound ih =>
      rw [resolveWithin, resolveWithin]
      exact resolveWith_localized ih hknown fragment

end Scope

/-- With a known component for its origin a schema, or a fragment that was read before,
resolves as it does without an origin, and fails in the same way; only the references
to that component are local. -/
theorem resolveSchema_localized {c : Context} {view : View} {name : String} {module : Value}
    (hknown : c.moduleOf view name = .ok module) :
    (∀ schema : Value,
      (resolveSchema c (some name) schema (.str view.name)).result =
        TypeExpr.localized name <$>
          (resolveSchema c none schema (.str view.name)).result) ∧
    ∀ fragment : Fragment,
      (Scope.resolve ⟨view, c, some name⟩ fragment).result =
        TypeExpr.localized name <$> (Scope.resolve ⟨view, c, none⟩ fragment).result := by
  have hfragment : ∀ fragment : Fragment,
      (Scope.resolve ⟨view, c, some name⟩ fragment).result =
        TypeExpr.localized name <$> (Scope.resolve ⟨view, c, none⟩ fragment).result :=
    fun fragment => Scope.resolveWithin_localized hknown _ fragment
  refine ⟨fun schema => ?_, hfragment⟩
  rw [resolveSchema_eq, resolveSchema_eq, map_bind]
  exact bind_congr hfragment

theorem resolveSchema_localized_node :
    let reference (name : String) : Value := .map [(.str referenceKey, .ref { name })]
    let object (properties : Entries) : Value :=
      .map [(.str "type", .str "object"), (.str "properties", .map properties)]
    let pet : Value := object [(.str "owner", reference "Node")]
    let node : Value := object
      [(.str "next", reference "Node"),
        (.str "members", .map [(.str "type", .str "array"), (.str "items",
          .map [(.str "oneOf", .list [reference "Pet", reference "Node"])])]),
        (.str "pet", .map [(.str "allOf", .list [reference "Pet"])])]
    let c : Context := .uniform (.str "Models") (.str "Requests") [("Node", node), ("Pet", pet)]
    let t (own : Value) : TypeExpr := .struct
      [⟨.str "next", true, .named own "Node"⟩,
        ⟨.str "members", true,
          .list (.union [.named (.str "Models") "Pet", .named own "Node"])⟩,
        ⟨.str "pet", true, .struct [⟨.str "owner", true, .named own "Node"⟩]⟩]
    c.moduleOf .read "Node" = .ok (.str "Models") ∧
      (resolveSchema c none node (.str View.read.name)).result = .ok (t (.str "Models")) ∧
      (resolveSchema c (some "Node") node (.str View.read.name)).result = .ok (t .null) := by
  intro reference object pet node c t
  have hknown : c.moduleOf .read "Node" = .ok (.str "Models") := by decide
  have hnone : (resolveSchema c none node (.str View.read.name)).result =
      .ok (t (.str "Models")) := by decide +kernel
  have hlocal : (t (.str "Models")).localized "Node" = t .null := by decide
  have hnode := (resolveSchema_localized hknown).1 node
  rw [hnone] at hnode
  exact ⟨hknown, hnone, hnode.trans (congrArg Except.ok hlocal)⟩

end SchemaViews
