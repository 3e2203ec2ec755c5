import SchemaViews.Proofs.OutcomeLaws
import SchemaViews.Resolution

/-!
# Steps of resolution

Fragments nest through lists, so their induction is stated once, with the
members of a list as hypotheses.  The lists of an object and of a union are
resolved member by member.  What a property or an alternative resolves to is
said by one equation each.  With more merged schemas allowed inside one another
a resolution stays the same unless it was endless before.
-/

namespace SchemaViews

@[elab_as_elim]
theorem Fragment.induction {motive : Fragment → Prop}
    (reference : ∀ notes target, motive (.reference notes target))
    (primitive : ∀ notes declared format,
      motive (.primitive notes declared format))
    (choice : ∀ notes values format, motive (.choice notes values format))
    (object : ∀ notes properties required,
      (∀ entry ∈ properties, motive entry.2) →
        motive (.object notes properties required))
    (freeObject : ∀ notes, motive (.freeObject notes))
    (array : ∀ notes items, motive items → motive (.array notes items))
    (freeArray : ∀ notes, motive (.freeArray notes))
    (oneOf : ∀ notes options discriminator,
      (∀ option ∈ options, motive option) →
        motive (.oneOf notes options discriminator))
    (allOf : ∀ notes parts, (∀ part ∈ parts, motive part) →
      motive (.allOf notes parts))
    (anyOf : ∀ notes parts, (∀ part ∈ parts, motive part) →
      motive (.anyOf notes parts)) :
    ∀ fragment, motive fragment := by
  intro fragment
  refine Fragment.rec
    (motive_1 := motive)
    (motive_2 := fun properties => ∀ entry ∈ properties, motive entry.2)
    (motive_3 := fun fragments => ∀ member ∈ fragments, motive member)
    (motive_4 := fun entry => motive entry.2)
    reference primitive choice object freeObject array freeArray oneOf allOf
    anyOf ?_ ?_ ?_ ?_ ?_ fragment
  · simp
  · intro entry rest hentry hrest
    exact List.forall_mem_cons.mpr ⟨hentry, hrest⟩
  · simp
  · intro member rest hmember hrest
    exact List.forall_mem_cons.mpr ⟨hmember, hrest⟩
  · intro name property hproperty
    exact hproperty

namespace Scope

/-! ## Lists of fragments -/

theorem resolveFields_eq_mapM (s : Scope)
    (again : Fragment → Outcome TypeExpr) (required : List Scalar)
    (properties : List (Scalar × Fragment)) :
    s.resolveFields again required properties =
      (fun fields => fields.flatMap Option.toList) <$>
        properties.mapM fun entry =>
          s.field again entry.1 (required.any entry.1.sameKey) entry.2
            fun _ => s.resolveWith again entry.2 := by
  induction properties with
  | nil =>
      rw [resolveFields]
      simp
  | cons entry rest ih =>
      obtain ⟨name, property⟩ := entry
      rw [resolveFields, ih, List.mapM_cons]
      simp [List.flatMap_cons]

theorem resolveOptions_eq_mapM (s : Scope)
    (again : Fragment → Outcome TypeExpr)
    (discriminator : Option Discriminator) (options : List Fragment) :
    s.resolveOptions again discriminator options =
      options.mapM fun option =>
        match discriminator with
        | some d =>
            s.alternative again d option fun _ => s.resolveWith again option
        | none => s.resolveWith again option := by
  induction options with
  | nil => cases discriminator <;> rfl
  | cons option rest ih =>
      rw [List.mapM_cons, ← ih]
      cases discriminator <;> rfl

end Scope

/-! ## Merged schemas -/

/-- The definition that decides how a property is shown: its own, or the merge
of a composition with the keys beside it. -/
def Arena.shown (arena : Arena) : Fragment → Except Failure Fragment
  | .allOf notes parts => do
      let flat ← (arena.merge (parts.map Fragment.rawValue ++
        [.map (notes.raw.dropField "allOf")])).result
      Fragment.read (.map flat)
  | property => .ok property

namespace Scope

/-- The type of a property that is shown as `shown`. -/
def shownType (again : Fragment → Outcome TypeExpr) (property shown : Fragment)
    (type : Unit → Outcome TypeExpr) : Except Failure TypeExpr :=
  match property with
  | .allOf _ _ => (again shown).result
  | _ => (type ()).result

theorem field_eq (s : Scope) (again : Fragment → Outcome TypeExpr)
    (name : Scalar) (required : Bool) (property : Fragment)
    (type : Unit → Outcome TypeExpr) :
    (s.field again name required property type).result =
      s.context.arena.shown property >>= fun shown =>
        if shown.notes.hiddenIn s.view then .ok none
        else (fun t => some ⟨name, !required, t⟩) <$>
          shownType again property shown type := by
  have hvisible : ∀ notes (type : Unit → Outcome TypeExpr),
      (s.visibleField name required notes type).result =
        if notes.hiddenIn s.view then .ok none
        else (fun t => some ⟨name, !required, t⟩) <$> (type ()).result := by
    intro notes type
    unfold visibleField
    split
    · rfl
    · rw [Outcome.result_bind, map_eq_pure_bind]
      rfl
  cases property with
  | allOf notes parts =>
      simp only [field, Outcome.result_bind, hvisible, Arena.shown, bind_assoc,
        shownType]
      rfl
  | reference | primitive | choice | object | freeObject | array | freeArray
  | oneOf | anyOf => exact hvisible _ type

theorem field_eq_ok_iff {s : Scope} {again : Fragment → Outcome TypeExpr}
    {name : Scalar} {required : Bool} {property : Fragment}
    {type : Unit → Outcome TypeExpr} {field : Option (Field TypeExpr)} :
    (s.field again name required property type).result = .ok field ↔
      ∃ shown, s.context.arena.shown property = .ok shown ∧
        ((shown.notes.hiddenIn s.view = true ∧ field = none) ∨
          (shown.notes.hiddenIn s.view = false ∧ ∃ t,
            shownType again property shown type = .ok t ∧
              field = some ⟨name, !required, t⟩)) := by
  rw [field_eq, bind_eq_ok_iff]
  refine exists_congr fun shown => and_congr_right fun _ => ?_
  by_cases hhidden : shown.notes.hiddenIn s.view = true
  · simp [hhidden, eq_comm]
  · rw [if_neg hhidden, map_eq_ok_iff]
    rw [Bool.not_eq_true] at hhidden
    constructor
    · rintro ⟨t, ht, rfl⟩
      exact .inr ⟨hhidden, t, ht, rfl⟩
    · rintro (⟨hshown, _⟩ | ⟨_, t, ht, rfl⟩)
      · simp [hhidden] at hshown
      · exact ⟨t, ht, rfl⟩

theorem field_name {s : Scope} {again : Fragment → Outcome TypeExpr}
    {name : Scalar} {required : Bool} {property : Fragment}
    {type : Unit → Outcome TypeExpr} {f : Field TypeExpr}
    (h : (s.field again name required property type).result = .ok (some f)) :
    f.name = name := by
  obtain ⟨shown, _, hhidden | ⟨_, t, _, hf⟩⟩ := field_eq_ok_iff.mp h
  · cases hhidden.2
  · cases hf
    rfl

theorem alternative_eq (s : Scope) (again : Fragment → Outcome TypeExpr)
    (d : Discriminator) (option : Fragment) (type : Unit → Outcome TypeExpr) :
    (s.alternative again d option type).result =
      (d.tag s.context.arena option).result >>= fun
        | some tag =>
            (Discriminator.taggedOption s.context.arena option.rawValue
              d.property tag).result >>= fun flat =>
                Fragment.read (.map flat) >>= fun whole => (again whole).result
        | none => (type ()).result := by
  unfold alternative
  rw [Outcome.result_bind]
  congr 1
  funext tag
  cases tag with
  | some tag =>
      simp only [Outcome.result_bind]
      rfl
  | none => rfl

theorem merged_eq (s : Scope) (again : Fragment → Outcome TypeExpr)
    (parts : List Fragment) (keep : Entries → Entries) :
    (s.merged again parts keep).result =
      (s.context.arena.merge (parts.map Fragment.rawValue)).result >>= fun flat =>
        Fragment.read (.map (keep flat)) >>= fun whole =>
          (again whole).result := by
  unfold merged
  simp only [Outcome.result_bind]
  rfl

/-! ## Fragments with parts -/

section Parts

variable (s : Scope) (again : Fragment → Outcome TypeExpr) (notes : Annotations)

theorem resolveWith_object (properties : List (Scalar × Fragment))
    (required : List Scalar) :
    (s.resolveWith again (.object notes properties required)).result =
      (fun fields => notes.qualify (.struct (fields.flatMap Option.toList))) <$>
        properties.mapM fun entry =>
          (s.field again entry.1 (required.any entry.1.sameKey) entry.2
            fun _ => s.resolveWith again entry.2).result := by
  rw [resolveWith, resolveFields_eq_mapM, Outcome.result_map, Outcome.result_map,
    Outcome.result_mapM, Functor.map_map]

theorem resolveWith_array (items : Fragment) :
    (s.resolveWith again (.array notes items)).result =
      (fun item => notes.qualify (.list item)) <$>
        (s.resolveWith again items).result := by
  rw [resolveWith, Outcome.result_map]

theorem resolveWith_oneOf (options : List Fragment)
    (discriminator : Option Discriminator) :
    (s.resolveWith again (.oneOf notes options discriminator)).result =
      (fun types => notes.qualify (.unionOf types)) <$>
        options.mapM fun option =>
          (match discriminator with
          | some d =>
              s.alternative again d option fun _ => s.resolveWith again option
          | none => s.resolveWith again option).result := by
  rw [resolveWith, resolveOptions_eq_mapM, Outcome.result_map, Outcome.result_mapM]

theorem resolveWith_allOf (parts : List Fragment) :
    (s.resolveWith again (.allOf notes parts)).result =
      notes.qualify <$> (s.merged again parts id).result := by
  rw [resolveWith, Outcome.result_map]

theorem resolveWith_anyOf (parts : List Fragment) :
    (s.resolveWith again (.anyOf notes parts)).result =
      notes.qualify <$> (s.merged again parts
        fun flat => flat.dropField "required").result := by
  rw [resolveWith, Outcome.result_map]

end Parts

/-! ## The bound -/

section Bound

variable {s : Scope} {again further : Fragment → Outcome TypeExpr}

section Settles

variable (hagain : ∀ fragment, Settles (again fragment).result (further fragment).result)
include hagain

theorem field_settles {name : Scalar} {required : Bool} {property : Fragment}
    {type type' : Unit → Outcome TypeExpr}
    (htype : Settles (type ()).result (type' ()).result) :
    Settles (s.field again name required property type).result
      (s.field further name required property type').result := by
  rw [field_eq, field_eq]
  refine Settles.bind (.refl _) fun shown => ?_
  split
  · exact .refl _
  · refine Settles.map ?_ _
    unfold shownType
    split
    · exact hagain shown
    · exact htype

theorem alternative_settles {d : Discriminator} {option : Fragment}
    {type type' : Unit → Outcome TypeExpr}
    (htype : Settles (type ()).result (type' ()).result) :
    Settles (s.alternative again d option type).result
      (s.alternative further d option type').result := by
  rw [alternative_eq, alternative_eq]
  refine Settles.bind (.refl _) fun tag => ?_
  cases tag with
  | none => exact htype
  | some tag =>
      refine Settles.bind (.refl _) fun flat => ?_
      exact Settles.bind (.refl _) fun whole => hagain whole

theorem resolveWith_settles (fragment : Fragment) :
    Settles (s.resolveWith again fragment).result
      (s.resolveWith further fragment).result := by
  induction fragment using Fragment.induction with
  | reference | primitive | choice | freeObject | freeArray =>
      simp only [resolveWith]
      exact .refl _
  | object notes properties required ih =>
      rw [resolveWith_object, resolveWith_object]
      exact Settles.map (Settles.mapM fun entry hentry =>
        field_settles hagain (ih entry hentry)) _
  | array notes items ih =>
      rw [resolveWith_array, resolveWith_array]
      exact ih.map _
  | oneOf notes options discriminator ih =>
      rw [resolveWith_oneOf, resolveWith_oneOf]
      refine Settles.map (Settles.mapM fun option hoption => ?_) _
      cases discriminator with
      | none => exact ih option hoption
      | some d => exact alternative_settles hagain (ih option hoption)
  | allOf notes parts | anyOf notes parts =>
      simp only [resolveWith_allOf, resolveWith_anyOf, merged_eq]
      refine Settles.map (Settles.bind (.refl _) fun flat => ?_) _
      exact Settles.bind (.refl _) fun whole => hagain whole

end Settles

theorem resolveWithin_settles {bound larger : ℕ} (hbound : bound ≤ larger)
    (fragment : Fragment) :
    Settles (s.resolveWithin bound fragment).result
      (s.resolveWithin larger fragment).result := by
  induction bound generalizing larger fragment with
  | zero =>
      cases larger with
      | zero => exact .refl _
      | succ larger =>
          rw [resolveWithin, resolveWithin]
          exact resolveWith_settles (fun _ => .inl rfl) fragment
  | succ bound ih =>
      cases larger with
      | zero => omega
      | succ larger =>
          rw [resolveWithin, resolveWithin]
          exact resolveWith_settles (ih (by omega)) fragment

/-- Whatever the bound, a fragment is resolved in one way, and the schemas that
are merged for it as they are resolved on their own, if that ends. -/
theorem resolveWithin_eq_resolveWith (s : Scope) (bound : ℕ) :
    ∃ again, s.resolveWithin bound = s.resolveWith again ∧ ∀ fragment,
      Settles (again fragment).result (s.resolveWithin bound fragment).result := by
  cases bound with
  | zero => exact ⟨_, rfl, fun _ => .inl rfl⟩
  | succ bound =>
      exact ⟨_, rfl, resolveWithin_settles (Nat.le_succ bound)⟩

end Bound

end Scope

/-! ## Views by their names -/

theorem View.ofValue?_eq_some_iff {mode : Value} {view : View} :
    View.ofValue? mode = some view ↔ mode = .str view.name := by
  constructor
  · intro h
    unfold View.ofValue? at h
    split at h
    · next hread =>
        cases h
        exact hread
    · split at h
      · next hwrite =>
          cases h
          exact hwrite
      · cases h
  · rintro rfl
    cases view <;> decide

theorem resolveSchema_eq (context : Context) (origin : Option String)
    (schema : Value) (view : View) :
    (resolveSchema context origin schema (.str view.name)).result =
      Fragment.read schema >>= fun fragment =>
        (Scope.resolve ⟨view, context, origin⟩ fragment).result := by
  unfold resolveSchema
  rw [Outcome.result_bind, View.ofValue?_eq_some_iff.mpr rfl]
  rfl

end SchemaViews
