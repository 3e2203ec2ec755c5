import SchemaViews.Proofs.MergedFragments
import SchemaViews.Proofs.ProperValues

/-!
# Agreement of the two views

The view decides three things only: whether a property is hidden, whether an
enumeration is a closed set of texts, and the module of a named type.  So the
types of one schema in the two views have the same shape, position by position,
once the fields that one view hides are left out of the other.
-/

namespace SchemaViews

def sharedFields (fields others : List (Field TypeExpr)) : List (Field TypeExpr) :=
  fields.filter fun field => others.any (·.name.sameKey field.name)

mutual

/-- A type of the read view and one of the write view that differ only where
the views may differ. -/
inductive Corresponds (c : Context) : TypeExpr → TypeExpr → Prop
  | primitive (kind : PrimitiveKind) :
      Corresponds c (.primitive kind) (.primitive kind)
  | choice (values : List String) :
      Corresponds c (.primitive .string) (.literal values)
  | nullable {r w : TypeExpr} :
      Corresponds c r w → Corresponds c (.nullable r) (.nullable w)
  | list {r w : TypeExpr} :
      Corresponds c r w → Corresponds c (.list r) (.list w)
  | freeList : Corresponds c .freeList .freeList
  | freeMap : Corresponds c .freeMap .freeMap
  | struct {rs ws : List (Field TypeExpr)} :
      FieldsCorrespond c (sharedFields rs ws) (sharedFields ws rs) →
        Corresponds c (.struct rs) (.struct ws)
  | union {rs ws : List TypeExpr} :
      AllCorrespond c rs ws → Corresponds c (.union rs) (.union ws)
  | localName (name : String) :
      Corresponds c (.named .null name) (.named .null name)
  | moduleName {readModule writeModule : Value} {name : String} :
      c.moduleOf .read name = .ok readModule →
        c.moduleOf .write name = .ok writeModule →
          Corresponds c (.named readModule name) (.named writeModule name)

inductive AllCorrespond (c : Context) :
    List TypeExpr → List TypeExpr → Prop
  | nil : AllCorrespond c [] []
  | cons {r w : TypeExpr} {rs ws : List TypeExpr} :
      Corresponds c r w → AllCorrespond c rs ws →
        AllCorrespond c (r :: rs) (w :: ws)

/-- Fields in one order, equally named and equally optional. -/
inductive FieldsCorrespond (c : Context) :
    List (Field TypeExpr) → List (Field TypeExpr) → Prop
  | nil : FieldsCorrespond c [] []
  | cons {r w : Field TypeExpr} {rs ws : List (Field TypeExpr)} :
      r.name = w.name → r.optional = w.optional → Corresponds c r.type w.type →
        FieldsCorrespond c rs ws → FieldsCorrespond c (r :: rs) (w :: ws)

end

section Lists

variable {c : Context}

theorem AllCorrespond.unionOf {rs ws : List TypeExpr}
    (h : AllCorrespond c rs ws) :
    Corresponds c (.unionOf rs) (.unionOf ws) := by
  cases h with
  | nil => exact .union .nil
  | cons hfirst hrest =>
      cases hrest with
      | nil => exact hfirst
      | cons hsecond hrest => exact .union (.cons hfirst (.cons hsecond hrest))

theorem Corresponds.qualify {r w : TypeExpr} (h : Corresponds c r w)
    (notes : Annotations) : Corresponds c (notes.qualify r) (notes.qualify w) := by
  unfold Annotations.qualify
  split
  · exact h.nullable
  · exact h

theorem allCorrespond_of_mapM {resolveRead resolveWrite : Fragment → Except Failure TypeExpr}
    {options : List Fragment} {rs ws : List TypeExpr}
    (hoption : ∀ option ∈ options, ∀ r w, resolveRead option = .ok r →
      resolveWrite option = .ok w → Corresponds c r w)
    (hread : options.mapM resolveRead = .ok rs)
    (hwrite : options.mapM resolveWrite = .ok ws) : AllCorrespond c rs ws := by
  rw [mapM_eq_ok_iff] at hread hwrite
  induction hread generalizing ws with
  | nil =>
      cases hwrite
      exact .nil
  | cons hr _ ih =>
      cases hwrite with
      | cons hw hrest =>
          rw [List.forall_mem_cons] at hoption
          exact .cons (hoption.1 _ _ hr hw) (ih hoption.2 hrest)

/-! ## Fields of one object -/

@[simp] theorem sharedFields_nil (others : List (Field TypeExpr)) :
    sharedFields [] others = [] :=
  rfl

theorem sharedFields_append (first second others : List (Field TypeExpr)) :
    sharedFields (first ++ second) others =
      sharedFields first others ++ sharedFields second others :=
  List.filter_append ..

theorem sharedFields_append_right {fields extra : List (Field TypeExpr)}
    (others : List (Field TypeExpr))
    (h : ∀ field ∈ fields, ∀ other ∈ extra, ¬ other.name.sameKey field.name) :
    sharedFields fields (extra ++ others) = sharedFields fields others := by
  unfold sharedFields
  apply List.filter_congr
  intro field hfield
  have hnone : extra.any (·.name.sameKey field.name) = false := by
    simpa using h field hfield
  rw [List.any_append, hnone, Bool.false_or]

theorem sharedFields_eq_nil {fields others : List (Field TypeExpr)}
    (h : ∀ field ∈ fields, ∀ other ∈ others, ¬ other.name.sameKey field.name) :
    sharedFields fields others = [] := by
  have hdrop := sharedFields_append_right [] h
  rw [List.append_nil] at hdrop
  rw [hdrop]
  simp [sharedFields]

/-- The fields of one more property, whose name is no other's, before fields
that correspond. -/
theorem FieldsCorrespond.prepend {r w : Option (Field TypeExpr)}
    {rs ws : List (Field TypeExpr)}
    (hapart : ∀ f, r = some f ∨ w = some f → ∀ g : Field TypeExpr,
      g ∈ rs ∨ g ∈ ws → ¬ f.name.sameKey g.name)
    (hagree : ∀ f g, r = some f → w = some g → f.name = g.name ∧
      f.optional = g.optional ∧ Corresponds c f.type g.type)
    (hrest : FieldsCorrespond c (sharedFields rs ws) (sharedFields ws rs)) :
    FieldsCorrespond c (sharedFields (r.toList ++ rs) (w.toList ++ ws))
      (sharedFields (w.toList ++ ws) (r.toList ++ rs)) := by
  have hrs : sharedFields rs (w.toList ++ ws) = sharedFields rs ws := by
    apply sharedFields_append_right
    intro g hg f hf
    exact hapart f (.inr (Option.mem_toList.mp hf)) g (.inl hg)
  have hws : sharedFields ws (r.toList ++ rs) = sharedFields ws rs := by
    apply sharedFields_append_right
    intro g hg f hf
    exact hapart f (.inl (Option.mem_toList.mp hf)) g (.inr hg)
  rw [sharedFields_append, sharedFields_append, hrs, hws]
  cases r with
  | none =>
      have hnone : sharedFields w.toList rs = [] := by
        apply sharedFields_eq_nil
        intro f hf g hg
        rw [Scalar.sameKey_comm]
        exact hapart f (.inr (Option.mem_toList.mp hf)) g (.inl hg)
      simp only [Option.toList_none, List.nil_append, sharedFields_nil, hnone]
      exact hrest
  | some f =>
      cases w with
      | none =>
          have hnone : sharedFields [f] ws = [] := by
            apply sharedFields_eq_nil
            intro other hother g hg
            rw [List.mem_singleton.mp hother, Scalar.sameKey_comm]
            exact hapart f (.inl rfl) g (.inr hg)
          simp only [Option.toList_none, Option.toList_some, List.nil_append,
            sharedFields_nil, hnone]
          exact hrest
      | some g =>
          obtain ⟨hname, hoptional, htype⟩ := hagree f g rfl rfl
          have hfirst : sharedFields [f] (g :: ws) = [f] := by
            simp [sharedFields, hname]
          have hsecond : sharedFields [g] (f :: rs) = [g] := by
            simp [sharedFields, hname]
          simp only [Option.toList_some, List.singleton_append, hfirst, hsecond]
          exact .cons hname hoptional htype hrest

variable {α : Type} {name : α → Scalar} {properties : List α}
  {fieldRead fieldWrite : α → Except Failure (Option (Field TypeExpr))}

private theorem name_of_mem_mapM
    {field : α → Except Failure (Option (Field TypeExpr))}
    {fields : List (Option (Field TypeExpr))}
    (hname : ∀ p ∈ properties, ∀ f, field p = .ok (some f) → f.name = name p)
    (h : List.Forall₂ (fun p f => field p = .ok f) properties fields) :
    ∀ f ∈ fields.flatMap Option.toList, f.name ∈ properties.map name := by
  intro f hf
  obtain ⟨found, hfound, hmem⟩ := List.mem_flatMap.mp hf
  rw [Option.mem_toList] at hmem
  subst hmem
  obtain ⟨p, hp, heq⟩ := exists_of_mem_right h hfound
  rw [hname p hp f heq]
  exact List.mem_map_of_mem hp

theorem fieldsCorrespond_of_mapM
    {rs ws : List (Option (Field TypeExpr))}
    (hapart : Scalar.Apart (properties.map name))
    (hreadName : ∀ p ∈ properties, ∀ f, fieldRead p = .ok (some f) →
      f.name = name p)
    (hwriteName : ∀ p ∈ properties, ∀ f, fieldWrite p = .ok (some f) →
      f.name = name p)
    (hagree : ∀ p ∈ properties, ∀ f g, fieldRead p = .ok (some f) →
      fieldWrite p = .ok (some g) →
        f.optional = g.optional ∧ Corresponds c f.type g.type)
    (hread : properties.mapM fieldRead = .ok rs)
    (hwrite : properties.mapM fieldWrite = .ok ws) :
    FieldsCorrespond c
      (sharedFields (rs.flatMap Option.toList) (ws.flatMap Option.toList))
      (sharedFields (ws.flatMap Option.toList) (rs.flatMap Option.toList)) := by
  rw [mapM_eq_ok_iff] at hread hwrite
  induction hread generalizing ws with
  | nil =>
      cases hwrite
      exact .nil
  | @cons p r rest rs hr hrs ih =>
      cases hwrite with
      | @cons _ w _ ws hw hws =>
          rw [List.forall_mem_cons] at hreadName hwriteName hagree
          obtain ⟨hfirst, hrestApart⟩ := List.pairwise_cons.mp hapart
          have hrest := ih hrestApart hreadName.2 hwriteName.2 hagree.2 hws
          rw [List.flatMap_cons, List.flatMap_cons]
          refine .prepend ?_ ?_ hrest
          · intro f hf g hg
            have hname : f.name = name p := by
              rcases hf with rfl | rfl
              · exact hreadName.1 f hr
              · exact hwriteName.1 f hw
            have hlater : g.name ∈ rest.map name := by
              rcases hg with hg | hg
              · exact name_of_mem_mapM hreadName.2 hrs g hg
              · exact name_of_mem_mapM hwriteName.2 hws g hg
            rw [hname]
            exact hfirst _ hlater
          · rintro f g rfl rfl
            refine ⟨?_, hagree.1 f g hr hw⟩
            rw [hreadName.1 f hr, hwriteName.1 g hw]

end Lists

/-! ## Resolution in the two views -/

namespace Scope

variable {c : Context} {origin : Option String}

theorem named_corresponds {name : String} {r w : TypeExpr}
    (hread : named ⟨.read, c, origin⟩ name = .ok r)
    (hwrite : named ⟨.write, c, origin⟩ name = .ok w) :
    Corresponds c r w := by
  unfold named at hread hwrite
  split at hread
  · rename_i horigin
    rw [if_pos horigin] at hwrite
    cases hread
    cases hwrite
    exact .localName name
  · rename_i horigin
    rw [if_neg horigin] at hwrite
    obtain ⟨readModule, hreadModule, hread⟩ := bind_eq_ok_iff.mp hread
    obtain ⟨writeModule, hwriteModule, hwrite⟩ := bind_eq_ok_iff.mp hwrite
    cases pure_eq_ok_iff.mp hread
    cases pure_eq_ok_iff.mp hwrite
    exact .moduleName hreadModule hwriteModule

theorem corresponds_self_of_primitiveType {notes : Annotations}
    {declared : DeclaredType} {format : Value} {t : TypeExpr}
    (h : primitiveType notes declared format = .ok t) : Corresponds c t t := by
  unfold primitiveType at h
  split at h
  · cases h
    exact .primitive _
  · cases h
    exact .primitive _
  · split at h
    · cases h
      exact .primitive _
    · cases h
      exact .union (.cons (.primitive _) (.cons (.primitive _) .nil))
  · cases h
    exact .primitive _
  · cases h

def Agree (c : Context)
    (resolveRead resolveWrite : Fragment → Except Failure TypeExpr) : Prop :=
  ∀ fragment, fragment.From Value.Proper → ∀ r w,
    resolveRead fragment = .ok r → resolveWrite fragment = .ok w →
      Corresponds c r w

section Step

variable {againRead againWrite : Fragment → Outcome TypeExpr}
  (harena : ∀ entry ∈ c.arena, entry.2.Proper)
  (hagain : Agree c (fun fragment => (againRead fragment).result)
    fun fragment => (againWrite fragment).result)
include harena hagain

theorem merged_corresponds {parts : List Fragment} {keep : Entries → Entries}
    (hparts : ∀ part ∈ parts, part.From Value.Proper)
    (hkeep : ∀ flat, Value.Proper (.map flat) → Value.Proper (.map (keep flat)))
    {r w : TypeExpr}
    (hread : (merged ⟨.read, c, origin⟩ againRead parts keep).result = .ok r)
    (hwrite : (merged ⟨.write, c, origin⟩ againWrite parts keep).result = .ok w) :
    Corresponds c r w := by
  rw [merged_eq] at hread hwrite
  obtain ⟨flat, hflat, hread⟩ := bind_eq_ok_iff.mp hread
  obtain ⟨whole, hwhole, hread⟩ := bind_eq_ok_iff.mp hread
  -- merging and reading look at no view, so the write view merges to the same
  simp only [hflat, hwhole, bind, Except.bind] at hwrite
  have hproper := Fragment.From.merge Value.proper_invariant harena hparts hflat
  have hfrom := Fragment.from_of_read (hkeep flat hproper) hwhole
  exact hagain whole hfrom r w hread hwrite

theorem field_corresponds {name : Scalar} {required : Bool}
    {property : Fragment} {f g : Field TypeExpr}
    (hproperty : property.From Value.Proper)
    (hagree : ∀ r w,
      (resolveWith ⟨.read, c, origin⟩ againRead property).result = .ok r →
      (resolveWith ⟨.write, c, origin⟩ againWrite property).result = .ok w →
        Corresponds c r w)
    (hread : (field ⟨.read, c, origin⟩ againRead name required property
      fun _ => resolveWith ⟨.read, c, origin⟩ againRead property).result =
        .ok (some f))
    (hwrite : (field ⟨.write, c, origin⟩ againWrite name required property
      fun _ => resolveWith ⟨.write, c, origin⟩ againWrite property).result =
        .ok (some g)) :
    f.optional = g.optional ∧ Corresponds c f.type g.type := by
  obtain ⟨shown, hshown, hread⟩ := field_eq_ok_iff.mp hread
  obtain ⟨other, hother, hwrite⟩ := field_eq_ok_iff.mp hwrite
  rw [show Arena.shown c.arena property = .ok shown from hshown] at hother
  cases hother
  rcases hread with ⟨_, hnone⟩ | ⟨_, r, hr, hf⟩
  · cases hnone
  rcases hwrite with ⟨_, hnone⟩ | ⟨_, w, hw, hg⟩
  · cases hnone
  cases hf
  cases hg
  refine ⟨rfl, ?_⟩
  have hfrom := hproperty.shown Value.proper_invariant harena hshown
  cases property with
  | allOf notes parts => exact hagain shown hfrom r w hr hw
  | reference | primitive | choice | object | freeObject | array | freeArray
  | oneOf | anyOf => exact hagree r w hr hw

theorem alternative_corresponds {d : Discriminator} {option : Fragment}
    (hoption : option.From Value.Proper)
    (hagree : ∀ r w,
      (resolveWith ⟨.read, c, origin⟩ againRead option).result = .ok r →
      (resolveWith ⟨.write, c, origin⟩ againWrite option).result = .ok w →
        Corresponds c r w)
    {r w : TypeExpr}
    (hread : (alternative ⟨.read, c, origin⟩ againRead d option
      fun _ => resolveWith ⟨.read, c, origin⟩ againRead option).result = .ok r)
    (hwrite : (alternative ⟨.write, c, origin⟩ againWrite d option
      fun _ => resolveWith ⟨.write, c, origin⟩ againWrite option).result = .ok w) :
    Corresponds c r w := by
  rw [alternative_eq] at hread hwrite
  obtain ⟨tag, htag, hread⟩ := bind_eq_ok_iff.mp hread
  simp only [htag, bind, Except.bind] at hwrite
  cases tag with
  | none => exact hagree r w hread hwrite
  | some tag =>
      obtain ⟨flat, hflat, hread⟩ := bind_eq_ok_iff.mp hread
      obtain ⟨whole, hwhole, hread⟩ := bind_eq_ok_iff.mp hread
      simp only [hflat, hwhole] at hwrite
      have hfrom := hoption.tagged Value.proper_invariant harena
        (fun name _ => Value.proper_tagObject name tag) hflat hwhole
      exact hagain whole hfrom r w hread hwrite

theorem resolveWith_agree :
    Agree c (fun fragment => (resolveWith ⟨.read, c, origin⟩ againRead fragment).result)
      fun fragment => (resolveWith ⟨.write, c, origin⟩ againWrite fragment).result := by
  intro fragment
  induction fragment using Fragment.induction with
  | reference notes target =>
      intro _ r w hread hwrite
      simp only [resolveWith, Outcome.result_map] at hread hwrite
      obtain ⟨r, hr, rfl⟩ := map_eq_ok_iff.mp hread
      obtain ⟨w, hw, rfl⟩ := map_eq_ok_iff.mp hwrite
      exact (named_corresponds hr hw).qualify notes
  | primitive notes declared format =>
      intro _ r w hread hwrite
      simp only [resolveWith, Outcome.result_map] at hread hwrite
      obtain ⟨r, hr, rfl⟩ := map_eq_ok_iff.mp hread
      obtain ⟨w, hw, rfl⟩ := map_eq_ok_iff.mp hwrite
      cases hr.symm.trans hw
      exact (corresponds_self_of_primitiveType hr).qualify notes
  | choice notes values format =>
      intro _ r w hread hwrite
      cases hread
      cases hwrite
      exact (Corresponds.choice values).qualify notes
  | object notes properties required ih =>
      intro hfrom r w hread hwrite
      simp only [resolveWith_object] at hread hwrite
      obtain ⟨rs, hrs, rfl⟩ := map_eq_ok_iff.mp hread
      obtain ⟨ws, hws, rfl⟩ := map_eq_ok_iff.mp hwrite
      refine Corresponds.qualify (.struct ?_) notes
      refine fieldsCorrespond_of_mapM hfrom.names_apart
        ?_ ?_ ?_ hrs hws
      · intro entry _ f hf
        exact field_name hf
      · intro entry _ f hf
        exact field_name hf
      · intro entry hentry f g hf hg
        have hproperty := hfrom.property Value.proper_invariant hentry
        exact field_corresponds harena hagain hproperty
          (ih entry hentry hproperty) hf hg
  | freeObject notes =>
      intro _ r w hread hwrite
      cases hread
      cases hwrite
      exact Corresponds.freeMap.qualify notes
  | array notes items ih =>
      intro hfrom r w hread hwrite
      simp only [resolveWith_array] at hread hwrite
      obtain ⟨r, hr, rfl⟩ := map_eq_ok_iff.mp hread
      obtain ⟨w, hw, rfl⟩ := map_eq_ok_iff.mp hwrite
      have hitems := ih (hfrom.items Value.proper_invariant) r w hr hw
      exact hitems.list.qualify notes
  | freeArray notes =>
      intro _ r w hread hwrite
      cases hread
      cases hwrite
      exact Corresponds.freeList.qualify notes
  | oneOf notes options discriminator ih =>
      intro hfrom r w hread hwrite
      simp only [resolveWith_oneOf] at hread hwrite
      obtain ⟨rs, hrs, rfl⟩ := map_eq_ok_iff.mp hread
      obtain ⟨ws, hws, rfl⟩ := map_eq_ok_iff.mp hwrite
      refine (AllCorrespond.unionOf ?_).qualify notes
      refine allCorrespond_of_mapM ?_ hrs hws
      intro option hoption r w hr hw
      have hoptionFrom := hfrom.option Value.proper_invariant hoption
      cases discriminator with
      | none => exact ih option hoption hoptionFrom r w hr hw
      | some d =>
          exact alternative_corresponds harena hagain hoptionFrom
            (ih option hoption hoptionFrom) hr hw
  | allOf notes parts =>
      intro hfrom r w hread hwrite
      simp only [resolveWith_allOf] at hread hwrite
      obtain ⟨r, hr, rfl⟩ := map_eq_ok_iff.mp hread
      obtain ⟨w, hw, rfl⟩ := map_eq_ok_iff.mp hwrite
      refine (merged_corresponds harena hagain ?_ (fun _ h => h) hr hw).qualify notes
      intro part hpart
      exact Fragment.From.part Value.proper_invariant (.inl hfrom) hpart
  | anyOf notes parts =>
      intro hfrom r w hread hwrite
      simp only [resolveWith_anyOf] at hread hwrite
      obtain ⟨r, hr, rfl⟩ := map_eq_ok_iff.mp hread
      obtain ⟨w, hw, rfl⟩ := map_eq_ok_iff.mp hwrite
      refine (merged_corresponds harena hagain ?_
        (fun _ h => h.dropField "required") hr hw).qualify notes
      intro part hpart
      exact Fragment.From.part Value.proper_invariant (.inr hfrom) hpart

end Step

theorem resolveWithin_agree (harena : ∀ entry ∈ c.arena, entry.2.Proper)
    (bound : ℕ) :
    Agree c (fun fragment => (resolveWithin ⟨.read, c, origin⟩ bound fragment).result)
      fun fragment => (resolveWithin ⟨.write, c, origin⟩ bound fragment).result := by
  induction bound with
  | zero =>
      apply resolveWith_agree harena
      intro fragment _ r w hread _
      cases hread
  | succ bound ih => exact resolveWith_agree harena ih

end Scope

/-- The types of one schema in the two views differ only in hidden fields,
in the texts of enumerations and in the modules of named types. -/
theorem resolveSchema_views_correspond {c : Context} {origin : Option String}
    {schema : Value} (harena : ∀ entry ∈ c.arena, entry.2.Proper)
    (hschema : schema.Proper) {r w : TypeExpr}
    (hread : (resolveSchema c origin schema (.str View.read.name)).result = .ok r)
    (hwrite : (resolveSchema c origin schema (.str View.write.name)).result =
      .ok w) :
    Corresponds c r w := by
  rw [resolveSchema_eq] at hread hwrite
  obtain ⟨fragment, hfragment, hr⟩ := bind_eq_ok_iff.mp hread
  obtain ⟨other, hother, hw⟩ := bind_eq_ok_iff.mp hwrite
  cases hfragment.symm.trans hother
  have hfrom := Fragment.from_of_read hschema hfragment
  exact Scope.resolveWithin_agree harena _ fragment hfrom r w hr hw

theorem account_views_correspond :
    let owner : Value := .map [(.str "type", .str "object")]
    let account : Value := .map
      [(.str "type", .str "object"),
        (.str "properties", .map
          [(.str "id", .map
              [(.str "type", .str "integer"), (.str "readOnly", .bool true)]),
            (.str "state", .map [(.str "allOf", .list [.map
              [(.str "type", .str "string"),
                (.str "enum", .list [.str "open", .str "closed"])]])]),
            (.str "owner", .map
              [(.str referenceKey, .ref { name := "Owner" })])]),
        (.str "required", .list [.str "state"])]
    let c : Context := .uniform (.str "Models") (.str "Requests")
      [("Owner", owner), ("Account", account)]
    let read : TypeExpr := .struct
      [⟨.str "id", true, .primitive .integer⟩,
        ⟨.str "state", false, .primitive .string⟩,
        ⟨.str "owner", true, .named (.str "Models") "Owner"⟩]
    let write : TypeExpr := .struct
      [⟨.str "state", false, .literal ["open", "closed"]⟩,
        ⟨.str "owner", true, .named (.str "Requests") "Owner"⟩]
    (resolveSchema c (some "Account") account (.str View.read.name)).result =
        .ok read ∧
      (resolveSchema c (some "Account") account (.str View.write.name)).result =
        .ok write ∧
      Corresponds c read write := by
  intro owner account c read write
  have hread : (resolveSchema c (some "Account") account
      (.str View.read.name)).result = .ok read := by decide +kernel
  have hwrite : (resolveSchema c (some "Account") account
      (.str View.write.name)).result = .ok write := by decide +kernel
  have harena : ∀ entry ∈ c.arena, entry.2.Proper := by decide
  have haccount : account.Proper := by decide
  exact ⟨hread, hwrite,
    resolveSchema_views_correspond harena haccount hread hwrite⟩

end SchemaViews
