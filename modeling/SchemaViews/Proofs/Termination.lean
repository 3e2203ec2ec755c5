import SchemaViews.Proofs.NestingBound

/-!
# Where resolution ends

Resolution follows no references, but the schemas that it merges come from
components that references name, and what lies below the top of such a schema
is resolved in its turn.  So a component that leads back to itself through the
references of compositions, at any depth, can be reopened inside itself without
end, although it is not composed of itself.  Where no component does so, each
has a limit that the reopened fragments in it keep to, and resolution ends.
-/

namespace SchemaViews

/-! ## Depths -/

namespace Value

theorem depth_le_itemsDepth {items : List Value} {item : Value}
    (h : item ∈ items) : item.depth ≤ itemsDepth items := by
  induction items with
  | nil => cases h
  | cons first rest ih =>
      rw [itemsDepth]
      rcases List.mem_cons.mp h with rfl | hrest
      · exact le_max_left _ _
      · exact (ih hrest).trans (le_max_right _ _)

theorem depth_le_entriesDepth {entries : Entries} {entry : Scalar × Value}
    (h : entry ∈ entries) : entry.2.depth ≤ entriesDepth entries := by
  induction entries with
  | nil => cases h
  | cons first rest ih =>
      rw [entriesDepth]
      rcases List.mem_cons.mp h with rfl | hrest
      · exact le_max_left _ _
      · exact (ih hrest).trans (le_max_right _ _)

theorem Holds.depth_lt {schema inner : Value} (h : schema.Holds inner) :
    inner.depth < schema.depth := by
  cases h with
  | property hproperties hinner =>
      have houter := depth_le_entriesDepth hproperties
      have hentry : inner.depth ≤ _ := depth_le_entriesDepth hinner
      simp only [depth] at houter ⊢
      omega
  | items hitems =>
      have houter := depth_le_entriesDepth hitems
      simp only [depth] at houter ⊢
      omega
  | part hpart =>
      cases hpart with
      | intro _ hparts hmem =>
          have houter := depth_le_entriesDepth hparts
          have hitem := depth_le_itemsDepth hmem
          simp only [depth] at houter ⊢
          omega

/-- Schemas whose parts refer to components of small limits fit within these
limits and their own depth. -/
theorem fits_of_depth {limit : String → ℕ} {room depth : ℕ} {v : Value}
    (hmaps : v.Everywhere fun schema => ∃ entries, schema = .map entries)
    (hparts : v.Everywhere fun schema =>
      ∀ part, schema.Combines part → part.RefersWithin limit room)
    (hdepth : v.depth ≤ depth) : v.Fits limit (room + depth) := by
  induction depth generalizing v with
  | zero =>
      obtain ⟨entries, rfl⟩ := hmaps.here
      simp [Value.depth] at hdepth
  | succ depth ih =>
      refine ⟨hmaps.here, fun inner hinner => ?_, fun part hpart => ?_⟩
      · have hlower := hinner.depth_lt
        exact ih (hmaps.inside hinner) (hparts.inside hinner) (by omega)
      · exact (hparts.here part hpart).mono (Nat.le_add_right room depth)

end Value

/-! ## Limits of components -/

namespace Arena

/-- A component refers to another one, itself or in a part of a composition
somewhere in it. -/
inductive Opens (arena : Arena) (a b : String) : Prop
  | reference {schema : Value} : OrderedMap.find? arena a = some schema →
      schema.Marks b → Opens arena a b
  | part {schema position part : Value} :
      OrderedMap.find? arena a = some schema → schema.Position position →
        position.Combines part → part.Marks b → Opens arena a b

/-- The depth of the deepest component. -/
def deepest (arena : Arena) : ℕ :=
  (arena.map fun entry => entry.2.depth).foldl max 0

noncomputable def limit (arena : Arena) (name : String) : ℕ :=
  (arena.deepest + 1) * arena.rank (Relation.TransGen arena.Opens) name +
    arena.deepest

theorem le_foldl_max {depths : List ℕ} {depth start : ℕ}
    (h : depth ≤ start ∨ depth ∈ depths) : depth ≤ depths.foldl max start := by
  induction depths generalizing start with
  | nil => simpa using h
  | cons first rest ih =>
      rw [List.foldl_cons]
      apply ih
      rcases h with hstart | hmem
      · exact .inl (hstart.trans (le_max_left _ _))
      · rcases List.mem_cons.mp hmem with rfl | hrest
        · exact .inl (le_max_right _ _)
        · exact .inr hrest

theorem depth_le_deepest {arena : Arena} {entry : String × Value}
    (h : entry ∈ arena) : entry.2.depth ≤ arena.deepest := by
  apply le_foldl_max
  exact .inr (List.mem_map.mpr ⟨entry, h, rfl⟩)

variable {arena : Arena}

theorem limit_lt_rank (name : String) :
    arena.limit name < (arena.deepest + 1) *
      (arena.rank (Relation.TransGen arena.Opens) name + 1) := by
  unfold limit
  rw [Nat.mul_succ]
  omega

theorem limit_lt_nesting {name : String} (hknown : arena.Knows name)
    (hirrefl : ¬ Relation.TransGen arena.Opens name name) :
    arena.limit name < arena.nesting := by
  have hrank : arena.rank (Relation.TransGen arena.Opens) name < arena.length :=
    rank_lt_length hknown hirrefl
  calc
    arena.limit name < (arena.deepest + 1) *
        (arena.rank (Relation.TransGen arena.Opens) name + 1) := limit_lt_rank name
    _ ≤ (arena.deepest + 1) * (arena.length + 1) :=
      Nat.mul_le_mul_left _ (Nat.le_succ_of_le hrank)
    _ = (arena.length + 1) * (arena.deepest + 1) := Nat.mul_comm _ _
    _ ≤ arena.nesting := Nat.le_add_left _ _

theorem known_of_marks {known : String → Prop} {strict : Prop} {v : Value}
    {name : String} (h : v.WellShaped known strict) (hmarks : v.Marks name) :
    known name := by
  obtain ⟨entries, target, rfl, htarget, rfl⟩ := hmarks
  exact h.reference_known htarget

theorem limited_of_not_opens
    (hshaped : ∀ entry ∈ arena, entry.2.WellShaped arena.Knows True)
    (hopens : ∀ name, ¬ Relation.TransGen arena.Opens name name) :
    arena.Limited arena.limit := by
  intro name schema hfind
  have hschema := hshaped _ (OrderedMap.mem_of_find? hfind)
  let room := (arena.deepest + 1) *
    arena.rank (Relation.TransGen arena.Opens) name
  -- a component that is opened has a lower rank, and one rank outweighs the
  -- depth of any component
  have hlower : ∀ other, arena.Opens name other → arena.Knows other →
      arena.limit other ≤ room := by
    intro other hother hknown
    have hrank : arena.rank (Relation.TransGen arena.Opens) other <
        arena.rank (Relation.TransGen arena.Opens) name :=
      rank_lt Relation.TransGen.trans (.single hother) hknown (hopens other)
    calc
      arena.limit other ≤ (arena.deepest + 1) *
          (arena.rank (Relation.TransGen arena.Opens) other + 1) :=
        (limit_lt_rank other).le
      _ ≤ room := Nat.mul_le_mul_left _ hrank
  have hfits : schema.Fits arena.limit (room + arena.deepest) := by
    refine Value.fits_of_depth ?_ ?_
      (depth_le_deepest (OrderedMap.mem_of_find? hfind))
    · intro position hposition
      obtain ⟨entries, hentries, _⟩ := hschema position hposition
      exact ⟨entries, hentries⟩
    · intro position hposition part hpart other hmarks
      have hpartShaped : part.WellShaped arena.Knows True := fun inner hinner =>
        hschema inner (hposition.trans (.head (.part hpart) hinner))
      exact hlower other (.part hfind hposition hpart hmarks)
        (known_of_marks hpartShaped hmarks)
  refine ⟨hfits, fun other hmarks => ?_⟩
  have hother := hlower other (.reference hfind hmarks)
    (known_of_marks hschema hmarks)
  exact hother.trans (Nat.le_add_right room arena.deepest)

end Arena

/-! ## Resolution of components -/

namespace Scope

variable {s : Scope}

theorem not_nests_of_not_opens (hs : s.Sound)
    (hopens : ∀ name, ¬ Relation.TransGen s.context.arena.Opens name name)
    {name : String} {schema : Value} {fragment : Fragment}
    (hname : OrderedMap.find? s.context.arena name = some schema)
    (hread : Fragment.read schema = .ok fragment) :
    ¬ s.Nests (s.context.arena.nesting + 1) fragment := by
  have hlimited := Arena.limited_of_not_opens hs.shaped hopens
  have hfits := Fragment.from_of_read (hlimited name schema hname).1 hread
  intro hnests
  apply not_nests_of_fits hlimited hfits
  have hlt := Arena.limit_lt_nesting ⟨schema, hname⟩ (hopens name)
  exact hnests.mono (by omega)

theorem resolveSchema_of_read {schema : Value} {fragment : Fragment}
    (hread : Fragment.read schema = .ok fragment) :
    (resolveSchema s.context s.origin schema (.str s.view.name)).result =
      (s.resolveWithin s.context.arena.nesting fragment).result := by
  rw [resolveSchema_eq, hread]
  rfl

theorem exists_nests_of_endless (hs : s.Sound) {name : String} {schema : Value}
    (hname : OrderedMap.find? s.context.arena name = some schema)
    (h : (resolveSchema s.context s.origin schema (.str s.view.name)).result =
      .error .endless) :
    ∃ fragment, Fragment.read schema = .ok fragment ∧
      s.Nests (s.context.arena.nesting + 1) fragment := by
  have hschema := hs.legible (OrderedMap.mem_of_find? hname)
  cases hread : Fragment.read schema with
  | error failure =>
      have hended : FailsOnly (· ≠ .endless) (Fragment.read schema) :=
        read_legible hschema (by simp)
      rw [resolveSchema_eq, hread] at h
      cases h
      exact absurd rfl (hended _ hread)
  | ok fragment =>
      rw [resolveSchema_of_read hread] at h
      exact ⟨fragment, rfl, nests_of_endless hs (Fragment.from_of_read hschema hread) h⟩

theorem endless_within_all_iff (hs : s.Sound) (hwritten : s.Written) {fragment : Fragment}
    (hfragment : s.Reads fragment) :
    (∀ bound, (s.resolveWithin bound fragment).result = .error .endless) ↔
      ∃ chain : ℕ → Fragment, chain 0 = fragment ∧
        ∀ n, s.Reopens (chain n) (chain (n + 1)) := by
  rw [← not_acc_iff_exists_descending_chain
    (r := fun whole fragment => s.Reopens fragment whole),
    ← exists_bound_iff_acc hs hwritten hfragment, not_exists]
  refine forall_congr' fun bound => ?_
  rw [resolveWithin_endless_iff hs hwritten bound hfragment,
    resolveWithin_succeeds_iff hs hwritten bound hfragment, not_not]

/-- Resolving a component is endless only if reopened fragments nest deeper than
its bound, and never where no component leads back to itself through the
references of compositions.  If the integers of the components can be written, it
gives a type unless fragments nest deeper than the bound, and some bound is enough
unless they nest without end. -/
theorem resolveSchema_ends_iff (hs : s.Sound) {name : String} {schema : Value}
    (hname : OrderedMap.find? s.context.arena name = some schema) :
    ((∀ other, ¬ Relation.TransGen s.context.arena.Opens other other) →
      (resolveSchema s.context s.origin schema (.str s.view.name)).result ≠
        .error .endless) ∧
    ((resolveSchema s.context s.origin schema (.str s.view.name)).result =
        .error .endless →
      ∃ fragment, Fragment.read schema = .ok fragment ∧
        s.Nests (s.context.arena.nesting + 1) fragment) ∧
    (s.Written → ∃ fragment, Fragment.read schema = .ok fragment ∧
      ((resolveSchema s.context s.origin schema (.str s.view.name)).result =
          .error .endless ↔ s.Nests (s.context.arena.nesting + 1) fragment) ∧
      (Succeeds (resolveSchema s.context s.origin schema
          (.str s.view.name)).result ↔
        ¬ s.Nests (s.context.arena.nesting + 1) fragment) ∧
      ((∀ bound, (s.resolveWithin bound fragment).result = .error .endless) ↔
        ∃ chain : ℕ → Fragment, chain 0 = fragment ∧
          ∀ n, s.Reopens (chain n) (chain (n + 1))) ∧
      ((∀ other, ¬ Relation.TransGen s.context.arena.Opens other other) →
        Succeeds (resolveSchema s.context s.origin schema
          (.str s.view.name)).result)) := by
  refine ⟨fun hopens h => ?_, exists_nests_of_endless hs hname, fun hwritten => ?_⟩
  · obtain ⟨fragment, hread, hnests⟩ := exists_nests_of_endless hs hname h
    exact not_nests_of_not_opens hs hopens hname hread hnests
  · have hschema := hs.legible (OrderedMap.mem_of_find? hname)
    have hwritable := hwritten _ (OrderedMap.mem_of_find? hname)
    obtain ⟨fragment, hread⟩ := read_succeeds ⟨hschema.1, fun _ => hwritable⟩
    have hreads : s.Reads fragment := Fragment.from_of_read hschema hread
    rw [resolveSchema_of_read hread]
    refine ⟨fragment, hread, resolveWithin_endless_iff hs hwritten _ hreads,
      resolveWithin_succeeds_iff hs hwritten _ hreads,
      endless_within_all_iff hs hwritten hreads, fun hopens => ?_⟩
    rw [resolveWithin_succeeds_iff hs hwritten _ hreads]
    exact not_nests_of_not_opens hs hopens hname hread

end Scope

/-! ## A component inside itself -/

def nodeReference : Value :=
  .map [(.str referenceKey, .ref { name := "Node" })]

def nodeSchema (next : Value) : Value :=
  .map
    [(.str "type", .str "object"),
      (.str "properties", .map [(.str "next", next)])]

def nodeScope (view : View) (next : Value) : Scope where
  view := view
  context := .uniform (.str "Models") (.str "Requests")
    [("Node", nodeSchema next)]
  origin := some "Node"

theorem wellShaped_nodeReference {known : String → Prop} {strict : Prop}
    (hknown : known "Node") : nodeReference.WellShaped known strict := by
  have hreference : FieldShape known strict (.str referenceKey)
      (.ref { name := "Node" }) := by
    constructor
    case reference =>
      intro _ target htarget
      cases htarget
      exact hknown
    case composition => simp [compositionKeys, referenceKey]
    all_goals simp [referenceKey]
  apply Value.everywhere_shaped_iff.mpr
  intro entry hentry
  rw [List.mem_singleton.mp hentry]
  exact entryShaped_of_plain hreference (by simp [referenceKey])

theorem wellShaped_nodeSchema {known : String → Prop} {strict : Prop}
    {next : Value} (hnext : next.WellShaped known strict) :
    (nodeSchema next).WellShaped known strict := by
  have htype : FieldShape known strict (.str "type") (.str "object") :=
    fieldShape_type_iff.mpr ⟨.inl ⟨_, rfl⟩, fun _ =>
      .inl ⟨_, by simp [knownKinds, scalarKinds], rfl⟩⟩
  have hproperties : FieldShape known strict (.str "properties")
      (.map [(.str "next", next)]) :=
    fieldShape_properties_iff.mpr ⟨_, rfl, by simp⟩
  apply Value.everywhere_shaped_iff.mpr
  intro entry hentry
  rcases List.mem_cons.mp hentry with rfl | hentry
  · exact entryShaped_of_plain htype (by simp)
  · rw [List.mem_singleton.mp hentry]
    refine entryShaped_properties_iff.mpr ⟨hproperties, fun inner hinner => ?_⟩
    rw [List.mem_singleton.mp hinner]
    exact hnext

theorem holds_nodeSchema {next inner : Value}
    (h : (nodeSchema next).Holds inner) : inner = next := by
  obtain ⟨entry, hentry, hheld⟩ := Value.holds_iff_entry.mp h
  rcases List.mem_cons.mp hentry with rfl | hentry
  · simpa using Value.key_of_holds_entry hheld
  · rw [List.mem_singleton.mp hentry] at hheld
    obtain ⟨_, hmem⟩ := Value.holds_properties hheld
    cases List.mem_singleton.mp hmem
    rfl

theorem find?_nodeScope {view : View} {next schema : Value} {name : String}
    (h : OrderedMap.find? (nodeScope view next).context.arena name = some schema) :
    name = "Node" ∧ schema = nodeSchema next := by
  have hmem := OrderedMap.mem_of_find? h
  cases List.mem_singleton.mp hmem
  exact ⟨rfl, rfl⟩

theorem nodeScope_sound {view : View} {next : Value}
    (hnext : next.WellShaped (nodeScope view next).context.arena.Knows True) :
    (nodeScope view next).Sound where
  shaped := by
    intro entry hentry
    rw [List.mem_singleton.mp hentry]
    exact wellShaped_nodeSchema hnext
  covers := Context.uniform_covers _ _ _
  acyclic := by
    intro name schema hfind hcircle
    obtain ⟨_, rfl⟩ := find?_nodeScope hfind
    -- a plain object is composed of nothing at all
    have hplain : ∀ part, ¬ (nodeScope view next).context.arena.Composes
        (nodeSchema next) part := by
      intro part hpart
      cases hpart with
      | part hmerges =>
          cases hmerges with
          | allOf hall => cases hall
          | anyOf _ hany => cases hany
      | target _ _ hreference => cases hreference
      | option hdiscriminator => cases hdiscriminator
    obtain ⟨part, hpart, _⟩ := Relation.TransGen.head'_iff.mp hcircle
    exact hplain part hpart

theorem resolveSchema_node_ends :
    let s := nodeScope .read nodeReference
    s.Sound ∧ s.Written ∧
      OrderedMap.find? s.context.arena "Node" = some (nodeSchema nodeReference) ∧
      (∀ name, ¬ Relation.TransGen s.context.arena.Opens name name) ∧
      (resolveSchema s.context s.origin (nodeSchema nodeReference)
        (.str s.view.name)).result =
          .ok (.struct [⟨.str "next", true, .named .null "Node"⟩]) ∧
      ∃ fragment, Fragment.read (nodeSchema nodeReference) = .ok fragment ∧
        ¬ s.Nests (s.context.arena.nesting + 1) fragment := by
  intro s
  have hknows : s.context.arena.Knows "Node" := ⟨_, rfl⟩
  have hs : s.Sound := nodeScope_sound (wellShaped_nodeReference hknows)
  have hopens : ∀ name other, ¬ s.context.arena.Opens name other := by
    intro name other hopens
    have hbare : nodeReference.Bare :=
      Value.shaped_map_iff.mpr (by simp [referenceKey])
    have hparts : (nodeSchema nodeReference).Everywhere fun schema =>
        ∀ part, ¬ schema.Combines part := by
      rw [Value.everywhere_iff]
      constructor
      · apply Value.not_combines_of_keys
        simp [compositionKeys]
      · intro inner hinner
        rw [holds_nodeSchema hinner, Value.everywhere_iff]
        constructor
        · exact fun part hpart => hbare.not_holds (.part hpart)
        · exact fun inner hinner => absurd hinner hbare.not_holds
    cases hopens with
    | reference hfind hmarks =>
        obtain ⟨_, rfl⟩ := find?_nodeScope hfind
        obtain ⟨_, _, hentries, hreference, _⟩ := hmarks
        cases hentries
        cases hreference
    | part hfind hposition hpart _ =>
        obtain ⟨_, rfl⟩ := find?_nodeScope hfind
        exact hparts _ hposition _ hpart
  have hcircle : ∀ name, ¬ Relation.TransGen s.context.arena.Opens name name := by
    intro name hcircle
    obtain ⟨other, hother, _⟩ := Relation.TransGen.head'_iff.mp hcircle
    exact hopens name other hother
  have hresult : (resolveSchema s.context s.origin (nodeSchema nodeReference)
      (.str s.view.name)).result =
        .ok (.struct [⟨.str "next", true, .named .null "Node"⟩]) := by
    decide +kernel
  have hwritten : s.Written := by
    intro entry hentry
    rw [List.mem_singleton.mp hentry]
    decide
  obtain ⟨fragment, hread, _, hsucceeds, _, hends⟩ :=
    (@Scope.resolveSchema_ends_iff s hs "Node" _ rfl).2.2 hwritten
  exact ⟨hs, hwritten, rfl, hcircle, hresult, fragment, hread, hsucceeds.mp (hends hcircle)⟩

/-- The same reference as the only part of a composition does not end, although
the component is composed of nothing: its merge is the component again. -/
theorem resolveSchema_node_endless :
    let next : Value := .map [(.str "allOf", .list [nodeReference])]
    ∀ view, (nodeScope view next).Sound ∧
      OrderedMap.find? (nodeScope view next).context.arena "Node" =
        some (nodeSchema next) ∧
      (resolveSchema (nodeScope view next).context (some "Node")
        (nodeSchema next) (.str view.name)).result = .error .endless := by
  intro next view
  have hnext : next.WellShaped (nodeScope view next).context.arena.Knows True := by
    have hcomposition : FieldShape (nodeScope view next).context.arena.Knows True
        (.str "allOf") (.list [nodeReference]) := by
      constructor
      case composition => exact fun _ _ _ => ⟨_, rfl⟩
      all_goals simp [referenceKey]
    apply Value.everywhere_shaped_iff.mpr
    intro entry hentry
    rw [List.mem_singleton.mp hentry]
    refine ⟨hcomposition, fun inner hinner => ?_⟩
    cases hinner with
    | property hproperties => simp at hproperties
    | items hitems => simp at hitems
    | part hpart =>
        cases hpart with
        | intro _ hparts hmem =>
            obtain ⟨_, hlist⟩ := Prod.mk.inj (List.mem_singleton.mp hparts)
            cases hlist
            rw [List.mem_singleton.mp hmem]
            exact wellShaped_nodeReference ⟨_, rfl⟩
  refine ⟨nodeScope_sound hnext, rfl, ?_⟩
  cases view with
  | read => decide +kernel
  | write => decide +kernel

end SchemaViews
