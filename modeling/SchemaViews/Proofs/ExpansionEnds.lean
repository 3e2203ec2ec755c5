import Mathlib.Data.List.Perm.Subperm
import Mathlib.Order.WellFounded
import SchemaViews.Proofs.ExpansionLaws

/-!
# When merging comes to its end

A schema unfolds into the parts that are merged for it, or into the component
that it refers to; its properties, its items and the alternatives of its union
play no part.  Merging succeeds exactly if no schema unfolds without end.

In one direction a result bounds every path.  In the other a path that ends
visits no component twice, so it follows at most as many references as there
are components, which is the bound that an expansion has.
-/

namespace SchemaViews
namespace Arena

/-- What an expansion goes on to: the parts that are merged, or else the
component that is referred to. -/
inductive Unfolds (arena : Arena) : Value → Value → Prop
  | part {schema part : Value} : schema.Merges part → Unfolds arena schema part
  | target {raw : Entries} {target : Reference} {component : Value} :
      raw.field? "allOf" = none → raw.field? "anyOf" = none →
        raw.reference? = some target →
          OrderedMap.find? arena target.name = some component →
            Unfolds arena (.map raw) component

/-- Every schema on the way can be gone through. -/
def Unfoldable.Throughout (arena : Arena) (schema : Value) : Prop :=
  ∀ inner, Relation.ReflTransGen arena.Unfolds schema inner → Unfoldable inner

/-- A schema that unfolds without end on no path. -/
def Ends (arena : Arena) (schema : Value) : Prop :=
  Acc (fun inner outer => arena.Unfolds outer inner) schema

variable {arena : Arena}

theorem Unfoldable.Throughout.step {schema inner : Value}
    (h : Unfoldable.Throughout arena schema)
    (hstep : arena.Unfolds schema inner) : Unfoldable.Throughout arena inner :=
  fun position hposition => h position (.head hstep hposition)

theorem Unfoldable.throughout {schema : Value} (h : Unfoldable schema)
    (hinside : ∀ inner, arena.Unfolds schema inner →
      Unfoldable.Throughout arena inner) :
    Unfoldable.Throughout arena schema := by
  intro position hposition
  rcases Relation.ReflTransGen.cases_head hposition with rfl | ⟨inner, hstep, hrest⟩
  · exact h
  · exact hinside inner hstep position hrest

theorem Ends.not_circular {schema : Value} (h : arena.Ends schema) :
    ¬ Relation.TransGen arena.Unfolds schema schema := by
  induction h with
  | intro schema _ ih =>
      intro hcircle
      obtain ⟨inner, hstep, hback⟩ := Relation.TransGen.head'_iff.mp hcircle
      exact ih inner hstep (Relation.TransGen.tail' hback hstep)

theorem ends_iff_no_path {schema : Value} :
    arena.Ends schema ↔ ¬ ∃ path : ℕ → Value,
      path 0 = schema ∧ ∀ n, arena.Unfolds (path n) (path (n + 1)) := by
  rw [Ends, ← not_iff_not, not_not]
  exact not_acc_iff_exists_descending_chain

/-! ## A result bounds every path -/

section Step

variable {component : String → Option (Outcome Entries)}

theorem expandWith_part_succeeds {schema part : Value}
    (hpart : schema.Merges part)
    (h : Succeeds (expandWith component schema).result) :
    Succeeds (expandWith component part).result := by
  cases hpart with
  | allOf hall hitems hitem =>
      rw [expandWith_allOf hall, succeeds_map_iff, expandParts_eq, hitems,
        succeeds_mapM_iff] at h
      exact h _ hitem
  | anyOf hall hany hitems hitem =>
      rw [expandWith_anyOf hall hany, succeeds_map_iff, expandParts_eq, hitems,
        succeeds_mapM_iff] at h
      exact h _ hitem

theorem expandWith_target_succeeds {raw : Entries} {target : Reference}
    {expansion : Outcome Entries} (hall : raw.field? "allOf" = none)
    (hany : raw.field? "anyOf" = none) (hreference : raw.reference? = some target)
    (hknown : component target.name = some expansion)
    (h : Succeeds (expandWith component (.map raw)).result) :
    Succeeds expansion.result := by
  rwa [expandWith_known hall hany hreference hknown, succeeds_map_iff] at h

end Step

theorem ends_of_expandWith {expandComponent : Value → Outcome Entries}
    (hcomponent : ∀ schema, Succeeds (expandComponent schema).result →
      arena.Ends schema)
    {schema : Value}
    (h : Succeeds (expandWith
      (fun name => (OrderedMap.find? arena name).map expandComponent)
        schema).result) : arena.Ends schema := by
  induction hsize : schema.size using Nat.strongRecOn generalizing schema with
  | ind size ih =>
      refine .intro _ fun inner hinner => ?_
      cases hinner with
      | part hpart =>
          exact ih _ (hsize ▸ hpart.combines.size_lt)
            (expandWith_part_succeeds hpart h) rfl
      | target hall hany hreference hfind =>
          have hknown := congrArg (Option.map expandComponent) hfind
          exact hcomponent inner
            (expandWith_target_succeeds hall hany hreference hknown h)

theorem ends_of_expandWithin {bound : ℕ} {schema : Value}
    (h : Succeeds (arena.expandWithin bound schema).result) :
    arena.Ends schema := by
  induction bound generalizing schema with
  | zero =>
      rw [expandWithin] at h
      refine ends_of_expandWith (fun component hsucceeds => ?_) h
      obtain ⟨flat, hflat⟩ := hsucceeds
      cases hflat
  | succ bound ih =>
      rw [expandWithin] at h
      exact ends_of_expandWith (fun component => ih) h

/-! ## The components on a path -/

/-- A schema that ends and that different components, those visited so far, lead
to. -/
structure Visiting (arena : Arena) (names : List String) (schema : Value) :
    Prop where
  ends : arena.Ends schema
  unfoldable : Unfoldable.Throughout arena schema
  distinct : names.Nodup
  leads : ∀ name ∈ names, ∃ component,
    OrderedMap.find? arena name = some component ∧
      Relation.ReflTransGen arena.Unfolds component schema

theorem Visiting.length_le {names : List String} {schema : Value}
    (h : arena.Visiting names schema) : names.length ≤ arena.length := by
  have hsub : names ⊆ OrderedMap.keys arena := by
    intro name hname
    obtain ⟨component, hfind, _⟩ := h.leads name hname
    exact List.mem_map_of_mem (OrderedMap.mem_of_find? hfind)
  calc
    names.length ≤ (OrderedMap.keys arena).length :=
      (List.subperm_of_subset h.distinct hsub).length_le
    _ = arena.length := List.length_map _

theorem Visiting.step {names : List String} {schema inner : Value}
    (h : arena.Visiting names schema) (hstep : arena.Unfolds schema inner) :
    arena.Visiting names inner where
  ends := h.ends.inv hstep
  unfoldable := h.unfoldable.step hstep
  distinct := h.distinct
  leads := by
    intro name hname
    obtain ⟨component, hfind, hpath⟩ := h.leads name hname
    exact ⟨component, hfind, hpath.tail hstep⟩

theorem Visiting.component {names : List String} {name : String}
    {schema component : Value} (h : arena.Visiting names schema)
    (hfind : OrderedMap.find? arena name = some component)
    (hstep : arena.Unfolds schema component) :
    arena.Visiting (name :: names) component := by
  have hinner := h.step hstep
  have hnew : name ∉ names := by
    intro hname
    obtain ⟨found, hfound, hpath⟩ := h.leads name hname
    cases hfind.symm.trans hfound
    exact hinner.ends.not_circular (Relation.TransGen.tail' hpath hstep)
  refine ⟨hinner.ends, hinner.unfoldable, List.nodup_cons.mpr ⟨hnew, h.distinct⟩, ?_⟩
  rw [List.forall_mem_cons]
  exact ⟨⟨component, hfind, .refl⟩, hinner.leads⟩

theorem Visiting.expandWithin_succeeds {bound : ℕ} {names : List String}
    {schema : Value} (h : arena.Visiting names schema)
    (hbound : arena.length ≤ names.length + bound) :
    FailsOnly (fun _ => False) (arena.expandWithin bound schema).result := by
  refine expandWithin_failsOnly
    (E := fun bound schema => ∃ names, arena.Visiting names schema ∧
      arena.length ≤ names.length + bound)
    ?misfit ?part ?last ?next ⟨names, h, hbound⟩
  case misfit =>
    rintro bound schema ⟨names, hvisiting, -⟩
    exact .inl (hvisiting.unfoldable schema .refl)
  case part =>
    rintro bound schema part ⟨names, hvisiting, hlength⟩ hpart
    exact ⟨names, hvisiting.step (.part hpart), hlength⟩
  case last =>
    rintro raw target component ⟨names, hvisiting, hlength⟩ hall hany hreference hfind
    have hvisited := hvisiting.component hfind (.target hall hany hreference hfind)
    have hbelow := hvisited.length_le
    rw [List.length_cons] at hbelow
    omega
  case next =>
    rintro bound raw target component ⟨names, hvisiting, hlength⟩ hall hany hreference hfind
    have hvisited := hvisiting.component hfind (.target hall hany hreference hfind)
    refine ⟨target.name :: names, hvisited, ?_⟩
    rw [List.length_cons]
    omega

/-! ## Merging -/

theorem expand_succeeds_iff_ends {schema : Value}
    (h : Unfoldable.Throughout arena schema) :
    Succeeds (arena.expand schema).result ↔ arena.Ends schema := by
  constructor
  · exact ends_of_expandWithin
  · intro hends
    have hstart : arena.Visiting [] schema :=
      ⟨hends, h, List.nodup_nil, by simp⟩
    have hfails := hstart.expandWithin_succeeds (Nat.le_add_left _ _)
    rcases hfails.cases with hsucceeds | ⟨_, _, hfalse⟩
    · exact hsucceeds
    · exact hfalse.elim

theorem expandWithin_endless {bound : ℕ} {schema : Value}
    (h : Unfoldable.Throughout arena schema) :
    FailsOnly (· = .endless) (arena.expandWithin bound schema).result := by
  refine expandWithin_failsOnly (E := fun _ => Unfoldable.Throughout arena)
    (fun _ schema h => .inl (h schema .refl)) (fun _ _ _ h hpart => h.step (.part hpart))
    ?last ?next h
  case last => exact fun _ _ _ _ _ => rfl
  case next =>
    intro bound raw target component hraw hall hany hreference hfind
    exact hraw.step (.target hall hany hreference hfind)

/-- Merging gives a schema exactly if no path of parts and references starts at
one of the merged schemas and goes on without end; otherwise it is endless. -/
theorem merge_ends_iff {schemas : List Value}
    (h : ∀ schema ∈ schemas, Unfoldable.Throughout arena schema) :
    ((∃ flat, (arena.merge schemas).result = .ok flat) ↔
        ¬ ∃ path : ℕ → Value, path 0 ∈ schemas ∧
          ∀ n, arena.Unfolds (path n) (path (n + 1))) ∧
      ((arena.merge schemas).result = .error .endless ↔
        ∃ path : ℕ → Value, path 0 ∈ schemas ∧
          ∀ n, arena.Unfolds (path n) (path (n + 1))) := by
  have hsucceeds : Succeeds (arena.merge schemas).result ↔
      ¬ ∃ path : ℕ → Value, path 0 ∈ schemas ∧
        ∀ n, arena.Unfolds (path n) (path (n + 1)) := by
    rw [merge, Outcome.result_map, succeeds_map_iff, Outcome.result_mapM,
      succeeds_mapM_iff]
    constructor
    · rintro hall ⟨path, hstart, hpath⟩
      have hends := (expand_succeeds_iff_ends (h _ hstart)).mp (hall _ hstart)
      exact ends_iff_no_path.mp hends ⟨path, rfl, hpath⟩
    · intro hnone schema hschema
      rw [expand_succeeds_iff_ends (h schema hschema), ends_iff_no_path]
      rintro ⟨path, rfl, hpath⟩
      exact hnone ⟨path, hschema, hpath⟩
  have hfails : FailsOnly (· = .endless) (arena.merge schemas).result :=
    merge_failsOnly fun schema hschema => expandWithin_endless (h schema hschema)
  refine ⟨hsucceeds, ?_⟩
  rw [← not_iff_not, ← hsucceeds]
  constructor
  · intro hended
    rcases hfails.cases with hsucceeds | ⟨failure, hfailure, rfl⟩
    · exact hsucceeds
    · exact absurd hfailure hended
  · rintro ⟨flat, hflat⟩ hendless
    rw [hflat] at hendless
    cases hendless

theorem merge_ends_node :
    let node : Entries := [(.str referenceKey, .ref { name := "Node" })]
    let component : Entries :=
      [(.str "properties", .map [(.str "next", .map node)]), (.str "items", .map node),
        (.str "oneOf", .list [.map node])]
    let arena : Arena := [("Node", .map component)]
    let schemas : List Value := [.map [(.str "allOf", .list [.map node])]]
    (∀ schema ∈ schemas, Unfoldable.Throughout arena schema) ∧
      (arena.merge schemas).result = .ok component ∧
        ¬ ∃ path : ℕ → Value, path 0 ∈ schemas ∧
          ∀ n, arena.Unfolds (path n) (path (n + 1)) := by
  intro node component arena schemas
  have hcomponent : Unfoldable.Throughout arena (.map component) := by
    refine Unfoldable.throughout ⟨component, rfl, ?_⟩ ?_
    · simp [mergedKeys, component, Entries.field?, OrderedMap.find?]
    · intro inner hinner
      cases hinner with
      | part hpart =>
          cases hpart with
          | allOf hall => cases hall
          | anyOf _ hany => cases hany
      | target _ _ hreference => cases hreference
  have hnode : Unfoldable.Throughout arena (.map node) := by
    refine Unfoldable.throughout ⟨node, rfl, ?_⟩ ?_
    · simp [mergedKeys, node, referenceKey, Entries.field?, OrderedMap.find?]
    · intro inner hinner
      cases hinner with
      | part hpart =>
          cases hpart with
          | allOf hall => cases hall
          | anyOf _ hany => cases hany
      | target _ _ hreference hfind =>
          cases hreference
          cases hfind
          exact hcomponent
  have hschemas : ∀ schema ∈ schemas, Unfoldable.Throughout arena schema := by
    intro schema hschema
    cases List.mem_singleton.mp hschema
    refine Unfoldable.throughout ⟨_, rfl, ?_⟩ ?_
    · simp [mergedKeys, Entries.field?, OrderedMap.find?, Value.parts?]
    · intro inner hinner
      cases hinner with
      | part hpart =>
          cases hpart with
          | allOf hall hitems hitem =>
              cases hall
              cases hitems
              cases List.mem_singleton.mp hitem
              exact hnode
          | anyOf hall => cases hall
      | target hall => cases hall
  have hflat : (arena.merge schemas).result = .ok component := by decide +kernel
  exact ⟨hschemas, hflat, (merge_ends_iff hschemas).1.mp ⟨component, hflat⟩⟩

end Arena
end SchemaViews
