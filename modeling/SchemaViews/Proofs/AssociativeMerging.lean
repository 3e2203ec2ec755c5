import SchemaViews.Proofs.LeadingComposition
import SchemaViews.Proofs.LeafSummaries
import SchemaViews.Proofs.MergedFragments

/-!
# Compositions inside compositions

Merging three mappings in either order gives the same, if no key has a mapping
or a list on one side and something else on another: a scalar between two
mappings would hide the first of them.  The agreement of kinds that excludes
this passes to merged mappings.  So among schemas whose expansions agree in kind
a composition at any place can be replaced by its parts.
-/

namespace SchemaViews

/-! ## Look-ups by any key -/

namespace Scalar

theorem among_cons (k key : Scalar) (known : List Scalar) :
    key.among (k :: known) = if k.sameKey key then k else key.among known := by
  unfold among
  rw [List.find?_cons]
  by_cases hsame : k.sameKey key = true <;> simp [hsame]

theorem among_ne {k key : Scalar} (h : ¬ k.sameKey key) (known : List Scalar) :
    key.among known ≠ k := by
  rintro rfl
  apply h
  rcases among_cases known key with hknown | hkey
  · exact hknown.2
  · rw [hkey.1]
    exact sameKey_self key

end Scalar

namespace ScalarMap

variable {α : Type} {m : ScalarMap α} {key : Scalar}

theorem find?_cons (k key : Scalar) (a : α) (m : ScalarMap α) :
    find? ((k, a) :: m) key = if k.sameKey key then some a else find? m key := by
  change OrderedMap.find? ((k, a) :: m) (key.among (k :: OrderedMap.keys m)) = _
  rw [Scalar.among_cons, OrderedMap.find?_cons]
  by_cases hsame : k.sameKey key = true
  · simp [hsame]
  · rw [if_neg hsame, if_neg (Ne.symm (Scalar.among_ne hsame _)), if_neg hsame, find?]

theorem update_cons (k key : Scalar) (a value : α) (change : α → α) (m : ScalarMap α) :
    update ((k, a) :: m) key value change =
      if k.sameKey key then (k, change a) :: m
      else (k, a) :: update m key value change := by
  change OrderedMap.update ((k, a) :: m) (key.among (k :: OrderedMap.keys m)) _ _ = _
  rw [Scalar.among_cons, OrderedMap.update]
  by_cases hsame : k.sameKey key = true
  · simp [hsame]
  · rw [if_neg hsame, if_neg (Ne.symm (Scalar.among_ne hsame _)), if_neg hsame, update]

theorem find?_update (m : ScalarMap α) (key other : Scalar) (value : α) (change : α → α) :
    find? (update m key value change) other =
      if key.sameKey other then some (((find? m key).map change).getD value)
      else find? m other := by
  induction m with
  | nil => exact find?_cons key other value []
  | cons entry rest ih =>
      obtain ⟨k, a⟩ := entry
      rw [update_cons, find?_cons k key, find?_cons k other]
      simp only [Scalar.sameKey_iff] at ih ⊢
      by_cases hkey : k.normal = key.normal
      · rw [if_pos hkey, if_pos hkey, find?_cons]
        simp only [Scalar.sameKey_iff, hkey]
        split <;> simp
      · rw [if_neg hkey, if_neg hkey, find?_cons, ih]
        simp only [Scalar.sameKey_iff]
        by_cases hother : k.normal = other.normal
        · have hne : key.normal ≠ other.normal := fun h => hkey (hother.trans h.symm)
          rw [if_pos hother, if_neg hne, if_pos hother]
        · rw [if_neg hother, if_neg hother]

theorem exists_of_find? {a : α} (h : find? m key = some a) :
    ∃ entry ∈ m, entry.1.sameKey key ∧ entry.2 = a := by
  induction m with
  | nil => cases h
  | cons entry rest ih =>
      obtain ⟨k, b⟩ := entry
      rw [find?_cons] at h
      split at h
      · next hsame => exact ⟨_, List.mem_cons_self, hsame, Option.some.inj h⟩
      · obtain ⟨found, hfound, hrest⟩ := ih h
        exact ⟨found, List.mem_cons_of_mem _ hfound, hrest⟩

theorem find?_eq_none (h : ∀ other ∈ OrderedMap.keys m, ¬ other.sameKey key) :
    find? m key = none := by
  cases hfind : find? m key with
  | none => rfl
  | some a =>
      obtain ⟨entry, hentry, hsame, -⟩ := exists_of_find? hfind
      exact absurd hsame (h entry.1 (List.mem_map_of_mem hentry))

theorem find?_congr (m : ScalarMap α) {key other : Scalar} (h : key.sameKey other) :
    find? m key = find? m other := by
  rw [Scalar.sameKey_iff] at h
  induction m with
  | nil => rfl
  | cons entry rest ih =>
      rw [find?_cons, find?_cons, ih]
      simp only [Scalar.sameKey_iff, h]

theorem ext_of_find? {m n : ScalarMap α} (hkeys : OrderedMap.keys m = OrderedMap.keys n)
    (hapart : Scalar.Apart (OrderedMap.keys m))
    (h : ∀ key, find? m key = find? n key) : m = n := by
  induction m generalizing n with
  | nil => exact (List.map_eq_nil_iff.mp hkeys.symm).symm
  | cons entry rest ih =>
      obtain ⟨k, a⟩ := entry
      cases n with
      | nil => cases hkeys
      | cons other others =>
          obtain ⟨j, b⟩ := other
          obtain ⟨rfl, hrest⟩ := List.cons.inj hkeys
          obtain ⟨hfirst, hrestApart⟩ := List.pairwise_cons.mp hapart
          have hvalue : a = b := by
            have hk := h k
            rw [find?_cons, find?_cons] at hk
            simpa using hk
          rw [hvalue, ih hrest hrestApart]
          intro key
          by_cases hsame : k.sameKey key = true
          · have hother : ∀ found ∈ OrderedMap.keys rest, ¬ found.sameKey key := by
              intro found hfound hkey
              apply hfirst found hfound
              rw [Scalar.sameKey_iff] at hsame hkey ⊢
              exact hsame.trans hkey.symm
            have hothers : ∀ found ∈ OrderedMap.keys others, ¬ found.sameKey key := by
              rwa [show OrderedMap.keys rest = OrderedMap.keys others from hrest] at hother
            rw [find?_eq_none hother, find?_eq_none hothers]
          · have hk := h key
            rwa [find?_cons, find?_cons, if_neg hsame, if_neg hsame] at hk

end ScalarMap

namespace Value

theorem find?_mergeEntries {left right : Entries}
    (hright : Scalar.Apart (OrderedMap.keys right)) (key : Scalar) :
    ScalarMap.find? (mergeEntries left right) key =
      mergeFields (ScalarMap.find? left key) (ScalarMap.find? right key) := by
  induction right generalizing left with
  | nil => exact (mergeFields_none_right _).symm
  | cons entry rest ih =>
      obtain ⟨k, v⟩ := entry
      obtain ⟨hfirst, hrest⟩ := List.pairwise_cons.mp hright
      rw [mergeEntries_cons, ih hrest, ScalarMap.find?_update, ScalarMap.find?_cons]
      by_cases hsame : k.sameKey key = true
      · have hnone : ScalarMap.find? rest key = none := by
          apply ScalarMap.find?_eq_none
          intro other hother hkey
          apply hfirst other hother
          rw [Scalar.sameKey_iff] at hsame hkey ⊢
          exact hsame.trans hkey.symm
        rw [if_pos hsame, if_pos hsame, hnone, ScalarMap.find?_congr left hsame,
          mergeFields_none_right]
        cases ScalarMap.find? left key <;> rfl
      · rw [if_neg hsame, if_neg hsame]

/-! ## Agreement in kind -/

/-- Two values of one kind: scalars, lists, or mappings whose values agree in kind
under every key that both have. -/
inductive AgreesInKind : Value → Value → Prop
  | scalar (a b : Scalar) : AgreesInKind (.scalar a) (.scalar b)
  | list (xs ys : List Value) : AgreesInKind (.list xs) (.list ys)
  | map {left right : Entries} :
      (∀ entry ∈ left, ∀ other ∈ right, entry.1.sameKey other.1 →
        AgreesInKind entry.2 other.2) → AgreesInKind (.map left) (.map right)

namespace AgreesInKind

theorem symm {v w : Value} (h : AgreesInKind v w) : AgreesInKind w v := by
  induction h with
  | scalar a b => exact .scalar b a
  | list xs ys => exact .list ys xs
  | map _ ih =>
      refine .map fun entry hentry other hother hsame => ?_
      rw [Scalar.sameKey_comm] at hsame
      exact ih other hother entry hentry hsame

theorem nil_left (entries : Entries) : AgreesInKind (.map []) (.map entries) :=
  .map (by simp)

theorem entries {left right : Entries} (h : AgreesInKind (.map left) (.map right)) :
    ∀ entry ∈ left, ∀ other ∈ right, entry.1.sameKey other.1 →
      AgreesInKind entry.2 other.2 := by
  cases h with
  | map h => exact h

theorem found {left right : Entries} (h : AgreesInKind (.map left) (.map right))
    {key : Scalar} {v w : Value} (hleft : ScalarMap.find? left key = some v)
    (hright : ScalarMap.find? right key = some w) : AgreesInKind v w := by
  obtain ⟨entry, hentry, hkey, rfl⟩ := ScalarMap.exists_of_find? hleft
  obtain ⟨other, hother, hsame, rfl⟩ := ScalarMap.exists_of_find? hright
  apply h.entries entry hentry other hother
  rw [Scalar.sameKey_iff] at hkey hsame ⊢
  exact hkey.trans hsame.symm

theorem merge {a b c : Value} (ha : AgreesInKind a c) (hb : AgreesInKind b c) :
    AgreesInKind (Value.merge a b) c := by
  induction hb generalizing a with
  | scalar s t =>
      rw [merge_scalar]
      exact .scalar s t
  | list xs ys =>
      cases ha with
      | list zs =>
          rw [Value.merge]
          exact .list _ ys
  | @map _ right hb ih =>
      cases ha with
      | map ha =>
          rw [Value.merge]
          refine .map (forall_mem_mergeEntries (Q := fun key v => ∀ other ∈ right,
            key.sameKey other.1 → AgreesInKind v other.2) ha hb ?_)
          intro key other old new hnew hsame hold hother entry hentry hkey
          have hotherKey : other.sameKey entry.1 := by
            rw [Scalar.sameKey_iff] at hsame hkey ⊢
            exact hsame.symm.trans hkey
          exact ih (other, new) hnew entry hentry hotherKey (hold entry hentry hkey)

theorem mergeEntries {left middle right : Entries}
    (hleft : AgreesInKind (.map left) (.map right))
    (hmiddle : AgreesInKind (.map middle) (.map right)) :
    AgreesInKind (.map (Value.mergeEntries left middle)) (.map right) := by
  have h := hleft.merge hmiddle
  rwa [Value.merge] at h

end AgreesInKind

mutual

def decAgreesInKind : (v w : Value) → Decidable (AgreesInKind v w)
  | .scalar a, .scalar b => isTrue (.scalar a b)
  | .list xs, .list ys => isTrue (.list xs ys)
  | .map left, .map right =>
    match decAgreesEntries left right with
    | isTrue h => isTrue (.map h)
    | isFalse h => isFalse fun hagree => h hagree.entries
  | .scalar _, .list _ => isFalse nofun
  | .scalar _, .map _ => isFalse nofun
  | .list _, .scalar _ => isFalse nofun
  | .list _, .map _ => isFalse nofun
  | .map _, .scalar _ => isFalse nofun
  | .map _, .list _ => isFalse nofun

def decAgreesEntries : (left right : List (Scalar × Value)) →
    Decidable (∀ entry ∈ left, ∀ other ∈ right, entry.1.sameKey other.1 →
      AgreesInKind entry.2 other.2)
  | [], _ => isTrue (by simp)
  | (key, v) :: rest, right =>
    have : DecidablePred (AgreesInKind v) := fun w => decAgreesInKind v w
    match (inferInstance : Decidable (∀ other ∈ right, key.sameKey other.1 →
        AgreesInKind v other.2)), decAgreesEntries rest right with
    | isTrue hfirst, isTrue hrest =>
      isTrue (List.forall_mem_cons.mpr ⟨hfirst, hrest⟩)
    | isFalse hfirst, _ => isFalse fun h => hfirst (List.forall_mem_cons.mp h).1
    | _, isFalse hrest => isFalse fun h => hrest (List.forall_mem_cons.mp h).2

end

instance : DecidableRel AgreesInKind := decAgreesInKind

/-! ## Associativity -/

theorem mergeEntries_assoc_of_values {left middle right : Entries}
    (hmiddle : (Value.map middle).Proper) (hleft : (Value.map left).Proper)
    (hright : (Value.map right).Proper)
    (h : ∀ key a b c, ScalarMap.find? left key = some a →
      ScalarMap.find? middle key = some b → ScalarMap.find? right key = some c →
        merge a (merge b c) = merge (merge a b) c) :
    mergeEntries left (mergeEntries middle right) =
      mergeEntries (mergeEntries left middle) right := by
  apply ScalarMap.ext_of_find?
  · simp only [keys_mergeEntries, Scalar.foldl_enter_foldl]
  · exact (hleft.mergeEntries (hmiddle.mergeEntries hright)).apart
  · intro key
    rw [find?_mergeEntries (hmiddle.mergeEntries hright).apart,
      find?_mergeEntries hright.apart, find?_mergeEntries hright.apart,
      find?_mergeEntries hmiddle.apart]
    cases hc : ScalarMap.find? right key with
    | none => simp only [mergeFields_none_right]
    | some c =>
        cases ha : ScalarMap.find? left key with
        | none => rfl
        | some a =>
            cases hb : ScalarMap.find? middle key with
            | none => rfl
            | some b => exact congrArg some (h key a b c ha hb hc)

theorem Proper.found {entries : Entries} (h : Proper (.map entries)) {key : Scalar}
    {v : Value} (hfind : ScalarMap.find? entries key = some v) : v.Proper := by
  obtain ⟨entry, hentry, -, rfl⟩ := ScalarMap.exists_of_find? hfind
  exact h.entry hentry

theorem merge_assoc {a b c : Value} (ha : a.Proper) (hb : b.Proper) (hc : c.Proper)
    (hab : AgreesInKind a b) (hbc : AgreesInKind b c) :
    merge a (merge b c) = merge (merge a b) c := by
  induction hbc generalizing a with
  | scalar s t => simp only [merge_scalar]
  | list xs ys =>
      cases hab with
      | list zs => simp only [merge, List.append_assoc]
  | @map middle right hbc ih =>
      cases hab with
      | @map left _ hab =>
          -- only a key that all three have needs the induction
          simp only [merge]
          rw [mergeEntries_assoc_of_values hb ha hc]
          intro key x y z hx hy hz
          have hxy := (AgreesInKind.map hab).found hx hy
          obtain ⟨entry, hentry, hkey, rfl⟩ := ScalarMap.exists_of_find? hy
          obtain ⟨other, hother, hsame, rfl⟩ := ScalarMap.exists_of_find? hz
          have hkeys : entry.1.sameKey other.1 := by
            rw [Scalar.sameKey_iff] at hkey hsame ⊢
            exact hkey.trans hsame.symm
          exact ih entry hentry other hother hkeys (ha.found hx) (hb.entry hentry)
            (hc.entry hother) hxy

-- a scalar between two mappings hides the first, unless it is merged with the last
example :
    let first : Value := .map [(.str "a", .null)]
    merge first (merge .null (.map [])) = first ∧
      merge (merge first .null) (.map []) = .map [] := by decide

/-- A row of mappings can be merged on its own before it is merged into what came
first. -/
theorem foldl_mergeEntries_assoc {start first : Entries} {flats : List Entries}
    (hproper : ∀ flat ∈ start :: first :: flats, (Value.map flat).Proper)
    (hagree : (start :: first :: flats).Pairwise fun left right =>
      AgreesInKind (.map left) (.map right)) :
    flats.foldl mergeEntries (mergeEntries start first) =
      mergeEntries start (flats.foldl mergeEntries first) := by
  induction flats generalizing first with
  | nil => rfl
  | cons flat rest ih =>
      simp only [List.forall_mem_cons] at hproper
      obtain ⟨hstart, hfirst, hflat, hrest⟩ := hproper
      simp only [List.pairwise_cons, List.forall_mem_cons] at hagree
      obtain ⟨⟨hstartFirst, hstartFlat, hstartRest⟩, ⟨hfirstFlat, hfirstRest⟩,
        hflatRest, hpairs⟩ := hagree
      have hassoc : mergeEntries start (mergeEntries first flat) =
          mergeEntries (mergeEntries start first) flat := by
        have h := merge_assoc hstart hfirst hflat hstartFirst hfirstFlat
        simpa only [merge, map.injEq] using h
      rw [List.foldl_cons, List.foldl_cons, ← hassoc]
      apply ih
      · simpa only [List.forall_mem_cons] using
          ⟨hstart, hfirst.mergeEntries hflat, hrest⟩
      · simp only [List.pairwise_cons, List.forall_mem_cons]
        refine ⟨⟨?_, hstartRest⟩, fun other hother => ?_, hpairs⟩
        · exact (hstartFirst.symm.mergeEntries hstartFlat.symm).symm
        · exact (hfirstRest other hother).mergeEntries (hflatRest other hother)

theorem foldl_mergeEntries_agrees {start right : Entries} {flats : List Entries}
    (hstart : AgreesInKind (.map start) (.map right))
    (hflats : ∀ flat ∈ flats, AgreesInKind (.map flat) (.map right)) :
    AgreesInKind (.map (flats.foldl mergeEntries start)) (.map right) := by
  induction flats generalizing start with
  | nil => exact hstart
  | cons flat rest ih =>
      rw [List.forall_mem_cons] at hflats
      exact ih (hstart.mergeEntries hflats.1) hflats.2

theorem proper_foldl_mergeEntries {start : Entries} {flats : List Entries}
    (hstart : (Value.map start).Proper)
    (hflats : ∀ flat ∈ flats, (Value.map flat).Proper) :
    (Value.map (flats.foldl mergeEntries start)).Proper := by
  induction flats generalizing start with
  | nil => exact hstart
  | cons flat rest ih =>
      rw [List.forall_mem_cons] at hflats
      exact ih (hstart.mergeEntries hflats.1) hflats.2

end Value

/-! ## Overlays inside overlays -/

namespace Arena

theorem overlay_overlay {before inner after : List Entries}
    (hproper : ∀ flat ∈ before ++ inner, (Value.map flat).Proper)
    (hagree : (before ++ inner).Pairwise fun left right =>
      (Value.map left).AgreesInKind (.map right)) :
    overlay (before ++ overlay inner :: after) = overlay (before ++ (inner ++ after)) := by
  rw [List.forall_mem_append] at hproper
  rw [List.pairwise_append] at hagree
  obtain ⟨-, hinner, hacross⟩ := hagree
  generalize hstart : before.foldl Value.mergeEntries [] = start
  have hnil : (Value.map []).Proper := Value.proper_invariant.empty
  have hproperStart : (Value.map start).Proper :=
    hstart ▸ Value.proper_foldl_mergeEntries hnil hproper.1
  have hstartAgrees : ∀ flat ∈ inner, (Value.map start).AgreesInKind (.map flat) := by
    intro flat hflat
    rw [← hstart]
    exact Value.foldl_mergeEntries_agrees (.nil_left flat) fun other hother =>
      hacross other hother flat hflat
  have hassoc : inner.foldl Value.mergeEntries start =
      Value.mergeEntries start (inner.foldl Value.mergeEntries []) := by
    have h : inner.foldl Value.mergeEntries (Value.mergeEntries start []) =
        Value.mergeEntries start (inner.foldl Value.mergeEntries []) := by
      apply Value.foldl_mergeEntries_assoc
      · simpa only [List.forall_mem_cons] using ⟨hproperStart, hnil, hproper.2⟩
      · simp only [List.pairwise_cons, List.forall_mem_cons]
        exact ⟨⟨(Value.AgreesInKind.nil_left start).symm, hstartAgrees⟩,
          fun flat _ => .nil_left flat, hinner⟩
    rwa [Value.mergeEntries_nil] at h
  have hdrop : (Value.mergeEntries start (overlay inner)).dropField referenceKey =
      (inner.foldl Value.mergeEntries start).dropField referenceKey := by
    rw [hassoc, Entries.dropField_mergeEntries, Entries.dropField_mergeEntries, overlay,
      Entries.dropField_dropField]
  calc overlay (before ++ overlay inner :: after)
      = (after.foldl Value.mergeEntries
          (Value.mergeEntries start (overlay inner))).dropField referenceKey := by
        rw [overlay, List.foldl_append, hstart, List.foldl_cons]
    _ = (after.foldl Value.mergeEntries
          (inner.foldl Value.mergeEntries start)).dropField referenceKey := by
        rw [Value.dropField_foldl_mergeEntries, hdrop,
          ← Value.dropField_foldl_mergeEntries]
    _ = overlay (before ++ (inner ++ after)) := by
        rw [overlay, List.foldl_append, hstart, List.foldl_append]

variable {arena : Arena}

/-- A composition among schemas whose expansions agree in kind can be replaced by
its parts. -/
theorem merge_composition (harena : ∀ entry ∈ arena, entry.2.Proper)
    {before inner after : List Value}
    (hproper : ∀ schema ∈ before ++ inner ++ after, schema.Proper)
    {flats : List Entries}
    (hflats : ((before ++ inner ++ after).mapM fun schema =>
      (arena.expand schema).result) = .ok flats)
    (hagree : flats.Pairwise fun left right =>
      (Value.map left).AgreesInKind (.map right)) :
    ∃ flat, (arena.merge (before ++ composition inner :: after)).result = .ok flat ∧
      (arena.merge (before ++ inner ++ after)).result = .ok flat := by
  -- what is expanded out of proper schemas is proper
  have hmember : ∀ {schema : Value} {flat : Entries}, schema.Proper →
      (arena.expand schema).result = .ok flat → (Value.map flat).Proper := fun hschema h =>
    (expandable_of_forall Value.proper_invariant harena).expandWithin
      Value.proper_invariant hschema h
  have hall : ∀ flat ∈ flats, (Value.map flat).Proper := by
    intro flat hflat
    obtain ⟨schema, hschema, hexpand⟩ := exists_of_mem_mapM hflats hflat
    exact hmember (hproper schema hschema) hexpand
  have hparts := hflats
  rw [List.append_assoc, List.mapM_append] at hparts
  obtain ⟨first, hfirst, hparts⟩ := bind_eq_ok_iff.mp hparts
  obtain ⟨others, hothers, hparts⟩ := bind_eq_ok_iff.mp hparts
  cases pure_eq_ok_iff.mp hparts
  rw [List.mapM_append] at hothers
  obtain ⟨middle, hmiddle, hothers⟩ := bind_eq_ok_iff.mp hothers
  obtain ⟨last, hlast, hothers⟩ := bind_eq_ok_iff.mp hothers
  cases pure_eq_ok_iff.mp hothers
  rw [← List.append_assoc] at hall hagree
  refine ⟨overlay (first ++ (middle ++ last)), ?_, ?_⟩
  · have hinner : (arena.expand (composition inner)).result = .ok (overlay middle) := by
      rw [composition, expand_of_allOf rfl rfl, merge_eq, hmiddle]
      rfl
    rw [merge_eq, List.mapM_append, List.mapM_cons, hfirst, hinner, hlast,
      ← overlay_overlay (List.forall_mem_append.mp hall).1
        (List.pairwise_append.mp hagree).1]
    rfl
  · rw [merge_eq, hflats]
    rfl

theorem merge_composition_pet :
    let text : Value := .map [(.str "type", .str "string")]
    let short : Value := .map [(.str "maxLength", .int 8)]
    let own : Entries :=
      [(.str "nullable", .bool true), (.str "properties", .map [(.str "name", short)])]
    let base : Entries :=
      [(.str "properties", .map [(.str "tag", text), (.str "name", text)]),
        (.str "required", .list [.str "tag"])]
    let strict : Entries := [(.str "nullable", .bool false)]
    let identified : Entries :=
      [(.str "required", .list [.str "id"]), (.str "properties", .map [(.str "id", text)])]
    let inner : List Value :=
      [.map [(.str referenceKey, .ref { name := "Base" })], .map strict]
    let arena : Arena := [("Base", .map base)]
    let flat : Entries :=
      [(.str "nullable", .bool false),
        (.str "properties", .map
          [(.str "name", .map [(.str "maxLength", .int 8), (.str "type", .str "string")]),
            (.str "tag", text), (.str "id", text)]),
        (.str "required", .list [.str "tag", .str "id"])]
    (([Value.map own] ++ inner ++ [Value.map identified]).mapM fun schema =>
        (arena.expand schema).result) = .ok [own, base, strict, identified] ∧
      (arena.merge ([Value.map own] ++ composition inner :: [Value.map identified])).result =
          .ok flat ∧
        (arena.merge ([Value.map own] ++ inner ++ [Value.map identified])).result = .ok flat := by
  intro text short own base strict identified inner arena flat
  have harena : ∀ entry ∈ arena, entry.2.Proper := by decide
  have hproper : ∀ schema ∈ [Value.map own] ++ inner ++ [Value.map identified], schema.Proper := by
    decide
  have hflats : (([Value.map own] ++ inner ++ [Value.map identified]).mapM fun schema =>
      (arena.expand schema).result) = .ok [own, base, strict, identified] := by
    decide +kernel
  have hagree : [own, base, strict, identified].Pairwise fun left right =>
      (Value.map left).AgreesInKind (.map right) := by decide
  have hflat : (arena.merge ([Value.map own] ++ inner ++ [Value.map identified])).result =
      .ok flat := by decide +kernel
  obtain ⟨found, hnested, hfound⟩ := merge_composition harena hproper hflats hagree
  cases hflat.symm.trans hfound
  exact ⟨hflats, hnested, hflat⟩

end Arena
end SchemaViews
