import Mathlib.Logic.Relation
import SchemaViews.Proofs.MergingLaws

/-!
# Schemas inside schemas

A schema holds other schemas as its properties, as its items and as the parts
of its compositions.  The schemas inside a merged schema are schemas inside the
merged ones, or merges of such; so whatever holds of all of them and survives
the merge of two single schemas holds at every position of a merged schema.
-/

namespace SchemaViews

def compositionKeys : List String :=
  ["oneOf", "allOf", "anyOf"]

namespace Value

def parts? : Value → Option (List Value)
  | .list items => some items
  | other => if other.elements? = some [] then some [] else none

inductive Combines : Value → Value → Prop
  | intro {entries : Entries} {key : String} {parts : List Value}
      {part : Value} :
      key ∈ compositionKeys → (.str key, .list parts) ∈ entries →
        part ∈ parts → Combines (.map entries) part

/-- The schemas that stand directly in a schema. -/
inductive Holds : Value → Value → Prop
  | property {entries properties : Entries} {name : Scalar} {inner : Value} :
      (.str "properties", .map properties) ∈ entries →
        (name, inner) ∈ properties → Holds (.map entries) inner
  | items {entries : Entries} {inner : Value} :
      (.str "items", inner) ∈ entries → Holds (.map entries) inner
  | part {schema part : Value} : schema.Combines part → Holds schema part

/-- A schema position: the schema itself, or a schema somewhere in it. -/
def Position (schema inner : Value) : Prop :=
  Relation.ReflTransGen Holds schema inner

def Everywhere (P : Value → Prop) (schema : Value) : Prop :=
  ∀ inner, schema.Position inner → P inner

theorem Everywhere.here {P : Value → Prop} {schema : Value}
    (h : schema.Everywhere P) : P schema :=
  h schema .refl

theorem Everywhere.inside {P : Value → Prop} {schema inner : Value}
    (h : schema.Everywhere P) (hinner : schema.Holds inner) :
    inner.Everywhere P :=
  fun position hposition => h position (.head hinner hposition)

theorem everywhere_iff {P : Value → Prop} {schema : Value} :
    schema.Everywhere P ↔
      P schema ∧ ∀ inner, schema.Holds inner → inner.Everywhere P := by
  constructor
  · intro h
    exact ⟨h.here, fun inner hinner => h.inside hinner⟩
  · rintro ⟨hhere, hinside⟩ position hposition
    rcases Relation.ReflTransGen.cases_head hposition with rfl | ⟨inner, hinner, hrest⟩
    · exact hhere
    · exact hinside inner hinner position hrest

theorem combines_of_field {entries : Entries} {key : String}
    {parts : Value} {items : List Value} (hkey : key ∈ compositionKeys)
    (hfield : entries.field? key = some parts)
    (hparts : parts.parts? = some items) {item : Value} (hitem : item ∈ items) :
    (Value.map entries).Combines item := by
  unfold parts? at hparts
  split at hparts
  · cases hparts
    exact .intro hkey (OrderedMap.mem_of_find? hfield) hitem
  · split at hparts
    · cases hparts
      simp at hitem
    · cases hparts

/-- The parts that an expansion goes through: those of an `allOf`, or else
those of an `anyOf`. -/
inductive Merges : Value → Value → Prop
  | allOf {raw : Entries} {parts : Value} {items : List Value} {item : Value} :
      raw.field? "allOf" = some parts → parts.parts? = some items →
        item ∈ items → Merges (.map raw) item
  | anyOf {raw : Entries} {parts : Value} {items : List Value} {item : Value} :
      raw.field? "allOf" = none → raw.field? "anyOf" = some parts →
        parts.parts? = some items → item ∈ items → Merges (.map raw) item

theorem Merges.combines {schema part : Value} (h : schema.Merges part) :
    schema.Combines part := by
  cases h with
  | allOf hall hitems hitem =>
      exact combines_of_field (by simp [compositionKeys]) hall hitems hitem
  | anyOf _ hany hitems hitem =>
      exact combines_of_field (by simp [compositionKeys]) hany hitems hitem

/-! ## One entry at a time -/

theorem holds_iff_entry {entries : Entries} {inner : Value} :
    Holds (.map entries) inner ↔
      ∃ entry ∈ entries, Holds (.map [entry]) inner := by
  constructor
  · intro h
    cases h with
    | property hproperties hinner =>
        exact ⟨_, hproperties, .property (by simp) hinner⟩
    | items hitems => exact ⟨_, hitems, .items (by simp)⟩
    | part hpart =>
        cases hpart with
        | intro hkey hparts hmem =>
            exact ⟨_, hparts, .part (.intro hkey (by simp) hmem)⟩
  · rintro ⟨entry, hentry, h⟩
    cases h with
    | property hproperties hinner =>
        rw [List.mem_singleton] at hproperties
        exact .property (hproperties ▸ hentry) hinner
    | items hitems =>
        rw [List.mem_singleton] at hitems
        exact .items (hitems ▸ hentry)
    | part hpart =>
        cases hpart with
        | intro hkey hparts hmem =>
            rw [List.mem_singleton] at hparts
            exact .part (.intro hkey (hparts ▸ hentry) hmem)

theorem Holds.mono {entries other : Entries} {inner : Value}
    (h : Holds (.map entries) inner) (hsub : ∀ entry ∈ entries, entry ∈ other) :
    Holds (.map other) inner := by
  obtain ⟨entry, hentry, hinner⟩ := holds_iff_entry.mp h
  exact holds_iff_entry.mpr ⟨entry, hsub entry hentry, hinner⟩

theorem Combines.mono {entries other : Entries} {part : Value}
    (h : Combines (.map entries) part)
    (hsub : ∀ entry ∈ entries, entry ∈ other) : Combines (.map other) part := by
  cases h with
  | intro hkey hparts hmem => exact .intro hkey (hsub _ hparts) hmem

theorem Holds.size_lt {schema inner : Value} (h : schema.Holds inner) :
    inner.size < schema.size := by
  cases h with
  | property hproperties hinner =>
      have houter := size_lt_of_entry hproperties
      have hentry := size_lt_of_entry hinner
      omega
  | items hitems =>
      have hentry := size_lt_of_entry hitems
      omega
  | part hpart =>
      cases hpart with
      | intro _ hparts hmem =>
          have houter := size_lt_of_entry hparts
          have hitem := size_lt_of_mem hmem
          omega

theorem Combines.size_lt {schema part : Value} (h : schema.Combines part) :
    part.size < schema.size :=
  (Holds.part h).size_lt

theorem key_of_holds_entry {key : Scalar} {v inner : Value}
    (h : Holds (.map [(key, v)]) inner) :
    key ∈ [Scalar.str "properties", .str "items", .str "oneOf", .str "allOf",
      .str "anyOf"] := by
  cases h with
  | property hproperties _ =>
      obtain ⟨rfl, _⟩ := Prod.mk.inj (List.mem_singleton.mp hproperties)
      simp
  | items hitems =>
      obtain ⟨rfl, _⟩ := Prod.mk.inj (List.mem_singleton.mp hitems)
      simp
  | part hpart =>
      cases hpart with
      | @intro _ name _ _ hkey hparts _ =>
          obtain ⟨rfl, _⟩ := Prod.mk.inj (List.mem_singleton.mp hparts)
          simp only [compositionKeys, List.mem_cons, List.not_mem_nil,
            or_false] at hkey
          rcases hkey with rfl | rfl | rfl <;> simp

theorem holds_properties {table : Entries} {inner : Value}
    (h : Holds (.map [(.str "properties", .map table)]) inner) :
    ∃ name, (name, inner) ∈ table := by
  cases h with
  | property hproperties hmem =>
      obtain ⟨_, htable⟩ := Prod.mk.inj (List.mem_singleton.mp hproperties)
      cases htable
      exact ⟨_, hmem⟩
  | items hitems => simp at hitems
  | part hpart =>
      cases hpart with
      | intro _ hparts _ => simp at hparts

theorem not_combines_of_keys {entries : Entries}
    (h : ∀ key ∈ compositionKeys, ∀ v, (Scalar.str key, v) ∉ entries)
    (part : Value) : ¬ Combines (.map entries) part := by
  intro hpart
  cases hpart with
  | intro hkey hparts _ => exact h _ hkey _ hparts

theorem holds_of_setField {entries : Entries} {name : String} {v inner : Value}
    (h : Holds (.map (entries.setField name v)) inner) :
    Holds (.map entries) inner ∨ Holds (.map [(.str name, v)]) inner := by
  obtain ⟨entry, hentry, hinner⟩ := holds_iff_entry.mp h
  rcases Entries.mem_setField hentry with hold | rfl
  · exact .inl (holds_iff_entry.mpr ⟨entry, hold, hinner⟩)
  · exact .inr hinner

theorem combines_of_setField {entries : Entries} {name : String} {v part : Value}
    (hname : name ∉ compositionKeys)
    (h : Combines (.map (entries.setField name v)) part) :
    Combines (.map entries) part := by
  cases h with
  | intro hkey hparts hmem =>
      rcases Entries.mem_setField hparts with hold | hnew
      · exact .intro hkey hold hmem
      · cases hnew
        exact absurd hkey hname

/-! ## Merged schemas -/

theorem merge_eq_scalar {old new : Value} {s : Scalar}
    (h : merge old new = .scalar s) : new = .scalar s := by
  cases new with
  | scalar t => rwa [merge_scalar] at h
  | list right => cases old <;> simp [merge] at h
  | map right => cases old <;> simp [merge] at h

theorem merge_eq_list {old new : Value} {items : List Value}
    (h : merge old new = .list items) :
    ∃ right, new = .list right ∧
      (items = right ∨ ∃ left, old = .list left ∧ items = left ++ right) := by
  cases new with
  | scalar s => simp at h
  | map right => cases old <;> simp [merge] at h
  | list right =>
      refine ⟨right, rfl, ?_⟩
      cases old with
      | list left =>
          rw [merge, Value.list.injEq] at h
          exact .inr ⟨left, rfl, h.symm⟩
      | scalar s => exact .inl (by simpa [merge] using h.symm)
      | map left => exact .inl (by simpa [merge] using h.symm)

theorem merge_eq_map {old new : Value} {entries : Entries}
    (h : merge old new = .map entries) :
    ∃ right, new = .map right ∧
      (entries = right ∨
        ∃ left, old = .map left ∧ entries = mergeEntries left right) := by
  cases new with
  | scalar s => simp at h
  | list right => cases old <;> simp [merge] at h
  | map right =>
      refine ⟨right, rfl, ?_⟩
      cases old with
      | map left =>
          rw [merge, Value.map.injEq] at h
          exact .inr ⟨left, rfl, h.symm⟩
      | scalar s => exact .inl (by simpa [merge] using h.symm)
      | list left => exact .inl (by simpa [merge] using h.symm)

private theorem forall_mem_merge_list {R : Value → Prop} {old new : Value}
    {items : List Value} (h : merge old new = .list items)
    (hold : ∀ left, old = .list left → ∀ item ∈ left, R item)
    (hnew : ∀ right, new = .list right → ∀ item ∈ right, R item) :
    ∀ item ∈ items, R item := by
  obtain ⟨right, hright, rfl | ⟨left, hleft, rfl⟩⟩ := merge_eq_list h
  · exact hnew _ hright
  · intro item hitem
    rcases List.mem_append.mp hitem with hitem | hitem
    · exact hold left hleft item hitem
    · exact hnew right hright item hitem

theorem combines_mergeEntries {left right : Entries} {part : Value}
    (h : Combines (.map (mergeEntries left right)) part) :
    Combines (.map left) part ∨ Combines (.map right) part := by
  -- every listed part of a merged entry was listed on one of the sides
  let Listed (key : Scalar) (v : Value) : Prop :=
    ∀ name, name ∈ compositionKeys → key = .str name →
      ∀ parts, v = .list parts → ∀ p ∈ parts,
        Combines (.map left) p ∨ Combines (.map right) p
  have hall : ∀ entry ∈ mergeEntries left right, Listed entry.1 entry.2 := by
    refine forall_mem_mergeEntries ?_ ?_ ?_
    · rintro ⟨key, v⟩ hentry name hname rfl parts rfl p hp
      exact .inl (.intro hname hentry hp)
    · rintro ⟨key, v⟩ hentry name hname rfl parts rfl p hp
      exact .inr (.intro hname hentry hp)
    · rintro key other old new hnew hsame hold hother name hname rfl parts hmerge
      rw [Scalar.sameKey_comm, Scalar.sameKey_str] at hsame
      exact forall_mem_merge_list hmerge (hold name hname rfl)
        (hother name hname hsame)
  cases h with
  | intro hkey hparts hmem => exact hall _ hparts _ hkey rfl _ rfl _ hmem

/-- What holds of the schemas in both sides and survives their merge holds of
the schemas in the merged schema. -/
theorem forall_holds_mergeEntries {R : Value → Prop} {left right : Entries}
    (hleft : ∀ inner, Holds (.map left) inner → R inner)
    (hright : ∀ inner, Holds (.map right) inner → R inner)
    (hmerge : ∀ old new, R old → Holds (.map right) new → R new →
      R (merge old new)) :
    ∀ inner, Holds (.map (mergeEntries left right)) inner → R inner := by
  have hall : ∀ entry ∈ mergeEntries left right,
      ∀ inner, Holds (.map [entry]) inner → R inner := by
    refine forall_mem_mergeEntries
      (Q := fun key v => ∀ inner, Holds (.map [(key, v)]) inner → R inner)
      ?_ ?_ ?_
    · intro entry hentry inner hinner
      exact hleft inner (holds_iff_entry.mpr ⟨entry, hentry, hinner⟩)
    · intro entry hentry inner hinner
      exact hright inner (holds_iff_entry.mpr ⟨entry, hentry, hinner⟩)
    · intro key other old new hentry hsame hold hnew inner hinner
      have hright' : ∀ inner, Holds (.map [(other, new)]) inner →
          Holds (.map right) inner := fun inner h =>
        holds_iff_entry.mpr ⟨_, hentry, h⟩
      cases hinner with
      | @property _ properties name _ hproperties hmem =>
          obtain ⟨rfl, hvalue⟩ := Prod.mk.inj (List.mem_singleton.mp hproperties)
          rw [Scalar.sameKey_comm, Scalar.sameKey_str] at hsame
          subst other
          have hnewProperty : ∀ {table : Entries}, new = .map table →
              ∀ entry ∈ table, Holds (.map [(.str "properties", new)]) entry.2 := by
            rintro table rfl entry hentry
            exact .property (by simp) hentry
          obtain ⟨table, rfl, rfl | ⟨before, rfl, rfl⟩⟩ := merge_eq_map hvalue.symm
          · exact hnew inner (hnewProperty rfl _ hmem)
          · refine forall_mem_mergeEntries (Q := fun _ v => R v) ?_ ?_ ?_ _ hmem
            · intro entry hentry
              exact hold entry.2 (.property (by simp) hentry)
            · intro entry hentry
              exact hnew entry.2 (hnewProperty rfl entry hentry)
            · intro _ _ a b hb _ ha hRb
              exact hmerge a b ha (hright' b (hnewProperty rfl _ hb)) hRb
      | items hitems =>
          obtain ⟨rfl, rfl⟩ := Prod.mk.inj (List.mem_singleton.mp hitems)
          rw [Scalar.sameKey_comm, Scalar.sameKey_str] at hsame
          subst other
          have hnewItems : Holds (.map [(.str "items", new)]) new :=
            .items (by simp)
          exact hmerge old new (hold old (.items (by simp)))
            (hright' new hnewItems) (hnew new hnewItems)
      | part hpart =>
          cases hpart with
          | @intro _ name _ _ hname hparts hmem =>
              obtain ⟨rfl, hvalue⟩ := Prod.mk.inj (List.mem_singleton.mp hparts)
              rw [Scalar.sameKey_comm, Scalar.sameKey_str] at hsame
              subst other
              refine forall_mem_merge_list hvalue.symm ?_ ?_ inner hmem
              · rintro before rfl item hitem
                exact hold item (.part (.intro hname (by simp) hitem))
              · rintro after rfl item hitem
                exact hnew item (.part (.intro hname (by simp) hitem))
  intro inner hinner
  obtain ⟨entry, hentry, hholds⟩ := holds_iff_entry.mp hinner
  exact hall entry hentry inner hholds

theorem Everywhere.mergeEntries {P : Value → Prop}
    (hmap : ∀ schema, P schema → ∃ entries, schema = .map entries)
    (hmerge : ∀ left right : Entries, P (.map left) → P (.map right) →
      P (.map (Value.mergeEntries left right)))
    {left right : Entries} (hleft : (Value.map left).Everywhere P)
    (hright : (Value.map right).Everywhere P) :
    (Value.map (Value.mergeEntries left right)).Everywhere P := by
  induction hsize : (Value.map right).size using Nat.strongRecOn
    generalizing left right with
  | ind size ih =>
      rw [everywhere_iff]
      refine ⟨hmerge left right hleft.here hright.here, ?_⟩
      refine forall_holds_mergeEntries (fun _ => hleft.inside)
        (fun _ => hright.inside) ?_
      intro old new hold hnew hinside
      obtain ⟨before, rfl⟩ := hmap old hold.here
      obtain ⟨after, rfl⟩ := hmap new hinside.here
      rw [merge]
      exact ih _ (hsize ▸ hnew.size_lt) hold hinside rfl

end Value
end SchemaViews
