import Mathlib.Data.List.Induction
import SchemaViews.Merging

/-!
# Laws of merging

Every entry of a merged mapping is an entry of one side or the merge of an
entry of each, and its keys are those of both sides in the order in which they
first came.  A look-up by a text sees the two values under that text and
nothing else.
-/

namespace SchemaViews

variable {α : Type}

/-! ## Keys -/

theorem Scalar.among_cases (known : List Scalar) (key : Scalar) :
    (key.among known ∈ known ∧ (key.among known).sameKey key) ∨
      (key.among known = key ∧ ∀ other ∈ known, ¬ other.sameKey key) := by
  unfold Scalar.among
  cases hfind : known.find? (·.sameKey key) with
  | none =>
      right
      exact ⟨rfl, by simpa using hfind⟩
  | some other =>
      left
      have hsame := List.find?_some hfind
      exact ⟨List.mem_of_find?_eq_some hfind, hsame⟩

/-- Enters a key behind those that came before, unless it is one of them. -/
def Scalar.enter (kept : List Scalar) (key : Scalar) : List Scalar :=
  if kept.any (·.sameKey key) then kept else kept ++ [key]

theorem Scalar.distinct_append (first second : List Scalar) :
    Scalar.distinct (first ++ second) =
      second.foldl Scalar.enter (Scalar.distinct first) := by
  unfold Scalar.distinct
  rw [List.foldl_append]
  rfl

theorem ScalarMap.keys_update (m : ScalarMap α) (key : Scalar) (value : α)
    (change : α → α) :
    OrderedMap.keys (ScalarMap.update m key value change) =
      Scalar.enter (OrderedMap.keys m) key := by
  unfold ScalarMap.update Scalar.enter
  rw [OrderedMap.keys_update]
  rcases Scalar.among_cases (OrderedMap.keys m) key with hknown | hkey
  · have hany : (OrderedMap.keys m).any (·.sameKey key) :=
      List.any_eq_true.mpr ⟨_, hknown⟩
    rw [if_pos hknown.1, if_pos hany]
  · have hnone : ¬ (OrderedMap.keys m).any (·.sameKey key) := by
      simpa using hkey.2
    have habsent : key ∉ OrderedMap.keys m := fun hmem =>
      hkey.2 key hmem (Scalar.sameKey_self key)
    rw [hkey.1, if_neg habsent, if_neg hnone]

theorem ScalarMap.keys_ofPairs (pairs : List (Scalar × α)) :
    OrderedMap.keys (ScalarMap.ofPairs pairs) = Scalar.distinct (pairs.map Prod.fst) := by
  have hfold : ∀ m : ScalarMap α,
      OrderedMap.keys (pairs.foldl (fun m pair => ScalarMap.insert m pair.1 pair.2) m) =
        (pairs.map Prod.fst).foldl Scalar.enter (OrderedMap.keys m) := by
    induction pairs with
    | nil => exact fun _ => rfl
    | cons pair rest ih =>
        intro m
        rw [List.foldl_cons, ih, ScalarMap.insert, ScalarMap.keys_update]
        rfl
  exact hfold []

def Scalar.Apart (keys : List Scalar) : Prop :=
  keys.Pairwise fun first second => ¬ first.sameKey second

theorem Scalar.apart_enter {kept : List Scalar} (hkept : Scalar.Apart kept)
    (key : Scalar) : Scalar.Apart (Scalar.enter kept key) := by
  unfold Scalar.enter
  split
  · exact hkept
  · rename_i hnew
    have hother : ∀ other ∈ kept, ¬ other.sameKey key := by
      simpa using hnew
    unfold Scalar.Apart
    rw [List.pairwise_append]
    refine ⟨hkept, List.pairwise_singleton _ _, ?_⟩
    intro first hfirst second hsecond
    rw [List.mem_singleton] at hsecond
    subst second
    exact hother first hfirst

theorem Scalar.apart_foldl_enter {kept : List Scalar}
    (hkept : Scalar.Apart kept) (keys : List Scalar) :
    Scalar.Apart (keys.foldl Scalar.enter kept) := by
  induction keys generalizing kept with
  | nil => exact hkept
  | cons key rest ih => exact ih (Scalar.apart_enter hkept key)

theorem Scalar.distinct_of_apart {keys : List Scalar}
    (hkeys : Scalar.Apart keys) : Scalar.distinct keys = keys := by
  induction keys using List.reverseRecOn with
  | nil => rfl
  | append_singleton keys key ih =>
      unfold Scalar.Apart at hkeys
      rw [List.pairwise_append] at hkeys
      obtain ⟨hfirst, _, hlast⟩ := hkeys
      have hnew : ¬ keys.any (·.sameKey key) := by
        simpa using fun other hother => hlast other hother key (by simp)
      rw [Scalar.distinct_append, ih hfirst]
      simp [Scalar.enter, hnew]

/-! ## Entries -/

theorem OrderedMap.mem_update {m : ScalarMap α} {key : Scalar} {value : α}
    {change : α → α} {entry : Scalar × α}
    (hentry : entry ∈ OrderedMap.update m key value change) :
    entry ∈ m ∨ (entry = (key, value) ∧ key ∉ OrderedMap.keys m) ∨
      ∃ old, (key, old) ∈ m ∧ entry = (key, change old) := by
  induction m with
  | nil =>
      right
      left
      exact ⟨by simpa [update] using hentry, by simp [OrderedMap.keys]⟩
  | cons head rest ih =>
      obtain ⟨k, a⟩ := head
      by_cases hk : k = key
      · subst k
        simp only [update, if_pos, List.mem_cons] at hentry
        rcases hentry with rfl | hrest
        · exact .inr (.inr ⟨a, List.mem_cons_self, rfl⟩)
        · exact .inl (List.mem_cons_of_mem _ hrest)
      · simp only [update, if_neg hk, List.mem_cons] at hentry
        rcases hentry with rfl | hrest
        · exact .inl List.mem_cons_self
        · rcases ih hrest with hold | ⟨hnew, habsent⟩ | ⟨old, hold, hchange⟩
          · exact .inl (List.mem_cons_of_mem _ hold)
          · refine .inr (.inl ⟨hnew, ?_⟩)
            simpa [OrderedMap.keys, Ne.symm hk] using habsent
          · exact .inr (.inr ⟨old, List.mem_cons_of_mem _ hold, hchange⟩)

theorem OrderedMap.mem_insert {m : ScalarMap α} {key : Scalar} {value : α}
    {entry : Scalar × α} (hentry : entry ∈ OrderedMap.insert m key value) :
    entry ∈ m ∨ entry = (key, value) := by
  rcases OrderedMap.mem_update hentry with hold | ⟨hnew, _⟩ | ⟨_, _, hchange⟩
  · exact .inl hold
  · exact .inr hnew
  · exact .inr hchange

theorem mem_foldl_cases {β γ : Type} {enter : List β → γ → List β} {R : γ → β → Prop}
    (hstep : ∀ kept c b, b ∈ enter kept c → b ∈ kept ∨ R c b) {cs : List γ}
    {kept : List β} {b : β} (h : b ∈ cs.foldl enter kept) : b ∈ kept ∨ ∃ c ∈ cs, R c b := by
  induction cs generalizing kept with
  | nil => exact .inl h
  | cons c rest ih =>
      rcases ih h with hkept | ⟨d, hd, hentered⟩
      · rcases hstep kept c b hkept with hold | hentered
        · exact .inl hold
        · exact .inr ⟨c, List.mem_cons_self, hentered⟩
      · exact .inr ⟨d, List.mem_cons_of_mem _ hd, hentered⟩

theorem ScalarMap.mem_ofPairs {pairs : List (Scalar × α)} {entry : Scalar × α}
    (h : entry ∈ ofPairs pairs) :
    ∃ name, (name, entry.2) ∈ pairs ∧ entry.1.sameKey name := by
  have hstep : ∀ (m : ScalarMap α) (pair entry : Scalar × α),
      entry ∈ insert m pair.1 pair.2 →
        entry ∈ m ∨ (entry.2 = pair.2 ∧ entry.1.sameKey pair.1) := by
    intro m pair entry hentry
    rcases OrderedMap.mem_insert hentry with hold | rfl
    · exact .inl hold
    · right
      rcases Scalar.among_cases (OrderedMap.keys m) pair.1 with hknown | hkey
      · exact ⟨rfl, hknown.2⟩
      · exact ⟨rfl, by simp [hkey.1]⟩
  rcases mem_foldl_cases hstep h with hnone | ⟨pair, hpair, hvalue, hkey⟩
  · exact absurd hnone List.not_mem_nil
  · exact ⟨pair.1, hvalue ▸ hpair, hkey⟩

namespace Value

/-- What holds of the entries of both sides and survives the merge of two
values under one key holds of the merged entries. -/
theorem forall_mem_mergeEntries {Q : Scalar → Value → Prop}
    {left right : Entries}
    (hleft : ∀ entry ∈ left, Q entry.1 entry.2)
    (hright : ∀ entry ∈ right, Q entry.1 entry.2)
    (hmerge : ∀ key other old new, (other, new) ∈ right → key.sameKey other →
      Q key old → Q other new → Q key (merge old new)) :
    ∀ entry ∈ mergeEntries left right, Q entry.1 entry.2 := by
  induction right generalizing left with
  | nil => simpa using hleft
  | cons entry rest ih =>
      obtain ⟨key, v⟩ := entry
      rw [List.forall_mem_cons] at hright
      rw [mergeEntries_cons]
      refine ih ?_ hright.2 fun other key' old new hnew =>
        hmerge other key' old new (List.mem_cons_of_mem _ hnew)
      intro changed hchanged
      rcases OrderedMap.mem_update hchanged with hold | ⟨hnew, habsent⟩ |
        ⟨old, hold, hchange⟩
      · exact hleft changed hold
      · rcases Scalar.among_cases (OrderedMap.keys left) key with hknown | hkey
        · exact absurd hknown.1 habsent
        · rw [hnew, hkey.1]
          exact hright.1
      · have hmem : key.among (OrderedMap.keys left) ∈ OrderedMap.keys left :=
          List.mem_map.mpr ⟨_, hold, rfl⟩
        have hsame : (key.among (OrderedMap.keys left)).sameKey key := by
          rcases Scalar.among_cases (OrderedMap.keys left) key with hknown | hkey
          · exact hknown.2
          · rw [hkey.1]
            exact Scalar.sameKey_self key
        rw [hchange]
        exact hmerge _ key old v List.mem_cons_self hsame (hleft _ hold) hright.1

theorem keys_mergeEntries (left right : Entries) :
    OrderedMap.keys (mergeEntries left right) =
      (OrderedMap.keys right).foldl Scalar.enter (OrderedMap.keys left) := by
  induction right generalizing left with
  | nil => simp [OrderedMap.keys]
  | cons entry rest ih =>
      obtain ⟨key, v⟩ := entry
      rw [mergeEntries_cons, ih, ScalarMap.keys_update]
      rfl

end Value

/-! ## Look-ups -/

def Value.mergeFields (old new : Option Value) : Option Value :=
  match old, new with
  | some old, some new => some (Value.merge old new)
  | some old, none => some old
  | none, new => new

@[simp] theorem Value.mergeFields_none_right (old : Option Value) :
    Value.mergeFields old none = old := by
  cases old <;> rfl

@[simp] theorem Value.mergeFields_none_left (new : Option Value) :
    Value.mergeFields none new = new := rfl

@[simp] theorem Value.mergeFields_scalar (old : Option Value) (s : Scalar) :
    Value.mergeFields old (some (.scalar s)) = some (.scalar s) := by
  cases old <;> simp [Value.mergeFields]

namespace Entries

theorem field?_mergeEntries {left right : Entries}
    (hright : OrderedMap.Distinct right) (name : String) :
    field? (Value.mergeEntries left right) name =
      Value.mergeFields (left.field? name) (right.field? name) := by
  unfold field?
  induction right generalizing left with
  | nil => simp
  | cons entry rest ih =>
      obtain ⟨key, v⟩ := entry
      obtain ⟨hkey, hrest⟩ := List.nodup_cons.mp hright
      rw [Value.mergeEntries_cons, ih hrest, OrderedMap.find?_cons]
      by_cases hname : key = .str name
      · subst key
        have habsent : OrderedMap.find? rest (.str name) = none :=
          OrderedMap.find?_eq_none_iff.mpr hkey
        rw [if_pos rfl, habsent, ScalarMap.update_str, OrderedMap.find?_update]
        cases OrderedMap.find? left (.str name) <;> simp [Value.mergeFields]
      · have hamong : key.among (OrderedMap.keys left) ≠ .str name := by
          rcases Scalar.among_cases (OrderedMap.keys left) key with hknown | hsame
          · intro heq
            rw [heq, Scalar.sameKey_comm, Scalar.sameKey_str] at hknown
            exact hname hknown.2
          · rw [hsame.1]
            exact hname
        rw [if_neg hname, ScalarMap.update, OrderedMap.find?_update,
          if_neg (Ne.symm hamong)]

theorem field?_dropField (entries : Entries) (key name : String) :
    field? (entries.dropField key) name =
      if name = key then none else entries.field? name := by
  unfold field? dropField
  rw [OrderedMap.find?_erase]
  simp

theorem mem_of_mem_dropField {entries : Entries} {key : String}
    {entry : Scalar × Value} (hentry : entry ∈ entries.dropField key) :
    entry ∈ entries := by
  unfold dropField OrderedMap.erase at hentry
  exact (List.mem_filter.mp hentry).1

theorem field?_setField (entries : Entries) (key name : String) (v : Value) :
    field? (entries.setField key v) name =
      if name = key then some v else entries.field? name := by
  unfold field? setField
  by_cases hname : name = key
  · subst name
    rw [OrderedMap.find?_insert_self, if_pos rfl]
  · have hkey : (Scalar.str name) ≠ .str key := by simpa using hname
    rw [OrderedMap.find?_insert_of_ne hkey, if_neg hname]

theorem setField_setField (entries : Entries) (key : String) (old v : Value) :
    (entries.setField key old).setField key v = entries.setField key v :=
  OrderedMap.insert_update entries (.str key) old v _

theorem field?_of_fieldOrNull {entries : Entries} {name : String} {v : Value}
    (h : entries.fieldOrNull name = v) (hv : v ≠ .null) :
    entries.field? name = some v := by
  unfold fieldOrNull at h
  cases hfield : entries.field? name with
  | none =>
      rw [hfield] at h
      exact absurd h.symm hv
  | some w =>
      rw [hfield] at h
      exact congrArg some h

theorem mem_setField {entries : Entries} {key : String} {v : Value}
    {entry : Scalar × Value} (hentry : entry ∈ entries.setField key v) :
    entry ∈ entries ∨ entry = (.str key, v) :=
  OrderedMap.mem_insert hentry

end Entries
end SchemaViews
