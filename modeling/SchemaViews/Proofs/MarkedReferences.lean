import SchemaViews.ComponentPointer
import SchemaViews.Proofs.MergingLaws
import SchemaViews.Proofs.OutcomeLaws

/-!
# Marked references

Marking never fails.  It changes a mapping with a pointer to a component in two keys, the
one of the pointer and the one of the reference, and nothing else: every other place
holds what it held, with the same length or the same keys in the same order.  Marking
once is therefore enough.
-/

namespace SchemaViews

/-! ## One mapping -/

namespace Entries

/-- The component that a mapping points to. -/
def target? (entries : Entries) : Option Reference :=
  match entries.field? "$ref" with
  | some (.str pointer) => ComponentPointer.parse? pointer
  | _ => none

theorem target?_eq_pointer? (entries : Entries) :
    entries.target? = entries.pointer?.bind Prod.snd := by
  unfold target? pointer?
  cases entries.field? "$ref" with
  | none => rfl
  | some v =>
      cases v with
      | list | map => rfl
      | scalar s => cases s <;> rfl

def replacePointer (entries : Entries) : Entries :=
  match entries.target? with
  | some target => (entries.dropField "$ref").setField referenceKey (.ref target)
  | none => entries

variable {entries : Entries}

theorem replacePointer_of_target {target : Reference} (h : entries.target? = some target) :
    entries.replacePointer =
      (entries.dropField "$ref").setField referenceKey (.ref target) := by
  rw [replacePointer, h]

theorem replacePointer_of_no_target (h : entries.target? = none) :
    entries.replacePointer = entries := by
  rw [replacePointer, h]

theorem target?_replacePointer (entries : Entries) : entries.replacePointer.target? = none := by
  cases htarget : entries.target? with
  | none =>
      rw [replacePointer_of_no_target htarget]
      exact htarget
  | some target =>
      have hfield : entries.replacePointer.field? "$ref" = none := by
        rw [replacePointer_of_target htarget, field?_setField, if_neg (by decide),
          field?_dropField, if_pos rfl]
      rw [target?, hfield]

theorem find?_replacePointer {key : Scalar}
    (h : entries.target? ≠ none → key ≠ .str "$ref" ∧ key ≠ .str referenceKey) :
    OrderedMap.find? entries.replacePointer key = OrderedMap.find? entries key := by
  cases htarget : entries.target? with
  | none => rw [replacePointer_of_no_target htarget]
  | some target =>
      obtain ⟨hpointer, hreference⟩ := h (by simp [htarget])
      rw [replacePointer_of_target htarget, setField, dropField,
        OrderedMap.find?_insert_of_ne hreference, OrderedMap.find?_erase, if_neg hpointer]

theorem mem_replacePointer {entry : Scalar × Value} (h : entry ∈ entries.replacePointer) :
    entry ∈ entries ∨ ∃ target, entry = (.str referenceKey, .ref target) := by
  cases htarget : entries.target? with
  | none =>
      rw [replacePointer_of_no_target htarget] at h
      exact .inl h
  | some target =>
      rw [replacePointer_of_target htarget] at h
      rcases mem_setField h with hold | hnew
      · exact .inl (mem_of_mem_dropField hold)
      · exact .inr ⟨target, hnew⟩

/-- The keys without the one of the pointer, and with the one of the reference where it
was or else at the end. -/
def markedKeys (keys : List Scalar) : List Scalar :=
  let others := keys.filter (· ≠ .str "$ref")
  if .str referenceKey ∈ others then others else others ++ [.str referenceKey]

theorem keys_replacePointer (entries : Entries) :
    OrderedMap.keys entries.replacePointer =
      if entries.target? = none then OrderedMap.keys entries
      else markedKeys (OrderedMap.keys entries) := by
  cases htarget : entries.target? with
  | none => rw [replacePointer_of_no_target htarget, if_pos rfl]
  | some target =>
      have hothers : OrderedMap.keys (entries.dropField "$ref") =
          (OrderedMap.keys entries).filter (· ≠ .str "$ref") := by
        rw [OrderedMap.keys, OrderedMap.keys, List.filter_map]
        rfl
      rw [if_neg (Option.some_ne_none target), replacePointer_of_target htarget, setField,
        OrderedMap.insert, OrderedMap.keys_update, hothers]
      rfl

end Entries

namespace Value

@[elab_as_elim]
theorem induction {motive : Value → Prop}
    (scalar : ∀ s, motive (.scalar s))
    (list : ∀ items, (∀ item ∈ items, motive item) → motive (.list items))
    (map : ∀ entries : Entries, (∀ entry ∈ entries, motive entry.2) →
      motive (.map entries)) :
    ∀ v, motive v := by
  intro v
  refine Value.rec
    (motive_1 := motive)
    (motive_2 := fun items => ∀ item ∈ items, motive item)
    (motive_3 := fun entries => ∀ entry ∈ entries, motive entry.2)
    (motive_4 := fun entry => motive entry.2)
    scalar list map ?_ ?_ ?_ ?_ ?_ v
  · simp
  · intro item rest hitem hrest
    exact List.forall_mem_cons.mpr ⟨hitem, hrest⟩
  · simp
  · intro entry rest hentry hrest
    exact List.forall_mem_cons.mpr ⟨hentry, hrest⟩
  · intro key value hvalue
    exact hvalue

/-! ## The value that marking ends with -/

mutual

def marked : Value → Value
  | .scalar s => .scalar s
  | .list items => .list (markedItems items)
  | .map entries => .map (Entries.replacePointer (markedEntries entries))

def markedItems : List Value → List Value
  | [] => []
  | v :: rest => v.marked :: markedItems rest

def markedEntries : List (Scalar × Value) → List (Scalar × Value)
  | [] => []
  | (k, v) :: rest => (k, v.marked) :: markedEntries rest

end

theorem markedItems_eq_map (items : List Value) :
    markedItems items = items.map marked := by
  induction items with
  | nil => rfl
  | cons item rest ih => rw [markedItems, ih, List.map_cons]

theorem markedEntries_eq_map (entries : List (Scalar × Value)) :
    markedEntries entries = entries.map fun entry => (entry.1, entry.2.marked) := by
  induction entries with
  | nil => rfl
  | cons entry rest ih => rw [markedEntries, ih, List.map_cons]

theorem result_markItems {items : List Value}
    (h : ∀ item ∈ items, item.markReferences.result = .ok item.marked) :
    (markItems items).result = .ok (markedItems items) := by
  induction items with
  | nil => rfl
  | cons item rest ih =>
      rw [List.forall_mem_cons] at h
      rw [markItems, Outcome.result_bind, h.1]
      change ((markItems rest) >>= fun rest => pure (item.marked :: rest)).result = _
      rw [Outcome.result_bind, ih h.2]
      rfl

theorem result_markEntries (keep : Scalar → Bool) {entries : Entries}
    (h : ∀ entry ∈ entries, entry.2.markReferences.result = .ok entry.2.marked) :
    (markEntries keep entries).result =
      .ok ((markedEntries entries).filter fun entry => keep entry.1) := by
  induction entries with
  | nil => rfl
  | cons entry rest ih =>
      obtain ⟨key, v⟩ := entry
      rw [List.forall_mem_cons] at h
      rw [markEntries, markedEntries]
      by_cases hkey : keep key
      · rw [if_pos hkey, List.filter_cons, if_pos hkey, Outcome.result_bind, h.1]
        change (markEntries keep rest >>= fun rest => pure ((key, v.marked) :: rest)).result = _
        rw [Outcome.result_bind, ih h.2]
        rfl
      · rw [if_neg hkey, List.filter_cons, if_neg hkey, ih h.2]

theorem find?_markedEntries (entries : Entries) (key : Scalar) :
    OrderedMap.find? (markedEntries entries) key =
      (OrderedMap.find? entries key).map marked := by
  induction entries with
  | nil => rfl
  | cons entry rest ih =>
      obtain ⟨k, v⟩ := entry
      rw [markedEntries, OrderedMap.find?_cons, OrderedMap.find?_cons, ih]
      split <;> rfl

theorem target?_markedEntries (entries : Entries) :
    Entries.target? (markedEntries entries) = entries.target? := by
  unfold Entries.target? Entries.field?
  rw [find?_markedEntries]
  cases OrderedMap.find? entries (.str "$ref") with
  | none => rfl
  | some v => cases v <;> rfl

theorem result_markReferences (v : Value) : v.markReferences.result = .ok v.marked := by
  induction v using Value.induction with
  | scalar s => rfl
  | list items ih =>
      rw [markReferences, marked, Outcome.result_map, result_markItems ih]
      rfl
  | map entries ih =>
      have hall : (markEntries (fun _ => true) entries).result = .ok (markedEntries entries) := by
        rw [result_markEntries _ ih, List.filter_true]
      have htarget := target?_markedEntries entries
      rw [Entries.target?_eq_pointer? entries] at htarget
      rw [markReferences, marked]
      rcases hpointer : entries.pointer? with _ | ⟨pointer, _ | target⟩ <;>
        rw [hpointer] at htarget
      · rw [Entries.replacePointer_of_no_target htarget]
        change (Value.map <$> markEntries (fun _ => true) entries).result = _
        rw [Outcome.result_map, hall]
        rfl
      · rw [Entries.replacePointer_of_no_target htarget]
        change (Outcome.warn (.unsupportedReference pointer) >>= fun _ =>
          Value.map <$> markEntries (fun _ => true) entries).result = _
        rw [Outcome.result_bind, Outcome.result_map, hall]
        rfl
      · rw [Entries.replacePointer_of_target htarget]
        dsimp only
        rw [Outcome.result_bind, result_markEntries _ ih]
        rfl

/-! ## Marking twice -/

theorem marked_map_eq_self {entries : Entries} (htarget : entries.target? = none)
    (h : ∀ entry ∈ entries, entry.2.marked = entry.2) :
    marked (.map entries) = .map entries := by
  have hsame : markedEntries entries = entries := by
    rw [markedEntries_eq_map, List.map_congr_left (g := id), List.map_id]
    intro entry hentry
    rw [h entry hentry, id]
  rw [marked, hsame, Entries.replacePointer_of_no_target htarget]

theorem marked_marked (v : Value) : v.marked.marked = v.marked := by
  induction v using Value.induction with
  | scalar s => rfl
  | list items ih =>
      rw [marked, marked, markedItems_eq_map, markedItems_eq_map, List.map_map]
      congr 1
      exact List.map_congr_left ih
  | map entries ih =>
      rw [marked]
      apply marked_map_eq_self (Entries.target?_replacePointer _)
      intro entry hentry
      rcases Entries.mem_replacePointer hentry with hold | ⟨target, rfl⟩
      · rw [markedEntries_eq_map, List.mem_map] at hold
        obtain ⟨old, hold, rfl⟩ := hold
        exact ih old hold
      · rfl

/-! ## Places -/

inductive Step
  | item (index : ℕ)
  | key (key : Scalar)
deriving DecidableEq

def child? : Value → Step → Option Value
  | .list items, .item index => items[index]?
  | .map entries, .key key => OrderedMap.find? entries key
  | _, _ => none

def at? : Value → List Step → Option Value
  | v, [] => some v
  | v, step :: path => (v.child? step).bind fun child => child.at? path

theorem at?_append (v : Value) (front path : List Step) :
    v.at? (front ++ path) = (v.at? front).bind fun child => child.at? path := by
  induction front generalizing v with
  | nil => rfl
  | cons step front ih =>
      rw [List.cons_append, at?, at?, Option.bind_assoc]
      congr 1
      funext child
      exact ih child

/-- No place holds a reference. -/
def Unmarked (v : Value) : Prop :=
  ∀ path target, v.at? path ≠ some (.ref target)

theorem unmarked_of_children {v : Value} (hself : ∀ target, v ≠ .ref target)
    (h : ∀ step child, v.child? step = some child → child.Unmarked) : v.Unmarked := by
  intro path target hplace
  cases path with
  | nil => exact hself target (Option.some.inj hplace)
  | cons step path =>
      obtain ⟨child, hchild, hrest⟩ := Option.bind_eq_some_iff.mp hplace
      exact h step child hchild path target hrest

@[simp] theorem unmarked_scalar {s : Scalar} :
    Unmarked (.scalar s) ↔ ∀ target, s ≠ .ref target := by
  constructor
  · rintro h target rfl
    exact h [] target rfl
  · intro h
    apply unmarked_of_children
    · intro target hsame
      cases hsame
      exact h target rfl
    · intro step child hchild
      cases hchild

theorem Unmarked.list {items : List Value} (h : ∀ item ∈ items, item.Unmarked) :
    Unmarked (.list items) := by
  apply unmarked_of_children (by simp)
  intro step child hchild
  cases step with
  | item index => exact h child (List.mem_of_getElem? hchild)
  | key key => cases hchild

theorem Unmarked.map {entries : Entries} (h : ∀ entry ∈ entries, entry.2.Unmarked) :
    Unmarked (.map entries) := by
  apply unmarked_of_children (by simp)
  intro step child hchild
  cases step with
  | item index => cases hchild
  | key key => exact h (key, child) (OrderedMap.mem_of_find? hchild)

/-- The component that a value points to. -/
def target? : Value → Option Reference
  | .map entries => Entries.target? entries
  | _ => none

/-- The steps out of a mapping with a pointer that lead to the pointer itself or to the
place of the reference. -/
def Replaces (v : Value) (step : Step) : Prop :=
  v.target? ≠ none ∧ (step = .key (.str "$ref") ∨ step = .key (.str referenceKey))

instance (v : Value) (step : Step) : Decidable (v.Replaces step) :=
  inferInstanceAs (Decidable (_ ∧ _))

/-- The value at a place, unless marking replaces it or something around it. -/
def kept? : Value → List Step → Option Value
  | v, [] => some v
  | v, step :: path =>
    if v.Replaces step then none else (v.child? step).bind fun child => child.kept? path

theorem at?_of_kept? {v x : Value} {path : List Step} (h : v.kept? path = some x) :
    v.at? path = some x := by
  induction path generalizing v with
  | nil => exact h
  | cons step path ih =>
      rw [kept?] at h
      split at h
      · cases h
      · obtain ⟨child, hchild, hx⟩ := Option.bind_eq_some_iff.mp h
        rw [at?, hchild]
        exact ih hx

theorem child?_marked {v : Value} {step : Step} (h : ¬ v.Replaces step) :
    v.marked.child? step = (v.child? step).map marked := by
  cases v with
  | scalar s => rfl
  | list items =>
      cases step with
      | key key => rfl
      | item index => rw [marked, child?, child?, markedItems_eq_map, List.getElem?_map]
  | map entries =>
      cases step with
      | item index => rfl
      | key key =>
          rw [marked, child?, child?, Entries.find?_replacePointer, find?_markedEntries]
          intro htarget
          rw [target?_markedEntries] at htarget
          constructor
          · rintro rfl
            exact h ⟨htarget, .inl rfl⟩
          · rintro rfl
            exact h ⟨htarget, .inr rfl⟩

theorem marked_of_target {entries : Entries} {target : Reference}
    (h : entries.target? = some target) :
    marked (.map entries) =
      .map ((Entries.dropField (markedEntries entries) "$ref").setField referenceKey
        (.ref target)) := by
  rw [marked, Entries.replacePointer_of_target ((target?_markedEntries entries).trans h)]

theorem child?_marked_reference {v : Value} {target : Reference} (h : v.target? = some target) :
    v.marked.child? (.key (.str referenceKey)) = some (.ref target) := by
  cases v with
  | scalar | list => cases h
  | map entries =>
      rw [marked_of_target h]
      exact OrderedMap.find?_insert_self _ _ _

theorem child?_marked_pointer {v : Value} {target : Reference} (h : v.target? = some target) :
    v.marked.child? (.key (.str "$ref")) = none := by
  cases v with
  | scalar | list => cases h
  | map entries =>
      rw [marked_of_target h, child?, Entries.setField,
        OrderedMap.find?_insert_of_ne (by decide), Entries.dropField,
        OrderedMap.find?_erase, if_pos rfl]

theorem at?_marked_of_kept? {v x : Value} {path : List Step} (h : v.kept? path = some x) :
    v.marked.at? path = some x.marked := by
  induction path generalizing v with
  | nil =>
      cases h
      rfl
  | cons step path ih =>
      rw [kept?] at h
      split at h
      · cases h
      · rename_i hkept
        obtain ⟨child, hchild, hx⟩ := Option.bind_eq_some_iff.mp h
        rw [at?, child?_marked hkept, hchild]
        exact ih hx

/-- The place of the reference in a mapping that points to the component. -/
def MarkedAt (v : Value) (path : List Step) (target : Reference) : Prop :=
  ∃ front x, path = front ++ [.key (.str referenceKey)] ∧ v.kept? front = some x ∧
    x.target? = some target

theorem at?_marked_of_markedAt {v : Value} {path : List Step} {target : Reference}
    (h : v.MarkedAt path target) : v.marked.at? path = some (.ref target) := by
  obtain ⟨front, x, rfl, hkept, htarget⟩ := h
  rw [at?_append, at?_marked_of_kept? hkept]
  change (x.marked.child? _).bind _ = _
  rw [child?_marked_reference htarget]
  rfl

theorem at?_marked_cases {v y : Value} {path : List Step} (h : v.marked.at? path = some y) :
    (∃ x, v.kept? path = some x ∧ y = x.marked) ∨
      ∃ target, v.MarkedAt path target ∧ y = .ref target := by
  induction path generalizing v with
  | nil =>
      cases h
      exact .inl ⟨v, rfl, rfl⟩
  | cons step path ih =>
      rw [at?] at h
      obtain ⟨child, hchild, hy⟩ := Option.bind_eq_some_iff.mp h
      by_cases hreplaces : v.Replaces step
      · obtain ⟨htarget, hstep⟩ := hreplaces
        obtain ⟨target, htarget⟩ := Option.ne_none_iff_exists'.mp htarget
        rcases hstep with rfl | rfl
        · rw [child?_marked_pointer htarget] at hchild
          cases hchild
        · rw [child?_marked_reference htarget] at hchild
          cases hchild
          -- a reference has no parts, so the path ends here
          cases path with
          | nil =>
              cases hy
              exact .inr ⟨target, ⟨[], v, rfl, rfl, htarget⟩, rfl⟩
          | cons => cases hy
      · rw [child?_marked hreplaces] at hchild
        obtain ⟨old, hold, rfl⟩ := Option.map_eq_some_iff.mp hchild
        have hkept : ∀ path, v.kept? (step :: path) = old.kept? path := by
          intro path
          rw [kept?, if_neg hreplaces, hold]
          rfl
        rcases ih hy with ⟨x, hx, hmarked⟩ | ⟨target, ⟨front, x, rfl, hx, htarget⟩, hreference⟩
        · exact .inl ⟨x, (hkept path).trans hx, hmarked⟩
        · refine .inr ⟨target, ⟨step :: front, x, rfl, ?_, htarget⟩, hreference⟩
          exact (hkept front).trans hx

theorem eq_ref_of_marked {v : Value} {target : Reference} (h : .ref target = v.marked) :
    v = .ref target := by
  cases v with
  | scalar s => exact h.symm
  | list | map => cases h

theorem at?_marked_eq_ref_iff {v : Value} (h : v.Unmarked) {path : List Step}
    {target : Reference} : v.marked.at? path = some (.ref target) ↔ v.MarkedAt path target := by
  constructor
  · intro hreference
    rcases at?_marked_cases hreference with ⟨x, hkept, hmarked⟩ | ⟨other, hplace, hsame⟩
    · rw [eq_ref_of_marked hmarked] at hkept
      exact absurd (at?_of_kept? hkept) (h path target)
    · cases hsame
      exact hplace
  · exact at?_marked_of_markedAt

/-! ## What a place holds -/

/-- A value without its parts: the scalar, the length of the list or the keys of the
mapping. -/
inductive Surface
  | scalar (s : Scalar)
  | list (length : ℕ)
  | map (keys : List Scalar)

def surface : Value → Surface
  | .scalar s => .scalar s
  | .list items => .list items.length
  | .map entries => .map (OrderedMap.keys entries)

def markedSurface : Value → Surface
  | .map entries =>
    .map (if Entries.target? entries = none then OrderedMap.keys entries
      else Entries.markedKeys (OrderedMap.keys entries))
  | v => v.surface

theorem keys_markedEntries (entries : Entries) :
    OrderedMap.keys (markedEntries entries) = OrderedMap.keys entries := by
  rw [markedEntries_eq_map, OrderedMap.keys, List.map_map]
  rfl

theorem surface_marked (v : Value) : v.marked.surface = v.markedSurface := by
  cases v with
  | scalar s => rfl
  | list items =>
      rw [marked, markedItems_eq_map, surface, List.length_map]
      rfl
  | map entries =>
      rw [marked, surface, Entries.keys_replacePointer, target?_markedEntries,
        keys_markedEntries]
      rfl

/-- Marking succeeds.  What is kept has the surface that it had, but for the two keys of
a pointer to a component, and no place is new but those of the references.  There is a
reference for each such pointer and nowhere else, and nothing is left to be marked. -/
theorem markReferences_places {v : Value} (h : v.Unmarked) :
    ∃ w, v.markReferences.result = .ok w ∧
      (∀ path x, v.kept? path = some x →
        ∃ y, w.at? path = some y ∧ y.surface = x.markedSurface) ∧
      (∀ path y, w.at? path = some y →
        (∃ x, v.kept? path = some x) ∨ ∃ target, v.MarkedAt path target) ∧
      (∀ path target, w.at? path = some (.ref target) ↔ v.MarkedAt path target) ∧
      w.markReferences.result = .ok w := by
  refine ⟨v.marked, result_markReferences v, fun path x hkept => ?_, fun path y hplace => ?_,
    fun path target => at?_marked_eq_ref_iff h, ?_⟩
  · exact ⟨x.marked, at?_marked_of_kept? hkept, surface_marked x⟩
  · rcases at?_marked_cases hplace with ⟨x, hkept, -⟩ | ⟨target, hat, -⟩
    · exact .inl ⟨x, hkept⟩
    · exact .inr ⟨target, hat⟩
  · rw [result_markReferences, marked_marked]

theorem markReferences_places_pet :
    let pointer (text : String) : Value := .map [(.str "$ref", .str text)]
    let pet (owner unsupported odd : Value) : Value :=
      .map [(.str "oneOf", .list [owner, unsupported]), (.str "not", odd)]
    let v := pet
      (.map [(.str referenceKey, pointer "#/components/schemas/Lost"),
        (.str "$ref", .str "#/components/schemas/a~1b"), (.str "nullable", .bool true)])
      (pointer "other.yaml#/Pet")
      (.map [(.str "$ref", pointer "#/components/schemas/Tag"), (.str referenceKey, .int 1)])
    let w := pet
      (.map [(.str referenceKey, .ref { name := "a/b" }), (.str "nullable", .bool true)])
      (pointer "other.yaml#/Pet")
      (.map [(.str "$ref", .map [(.str referenceKey, .ref { name := "Tag" })]),
        (.str referenceKey, .int 1)])
    v.Unmarked ∧ v.markReferences.result = .ok w ∧
      (∀ path x, v.kept? path = some x →
        ∃ y, w.at? path = some y ∧ y.surface = x.markedSurface) ∧
      (∀ path y, w.at? path = some y →
        (∃ x, v.kept? path = some x) ∨ ∃ target, v.MarkedAt path target) ∧
      (∀ path target, w.at? path = some (.ref target) ↔ v.MarkedAt path target) ∧
      w.markReferences.result = .ok w := by
  intro pointer pet v w
  have hpointer : ∀ text, (pointer text).Unmarked := fun text => .map (by simp)
  have hpet : ∀ owner unsupported odd : Value, owner.Unmarked → unsupported.Unmarked →
      odd.Unmarked → (pet owner unsupported odd).Unmarked := by
    intro owner unsupported odd howner hunsupported hodd
    have hoptions : Unmarked (.list [owner, unsupported]) :=
      .list (by simp [howner, hunsupported])
    exact .map (by simp [hoptions, hodd])
  have hunmarked : v.Unmarked :=
    hpet _ _ _ (.map (by simp [hpointer])) (hpointer _)
      (.map (by simp [hpointer]))
  have hresult : v.markReferences.result = .ok w := by decide
  obtain ⟨marked, hmarked, hplaces⟩ := markReferences_places hunmarked
  cases hresult.symm.trans hmarked
  exact ⟨hunmarked, hresult, hplaces⟩

end Value
end SchemaViews
