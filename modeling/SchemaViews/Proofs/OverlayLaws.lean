import SchemaViews.Proofs.ExpansionLaws

/-!
# Laws of overlays

An overlay merges flat schemas from left to right and drops the reference at the
end.  Dropping a key passes through every merge, so a reference may as well be
dropped on the way, and what comes first may be overlaid on its own.  Therefore
an `allOf` at the front of a composition can be replaced by its parts.
-/

namespace SchemaViews

/-! ## Dropping a key -/

/-- A text is no other key, so it can be left out of a search for one. -/
theorem Scalar.among_erase {α : Type} {name : String} {key : Scalar}
    (hkey : key ≠ .str name) (m : ScalarMap α) :
    key.among (OrderedMap.keys (OrderedMap.erase m (.str name))) =
      key.among (OrderedMap.keys m) := by
  have hother : Scalar.sameKey (.str name) key = false := by
    rw [Scalar.sameKey_comm, ← Bool.not_eq_true, Scalar.sameKey_str]
    exact hkey
  unfold Scalar.among OrderedMap.keys OrderedMap.erase
  congr 1
  induction m with
  | nil => rfl
  | cons entry rest ih =>
      obtain ⟨k, a⟩ := entry
      by_cases hk : k = .str name
      · simpa [hk, hother] using ih
      · by_cases hsame : k.sameKey key = true
        · simp [hk, hsame]
        · simpa [hk, hsame] using ih

theorem ScalarMap.erase_update {α : Type} {name : String} {key : Scalar}
    (hkey : key ≠ .str name) (m : ScalarMap α) (value : α) (change : α → α) :
    OrderedMap.erase (ScalarMap.update m key value change) (.str name) =
      ScalarMap.update (OrderedMap.erase m (.str name)) key value change := by
  have hamong : key.among (OrderedMap.keys m) ≠ .str name := by
    intro heq
    rcases Scalar.among_cases (OrderedMap.keys m) key with hknown | hnew
    · rw [heq, Scalar.sameKey_comm, Scalar.sameKey_str] at hknown
      exact hkey hknown.2
    · exact hkey (hnew.1.symm.trans heq)
  unfold ScalarMap.update
  rw [Scalar.among_erase hkey, OrderedMap.erase_update_of_ne hamong]

namespace Entries

theorem dropField_mergeEntries (left right : Entries) (name : String) :
    (Value.mergeEntries left right).dropField name =
      Value.mergeEntries (left.dropField name) (right.dropField name) := by
  unfold dropField
  induction right generalizing left with
  | nil => simp [OrderedMap.erase]
  | cons entry rest ih =>
      obtain ⟨key, v⟩ := entry
      rw [Value.mergeEntries_cons, ih]
      by_cases hkey : key = .str name
      · rw [OrderedMap.erase_cons, if_pos hkey, hkey, ScalarMap.update_str,
          OrderedMap.erase_update_self]
      · rw [OrderedMap.erase_cons, if_neg hkey, Value.mergeEntries_cons,
          ScalarMap.erase_update hkey]

@[simp] theorem dropField_dropField (entries : Entries) (name : String) :
    (entries.dropField name).dropField name = entries.dropField name := by
  simp [dropField, OrderedMap.erase]

end Entries

namespace Value

theorem dropField_foldl_mergeEntries (start : Entries) (flats : List Entries)
    (name : String) :
    (flats.foldl mergeEntries start).dropField name =
      (flats.map (Entries.dropField · name)).foldl mergeEntries
        (start.dropField name) := by
  induction flats generalizing start with
  | nil => rfl
  | cons flat rest ih =>
      rw [List.foldl_cons, ih, Entries.dropField_mergeEntries, List.map_cons,
        List.foldl_cons]

theorem apart_foldl_mergeEntries {start : Entries}
    (hstart : Scalar.Apart (OrderedMap.keys start)) (flats : List Entries) :
    Scalar.Apart (OrderedMap.keys (flats.foldl mergeEntries start)) := by
  induction flats generalizing start with
  | nil => exact hstart
  | cons flat rest ih =>
      apply ih
      rw [keys_mergeEntries]
      exact Scalar.apart_foldl_enter hstart _

end Value

theorem ScalarMap.update_of_new {α : Type} {m : ScalarMap α} {key : Scalar}
    (hnew : ∀ other ∈ OrderedMap.keys m, ¬ other.sameKey key) (value : α)
    (change : α → α) : ScalarMap.update m key value change = m ++ [(key, value)] := by
  have hamong : key.among (OrderedMap.keys m) = key := by
    rcases Scalar.among_cases (OrderedMap.keys m) key with hknown | hkey
    · exact absurd hknown.2 (hnew _ hknown.1)
    · exact hkey.1
  unfold ScalarMap.update
  rw [hamong]
  clear hamong
  induction m with
  | nil => rfl
  | cons entry rest ih =>
      obtain ⟨k, a⟩ := entry
      have hk : k ≠ key := by
        rintro rfl
        exact hnew k (by simp [OrderedMap.keys]) (Scalar.sameKey_self k)
      rw [OrderedMap.update, if_neg hk, ih, List.cons_append]
      exact fun other hother => hnew other (List.mem_cons_of_mem _ hother)

theorem Value.mergeEntries_nil_left {entries : Entries}
    (h : Scalar.Apart (OrderedMap.keys entries)) :
    Value.mergeEntries [] entries = entries := by
  induction entries using List.reverseRecOn with
  | nil => rfl
  | append_singleton entries entry ih =>
      obtain ⟨key, v⟩ := entry
      unfold Scalar.Apart OrderedMap.keys at h
      rw [List.map_append, List.pairwise_append] at h
      obtain ⟨hentries, _, hlast⟩ := h
      have hnew : ∀ other ∈ OrderedMap.keys entries, ¬ other.sameKey key :=
        fun other hother => hlast other hother key (by simp)
      rw [mergeEntries_append, ih hentries, mergeEntries_cons, mergeEntries_nil,
        ScalarMap.update_of_new hnew]

/-! ## Overlays -/

namespace Arena

theorem apart_overlay (flats : List Entries) :
    Scalar.Apart (OrderedMap.keys (overlay flats)) := by
  have hempty : Scalar.Apart (OrderedMap.keys ([] : Entries)) :=
    List.Pairwise.nil
  have hkeys := Value.apart_foldl_mergeEntries hempty flats
  unfold overlay Entries.dropField OrderedMap.erase
  exact List.Pairwise.sublist (List.filter_sublist.map Prod.fst) hkeys

theorem reference?_overlay (expansions : List Entries) :
    (overlay expansions).reference? = none := by
  unfold overlay Entries.reference?
  rw [Entries.field?_dropField, if_pos rfl]

theorem overlay_cons_overlay (first rest : List Entries) :
    overlay (overlay first :: rest) = overlay (first ++ rest) := by
  have hfirst : (Value.mergeEntries [] (overlay first)).dropField referenceKey =
      (first.foldl Value.mergeEntries []).dropField referenceKey := by
    rw [Value.mergeEntries_nil_left (apart_overlay first), overlay,
      Entries.dropField_dropField]
  calc overlay (overlay first :: rest)
      = (rest.foldl Value.mergeEntries
          (Value.mergeEntries [] (overlay first))).dropField referenceKey := rfl
    _ = (rest.foldl Value.mergeEntries
          (first.foldl Value.mergeEntries [])).dropField referenceKey := by
        rw [Value.dropField_foldl_mergeEntries, hfirst,
          ← Value.dropField_foldl_mergeEntries]
    _ = overlay (first ++ rest) := by
        rw [overlay, List.foldl_append]

theorem field?_overlay_concat {flats : List Entries} {last : Entries}
    (hlast : OrderedMap.Distinct last) (name : String) (hname : name ≠ referenceKey) :
    (overlay (flats ++ [last])).field? name =
      Value.mergeFields ((overlay flats).field? name) (last.field? name) := by
  unfold overlay
  rw [List.foldl_append, List.foldl_cons, List.foldl_nil,
    Entries.field?_dropField, if_neg hname, Entries.field?_mergeEntries hlast,
    Entries.field?_dropField, if_neg hname]

/-! ## Merged schemas -/

variable {arena : Arena}

theorem expand_eq_expandWith (arena : Arena) :
    ∃ component, arena.expand = expandWith component := by
  unfold expand
  cases arena.length with
  | zero => exact ⟨_, rfl⟩
  | succ bound => exact ⟨_, rfl⟩

theorem merge_eq (arena : Arena) (schemas : List Value) :
    (arena.merge schemas).result =
      overlay <$> schemas.mapM fun schema => (arena.expand schema).result := by
  rw [merge, Outcome.result_map, Outcome.result_mapM]

theorem expand_of_allOf {schema : Entries} {parts : Value} {items : List Value}
    (hall : schema.field? "allOf" = some parts)
    (hitems : parts.parts? = some items) :
    (arena.expand (.map schema)).result = (arena.merge items).result := by
  obtain ⟨component, hexpand⟩ := arena.expand_eq_expandWith
  rw [merge_eq, hexpand, expandWith_allOf hall, expandParts_eq, hitems]

theorem merge_cons_allOf {schema : Entries} {parts : Value} {items : List Value}
    (hall : schema.field? "allOf" = some parts)
    (hitems : parts.parts? = some items) (rest : List Value) :
    (arena.merge (.map schema :: rest)).result =
      (arena.merge (items ++ rest)).result := by
  rw [merge_eq, merge_eq, List.mapM_cons, List.mapM_append,
    expand_of_allOf hall hitems, merge_eq]
  cases items.mapM fun schema => (arena.expand schema).result with
  | error failure => rfl
  | ok first =>
      cases rest.mapM fun schema => (arena.expand schema).result with
      | error failure => rfl
      | ok others => exact congrArg Except.ok (overlay_cons_overlay first others)

theorem merge_concat_eq_ok_iff {schemas : List Value} {last : Value} {flat : Entries} :
    (arena.merge (schemas ++ [last])).result = .ok flat ↔
      ∃ flats expansion,
        (schemas.mapM fun schema => (arena.expand schema).result) = .ok flats ∧
          (arena.expand last).result = .ok expansion ∧
            overlay (flats ++ [expansion]) = flat := by
  have hlast : ∀ expansions,
      ([last].mapM fun schema => (arena.expand schema).result) = .ok expansions ↔
        ∃ expansion, (arena.expand last).result = .ok expansion ∧
          [expansion] = expansions := by
    intro expansions
    rw [List.mapM_cons, List.mapM_nil, bind_eq_ok_iff]
    exact exists_congr fun expansion => and_congr_right fun _ => pure_eq_ok_iff
  rw [merge_eq, List.mapM_append, map_eq_ok_iff]
  constructor
  · rintro ⟨all, hall, rfl⟩
    obtain ⟨flats, hflats, hall⟩ := bind_eq_ok_iff.mp hall
    obtain ⟨lasts, hlasts, hall⟩ := bind_eq_ok_iff.mp hall
    cases pure_eq_ok_iff.mp hall
    obtain ⟨expansion, hexpansion, rfl⟩ := (hlast lasts).mp hlasts
    exact ⟨flats, expansion, hflats, hexpansion, rfl⟩
  · rintro ⟨flats, expansion, hflats, hexpansion, rfl⟩
    refine ⟨flats ++ [expansion], ?_, rfl⟩
    rw [hflats, (hlast _).mpr ⟨expansion, hexpansion, rfl⟩]
    rfl

end Arena
end SchemaViews
