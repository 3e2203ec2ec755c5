/-!
# Mappings that keep their order

A mapping is a list of entries.  An entry that is changed keeps its place and a new one goes last,
so the order of the keys is the order in which they first came.
-/

namespace SchemaViews

abbrev OrderedMap (κ α : Type) := List (κ × α)

namespace OrderedMap

variable {κ α : Type} [DecidableEq κ]

def keys (m : OrderedMap κ α) : List κ :=
  m.map Prod.fst

def Distinct (m : OrderedMap κ α) : Prop :=
  m.keys.Nodup

def find? (m : OrderedMap κ α) (key : κ) : Option α :=
  match m with
  | [] => none
  | (k, a) :: rest => if k = key then some a else find? rest key

def update (m : OrderedMap κ α) (key : κ) (value : α) (change : α → α) : OrderedMap κ α :=
  match m with
  | [] => [(key, value)]
  | (k, a) :: rest =>
    if k = key then (k, change a) :: rest else (k, a) :: update rest key value change

def insert (m : OrderedMap κ α) (key : κ) (value : α) : OrderedMap κ α :=
  update m key value fun _ => value

def erase (m : OrderedMap κ α) (key : κ) : OrderedMap κ α :=
  m.filter fun entry => entry.1 ≠ key

/-- Enters a list of entries one after the other: a later value wins, the first place stays. -/
def ofEntries (entries : List (κ × α)) : OrderedMap κ α :=
  entries.foldl (fun m entry => insert m entry.1 entry.2) []

/-! ## What each operation does to a look-up -/

@[simp] theorem find?_nil (key : κ) : find? ([] : OrderedMap κ α) key = none := rfl

theorem find?_cons (k key : κ) (a : α) (m : OrderedMap κ α) :
    find? ((k, a) :: m) key = if k = key then some a else find? m key := rfl

theorem find?_update (m : OrderedMap κ α) (key other : κ) (value : α) (change : α → α) :
    find? (update m key value change) other =
      if other = key then some (((find? m key).map change).getD value) else find? m other := by
  induction m with
  | nil => by_cases h : other = key <;> simp_all [update, find?, eq_comm]
  | cons entry rest ih =>
    obtain ⟨k, a⟩ := entry
    by_cases hk : k = key <;> by_cases ho : other = key <;> by_cases hko : k = other <;>
      simp_all [update, find?]

@[simp] theorem find?_insert_self (m : OrderedMap κ α) (key : κ) (value : α) :
    find? (insert m key value) key = some value := by
  rw [insert, find?_update]
  cases find? m key <;> simp

theorem find?_insert_of_ne {key other : κ} (h : other ≠ key) (m : OrderedMap κ α) (value : α) :
    find? (insert m key value) other = find? m other := by
  simp [insert, find?_update, h]

theorem find?_erase (m : OrderedMap κ α) (key other : κ) :
    find? (erase m key) other = if other = key then none else find? m other := by
  induction m with
  | nil => simp [erase]
  | cons entry rest ih =>
    obtain ⟨k, a⟩ := entry
    by_cases hk : k = key <;> by_cases ho : other = key <;> by_cases hko : k = other <;>
      simp_all [erase, find?_cons]

theorem mem_of_find? {m : OrderedMap κ α} {key : κ} {a : α} (h : find? m key = some a) :
    (key, a) ∈ m := by
  induction m with
  | nil => simp at h
  | cons entry rest ih =>
    obtain ⟨k, b⟩ := entry
    rw [find?_cons] at h
    split at h
    · next hk => simp_all
    · exact List.mem_cons_of_mem _ (ih h)

theorem find?_of_mem {m : OrderedMap κ α} (hdistinct : Distinct m) {key : κ} {a : α}
    (h : (key, a) ∈ m) : find? m key = some a := by
  induction m with
  | nil => cases h
  | cons entry rest ih =>
    obtain ⟨k, b⟩ := entry
    obtain ⟨hk, hrest⟩ := List.nodup_cons.mp hdistinct
    rw [find?_cons]
    rcases List.mem_cons.mp h with heq | hmem
    · cases heq
      exact if_pos rfl
    · have hne : k ≠ key := by
        rintro rfl
        exact hk (List.mem_map.mpr ⟨_, hmem, rfl⟩)
      rw [if_neg hne]
      exact ih hrest hmem

theorem find?_eq_none_iff {m : OrderedMap κ α} {key : κ} : find? m key = none ↔ key ∉ keys m := by
  induction m with
  | nil => simp [keys]
  | cons entry rest ih =>
    obtain ⟨k, b⟩ := entry
    rw [find?_cons]
    by_cases hk : k = key
    · simp [hk, keys]
    · have hk' : key ≠ k := fun h => hk h.symm
      simp only [hk, if_false, keys, List.map_cons, List.mem_cons, hk', false_or]
      exact ih

theorem insert_update (m : OrderedMap κ α) (key : κ) (old value : α) (change : α → α) :
    insert (update m key old change) key value = insert m key value := by
  unfold insert
  induction m with
  | nil => simp [update]
  | cons entry rest ih =>
    obtain ⟨k, a⟩ := entry
    by_cases hkey : k = key
    · simp [update, hkey]
    · simp [update, hkey, ih]

/-! ## What erasing does to the other operations -/

theorem erase_cons (k key : κ) (a : α) (m : OrderedMap κ α) :
    erase ((k, a) :: m) key = if k = key then erase m key else (k, a) :: erase m key := by
  by_cases hk : k = key <;> simp [erase, hk]

theorem erase_update_self (m : OrderedMap κ α) (key : κ) (value : α) (change : α → α) :
    erase (update m key value change) key = erase m key := by
  induction m with
  | nil => simp [update, erase]
  | cons entry rest ih =>
    obtain ⟨k, a⟩ := entry
    by_cases hk : k = key
    · simp [update, erase_cons, hk]
    · simp [update, erase_cons, hk, ih]

theorem erase_update_of_ne {key other : κ} (h : other ≠ key) (m : OrderedMap κ α) (value : α)
    (change : α → α) :
    erase (update m other value change) key = update (erase m key) other value change := by
  induction m with
  | nil => simp [update, erase, h]
  | cons entry rest ih =>
    obtain ⟨k, a⟩ := entry
    by_cases hother : k = other
    · simp [update, erase_cons, hother, h]
    · by_cases hk : k = key
      · simp [update, erase_cons, hk, ih, Ne.symm h]
      · simp [update, erase_cons, hother, hk, ih]

theorem erase_of_not_mem {m : OrderedMap κ α} {key : κ} (h : key ∉ keys m) : erase m key = m := by
  unfold erase
  rw [List.filter_eq_self]
  rintro entry hentry
  have hkey : entry.1 ≠ key := by
    rintro rfl
    exact h (List.mem_map_of_mem hentry)
  simpa using hkey

/-! ## Keys -/

theorem keys_update (m : OrderedMap κ α) (key : κ) (value : α) (change : α → α) :
    keys (update m key value change) = if key ∈ keys m then keys m else keys m ++ [key] := by
  induction m with
  | nil => simp [update, keys]
  | cons entry rest ih =>
    obtain ⟨k, a⟩ := entry
    by_cases hk : k = key
    · simp [update, keys, hk]
    · have hk' : key ≠ k := fun h => hk h.symm
      simp only [update, hk, if_false, keys, List.map_cons, List.mem_cons, hk', false_or] at ih ⊢
      rw [ih]
      by_cases hm : key ∈ rest.map Prod.fst <;> simp [hm]

end OrderedMap
end SchemaViews
