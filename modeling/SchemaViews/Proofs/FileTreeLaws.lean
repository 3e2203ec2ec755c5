import Mathlib.Data.List.Infix
import SchemaViews.FileTree

/-!
# Laws of file trees

Everything in a tree stands in a directory.  So all that lies above an entry is a
directory and nothing lies below a missing place, and a path without double dots
leads to what stands at its names.
-/

namespace SchemaViews
namespace FileTree

def Rooted (tree : FileTree) : Prop :=
  ∀ place ∈ OrderedMap.keys tree, tree.node? place.dropLast = some .directory

instance (tree : FileTree) : Decidable tree.Rooted :=
  inferInstanceAs (Decidable (∀ place ∈ OrderedMap.keys tree, _))

variable {tree : FileTree} {place above : List String} {node : Node}

@[simp] theorem node?_nil (tree : FileTree) : tree.node? [] = some .directory :=
  if_pos rfl

theorem node?_insert (hplace : place ≠ []) (other : List String) :
    FileTree.node? (OrderedMap.insert tree place node) other =
      if other = place then some node else tree.node? other := by
  unfold node?
  by_cases hother : other = place
  · subst hother
    rw [if_neg hplace, if_pos rfl, OrderedMap.find?_insert_self]
  · rw [if_neg hother, OrderedMap.find?_insert_of_ne hother]

theorem mem_keys_of_node? (hplace : place ≠ []) (h : tree.node? place = some node) :
    place ∈ OrderedMap.keys tree := by
  rw [node?, if_neg hplace] at h
  exact List.mem_map_of_mem (OrderedMap.mem_of_find? h)

theorem step_eq {name : String} (h : name ≠ "..") (place : List String) :
    step place name = place ++ [name] :=
  if_neg h

theorem placeOf_eq {names : List String} (h : ".." ∉ names) : placeOf names = names := by
  have hfold : ∀ place, names.foldl step place = place ++ names := by
    induction names with
    | nil => simp
    | cons name rest ih =>
        intro place
        rw [List.mem_cons, not_or] at h
        rw [List.foldl_cons, step_eq (Ne.symm h.1), ih h.2, List.append_assoc]
        rfl
  exact hfold []

namespace Rooted

theorem parent (h : tree.Rooted) (hnode : tree.node? place = some node) :
    tree.node? place.dropLast = some .directory := by
  by_cases hplace : place = []
  · subst hplace
    rfl
  · exact h place (mem_keys_of_node? hplace hnode)

theorem directory_above (h : tree.Rooted) (hnode : tree.node? place = some node)
    (habove : above <+: place) (hne : above ≠ place) :
    tree.node? above = some .directory := by
  induction place using List.reverseRecOn generalizing node with
  | nil => exact absurd (List.prefix_nil.mp habove) hne
  | append_singleton init last ih =>
      have hinit : tree.node? init = some .directory := by
        simpa using h.parent hnode
      have hinside : above <+: init := by
        rcases List.prefix_concat_iff.mp habove with heq | hinside
        · exact absurd heq hne
        · exact hinside
      by_cases heq : above = init
      · rw [heq, hinit]
      · exact ih hinit hinside heq

theorem none_below (h : tree.Rooted) (hmissing : tree.node? above = none)
    (habove : above <+: place) : tree.node? place = none := by
  by_contra hplace
  obtain ⟨node, hnode⟩ := Option.ne_none_iff_exists'.mp hplace
  by_cases heq : above = place
  · exact hplace (heq ▸ hmissing)
  · rw [h.directory_above hnode habove heq] at hmissing
    cases hmissing

/-- No file stands on a path that leads through a missing place in a directory. -/
theorem no_file_through (h : tree.Rooted) (hplace : tree.node? place = some .directory)
    {name : String} (hmissing : tree.node? (place ++ [name]) = none)
    {whole : List String} (hinside : place ++ [name] <+: whole) (habove : above <+: whole)
    (text : String) : tree.node? above ≠ some (.file text) := by
  intro hfile
  rcases List.prefix_or_prefix_of_prefix hinside habove with hbelow | hupper
  · rw [h.none_below hmissing hbelow] at hfile
    cases hfile
  · rcases List.prefix_concat_iff.mp hupper with rfl | hupper
    · rw [hmissing] at hfile
      cases hfile
    · by_cases heq : above = place
      · rw [heq, hplace] at hfile
        cases hfile
      · rw [h.directory_above hplace hupper heq] at hfile
        cases hfile

theorem lookup_eq (h : tree.Rooted) {names : List String} (hnames : ".." ∉ names)
    (place : List String) : tree.lookup place names = tree.node? (place ++ names) := by
  induction names generalizing place with
  | nil => rw [lookup, List.append_nil]
  | cons name rest ih =>
      rw [List.mem_cons, not_or] at hnames
      rw [lookup]
      split
      · rw [step_eq (Ne.symm hnames.1), ih hnames.2, List.append_assoc]
        rfl
      · next hnode =>
          -- where no directory stands nothing can stand below
          symm
          by_contra hbelow
          obtain ⟨node, hbelow⟩ := Option.ne_none_iff_exists'.mp hbelow
          exact hnode (h.directory_above hbelow (List.prefix_append ..) (by simp))

theorem insert (h : tree.Rooted) (hplace : place ≠ [])
    (hparent : tree.node? place.dropLast = some .directory)
    (hnode : tree.node? place = some .directory → node = .directory) :
    FileTree.Rooted (OrderedMap.insert tree place node) := by
  intro other hother
  rw [OrderedMap.insert, OrderedMap.keys_update] at hother
  rw [node?_insert hplace]
  have hdirectory : tree.node? other.dropLast = some .directory := by
    split at hother
    · exact h other hother
    · rcases List.mem_append.mp hother with hother | hother
      · exact h other hother
      · rw [List.mem_singleton.mp hother]
        exact hparent
  split
  · next heq => rw [hnode (heq ▸ hdirectory)]
  · exact hdirectory

end Rooted

end FileTree
end SchemaViews
