import Mathlib.Data.List.Nodup
import SchemaViews.Proofs.MappingTargets
import SchemaViews.Proofs.ProperValues

/-!
# Tags of different components

A target spells the name of one component at most, so the first entries of two
components are different entries, and their keys are apart.  A component without an
entry is tagged by its name.  Two components can then share a tag only if a key of
the mapping is the name of an unmapped one.
-/

namespace SchemaViews

/-- No tag on either side, or the same key on both. -/
def SameTag : Option Scalar → Option Scalar → Prop :=
  Option.Rel fun first second => first.sameKey second

theorem Scalar.present?_eq (s : Scalar) : s.present? = if s = .null then none else some s := by
  cases s <;> simp [Scalar.present?]

theorem SameTag.sameKey {first second : Scalar}
    (h : SameTag first.present? second.present?) : first.sameKey second := by
  unfold SameTag at h
  rw [Scalar.present?_eq, Scalar.present?_eq] at h
  by_cases hfirst : first = .null
  · by_cases hsecond : second = .null
    · rw [hfirst, hsecond]
      exact Scalar.sameKey_self _
    · simp [hfirst, hsecond] at h
  · by_cases hsecond : second = .null
    · simp [hfirst, hsecond] at h
    · simpa [hfirst, hsecond] using h

namespace ComponentPointer

theorem Spells.unique {text first second : String} (hfirst : Spells text first)
    (hsecond : Spells text second) : first = second := by
  rw [← targetPath?_eq_path_iff, path_name] at hfirst hsecond
  have hpaths := hfirst.symm.trans hsecond
  simpa using hpaths

end ComponentPointer

namespace Discriminator

open ComponentPointer

variable {entries : List (Scalar × String)} {first second name : String}

/-- No target of the mapping has the path of the component. -/
def Unmapped (entries : List (Scalar × String)) (name : String) : Prop :=
  ∀ entry ∈ entries, targetPath? entry.2 ≠ some ["components", "schemas", name]

instance (entries : List (Scalar × String)) (name : String) :
    Decidable (Unmapped entries name) :=
  inferInstanceAs (Decidable (∀ entry ∈ entries, _))

theorem unmapped_iff : Unmapped entries name ↔ ∀ entry ∈ entries, ¬ Spells entry.2 name := by
  simp only [Unmapped, ← path_name, ne_eq, targetPath?_eq_path_iff]

/-- The key of the first entry that spells the name of a component, or else the name. -/
def tagKey (entries : List (Scalar × String)) (name : String) : Scalar :=
  ((entries.find? fun entry => Spells entry.2 name).map Prod.fst).getD (.str name)

theorem tagKey_cases (entries : List (Scalar × String)) (name : String) :
    (Unmapped entries name ∧ tagKey entries name = .str name) ∨
      ∃ entry ∈ entries, Spells entry.2 name ∧ tagKey entries name = entry.1 := by
  unfold tagKey
  cases hfind : entries.find? fun entry => Spells entry.2 name with
  | none =>
      left
      refine ⟨unmapped_iff.mpr ?_, rfl⟩
      simpa using hfind
  | some entry =>
      right
      have hspells := List.find?_some hfind
      exact ⟨entry, List.mem_of_find?_eq_some hfind, by simpa using hspells, rfl⟩

theorem not_sameKey_tagKey (hkeys : Scalar.Apart (entries.map Prod.fst))
    (hnames : first ≠ second)
    (hfirst : Unmapped entries first → .str first ∉ entries.map Prod.fst)
    (hsecond : Unmapped entries second → .str second ∉ entries.map Prod.fst) :
    ¬ (tagKey entries first).sameKey (tagKey entries second) := by
  intro hsame
  rcases tagKey_cases entries first with ⟨hfree, hkey⟩ | ⟨entry, hentry, hspells, hkey⟩
  · rcases tagKey_cases entries second with ⟨_, hother⟩ | ⟨other, hmem, _, hother⟩
    · rw [hkey, hother, Scalar.sameKey_str, Scalar.str.injEq] at hsame
      exact hnames hsame
    · rw [hkey, hother, Scalar.sameKey_comm, Scalar.sameKey_str] at hsame
      exact hfirst hfree (hsame ▸ List.mem_map_of_mem hmem)
  · rcases tagKey_cases entries second with ⟨hfree, hother⟩ | ⟨other, hmem, hspelled, hother⟩
    · rw [hkey, hother, Scalar.sameKey_str] at hsame
      exact hsecond hfree (hsame ▸ List.mem_map_of_mem hentry)
    · rw [hkey, hother] at hsame
      have hsame : entry.1 = other.1 := hkeys.eq_of_sameKey
        (List.mem_map_of_mem hentry) (List.mem_map_of_mem hmem) hsame
      have heq : entry = other := List.inj_on_of_nodup_map hkeys.nodup hentry hmem hsame
      rw [← heq] at hspelled
      exact hnames (hspells.unique hspelled)

/-- References to two components have different tags, not even the same key of a
mapping, as long as the name of neither is a key without being mapped. -/
theorem tags_apart (hkeys : Scalar.Apart (entries.map Prod.fst)) (hnames : first ≠ second)
    (hfirst : Unmapped entries first → .str first ∉ entries.map Prod.fst)
    (hsecond : Unmapped entries second → .str second ∉ entries.map Prod.fst)
    (property : Value) (arena : Arena) (notes others : Annotations) :
    ∃ tag other,
      ((ofTexts property entries).tag arena (.reference notes { name := first })).result =
        .ok tag ∧
      ((ofTexts property entries).tag arena (.reference others { name := second })).result =
        .ok other ∧
      ¬ SameTag tag other := by
  refine ⟨_, _, tag_reference arena notes first property entries,
    tag_reference arena others second property entries, fun hsame => ?_⟩
  exact not_sameKey_tagKey hkeys hnames hfirst hsecond hsame.sameKey

theorem tags_apart_cat :
    let entries : List (Scalar × String) :=
      [(.str "other", "#/definitions/Cat"), (.str "cat", "Cat"),
        (.str "kitty", "#/components/schemas/Cat"), (.str "Cat", "Fish"), (.int 1, "a/b")]
    Scalar.Apart (entries.map Prod.fst) ∧ ¬ Unmapped entries "Cat" ∧
      Unmapped entries "Dog" ∧ .str "Dog" ∉ entries.map Prod.fst ∧
      ((ofTexts (.str "kind") entries).tag []
        (.reference (.of []) { name := "Cat" })).result = .ok (some (.str "cat")) ∧
      ((ofTexts (.str "kind") entries).tag []
        (.reference (.of []) { name := "Dog" })).result = .ok (some (.str "Dog")) ∧
      ¬ SameTag (some (.str "cat")) (some (.str "Dog")) := by
  intro entries
  have hkeys : Scalar.Apart (entries.map Prod.fst) := by decide
  have hcat : ¬ Unmapped entries "Cat" := by decide
  have hdog : Unmapped entries "Dog" ∧ .str "Dog" ∉ entries.map Prod.fst := by
    decide
  obtain ⟨tag, other, htag, hother, hdifferent⟩ := tags_apart hkeys
    (show "Cat" ≠ "Dog" by decide) (fun hfree => absurd hfree hcat) (fun _ => hdog.2)
    (.str "kind") [] (.of []) (.of [])
  have hcatTag : ((ofTexts (.str "kind") entries).tag []
      (.reference (.of []) { name := "Cat" })).result = .ok (some (.str "cat")) := by
    decide
  have hdogTag : ((ofTexts (.str "kind") entries).tag []
      (.reference (.of []) { name := "Dog" })).result = .ok (some (.str "Dog")) := by
    decide
  cases hcatTag.symm.trans htag
  cases hdogTag.symm.trans hother
  exact ⟨hkeys, hcat, hdog.1, hdog.2, hcatTag, hdogTag, hdifferent⟩

end Discriminator
end SchemaViews
