import Mathlib.Data.List.Nodup
import Mathlib.Data.List.Perm.Subperm
import SchemaViews.Emission

/-!
# Fresh names are found and unused

The candidates for a fresh name are all different.  Among one more of them than
there are used names one is unused, so a search that tries them one after the other
ends without a bound of its own, and it stops at the first unused one.
-/

namespace SchemaViews
namespace TypeNaming

section Search

variable {α : Type} {candidate : ℕ → α} {used : List α}

/-- A search without a bound that has come to a number stops there if the candidate is
unused, and goes on behind it otherwise. -/
inductive StopsAt (candidate : ℕ → α) (used : List α) : ℕ → ℕ → Prop
  | here {number : ℕ} (hunused : candidate number ∉ used) : StopsAt candidate used number number
  | behind {number stop : ℕ} (hused : candidate number ∈ used)
      (hrest : StopsAt candidate used (number + 1) stop) : StopsAt candidate used number stop

theorem StopsAt.first_unused {number stop : ℕ} (h : StopsAt candidate used number stop) :
    number ≤ stop ∧ candidate stop ∉ used ∧
      ∀ j, number ≤ j → j < stop → candidate j ∈ used := by
  induction h with
  | here hunused => exact ⟨Nat.le_refl _, hunused, fun j hj hlt => by omega⟩
  | @behind number stop hused _ ih =>
      obtain ⟨hle, hunused, hearlier⟩ := ih
      refine ⟨by omega, hunused, fun j hj hlt => ?_⟩
      rcases Nat.eq_or_lt_of_le hj with rfl | hj
      · exact hused
      · exact hearlier j hj hlt

theorem exists_stopsAt_of_unused (number ahead : ℕ) (h : candidate (number + ahead) ∉ used) :
    ∃ stop ≤ number + ahead, StopsAt candidate used number stop := by
  induction ahead generalizing number with
  | zero => exact ⟨number, Nat.le_refl _, .here h⟩
  | succ ahead ih =>
      by_cases hused : candidate number ∈ used
      · have hahead : number + 1 + ahead = number + (ahead + 1) := by omega
        obtain ⟨stop, hle, hrest⟩ := ih (number + 1) (hahead ▸ h)
        exact ⟨stop, hahead ▸ hle, .behind hused hrest⟩
      · exact ⟨number, by omega, .here hused⟩

theorem StopsAt.unique {number stop other : ℕ} (h : StopsAt candidate used number stop)
    (h' : StopsAt candidate used number other) : stop = other := by
  obtain ⟨hle, hunused, hearlier⟩ := h.first_unused
  obtain ⟨hle', hunused', hearlier'⟩ := h'.first_unused
  rcases Nat.lt_trichotomy stop other with hlt | rfl | hlt
  · exact absurd (hearlier' stop hle hlt) hunused
  · rfl
  · exact absurd (hearlier other hle' hlt) hunused'

theorem not_all_used (hinj : Function.Injective candidate) (used : List α) :
    ∃ j ≤ used.length, candidate j ∉ used := by
  by_contra! hall
  have hnodup : ((List.range (used.length + 1)).map candidate).Nodup :=
    List.nodup_range.map hinj
  have hsubset : (List.range (used.length + 1)).map candidate ⊆ used := by
    intro name hname
    obtain ⟨j, hj, rfl⟩ := List.mem_map.mp hname
    exact hall j (Nat.lt_succ_iff.mp (List.mem_range.mp hj))
  have hlength := (List.subperm_of_subset hnodup hsubset).length_le
  rw [List.length_map, List.length_range] at hlength
  omega

theorem exists_stopsAt (hinj : Function.Injective candidate) (used : List α) :
    ∃ stop ≤ used.length, StopsAt candidate used 0 stop := by
  obtain ⟨j, hj, hunused⟩ := not_all_used hinj used
  obtain ⟨stop, hle, hstop⟩ := exists_stopsAt_of_unused 0 j (by rwa [Nat.zero_add])
  exact ⟨stop, by omega, hstop⟩

end Search

section Tries

variable {α : Type} [DecidableEq α] {candidate : ℕ → α} {used : List α}

/-- Enough tries find what the search without a bound finds. -/
theorem StopsAt.firstUnused_eq {number stop tries : ℕ} (h : StopsAt candidate used number stop)
    (hbound : stop ≤ number + tries) :
    firstUnused candidate used tries number = candidate stop := by
  induction h generalizing tries with
  | here hunused =>
      cases tries with
      | zero => rfl
      | succ tries => rw [firstUnused, if_neg hunused]
  | behind hused hrest ih =>
      cases tries with
      | zero =>
          have hle := hrest.first_unused.1
          omega
      | succ tries =>
          rw [firstUnused, if_pos hused]
          exact ih (by omega)

theorem firstUnused_spec (hinj : Function.Injective candidate) :
    ∃ k, firstUnused candidate used used.length 0 = candidate k ∧
      candidate k ∉ used ∧ ∀ j < k, candidate j ∈ used := by
  obtain ⟨stop, hle, hstop⟩ := exists_stopsAt hinj used
  obtain ⟨-, hunused, hearlier⟩ := hstop.first_unused
  exact ⟨stop, hstop.firstUnused_eq (by omega), hunused, fun j => hearlier j j.zero_le⟩

end Tries

/-! ## Candidates -/

theorem toString_injective : Function.Injective (toString : ℕ → String) := by
  intro m n h
  have hdigits : Nat.toDigits 10 m = Nat.toDigits 10 n := by
    rw [Nat.toString_eq_ofList_toDigits, Nat.toString_eq_ofList_toDigits] at h
    exact String.ofList_injective h
  rw [← Nat.ofDigitChars_ten_toDigits (n := m), hdigits, Nat.ofDigitChars_ten_toDigits]

theorem length_candidate_two (hint : String) (n : ℕ) :
    hint.length + "Object".length < (candidate hint (n + 2)).length := by
  have hdigits : 0 < (toString (n + 2)).length := by
    rw [Nat.pos_iff_ne_zero, ne_eq, String.length_eq_zero_iff]
    exact Nat.repr_ne_empty
  simp only [candidate, String.length_append]
  omega

theorem candidate_injective (hint : String) :
    Function.Injective (candidate hint) := by
  intro a b h
  have hlength := congrArg String.length h
  have hhint : (candidate hint 0).length = hint.length := rfl
  have hobject : (candidate hint 1).length = hint.length + "Object".length :=
    String.length_append ..
  have hpositive : 0 < "Object".length := by decide
  match a, b with
  | 0, 0 | 1, 1 => rfl
  | n + 2, m + 2 =>
      have hdigits : toString (n + 2) = toString (m + 2) := by
        simpa [candidate, String.append_assoc] using h
      exact toString_injective hdigits
  | 0, 1 | 1, 0 => omega
  | 0, n + 2 | n + 2, 0 | 1, n + 2 | n + 2, 1 =>
      have hlonger := length_candidate_two hint n
      omega

theorem freshName_spec (used : List String) (hint : String) :
    ∃ k, freshName used hint = candidate hint k ∧
      candidate hint k ∉ used ∧ ∀ j < k, candidate hint j ∈ used :=
  firstUnused_spec (candidate_injective hint)

theorem freshName_not_mem (used : List String) (hint : String) :
    freshName used hint ∉ used := by
  obtain ⟨k, hk, hunused, _⟩ := freshName_spec used hint
  rwa [hk]

end TypeNaming

namespace Emit

open TypeNaming

/-- A fresh name is always found.  The search for it has no bound of its own, yet it
stops, and stops once, behind no more candidates than there are used names.  It gives the
first candidate that is unused, and this name is all that is added to the used ones. -/
theorem fresh_first_unused (hint : String) (e : Emission) :
    ∃ number ≤ e.used.length,
      (∀ stop, StopsAt (candidate hint) e.used 0 stop ↔ stop = number) ∧
        (fresh hint).run e =
          (.ok (candidate hint number), { e with used := e.used ++ [candidate hint number] }) ∧
        candidate hint number ∉ e.used ∧
        ∀ earlier < number, candidate hint earlier ∈ e.used := by
  obtain ⟨number, hle, hstop⟩ := exists_stopsAt (candidate_injective hint) e.used
  obtain ⟨-, hunused, hearlier⟩ := hstop.first_unused
  have hname : freshName e.used hint = candidate hint number :=
    hstop.firstUnused_eq (by omega)
  refine ⟨number, hle, fun stop => ⟨fun h => h.unique hstop, ?_⟩, ?_, hunused, ?_⟩
  · rintro rfl
    exact hstop
  · rw [← hname]
    rfl
  · exact fun earlier => hearlier earlier earlier.zero_le

end Emit
end SchemaViews
