import Mathlib.Data.Finset.Card
import SchemaViews.Proofs.WellShapedReading

/-!
# Acyclic composition

A relation between components that leads from no component back to itself
ranks them: the rank of a component is the number of components that the
relation leads to.  Where composition is acyclic every reference that an
expansion follows lowers the rank, and so the number of components bounds the
references that follow one another.
-/

namespace SchemaViews
namespace Arena

def Knows (arena : Arena) (name : String) : Prop :=
  ∃ schema, OrderedMap.find? arena name = some schema

theorem knows_iff_mem {arena : Arena} {name : String} :
    arena.Knows name ↔ name ∈ OrderedMap.keys arena := by
  unfold Knows
  rw [← Option.isSome_iff_exists, ← Option.ne_none_iff_isSome, Ne,
    OrderedMap.find?_eq_none_iff, not_not]

/-! ## Ranks -/

open Classical in
/-- How many components a relation leads to. -/
noncomputable def rank (arena : Arena) (R : String → String → Prop)
    (name : String) : ℕ :=
  ((OrderedMap.keys arena).toFinset.filter (R name)).card

theorem rank_lt {arena : Arena} {R : String → String → Prop}
    (htrans : ∀ {a b c}, R a b → R b c → R a c) {a b : String} (hab : R a b)
    (hknown : arena.Knows b) (hirrefl : ¬ R b b) :
    arena.rank R b < arena.rank R a := by
  classical
  apply Finset.card_lt_card
  rw [Finset.ssubset_iff_of_subset]
  · refine ⟨b, ?_, ?_⟩
    · simpa [hab] using knows_iff_mem.mp hknown
    · simp [hirrefl]
  · intro c hc
    rw [Finset.mem_filter] at hc ⊢
    exact ⟨hc.1, htrans hab hc.2⟩

theorem rank_lt_length {arena : Arena} {R : String → String → Prop}
    {a : String} (hknown : arena.Knows a) (hirrefl : ¬ R a a) :
    arena.rank R a < arena.length := by
  classical
  have hsub : (OrderedMap.keys arena).toFinset.filter (R a) ⊂
      (OrderedMap.keys arena).toFinset := by
    rw [Finset.filter_ssubset]
    exact ⟨a, List.mem_toFinset.mpr (knows_iff_mem.mp hknown), hirrefl⟩
  calc
    arena.rank R a < (OrderedMap.keys arena).toFinset.card :=
      Finset.card_lt_card hsub
    _ ≤ (OrderedMap.keys arena).length := List.toFinset_card_le _
    _ = arena.length := List.length_map _

/-! ## Composition -/

/-- What a schema is composed of: the parts that are merged, the component
that it refers to, and the options of a discriminated union. -/
inductive Composes (arena : Arena) : Value → Value → Prop
  | part {schema part : Value} : schema.Merges part → Composes arena schema part
  | target {raw : Entries} {target : Reference} {component : Value} :
      raw.field? "allOf" = none → raw.field? "anyOf" = none →
        raw.reference? = some target →
          OrderedMap.find? arena target.name = some component →
            Composes arena (.map raw) component
  | option {raw : Entries} {d : Discriminator} {options : Value}
      {items : List Value} {item : Value} :
      readDiscriminator raw = .ok (some d) →
        raw.field? "oneOf" = some options → options.parts? = some items →
          item ∈ items → Composes arena (.map raw) item

/-- No component is composed of itself. -/
def Acyclic (arena : Arena) : Prop :=
  ∀ name schema, OrderedMap.find? arena name = some schema →
    ¬ Relation.TransGen arena.Composes schema schema

/-- A component is composed of another one. -/
def Calls (arena : Arena) (a b : String) : Prop :=
  ∃ schema component, OrderedMap.find? arena a = some schema ∧
    OrderedMap.find? arena b = some component ∧
      Relation.TransGen arena.Composes schema component

theorem Calls.trans {arena : Arena} {a b c : String} (hab : arena.Calls a b)
    (hbc : arena.Calls b c) : arena.Calls a c := by
  obtain ⟨schema, middle, ha, hb, hfirst⟩ := hab
  obtain ⟨other, component, hb', hc, hsecond⟩ := hbc
  cases hb.symm.trans hb'
  exact ⟨schema, component, ha, hc, hfirst.trans hsecond⟩

theorem Acyclic.not_calls {arena : Arena} (h : arena.Acyclic) (a : String) :
    ¬ arena.Calls a a := by
  rintro ⟨schema, component, ha, ha', hpath⟩
  cases ha.symm.trans ha'
  exact h a schema ha hpath

/-- A schema that is composed of components below a rank only. -/
def Below (arena : Arena) (bound : ℕ) (schema : Value) : Prop :=
  ∀ name component, OrderedMap.find? arena name = some component →
    Relation.TransGen arena.Composes schema component →
      arena.rank arena.Calls name < bound

theorem below_length {arena : Arena} (h : arena.Acyclic) (schema : Value) :
    arena.Below arena.length schema := fun name component hfind _ =>
  rank_lt_length ⟨component, hfind⟩ (h.not_calls name)

theorem Below.step {arena : Arena} {bound : ℕ} {schema inner : Value}
    (h : arena.Below bound schema) (hstep : arena.Composes schema inner) :
    arena.Below bound inner := fun name component hfind hpath =>
  h name component hfind (.head hstep hpath)

theorem Below.component {arena : Arena} (hacyclic : arena.Acyclic) {bound : ℕ}
    {schema component : Value} {name : String} (h : arena.Below (bound + 1) schema)
    (hfind : OrderedMap.find? arena name = some component)
    (hstep : arena.Composes schema component) :
    arena.Below bound component := by
  intro other inner hother hpath
  have hname := h name component hfind (.single hstep)
  have hcalls : arena.Calls name other := ⟨component, inner, hfind, hother, hpath⟩
  have hlower := rank_lt (R := arena.Calls) Calls.trans hcalls ⟨inner, hother⟩
    (hacyclic.not_calls other)
  omega

/-! ## Expansions -/

theorem Acyclic.expand_succeeds {arena : Arena} {known : String → Prop}
    {strict : Prop} (hacyclic : arena.Acyclic)
    (harena : ∀ entry ∈ arena, entry.2.WellShaped known strict)
    {schema : Value} (hschema : schema.WellShaped known strict) :
    FailsOnly (fun _ => False) (arena.expand schema).result := by
  refine expandWithin_failsOnly
    (E := fun bound schema => schema.WellShaped known strict ∧ arena.Below bound schema)
    (fun _ _ h => .inl (composable_of_wellShaped h.1).unfoldable)
    (fun _ _ _ h hpart => ⟨h.1.inside (.part hpart.combines), h.2.step (.part hpart)⟩)
    ?last ?next ⟨hschema, below_length hacyclic schema⟩
  case last =>
    intro raw target component hraw hall hany hreference hfind
    have hstep := Composes.target hall hany hreference hfind
    exact absurd (hraw.2 _ _ hfind (.single hstep)) (Nat.not_lt_zero _)
  case next =>
    -- every reference that is followed lowers the rank of all that come after it
    intro bound raw target component hraw hall hany hreference hfind
    have hstep := Composes.target hall hany hreference hfind
    have hcomponent := harena _ (OrderedMap.mem_of_find? hfind)
    exact ⟨hcomponent, hraw.2.component hacyclic hfind hstep⟩

end Arena
end SchemaViews
