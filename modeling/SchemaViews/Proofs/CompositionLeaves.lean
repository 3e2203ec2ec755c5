import SchemaViews.Proofs.ProperValues

/-!
# The leaves of a composition

A composition is made of leaves: schemas that are neither compositions nor
references.  The leaves of a reference are those of the component that it
names, and then the keys beside it.  A leaf below an `anyOf` is relaxed: what
it requires does not count.  A schema has at most one list of leaves, and none
if it leads back to itself.
-/

namespace SchemaViews

structure Leaf where
  schema : Entries
  relaxed : Bool

def Leaf.relax (leaf : Leaf) : Leaf :=
  { leaf with relaxed := true }

namespace Arena

mutual

inductive Leaves (arena : Arena) : Value → List Leaf → Prop
  | allOf {raw : Entries} {parts : Value} {items : List Value}
      {leaves : List Leaf} :
      raw.field? "allOf" = some parts → parts.parts? = some items →
        PartLeaves arena items leaves → Leaves arena (.map raw) leaves
  | anyOf {raw : Entries} {parts : Value} {items : List Value}
      {leaves : List Leaf} :
      raw.field? "allOf" = none → raw.field? "anyOf" = some parts →
        parts.parts? = some items → PartLeaves arena items leaves →
          Leaves arena (.map raw) (leaves.map Leaf.relax)
  | reference {raw : Entries} {target : Reference} {component : Value}
      {leaves : List Leaf} :
      raw.field? "allOf" = none → raw.field? "anyOf" = none →
        raw.reference? = some target →
          OrderedMap.find? arena target.name = some component →
            Leaves arena component leaves →
              Leaves arena (.map raw)
                (leaves ++ [⟨raw.dropField referenceKey, false⟩])
  | plain {raw : Entries} :
      raw.field? "allOf" = none → raw.field? "anyOf" = none →
        (∀ target, raw.reference? = some target →
          OrderedMap.find? arena target.name = none) →
            Leaves arena (.map raw) [⟨raw, false⟩]

/-- The leaves of all parts of a composition, in their order. -/
inductive PartLeaves (arena : Arena) : List Value → List Leaf → Prop
  | nil : PartLeaves arena [] []
  | cons {item : Value} {rest : List Value} {first others : List Leaf} :
      Leaves arena item first → PartLeaves arena rest others →
        PartLeaves arena (item :: rest) (first ++ others)

end

variable {arena : Arena}

theorem Leaves.unique {schema : Value} {first second : List Leaf}
    (hfirst : Leaves arena schema first) (hsecond : Leaves arena schema second) :
    second = first := by
  revert second
  refine Leaves.rec
    (motive_1 := fun schema first _ =>
      ∀ {second}, Leaves arena schema second → second = first)
    (motive_2 := fun items first _ =>
      ∀ {second}, PartLeaves arena items second → second = first)
    ?allOf ?anyOf ?reference ?plain ?nil ?cons hfirst
  case allOf =>
    intro raw parts items leaves hall hitems _ ih second hsecond
    cases hsecond with
    | allOf hall' hitems' hparts' =>
        cases hall.symm.trans hall'
        cases hitems.symm.trans hitems'
        exact ih hparts'
    | anyOf hnone | reference hnone | plain hnone => simp [hnone] at hall
  case anyOf =>
    intro raw parts items leaves hall hany hitems _ ih second hsecond
    cases hsecond with
    | allOf hall' => simp [hall] at hall'
    | anyOf _ hany' hitems' hparts' =>
        cases hany.symm.trans hany'
        cases hitems.symm.trans hitems'
        rw [ih hparts']
    | reference _ hnone | plain _ hnone => simp [hnone] at hany
  case reference =>
    intro raw target component leaves hall hany hreference hfind _ ih second
      hsecond
    cases hsecond with
    | allOf hall' => simp [hall] at hall'
    | anyOf _ hany' => simp [hany] at hany'
    | reference _ _ hreference' hfind' hleaves =>
        cases hreference.symm.trans hreference'
        cases hfind.symm.trans hfind'
        rw [ih hleaves]
    | plain _ _ hplain => simp [hplain target hreference] at hfind
  case plain =>
    intro raw hall hany hplain second hsecond
    cases hsecond with
    | allOf hall' => simp [hall] at hall'
    | anyOf _ hany' => simp [hany] at hany'
    | reference _ _ hreference hfind => simp [hplain _ hreference] at hfind
    | plain => rfl
  case nil =>
    intro second hsecond
    cases hsecond
    rfl
  case cons =>
    intro item rest leaves others _ _ ihitem ihrest second hsecond
    cases hsecond with
    | cons hitem hrest => rw [ihitem hitem, ihrest hrest]

end Arena
end SchemaViews
