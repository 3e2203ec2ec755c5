import Mathlib.Data.Set.Finite.Lattice
import Mathlib.Order.WellFounded
import SchemaViews.Proofs.ErrorSurface

/-!
# When resolution comes to its end

A resolution needs as much room as reopened fragments nest.  Where components
are well-shaped, of recognised types and acyclic in their composition, nothing
else stands in its way, as long as their integers can be written: it is endless
within a bound exactly if reopened fragments nest deeper, and endless within
every bound exactly if they nest without end.
-/

namespace SchemaViews

/-- A scope whose components are well-shaped and of recognised types, and
whose composition is acyclic. -/
structure Scope.Sound (s : Scope) : Prop where
  shaped : ∀ entry ∈ s.context.arena,
    entry.2.WellShaped s.context.arena.Knows True
  covers : s.context.Covers
  acyclic : s.context.arena.Acyclic

/-- All integers in the components can be written. -/
def Scope.Written (s : Scope) : Prop :=
  ∀ entry ∈ s.context.arena, entry.2.isWritable = true

/-- A fragment that was read from a well-shaped schema of recognised types, one
that can be written if the components can. -/
def Scope.Reads (s : Scope) (fragment : Fragment) : Prop :=
  fragment.From (Value.Legible s.context.arena.Knows True s.Written)

/-- Fragments are reopened one inside the other to a given depth. -/
def Scope.Nests (s : Scope) : ℕ → Fragment → Prop
  | 0, _ => True
  | depth + 1, fragment => ∃ whole, s.Reopens fragment whole ∧ s.Nests depth whole

namespace Scope

variable {s : Scope} {again : Fragment → Outcome TypeExpr}

theorem Sound.legible (hs : s.Sound) {entry : String × Value}
    (hentry : entry ∈ s.context.arena) :
    entry.2.Legible s.context.arena.Knows True s.Written :=
  ⟨hs.shaped entry hentry, fun hwritten => hwritten entry hentry⟩

/-! ## One step -/

theorem again_succeeds {fragment whole : Fragment}
    (hreopens : s.Reopens fragment whole)
    (h : Succeeds (s.resolveWith again fragment).result) :
    Succeeds (again whole).result := by
  induction hreopens with
  | allOf hflat hread =>
      rw [resolveWith_allOf, succeeds_map_iff, merged_eq] at h
      exact (h.of_bind hflat).of_bind hread
  | anyOf hflat hread =>
      rw [resolveWith_anyOf, succeeds_map_iff, merged_eq] at h
      exact (h.of_bind hflat).of_bind hread
  | field hentry hshown hvisible =>
      rw [resolveWith_object, succeeds_map_iff, succeeds_mapM_iff] at h
      have hfield := h _ hentry
      rw [field_eq] at hfield
      have hfield := hfield.of_bind hshown
      rw [hvisible] at hfield
      exact succeeds_map_iff.mp hfield
  | @property notes properties required entry whole hentry hplain hvisible _ ih =>
      rw [resolveWith_object, succeeds_map_iff, succeeds_mapM_iff] at h
      have hfield := h _ hentry
      rw [field_eq] at hfield
      obtain ⟨name, property⟩ := entry
      cases property with
      | allOf inner parts => exact absurd rfl (hplain inner parts)
      | reference | primitive | choice | object | freeObject | array | freeArray
      | oneOf | anyOf =>
          have hfield := hfield.of_bind rfl
          rw [hvisible] at hfield
          exact ih (succeeds_map_iff.mp hfield)
  | items _ ih =>
      rw [resolveWith_array, succeeds_map_iff] at h
      exact ih h
  | option hoption _ ih =>
      rw [resolveWith_oneOf, succeeds_map_iff, succeeds_mapM_iff] at h
      exact ih (h _ hoption)
  | untagged hoption htag _ ih =>
      rw [resolveWith_oneOf, succeeds_map_iff, succeeds_mapM_iff] at h
      have halternative := h _ hoption
      dsimp only at halternative
      rw [alternative_eq] at halternative
      exact ih (halternative.of_bind htag)
  | tagged hoption htag hflat hread =>
      rw [resolveWith_oneOf, succeeds_map_iff, succeeds_mapM_iff] at h
      have halternative := h _ hoption
      dsimp only at halternative
      rw [alternative_eq] at halternative
      exact ((halternative.of_bind htag).of_bind hflat).of_bind hread

theorem resolveWith_failsOnly (hs : s.Sound) {allowed : Failure → Prop}
    (hlong : ¬ s.Written → allowed (.tooLong Numerals.digitLimit)) {fragment : Fragment}
    (hfragment : s.Reads fragment)
    (hagain : ∀ whole, s.Reopens fragment whole → FailsOnly allowed (again whole).result) :
    FailsOnly allowed (s.resolveWith again fragment).result :=
  resolveWith_failsOnly_legible (fun _ => hs.legible) hlong
    (fun hschema failure hfailure =>
      (hs.acyclic.expand_succeeds hs.shaped hschema failure hfailure).elim)
    hs.covers (fun _ hnot => absurd trivial hnot) hfragment hagain

theorem resolveWith_succeeds_iff (hs : s.Sound) (hwritten : s.Written) {fragment : Fragment}
    (hfragment : s.Reads fragment) :
    Succeeds (s.resolveWith again fragment).result ↔
      ∀ whole, s.Reopens fragment whole → Succeeds (again whole).result := by
  constructor
  · exact fun h whole hwhole => again_succeeds hwhole h
  · intro h
    have hfails : FailsOnly (fun _ => False) (s.resolveWith again fragment).result :=
      resolveWith_failsOnly hs (fun hnot => hnot hwritten) hfragment
        fun whole hwhole => .of_succeeds (h whole hwhole)
    rcases hfails.cases with hsucceeds | ⟨_, _, hfalse⟩
    · exact hsucceeds
    · exact hfalse.elim

theorem Reads.reopens (hs : s.Sound) {fragment whole : Fragment}
    (hfragment : s.Reads fragment) (h : s.Reopens fragment whole) :
    s.Reads whole :=
  Fragment.From.reopens legible_invariant (fun _ => hs.legible) Discriminator.legible_tag
    hfragment h

/-! ## Within a bound -/

theorem resolveWithin_succeeds_iff (hs : s.Sound) (hwritten : s.Written) (bound : ℕ)
    {fragment : Fragment} (hfragment : s.Reads fragment) :
    Succeeds (s.resolveWithin bound fragment).result ↔
      ¬ s.Nests (bound + 1) fragment := by
  induction bound generalizing fragment with
  | zero =>
      rw [resolveWithin, resolveWith_succeeds_iff hs hwritten hfragment]
      simp [Nests, Succeeds]
  | succ bound ih =>
      rw [resolveWithin, resolveWith_succeeds_iff hs hwritten hfragment, Nests]
      push Not
      refine forall_congr' fun whole => forall_congr' fun hwhole => ?_
      exact ih (hfragment.reopens hs hwhole)

/-- Whether the integers can be written or not, only nested fragments are endless. -/
theorem nests_of_endless (hs : s.Sound) {bound : ℕ} {fragment : Fragment}
    (hfragment : s.Reads fragment)
    (h : (s.resolveWithin bound fragment).result = .error .endless) :
    s.Nests (bound + 1) fragment := by
  by_contra hnests
  suffices hfails : FailsOnly (· ≠ .endless) (s.resolveWithin bound fragment).result from
    hfails _ h rfl
  clear h
  have hlong : ¬ s.Written → Failure.tooLong Numerals.digitLimit ≠ .endless := by simp
  induction bound generalizing fragment with
  | zero =>
      rw [resolveWithin]
      refine resolveWith_failsOnly hs hlong hfragment fun whole hwhole => ?_
      exact absurd ⟨whole, hwhole, trivial⟩ hnests
  | succ bound ih =>
      rw [resolveWithin]
      refine resolveWith_failsOnly hs hlong hfragment fun whole hwhole => ?_
      exact ih (hfragment.reopens hs hwhole) fun hwholeNests =>
        hnests ⟨whole, hwhole, hwholeNests⟩

theorem resolveWithin_endless_iff (hs : s.Sound) (hwritten : s.Written) (bound : ℕ)
    {fragment : Fragment} (hfragment : s.Reads fragment) :
    (s.resolveWithin bound fragment).result = .error .endless ↔
      s.Nests (bound + 1) fragment := by
  refine ⟨nests_of_endless hs hfragment, fun hnests => ?_⟩
  have hrefusals := resolveWithin_refusals (fun _ => hs.legible) hs.covers bound hfragment
  rcases hrefusals.cases with hsucceeds | ⟨failure, hfailure, hrefusal⟩
  · exact absurd hnests ((resolveWithin_succeeds_iff hs hwritten bound hfragment).mp hsucceeds)
  · cases hrefusal with
    | endless => exact hfailure
    | unknownType _ hnot => exact absurd trivial hnot
    | tooLong hnot => exact absurd hwritten hnot

/-! ## Within every bound -/

theorem reopens_finite (s : Scope) (fragment : Fragment) :
    {whole | s.Reopens fragment whole}.Finite := by
  induction fragment using Fragment.induction with
  | reference | primitive | choice | freeObject | freeArray =>
      refine Set.finite_empty.subset fun whole hwhole => ?_
      cases hwhole
  | object notes properties required ih =>
      have hentry : ∀ entry ∈ {entry | entry ∈ properties},
          ({shown | s.context.arena.shown entry.2 = .ok shown} ∪
            {whole | s.Reopens entry.2 whole}).Finite := by
        intro entry hentry
        refine Set.Finite.union (Set.Subsingleton.finite ?_) (ih entry hentry)
        intro first hfirst second hsecond
        exact Except.ok.inj (hfirst.symm.trans hsecond)
      refine ((List.finite_toSet properties).biUnion hentry).subset ?_
      intro whole hwhole
      cases hwhole with
      | field hmem hshown _ =>
          exact Set.mem_biUnion hmem (.inl hshown)
      | property hmem _ _ hinner => exact Set.mem_biUnion hmem (.inr hinner)
  | array notes items ih =>
      refine ih.subset fun whole hwhole => ?_
      cases hwhole with
      | items hinner => exact hinner
  | oneOf notes options discriminator ih =>
      have hoption : ∀ option ∈ {option | option ∈ options},
          ({whole | ∃ d tag, discriminator = some d ∧
              (d.tag s.context.arena option).result = .ok (some tag) ∧
                (Discriminator.taggedOption s.context.arena option.rawValue
                  d.property tag).result >>= (fun flat =>
                    Fragment.read (.map flat)) = .ok whole} ∪
            {whole | s.Reopens option whole}).Finite := by
        intro option hoption
        refine Set.Finite.union (Set.Subsingleton.finite ?_) (ih option hoption)
        rintro first ⟨d, tag, hd, htag, hfirst⟩ second ⟨d', tag', hd', htag', hsecond⟩
        cases hd.symm.trans hd'
        cases htag.symm.trans htag'
        exact Except.ok.inj (hfirst.symm.trans hsecond)
      refine ((List.finite_toSet options).biUnion hoption).subset ?_
      intro whole hwhole
      cases hwhole with
      | option hmem hinner => exact Set.mem_biUnion hmem (.inr hinner)
      | untagged hmem _ hinner => exact Set.mem_biUnion hmem (.inr hinner)
      | tagged hmem htag hflat hread =>
          refine Set.mem_biUnion hmem (.inl ⟨_, _, rfl, htag, ?_⟩)
          exact bind_eq_ok_iff.mpr ⟨_, hflat, hread⟩
  | allOf notes parts =>
      refine Set.Subsingleton.finite fun first hfirst second hsecond => ?_
      cases hfirst with
      | allOf hflat hread =>
          cases hsecond with
          | allOf hflat' hread' =>
              cases hflat.symm.trans hflat'
              exact Except.ok.inj (hread.symm.trans hread')
  | anyOf notes parts =>
      refine Set.Subsingleton.finite fun first hfirst second hsecond => ?_
      cases hfirst with
      | anyOf hflat hread =>
          cases hsecond with
          | anyOf hflat' hread' =>
              cases hflat.symm.trans hflat'
              exact Except.ok.inj (hread.symm.trans hread')

theorem exists_bound_iff_acc (hs : s.Sound) (hwritten : s.Written) {fragment : Fragment}
    (hfragment : s.Reads fragment) :
    (∃ bound, Succeeds (s.resolveWithin bound fragment).result) ↔
      Acc (fun whole fragment => s.Reopens fragment whole) fragment := by
  constructor
  · rintro ⟨bound, h⟩
    induction bound generalizing fragment with
    | zero =>
        rw [resolveWithin, resolveWith_succeeds_iff hs hwritten hfragment] at h
        refine .intro _ fun whole hwhole => ?_
        obtain ⟨_, hfail⟩ := h whole hwhole
        cases hfail
    | succ bound ih =>
        rw [resolveWithin, resolveWith_succeeds_iff hs hwritten hfragment] at h
        refine .intro _ fun whole hwhole => ?_
        exact ih (hfragment.reopens hs hwhole) (h whole hwhole)
  · intro hacc
    induction hacc with
    | intro fragment _ ih =>
        -- finitely many fragments are reopened, so their bounds have a maximum
        have hbounds : ∀ whole, s.Reopens fragment whole →
            ∃ bound, Succeeds (s.resolveWithin bound whole).result :=
          fun whole hwhole => ih whole hwhole (hfragment.reopens hs hwhole)
        choose! bound hbound using hbounds
        obtain ⟨largest, hlargest⟩ := ((s.reopens_finite fragment).image bound).bddAbove
        refine ⟨largest + 1, ?_⟩
        rw [resolveWithin, resolveWith_succeeds_iff hs hwritten hfragment]
        intro whole hwhole
        obtain ⟨t, ht⟩ := hbound whole hwhole
        have hle : bound whole ≤ largest := hlargest ⟨whole, hwhole, rfl⟩
        exact ⟨t, (resolveWithin_settles hle whole).eq_ok ht⟩

end Scope
end SchemaViews
