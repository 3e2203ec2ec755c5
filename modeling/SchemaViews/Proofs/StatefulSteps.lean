/-!
# Steps on a state

A chain of steps that may fail hands on the state that each of them leaves.  A
successful chain is read apart step by step; a condition on the state that every
step keeps is kept by the chain.
-/

namespace SchemaViews

section Chains

variable {σ ε α β : Type} {x : ExceptT ε (StateM σ) α}
  {f : α → ExceptT ε (StateM σ) β} {s s' s'' : σ}

theorem run_bind (x : ExceptT ε (StateM σ) α) (f : α → ExceptT ε (StateM σ) β) (s : σ) :
    (x >>= f).run s = match x.run s with
      | (.ok a, s') => (f a).run s'
      | (.error e, s') => (.error e, s') := by
  rw [ExceptT.run_bind]
  change (StateT.bind x.run _ : StateM σ _) s = _
  unfold StateT.bind
  change (do let (result, s') ← (x.run s : Id _); _) = _
  rcases x.run s with ⟨_ | _, _⟩ <;> rfl

theorem run_bind_of_ok {a : α} (h : x.run s = (.ok a, s')) :
    (x >>= f).run s = (f a).run s' := by
  rw [run_bind, h]

theorem run_bind_of_error {e : ε} (h : x.run s = (.error e, s')) :
    (x >>= f).run s = (.error e, s') := by
  rw [run_bind, h]

theorem run_get_bind (f : σ → ExceptT ε (StateM σ) β) (s : σ) :
    (get >>= f).run s = (f s).run s :=
  run_bind_of_ok rfl

theorem run_liftM (x : Except ε α) (s : σ) :
    (liftM x : ExceptT ε (StateM σ) α).run s = (x, s) := by
  cases x <;> rfl

theorem run_tryCatch (x : ExceptT ε (StateM σ) α) (handler : ε → ExceptT ε (StateM σ) α)
    (s : σ) :
    (tryCatch x handler).run s = match x.run s with
      | (.ok a, s') => (.ok a, s')
      | (.error e, s') => (handler e).run s' := by
  rw [ExceptT.run_tryCatch]
  change (StateT.bind x.run _ : StateM σ _) s = _
  unfold StateT.bind
  change (do let (result, s') ← (x.run s : Id _); _) = _
  rcases x.run s with ⟨_ | _, _⟩ <;> rfl

theorem run_bind_eq_ok_iff {b : β} :
    (x >>= f).run s = (.ok b, s'') ↔
      ∃ a s', x.run s = (.ok a, s') ∧ (f a).run s' = (.ok b, s'') := by
  constructor
  · intro h
    rcases hx : x.run s with ⟨e | a, s'⟩
    · rw [run_bind_of_error hx] at h
      cases h
    · exact ⟨a, s', rfl, run_bind_of_ok hx ▸ h⟩
  · rintro ⟨a, s', hx, hf⟩
    rw [run_bind_of_ok hx, hf]

section Members

variable {member : α} {rest : List α} {g : α → ExceptT ε (StateM σ) PUnit}

theorem run_forM_of_ok {result : Except ε PUnit × σ}
    (h : (g member).run s = (.ok (), s')) (hrest : (rest.forM g).run s' = result) :
    ((member :: rest).forM g).run s = result :=
  (run_bind_of_ok h).trans hrest

theorem run_forM_of_error {e : ε} (h : (g member).run s = (.error e, s')) :
    ((member :: rest).forM g).run s = (.error e, s') :=
  run_bind_of_error h

end Members

end Chains

/-! ## Conditions that steps keep -/

/-- A step that keeps a condition on the state when it succeeds, and then gives
a result with a property. -/
def Keeps {σ ε α : Type} (I : σ → Prop) (x : ExceptT ε (StateM σ) α)
    (result : α → Prop) : Prop :=
  ∀ s a s', I s → x.run s = (.ok a, s') → I s' ∧ result a

namespace Keeps

variable {σ ε α β : Type} {I : σ → Prop} {x : ExceptT ε (StateM σ) α}
  {f : α → ExceptT ε (StateM σ) β} {result : α → Prop} {next : β → Prop}

theorem pure {a : α} (h : result a) :
    Keeps I (Pure.pure a : ExceptT ε (StateM σ) α) result := by
  intro s b s' hs hrun
  cases hrun
  exact ⟨hs, h⟩

theorem throw (e : ε) : Keeps I (throw e : ExceptT ε (StateM σ) α) result := by
  intro s a s' _ hrun
  cases hrun

theorem ofExcept (x : Except ε α) :
    Keeps I (liftM x : ExceptT ε (StateM σ) α) fun a => x = .ok a := by
  intro s a s' hs hrun
  cases x with
  | error e => cases hrun
  | ok b =>
      cases hrun
      exact ⟨hs, rfl⟩

theorem bind (hx : Keeps I x result) (hf : ∀ a, result a → Keeps I (f a) next) :
    Keeps I (x >>= f) next := by
  intro s b s'' hs hrun
  obtain ⟨a, s', hx', hf'⟩ := run_bind_eq_ok_iff.mp hrun
  obtain ⟨hs', ha⟩ := hx s a s' hs hx'
  exact hf a ha s' b s'' hs' hf'

theorem forM {members : List α} {g : α → ExceptT ε (StateM σ) PUnit}
    (h : ∀ member ∈ members, Keeps I (g member) fun _ => True) :
    Keeps I (members.forM g) fun _ => True := by
  induction members with
  | nil => exact pure trivial
  | cons member rest ih =>
      rw [List.forall_mem_cons] at h
      exact h.1.bind fun _ _ => ih h.2

end Keeps
end SchemaViews
