import SchemaViews.Failure

/-!
# Results with warnings

A step ends with a value or a failure, and warns on the way.  Warnings never influence a result:
the result of a sequence of steps is computed from the results of the steps alone.
-/

namespace SchemaViews

inductive Warning
  | unsupportedReference (pointer : String)
  | unknownComponent (name : String)
  | untaggedOption (origin : Option String) (property : Value)
deriving DecidableEq

def Warning.message : Warning → String
  | .unsupportedReference pointer =>
    "Leaving unsupported $ref " ++ Display.quoteText pointer ++ " unresolved"
  | .unknownComponent name =>
    "Cannot expand reference to unknown schema " ++ Display.quoteText name
      ++ ", merging its sibling keys only"
  | .untaggedOption origin property =>
    "oneOf option in " ++ origin.getD "None" ++ " declares no value for discriminator "
      ++ property.quoted ++ ", leaving it untagged"

structure Outcome (α : Type) where
  warnings : List Warning
  result : Except Failure α

namespace Outcome

variable {α β : Type}

protected def pure (a : α) : Outcome α :=
  ⟨[], .ok a⟩

protected def bind (x : Outcome α) (f : α → Outcome β) : Outcome β :=
  match x.result with
  | .ok a =>
    let y := f a
    ⟨x.warnings ++ y.warnings, y.result⟩
  | .error failure => ⟨x.warnings, .error failure⟩

instance : Monad Outcome where
  pure := Outcome.pure
  bind := Outcome.bind

def fail (failure : Failure) : Outcome α :=
  ⟨[], .error failure⟩

def warn (warning : Warning) : Outcome Unit :=
  ⟨[warning], .ok ()⟩

def ofExcept (result : Except Failure α) : Outcome α :=
  ⟨[], result⟩

instance : MonadLift (Except Failure) Outcome where
  monadLift := ofExcept

def distinctWarnings (x : Outcome α) : List Warning :=
  x.warnings.foldl (fun kept w => if w ∈ kept then kept else kept ++ [w]) []

/-! ## Results -/

@[simp] theorem result_pure (a : α) : (pure a : Outcome α).result = .ok a := rfl

@[simp] theorem result_fail (failure : Failure) :
    (fail failure : Outcome α).result = .error failure := rfl

@[simp] theorem result_warn (warning : Warning) : (warn warning).result = .ok () := rfl

@[simp] theorem result_ofExcept (r : Except Failure α) : (ofExcept r).result = r := rfl

@[simp] theorem result_bind (x : Outcome α) (f : α → Outcome β) :
    (x >>= f).result = x.result >>= fun a => (f a).result := by
  change (Outcome.bind x f).result = _
  unfold Outcome.bind
  cases x.result <;> rfl

instance : LawfulMonad Outcome :=
  LawfulMonad.mk' Outcome
    (by
      rintro α ⟨ws, r⟩
      cases r <;> simp [Functor.map, Outcome.bind, Outcome.pure])
    (fun a f => by simp [pure, bind, Outcome.bind, Outcome.pure])
    (by
      rintro α β γ ⟨ws, r⟩ f g
      cases r with
      | error e => simp [bind, Outcome.bind]
      | ok a => cases h : (f a).result <;> simp [bind, Outcome.bind, h])

@[simp] theorem result_map (f : α → β) (x : Outcome α) : (f <$> x).result = f <$> x.result := by
  rw [map_eq_pure_bind, result_bind]
  cases x.result <;> rfl

theorem result_mapM (f : α → Outcome β) (xs : List α) :
    (xs.mapM f).result = xs.mapM fun a => (f a).result := by
  induction xs with
  | nil => rfl
  | cons a xs ih =>
    simp only [List.mapM_cons, result_bind, ih]
    rfl

end Outcome
end SchemaViews
