import Mathlib.Data.List.Forall2
import SchemaViews.Outcome

/-!
# Laws of results

A chain of steps succeeds when every step does, and its failure is the failure
of one of them.  The first part reads a successful chain apart; the second
bounds the failures of a chain by the failures of its steps, so that a kind of
failure can be excluded step by step.  The third compares a chain with one
whose steps go further.
-/

namespace SchemaViews

variable {ε α β : Type}

/-! ## Successful chains -/

theorem bind_eq_ok_iff
    {x : Except ε α} {f : α → Except ε β} {b : β} :
    x >>= f = .ok b ↔ ∃ a, x = .ok a ∧ f a = .ok b := by
  cases x with
  | error failure => simp [bind, Except.bind]
  | ok a => simp [bind, Except.bind]

theorem map_eq_ok_iff
    {x : Except ε α} {f : α → β} {b : β} :
    f <$> x = .ok b ↔ ∃ a, x = .ok a ∧ f a = b := by
  cases x with
  | error failure => simp [Functor.map, Except.map]
  | ok a => simp [Functor.map, Except.map]

@[simp] theorem pure_eq_ok_iff {a b : α} :
    (pure a : Except ε α) = .ok b ↔ a = b := by
  simp [pure, Except.pure]

theorem mapError_eq_ok_iff {ε' : Type} {x : Except ε α} {g : ε → ε'} {a : α} :
    x.mapError g = .ok a ↔ x = .ok a := by
  cases x <;> simp [Except.mapError]

theorem mapError_map {ε' : Type} (x : Except ε α) (f : α → β) (g : ε → ε') :
    (f <$> x).mapError g = f <$> x.mapError g := by
  cases x <;> rfl

theorem mapM_eq_ok_iff
    {f : α → Except Failure β} {xs : List α} {ys : List β} :
    xs.mapM f = .ok ys ↔ List.Forall₂ (fun x y => f x = .ok y) xs ys := by
  induction xs generalizing ys with
  | nil =>
      rw [List.mapM_nil, pure_eq_ok_iff, List.forall₂_nil_left_iff, eq_comm]
  | cons x xs ih =>
      rw [List.mapM_cons, bind_eq_ok_iff, List.forall₂_cons_left_iff]
      constructor
      · rintro ⟨y, hy, htail⟩
        obtain ⟨rest, hrest, hcons⟩ := bind_eq_ok_iff.mp htail
        exact ⟨y, rest, hy, ih.mp hrest, (pure_eq_ok_iff.mp hcons).symm⟩
      · rintro ⟨y, rest, hy, hrest, rfl⟩
        exact ⟨y, hy, bind_eq_ok_iff.mpr ⟨rest, ih.mpr hrest, rfl⟩⟩

theorem exists_of_mem_right {R : α → β → Prop} {xs : List α} {ys : List β}
    (h : List.Forall₂ R xs ys) {y : β} (hy : y ∈ ys) : ∃ x ∈ xs, R x y := by
  induction h with
  | nil => simp at hy
  | @cons x z xs zs hxz _ ih =>
      rcases List.mem_cons.mp hy with rfl | hrest
      · exact ⟨x, List.mem_cons_self, hxz⟩
      · obtain ⟨w, hw, hwy⟩ := ih hrest
        exact ⟨w, List.mem_cons_of_mem _ hw, hwy⟩

theorem exists_of_mem_mapM {f : α → Except Failure β} {xs : List α}
    {ys : List β} (h : xs.mapM f = .ok ys) {y : β} (hy : y ∈ ys) :
    ∃ x ∈ xs, f x = .ok y :=
  exists_of_mem_right (mapM_eq_ok_iff.mp h) hy

theorem mapM_attach (f : α → Except Failure β) (xs : List α) :
    (xs.attach.mapM fun x => f x.val) = xs.mapM f := by
  rw [List.mapM_subtype (g := f) fun _ _ => rfl, List.unattach_attach]

theorem mapM_congr {f g : α → Except Failure β} {xs : List α}
    (h : ∀ x ∈ xs, f x = g x) : xs.mapM f = xs.mapM g := by
  induction xs with
  | nil => rfl
  | cons x xs ih =>
      rw [List.forall_mem_cons] at h
      rw [List.mapM_cons, List.mapM_cons, h.1, ih h.2]

theorem mapM_eq_map {γ : Type} {f : α → Except Failure β} {f' : α → Except Failure γ}
    {g : β → γ} {xs : List α} (h : ∀ x ∈ xs, f' x = g <$> f x) :
    xs.mapM f' = List.map g <$> xs.mapM f := by
  induction xs with
  | nil => rfl
  | cons x xs ih =>
      rw [List.forall_mem_cons] at h
      rw [List.mapM_cons, List.mapM_cons, h.1, ih h.2]
      cases f x with
      | error failure => rfl
      | ok y => cases xs.mapM f <;> rfl

theorem bind_congr_of_ok {x : Except ε α} {f g : α → Except ε β}
    (h : ∀ a, x = .ok a → f a = g a) : x >>= f = x >>= g := by
  cases x with
  | error failure => rfl
  | ok a => exact h a rfl

theorem mapM_bind_eq_ok {γ : Type} {f : α → Except Failure β} {g : β → Except Failure γ}
    {xs : List α} {ys : List β} {zs : List γ} (hf : xs.mapM f = .ok ys)
    (hg : ys.mapM g = .ok zs) : (xs.mapM fun x => f x >>= g) = .ok zs := by
  rw [mapM_eq_ok_iff] at hf hg ⊢
  induction hf generalizing zs with
  | nil =>
      cases hg
      exact .nil
  | cons hy _ ih =>
      cases hg with
      | cons hz hrest => exact .cons (bind_eq_ok_iff.mpr ⟨_, hy, hz⟩) (ih hrest)

theorem mapM_split_eq_ok {f : α → Except Failure β} {before after : List α} {x : α}
    {ys : List β} (h : (before ++ x :: after).mapM f = .ok ys) :
    ∃ firsts y lasts, before.mapM f = .ok firsts ∧ f x = .ok y ∧
      after.mapM f = .ok lasts ∧ ys = firsts ++ y :: lasts := by
  rw [List.mapM_append, List.mapM_cons] at h
  obtain ⟨firsts, hfirsts, h⟩ := bind_eq_ok_iff.mp h
  obtain ⟨others, hothers, h⟩ := bind_eq_ok_iff.mp h
  obtain ⟨y, hy, hothers⟩ := bind_eq_ok_iff.mp hothers
  obtain ⟨lasts, hlasts, hothers⟩ := bind_eq_ok_iff.mp hothers
  cases pure_eq_ok_iff.mp hothers
  exact ⟨firsts, y, lasts, hfirsts, hy, hlasts, (pure_eq_ok_iff.mp h).symm⟩

/-- A step whose result is there. -/
def Succeeds (x : Except Failure α) : Prop :=
  ∃ a, x = .ok a

theorem succeeds_ok (a : α) : Succeeds (.ok a : Except Failure α) :=
  ⟨a, rfl⟩

theorem succeeds_bind_iff {x : Except Failure α} {f : α → Except Failure β} :
    Succeeds (x >>= f) ↔ ∃ a, x = .ok a ∧ Succeeds (f a) := by
  constructor
  · rintro ⟨b, hb⟩
    obtain ⟨a, ha, hfa⟩ := bind_eq_ok_iff.mp hb
    exact ⟨a, ha, b, hfa⟩
  · rintro ⟨a, ha, b, hfa⟩
    exact ⟨b, bind_eq_ok_iff.mpr ⟨a, ha, hfa⟩⟩

theorem succeeds_map_iff {x : Except Failure α} {f : α → β} :
    Succeeds (f <$> x) ↔ Succeeds x := by
  constructor
  · rintro ⟨b, hb⟩
    obtain ⟨a, ha, _⟩ := map_eq_ok_iff.mp hb
    exact ⟨a, ha⟩
  · rintro ⟨a, ha⟩
    exact ⟨f a, map_eq_ok_iff.mpr ⟨a, ha, rfl⟩⟩

theorem Succeeds.of_bind {x : Except Failure α} {f : α → Except Failure β} {a : α}
    (h : Succeeds (x >>= f)) (hx : x = .ok a) : Succeeds (f a) := by
  subst hx
  exact h

theorem succeeds_mapM_iff {f : α → Except Failure β} {xs : List α} :
    Succeeds (xs.mapM f) ↔ ∀ x ∈ xs, Succeeds (f x) := by
  induction xs with
  | nil => exact ⟨fun _ => by simp, fun _ => succeeds_ok []⟩
  | cons x xs ih =>
      rw [List.mapM_cons, succeeds_bind_iff, List.forall_mem_cons, ← ih]
      constructor
      · rintro ⟨y, hy, htail⟩
        obtain ⟨rest, hrest, _⟩ := succeeds_bind_iff.mp htail
        exact ⟨⟨y, hy⟩, rest, hrest⟩
      · rintro ⟨⟨y, hy⟩, rest, hrest⟩
        exact ⟨y, hy, succeeds_bind_iff.mpr ⟨rest, hrest, succeeds_ok _⟩⟩

/-! ## Failures of a chain -/

/-- A step that fails in allowed ways only, if it fails at all. -/
def FailsOnly (allowed : Failure → Prop) (x : Except Failure α) : Prop :=
  ∀ failure, x = .error failure → allowed failure

variable {allowed : Failure → Prop}

theorem failsOnly_ok (a : α) : FailsOnly allowed (.ok a : Except Failure α) :=
  nofun

theorem failsOnly_error {failure : Failure} (hallowed : allowed failure) :
    FailsOnly allowed (.error failure : Except Failure α) := by
  intro other hother
  cases hother
  exact hallowed

theorem FailsOnly.of_succeeds {x : Except Failure α} (hx : Succeeds x) :
    FailsOnly allowed x := by
  obtain ⟨a, rfl⟩ := hx
  exact failsOnly_ok a

theorem FailsOnly.bind {x : Except Failure α} {f : α → Except Failure β}
    (hx : FailsOnly allowed x)
    (hf : ∀ a, x = .ok a → FailsOnly allowed (f a)) :
    FailsOnly allowed (x >>= f) := by
  cases x with
  | error failure => exact failsOnly_error (hx failure rfl)
  | ok a => exact hf a rfl

theorem FailsOnly.map {x : Except Failure α} (hx : FailsOnly allowed x)
    (f : α → β) : FailsOnly allowed (f <$> x) := by
  cases x with
  | error failure => exact failsOnly_error (hx failure rfl)
  | ok a => exact failsOnly_ok (f a)

theorem FailsOnly.mapM {f : α → Except Failure β} {xs : List α}
    (hf : ∀ x ∈ xs, FailsOnly allowed (f x)) :
    FailsOnly allowed (xs.mapM f) := by
  induction xs with
  | nil => exact failsOnly_ok []
  | cons x xs ih =>
      rw [List.mapM_cons]
      rw [List.forall_mem_cons] at hf
      refine hf.1.bind fun y _ => ?_
      exact (ih hf.2).bind fun rest _ => failsOnly_ok (y :: rest)

theorem FailsOnly.cases {x : Except Failure α} (hx : FailsOnly allowed x) :
    Succeeds x ∨ ∃ failure, x = .error failure ∧ allowed failure := by
  cases x with
  | error failure => exact .inr ⟨failure, rfl, hx failure rfl⟩
  | ok a => exact .inl (succeeds_ok a)

/-! ## Endless steps -/

/-- Nothing changes from one step to the other, unless the first was endless. -/
def Settles (x y : Except Failure α) : Prop :=
  x = .error .endless ∨ y = x

theorem Settles.refl (x : Except Failure α) : Settles x x :=
  .inr rfl

theorem Settles.bind {x y : Except Failure α} {f g : α → Except Failure β}
    (hxy : Settles x y) (hfg : ∀ a, Settles (f a) (g a)) :
    Settles (x >>= f) (y >>= g) := by
  rcases hxy with rfl | rfl
  · exact .inl rfl
  · cases y with
    | error failure => exact .refl _
    | ok a => exact hfg a

theorem Settles.map {x y : Except Failure α} (hxy : Settles x y) (f : α → β) :
    Settles (f <$> x) (f <$> y) := by
  rcases hxy with rfl | rfl
  · exact .inl rfl
  · exact .refl _

theorem Settles.mapM {f g : α → Except Failure β} {xs : List α}
    (hfg : ∀ x ∈ xs, Settles (f x) (g x)) : Settles (xs.mapM f) (xs.mapM g) := by
  induction xs with
  | nil => exact .refl _
  | cons x xs ih =>
      rw [List.forall_mem_cons] at hfg
      rw [List.mapM_cons, List.mapM_cons]
      refine hfg.1.bind fun y => ?_
      exact (ih hfg.2).bind fun rest => .refl _

theorem Settles.eq_ok {x y : Except Failure α} (hxy : Settles x y) {a : α}
    (hx : x = .ok a) : y = .ok a := by
  rcases hxy with hendless | rfl
  · rw [hx] at hendless
    cases hendless
  · exact hx

end SchemaViews
