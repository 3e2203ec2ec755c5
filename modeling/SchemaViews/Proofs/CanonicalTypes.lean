import SchemaViews.Proofs.ProperValues
import SchemaViews.Proofs.ResolvedTypes

/-!
# Canonical types

A resolved type has no union of one alternative, no structure in which a name
stands twice, no enumerated texts in the read view and nothing that is missing.
It names a module for every component but the one that is being compiled.  All of
this is settled where the parts of a type are made, except for the names in a
structure: they differ because the properties of the object differ, and that has to
be carried through the schemas that are merged on the way.
-/

namespace SchemaViews

/-! ## Proper fragments -/

namespace Fragment

def names : Fragment → List Scalar
  | .object _ properties _ => properties.map Prod.fst
  | _ => []

/-- A fragment of proper schemas, in which the properties of an object have
different names. -/
inductive Proper : Fragment → Prop
  | intro {fragment : Fragment} :
      fragment.rawValue.Proper → Scalar.Apart fragment.names →
        (∀ part ∈ fragment.inside, Proper part) → Proper fragment

namespace Proper

variable {fragment part : Fragment}

theorem raw (h : fragment.Proper) : fragment.rawValue.Proper := by
  cases h with
  | intro hraw _ _ => exact hraw

theorem apart (h : fragment.Proper) : Scalar.Apart fragment.names := by
  cases h with
  | intro _ hapart _ => exact hapart

theorem inside (h : fragment.Proper) (hpart : part ∈ fragment.inside) : part.Proper := by
  cases h with
  | intro _ _ hinside => exact hinside part hpart

theorem carries : Carries Proper Value.Proper where
  raw := raw
  inside := inside
  tag := fun _ name tag _ _ => Value.proper_tagObject name tag

end Proper

theorem From.proper {fragment : Fragment} (h : fragment.From Value.Proper) :
    fragment.Proper := by
  have hraw : ∀ {fragment : Fragment}, fragment.From Value.Proper →
      fragment.rawValue.Proper := From.raw Value.proper_invariant
  have hinside : ∀ {fragment part : Fragment}, fragment.From Value.Proper →
      part ∈ fragment.inside → part.From Value.Proper :=
    From.inside Value.proper_invariant
  -- what stands inside was read as well, and only an object has names
  induction fragment using Fragment.induction with
  | reference | primitive | choice | freeObject | freeArray =>
      exact .intro (hraw h) List.Pairwise.nil (fun part hpart => by cases hpart)
  | object notes properties required ih =>
      refine .intro (hraw h) h.names_apart fun part hpart => ?_
      obtain ⟨entry, hentry, rfl⟩ := List.mem_map.mp hpart
      exact ih entry hentry (hinside h hpart)
  | array notes items ih =>
      refine .intro (hraw h) List.Pairwise.nil fun part hpart => ?_
      cases List.mem_singleton.mp hpart
      exact ih (hinside h hpart)
  | oneOf notes parts _ ih | allOf notes parts ih | anyOf notes parts ih =>
      exact .intro (hraw h) List.Pairwise.nil fun part hpart =>
        ih part hpart (hinside h hpart)

end Fragment

/-! ## Canonical types -/

namespace Scope

/-- The canonical form of a single expression. -/
def Canonical (s : Scope) : TypeExpr → Prop
  | .missing => False
  | .literal _ => s.view = .write
  | .struct fields => Scalar.Apart (fields.map Field.name)
  | .union alternatives => alternatives.length ≠ 1
  | .named module name =>
      (module = .null ↔ s.origin = some name) ∧
        (s.origin ≠ some name → s.context.moduleOf s.view name = .ok module)
  | .primitive _ | .nullable _ | .list _ | .freeList | .freeMap => True

variable {s : Scope}

theorem named_canonical
    (hmodules : ∀ entry ∈ s.context.modules s.view, ∃ text, entry.2 = .str text)
    {name : String} {type : TypeExpr} (h : s.named name = .ok type) :
    s.Canonical type := by
  unfold Scope.named at h
  split at h
  · next hself =>
      cases h
      exact ⟨iff_of_true rfl hself, absurd hself⟩
  · next hother =>
      obtain ⟨module, hmodule, h⟩ := bind_eq_ok_iff.mp h
      cases h
      refine ⟨iff_of_false ?_ hother, fun _ => hmodule⟩
      rintro rfl
      unfold Context.moduleOf at hmodule
      split at hmodule
      · next hfind =>
          cases hmodule
          obtain ⟨text, htext⟩ := hmodules _ (OrderedMap.mem_of_find? hfind)
          cases htext
      · cases hmodule

theorem makesFrom_canonical
    (hmodules : ∀ entry ∈ s.context.modules s.view, ∃ text, entry.2 = .str text) :
    s.MakesFrom Fragment.Proper s.Canonical where
  primitive := fun _ => trivial
  literal := fun _ hview => hview
  nullable := fun _ => trivial
  list := fun _ => trivial
  freeList := trivial
  freeMap := trivial
  struct := fun hobject _ hnames => hobject.apart.sublist hnames
  union := fun _ hlength => hlength
  named := fun _ _ => named_canonical hmodules

theorem closed_proper (harena : ∀ entry ∈ s.context.arena, entry.2.Proper) :
    s.Closed Fragment.Proper where
  inside := Fragment.Proper.inside
  reopens := fun hfragment h =>
    (Fragment.Proper.carries.reopens Value.proper_invariant harena hfragment h).proper

end Scope

/-- Whether a schema is given as it stands or as a fragment, every expression inside
its type is canonical. -/
theorem resolve_canonical {c : Context} (harena : ∀ entry ∈ c.arena, entry.2.Proper)
    (hmodules : ∀ view, ∀ entry ∈ c.modules view, ∃ text, entry.2 = .str text)
    (origin : Option String) :
    (∀ (view : View) (fragment : Fragment) (type : TypeExpr), fragment.Proper →
      (Scope.resolve ⟨view, c, origin⟩ fragment).result = .ok type →
        type.Everywhere (Scope.Canonical ⟨view, c, origin⟩)) ∧
    ∀ (schema mode : Value) (type : TypeExpr), schema.Proper →
      (resolveSchema c origin schema mode).result = .ok type →
        ∃ view : View, mode = .str view.name ∧
          type.Everywhere (Scope.Canonical ⟨view, c, origin⟩) := by
  have hresolve : ∀ (view : View) (fragment : Fragment) (type : TypeExpr),
      fragment.Proper → (Scope.resolve ⟨view, c, origin⟩ fragment).result = .ok type →
        type.Everywhere (Scope.Canonical ⟨view, c, origin⟩) := by
    intro view fragment type hfragment htype
    exact (Scope.makesFrom_canonical (hmodules view)).resolveWithin
      (Scope.closed_proper harena) _ hfragment htype
  refine ⟨hresolve, fun schema mode type hschema htype => ?_⟩
  rw [resolveSchema, Outcome.result_bind] at htype
  obtain ⟨fragment, hread, htype⟩ := bind_eq_ok_iff.mp htype
  cases hview : View.ofValue? mode with
  | none =>
      rw [hview] at htype
      cases htype
  | some view =>
      rw [hview] at htype
      have hfragment : fragment.Proper := (Fragment.from_of_read hschema hread).proper
      exact ⟨view, View.ofValue?_eq_some_iff.mp hview,
        hresolve view fragment type hfragment htype⟩

theorem shape_canonical :
    let reference := fun name => Value.map [(.str referenceKey, .ref { name := name })]
    let number : Value := .map [(.str "type", .str "number")]
    let circle : Value := .map
      [(.str "type", .str "object"), (.str "properties", .map [(.str "radius", number)])]
    let square : Value := .map
      [(.str "type", .str "object"),
        (.str "properties", .map
          [(.str "kind", .map
              [(.str "type", .str "string"), (.str "enum", .list [.str "square"])]),
            (.str "inner", .map [(.str "oneOf", .list [reference "Shape"])]),
            (.str "colour", reference "Colour")])]
    let shape : Value := .map
      [(.str "oneOf", .list [reference "Circle", square]),
        (.str "discriminator", .map [(.str "propertyName", .str "kind")]),
        (.str "nullable", .bool true)]
    let c : Context := .uniform (.str "Models") (.str "Requests")
      [("Circle", circle), ("Shape", shape), ("Colour", number)]
    let tagged : TypeExpr → TypeExpr → Value → TypeExpr := fun round angular module =>
      .nullable (.union
        [.struct [⟨.str "radius", true, .union [.primitive .float, .primitive .integer]⟩,
            ⟨.str "kind", false, round⟩],
          .struct [⟨.str "kind", false, angular⟩,
            ⟨.str "inner", true, .named .null "Shape"⟩,
            ⟨.str "colour", true, .named module "Colour"⟩]])
    let read := tagged (.primitive .string) (.primitive .string) (.str "Models")
    let write := tagged (.literal ["Circle"]) (.literal ["square"]) (.str "Requests")
    (∃ fragment, Fragment.read shape = .ok fragment ∧
      (Scope.resolve ⟨.read, c, some "Shape"⟩ fragment).result = .ok read) ∧
      (resolveSchema c (some "Shape") shape (.str "write")).result = .ok write ∧
      read.Everywhere (Scope.Canonical ⟨.read, c, some "Shape"⟩) ∧
      write.Everywhere (Scope.Canonical ⟨.write, c, some "Shape"⟩) := by
  intro reference number circle square shape c tagged read write
  have harena : ∀ entry ∈ c.arena, entry.2.Proper := by decide
  have hmodules : ∀ view, ∀ entry ∈ c.modules view, ∃ text, entry.2 = .str text := by
    rintro (_ | _) entry hentry <;> obtain ⟨_, -, rfl⟩ := List.mem_map.mp hentry
    · exact ⟨"Models", rfl⟩
    · exact ⟨"Requests", rfl⟩
  have hshape : shape.Proper := by decide
  have hrun : (Fragment.read shape >>= fun fragment =>
      (Scope.resolve ⟨.read, c, some "Shape"⟩ fragment).result) = .ok read := by
    decide +kernel
  have hwrite : (resolveSchema c (some "Shape") shape (.str "write")).result = .ok write := by
    decide +kernel
  obtain ⟨fragment, hfragment, hread⟩ := bind_eq_ok_iff.mp hrun
  have hcanonical := resolve_canonical harena hmodules (some "Shape")
  obtain ⟨view, hview, hall⟩ := hcanonical.2 shape (.str "write") write hshape hwrite
  cases View.ofValue?_eq_some_iff.mpr hview
  refine ⟨⟨fragment, hfragment, hread⟩, hwrite, ?_, hall⟩
  exact hcanonical.1 .read fragment read (Fragment.from_of_read hshape hfragment).proper
    hread

end SchemaViews
