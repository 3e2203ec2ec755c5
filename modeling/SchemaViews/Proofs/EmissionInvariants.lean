import SchemaViews.Proofs.FreshNames
import SchemaViews.Proofs.HoistedTypes
import SchemaViews.Proofs.StatefulSteps

/-!
# Invariants of emission

A condition on what has been emitted holds of a whole module if it holds at its
start and every single step keeps it.  The names of declarations are continued
from the type names of the definitions, so a condition on names has to survive
what is put behind them on the way into a type.
-/

namespace SchemaViews

/-! ## Names behind names -/

namespace TypeNaming

def startsWord (text : List Char) : Bool :=
  text.head?.all fun c => c.isUpper || c.isDigit

theorem isUpper_toUpper {c : Char} (h : c.isLower = true) : c.toUpper.isUpper = true := by
  unfold Char.isLower at h
  unfold Char.isUpper Char.toUpper
  simp_all [UInt32.le_iff_toNat_le]
  omega

theorem startsWord_pascalLetters (text : List Char) :
    startsWord (pascalLetters false text) = true := by
  induction text with
  | nil => rfl
  | cons c rest ih =>
      rw [pascalLetters]
      by_cases hlower : c.isLower = true
      · simp [hlower, startsWord, isUpper_toUpper hlower]
      · by_cases hupper : c.isUpper = true
        · simp [hlower, hupper, startsWord]
        · by_cases hdigit : c.isDigit = true
          · simp [hlower, hupper, hdigit, startsWord]
          · simpa [hlower, hupper, hdigit] using ih

theorem startsWord_pascalOr {fallback : String} (h : startsWord fallback.toList = true)
    (name : String) : startsWord (pascalOr fallback name).toList = true := by
  unfold pascalOr
  dsimp only
  split
  · exact h
  · rw [pascalCase, String.toList_ofList]
    exact startsWord_pascalLetters _

end TypeNaming

theorem Definition.eq_declaredName {d : Definition} {name : String}
    (h : d.typeName = .ok name) : name = d.declaredName := by
  unfold typeName at h
  split at h
  · next text htext =>
      cases h
      rw [declaredName, htext]
      rfl
  · cases h

namespace Emit

/-- A condition on emissions and one on names that every step of an emission keeps,
but for references. -/
structure Stable (I : Emission → Prop) (named : String → Prop) : Prop where
  construct : ∀ e constructs, I e → I { e with constructs }
  used : ∀ e used, I e → I { e with used }
  declaration : ∀ e declaration, named declaration.name → I e →
    I { e with declarations := e.declarations ++ [declaration] }
  word : ∀ hint word, named hint → TypeNaming.startsWord word.toList = true →
    named (hint ++ word)

namespace Stable

variable {I : Emission → Prop} {named : String → Prop} (h : Stable I named)
include h

theorem require (construct : Construct) : Keeps I (Emit.require construct) fun _ => True := by
  intro e _ e' he hrun
  cases hrun
  refine ⟨?_, trivial⟩
  dsimp only
  split
  · exact he
  · exact h.construct e _ he

theorem declare {declaration : Declaration} (hname : named declaration.name) :
    Keeps I (Emit.declare declaration) fun _ => True := by
  intro e _ e' he hrun
  cases hrun
  exact ⟨h.declaration e declaration hname he, trivial⟩

theorem freshName (used : List String) {hint : String} (hhint : named hint) :
    named (TypeNaming.freshName used hint) := by
  obtain ⟨number, hnumber, -⟩ := TypeNaming.freshName_spec used hint
  rw [hnumber]
  match number with
  | 0 => exact hhint
  | 1 => exact h.word hint _ hhint rfl
  | n + 2 =>
      rw [TypeNaming.candidate, String.append_assoc]
      exact h.word hint _ hhint (by simp [TypeNaming.startsWord])

theorem fresh {hint : String} (hhint : named hint) : Keeps I (Emit.fresh hint) named := by
  intro e _ e' he hrun
  cases hrun
  exact ⟨h.used e _ he, h.freshName e.used hhint⟩

theorem item {hint : String} (hhint : named hint) : named (hint ++ "Item") :=
  h.word hint _ hhint rfl

theorem variant {hint : String} (hhint : named hint) (number : ℕ) :
    named (hint ++ "Variant" ++ toString number) := by
  rw [String.append_assoc]
  exact h.word hint _ hhint (by simp [TypeNaming.startsWord])

theorem field {hint : String} (hhint : named hint) (key : String) :
    named (hint ++ TypeNaming.pascalOr "Field" key) :=
  h.word hint _ hhint (TypeNaming.startsWord_pascalOr rfl key)

end Stable

/-- A type that is no reference, or a reference that keeps a condition. -/
def KeepsReference (I : Emission → Prop) : TypeExpr → Prop
  | .named module schema => Keeps I (reference module schema) fun _ => True
  | _ => True

theorem keepsReference_of_modules {I : Emission → Prop}
    (hmodules : ∀ e modules, I e → I { e with modules }) (type : TypeExpr) :
    type.Everywhere (KeepsReference I) := by
  intro inner _
  cases inner with
  | named module schema =>
      intro e _ e' he hrun
      refine ⟨?_, trivial⟩
      unfold reference at hrun
      dsimp only at hrun
      rw [run_get_bind] at hrun
      split at hrun
      · cases hrun
        exact he
      · split at hrun
        · obtain ⟨shown, e₁, hshown, hrun⟩ := run_bind_eq_ok_iff.mp hrun
          rw [run_liftM] at hshown
          obtain ⟨-, rfl⟩ := Prod.mk.inj hshown
          cases hrun
          dsimp only
          split
          · exact he
          · exact hmodules e _ he
        · cases hrun
  | _ => exact trivial

section Steps

variable {I : Emission → Prop} {named : String → Prop} (h : Stable I named)
include h

theorem translateAll_keeps {types : List TypeExpr}
    (htypes : ∀ type ∈ types, ∀ hint, named hint →
      Keeps I (translate hint type) fun _ => True)
    {hint : String} (hhint : named hint) (number : ℕ) :
    Keeps I (translateAll hint number types) fun _ => True := by
  induction types generalizing number with
  | nil =>
      rw [translateAll]
      exact .pure trivial
  | cons type rest ih =>
      rw [List.forall_mem_cons] at htypes
      rw [translateAll]
      apply (htypes.1 _ (h.variant hhint number)).bind
      intro text _
      exact (ih htypes.2 (number + 1)).bind fun _ _ => .pure trivial

theorem translateFields_keeps {fields : List (Field TypeExpr)}
    (hfields : ∀ field ∈ fields, ∀ hint, named hint →
      Keeps I (translate hint field.type) fun _ => True)
    {owner : String} (howner : named owner) :
    Keeps I (translateFields owner fields) fun _ => True := by
  induction fields with
  | nil =>
      rw [translateFields]
      exact .pure trivial
  | cons field rest ih =>
      rw [List.forall_mem_cons] at hfields
      obtain ⟨name, optional, type⟩ := field
      have hrest := ih hfields.2
      cases name with
      | str key =>
          rw [translateFields]
          apply (hfields.1 _ (h.field howner key)).bind
          intro text _
          cases optional with
          | false => exact hrest.bind fun _ _ => .pure trivial
          | true =>
              apply (h.require .notRequired).bind
              intro _ _
              exact hrest.bind fun _ _ => .pure trivial
      | null | bool | int | float | moment | ref =>
          simp only [translateFields]
          exact .throw _

theorem translate_keeps {type : TypeExpr} (htype : type.Everywhere (KeepsReference I))
    {hint : String} (hhint : named hint) : Keeps I (translate hint type) fun _ => True := by
  induction type using TypeExpr.induction generalizing hint with
  | step type ih =>
      have hchild : ∀ child ∈ type.children, ∀ hint, named hint →
          Keeps I (translate hint child) fun _ => True :=
        fun child hmem hint hhint => ih child hmem (htype.inside hmem) hhint
      cases type with
      | missing =>
          rw [translate]
          exact .throw _
      | primitive kind =>
          rw [translate]
          exact .pure trivial
      | nullable inner =>
          rw [translate]
          have hinner := hchild inner (by simp [TypeExpr.children]) hint hhint
          exact hinner.bind fun _ _ => .pure trivial
      | list item =>
          rw [translate]
          have hitem := hchild item (by simp [TypeExpr.children]) _ (h.item hhint)
          exact hitem.bind fun _ _ => .pure trivial
      | freeList | freeMap =>
          rw [translate]
          exact (h.require .any).bind fun _ _ => .pure trivial
      | union alternatives =>
          rw [translate]
          cases alternatives with
          | nil => exact (h.require .never).bind fun _ _ => .pure trivial
          | cons first rest =>
              have hall := translateAll_keeps h hchild hhint 1
              exact hall.bind fun _ _ => .pure trivial
      | literal values =>
          rw [translate]
          cases values with
          | nil => exact (h.require .never).bind fun _ _ => .pure trivial
          | cons first rest => exact (h.require .literal).bind fun _ _ => .pure trivial
      | named module schema =>
          rw [translate]
          exact htype.here
      | struct fields =>
          rw [translate]
          have hfields : ∀ field ∈ fields, ∀ hint, named hint →
              Keeps I (translate hint field.type) fun _ => True :=
            fun field hfield => hchild field.type (List.mem_map_of_mem hfield)
          apply (h.fresh hhint).bind
          intro name hname
          apply (h.require .typedDict).bind
          intro _ _
          apply (translateFields_keeps h hfields hname).bind
          intro lines _
          have hrecord : Keeps I (declare (.record name [] lines)) fun _ => True :=
            h.declare hname
          exact hrecord.bind fun _ _ => .pure trivial

theorem define_keeps (withDescriptions : Bool) {d : Definition}
    (htype : d.type.Everywhere (KeepsReference I))
    (hname : named d.declaredName) : Keeps I (define withDescriptions d) fun _ => True := by
  unfold define
  dsimp only
  generalize (if withDescriptions then Lines.ofDescriptions d.descriptions else []) = lines
  apply (Keeps.ofExcept d.typeName).bind
  intro name hd
  have hnamed : named name := d.eq_declaredName hd ▸ hname
  split
  · next fields hfields =>
      have hinside : ∀ field ∈ fields, ∀ hint, named hint →
          Keeps I (translate hint field.type) fun _ => True := by
        intro field hfield hint hhint
        have hchild : field.type ∈ d.type.children := by
          rw [hfields]
          exact List.mem_map_of_mem hfield
        exact translate_keeps h (htype.inside hchild) hhint
      apply (h.require .typedDict).bind
      intro _ _
      apply (translateFields_keeps h hinside hnamed).bind
      intro written _
      exact h.declare hnamed
  · apply (translate_keeps h htype hnamed).bind
    intro text _
    exact h.declare hnamed

end Steps

/-! ## Modules -/

variable {withDescriptions : Bool} {outline : Outline} {e e' : Emission}

theorem declare_run (declaration : Declaration) (h : (declare declaration).run e = (.ok (), e')) :
    declaration.name ∈ e'.declarations.map Declaration.name := by
  cases h
  simp

theorem define_declares {d : Definition}
    (h : (define withDescriptions d).run e = (.ok (), e')) :
    d.declaredName ∈ e'.declarations.map Declaration.name := by
  unfold define at h
  dsimp only at h
  generalize (if withDescriptions then Lines.ofDescriptions d.descriptions else []) = lines at h
  obtain ⟨name, e₁, hname, h⟩ := run_bind_eq_ok_iff.mp h
  have hkeeps : Keeps (fun _ => True) (d.typeName : Emit String) fun a => d.typeName = .ok a :=
    .ofExcept d.typeName
  rw [← d.eq_declaredName (hkeeps _ _ _ trivial hname).2]
  split at h
  · obtain ⟨_, e₂, -, h⟩ := run_bind_eq_ok_iff.mp h
    obtain ⟨written, e₃, -, h⟩ := run_bind_eq_ok_iff.mp h
    exact declare_run (.record name lines written) h
  · obtain ⟨text, e₂, -, h⟩ := run_bind_eq_ok_iff.mp h
    exact declare_run (.alias name lines text) h

theorem generate_eq_ok {text : String}
    (h : (generate withDescriptions outline).run e = (.ok text, e')) :
    ∃ declared, declaredNames [] outline.definitions = .ok declared ∧
      (outline.definitions.forM (define withDescriptions)).run
          { Emission.start outline.module with used := OrderedMap.keys declared } =
        (.ok (), e') ∧
      text = e'.text outline.comment := by
  unfold generate at h
  obtain ⟨_, e₁, hset, h⟩ := run_bind_eq_ok_iff.mp h
  cases hset
  obtain ⟨declared, e₂, hdeclared, h⟩ := run_bind_eq_ok_iff.mp h
  cases hnames : declaredNames [] outline.definitions with
  | error failure =>
      rw [hnames] at hdeclared
      cases hdeclared
  | ok all =>
      rw [hnames] at hdeclared
      cases hdeclared
      obtain ⟨_, e₃, hused, h⟩ := run_bind_eq_ok_iff.mp h
      cases hused
      obtain ⟨_, e₄, hrun, h⟩ := run_bind_eq_ok_iff.mp h
      cases h
      exact ⟨declared, rfl, hrun, rfl⟩

/-- A condition that every step keeps holds of a generated module. -/
theorem generate_keeps {I : Emission → Prop} {named : String → Prop} (h : Stable I named)
    (hstart : ∀ used, I { Emission.start outline.module with used })
    (hdefinitions : ∀ d ∈ outline.definitions,
      d.type.Everywhere (KeepsReference I) ∧ named d.declaredName)
    {text : String} (hrun : (generate withDescriptions outline).run e = (.ok text, e')) :
    I e' := by
  obtain ⟨declared, -, hrun, -⟩ := generate_eq_ok hrun
  have hall : Keeps I (outline.definitions.forM (define withDescriptions)) fun _ => True :=
    Keeps.forM fun d hd => define_keeps h withDescriptions (hdefinitions d hd).1
      (hdefinitions d hd).2
  exact (hall _ _ _ (hstart _) hrun).1

/-! ## Names of declarations -/

theorem define_keeps_declared (withDescriptions : Bool) (name : String) (d : Definition) :
    Keeps (fun e => name ∈ e.declarations.map Declaration.name)
      (define withDescriptions d) fun _ => True := by
  have hstable : Stable (fun e => name ∈ e.declarations.map Declaration.name)
      fun _ => True := by
    constructor
    · exact fun _ _ he => he
    · exact fun _ _ he => he
    · intro e declaration _ he
      rw [List.map_append]
      exact List.mem_append_left _ he
    · exact fun _ _ _ _ => trivial
  exact define_keeps hstable withDescriptions
    (keepsReference_of_modules (fun _ _ he => he) d.type) trivial

theorem definitions_declare {definitions : List Definition}
    (h : (definitions.forM (define withDescriptions)).run e = (.ok (), e'))
    {d : Definition} (hd : d ∈ definitions) :
    d.declaredName ∈ e'.declarations.map Declaration.name := by
  induction definitions generalizing e with
  | nil => exact absurd hd List.not_mem_nil
  | cons first rest ih =>
      obtain ⟨_, e₁, hfirst, hrest⟩ := run_bind_eq_ok_iff.mp h
      rcases List.mem_cons.mp hd with rfl | hd
      · have hkeeps := Keeps.forM fun other (_ : other ∈ rest) =>
          define_keeps_declared withDescriptions d.declaredName other
        exact (hkeeps _ _ _ (define_declares hfirst) hrest).1
      · exact ih hrest hd

theorem generate_declares {text : String}
    (h : (generate withDescriptions outline).run e = (.ok text, e')) :
    ∀ name ∈ outline.typeNames, name ∈ e'.declarations.map Declaration.name := by
  obtain ⟨declared, -, hrun, -⟩ := generate_eq_ok h
  intro name hname
  obtain ⟨d, hd, rfl⟩ := List.mem_map.mp hname
  exact definitions_declare hrun hd

end Emit
end SchemaViews
