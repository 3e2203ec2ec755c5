import SchemaViews.Proofs.FreshNames
import SchemaViews.Proofs.HoistedTypes
import SchemaViews.Proofs.StatefulSteps

/-!
# What is emitted

Emitting a type takes a fresh name for every structural object in it and adds
the declarations of these.  All names that were taken are still known as used,
so no name is taken twice.  The order in which names are taken does not matter:
it is enough that every place gets one.
-/

namespace SchemaViews

theorem OrderedMap.keys_concat {κ α : Type} [DecidableEq κ] (m : OrderedMap κ α) (key : κ)
    (a : α) : OrderedMap.keys (m ++ [(key, a)]) = OrderedMap.keys m ++ [key] := by
  simp [OrderedMap.keys]

/-- An emission with more names taken. -/
structure Emission.Grows (e e' : Emission) (names : List String) : Prop where
  module : e'.module = e.module
  used : e'.used.Perm (e.used ++ names)
  nodup : e.used.Nodup → e'.used.Nodup

namespace Emission.Grows

theorem trans {e e' e'' : Emission} {names others : List String}
    (h : e.Grows e' names) (h' : e'.Grows e'' others) :
    e.Grows e'' (names ++ others) := by
  refine ⟨h'.module.trans h.module, ?_, fun hnodup => h'.nodup (h.nodup hnodup)⟩
  rw [← List.append_assoc]
  exact h'.used.trans (h.used.append_right others)

end Emission.Grows

namespace Emit

variable {α β : Type} {here : Value} {e e' : Emission}

/-- A step that succeeds and takes a name for each of the places.  Its result
and its declarations are given by these names. -/
def Hoists (here : Value) (places : List Place) (x : Emit α)
    (declared : (Place → String) → List Declaration)
    (value : (Place → String) → α) : Prop :=
  ∀ e : Emission, e.module = here → ∃ a e' names,
    x.run e = (.ok a, e') ∧ e.Grows e' names ∧ names.length = places.length ∧
      ∀ name, places.map name = names →
        a = value name ∧ e'.declarations = e.declarations ++ declared name

namespace Hoists

variable {places others : List Place} {x : Emit α} {f : α → Emit β}
  {declared : (Place → String) → List Declaration} {value : (Place → String) → α}
  {declaredThen : α → (Place → String) → List Declaration}
  {valueThen : α → (Place → String) → β}

theorem quiet {a : α} (h : ∀ e : Emission, e.module = here → ∃ e',
    x.run e = (.ok a, e') ∧ e'.module = e.module ∧ e'.used = e.used ∧
      e'.declarations = e.declarations) :
    Hoists here [] x (fun _ => []) fun _ => a := by
  intro e he
  obtain ⟨e', hrun, hmodule, hused, hdeclarations⟩ := h e he
  refine ⟨a, e', [], hrun, ⟨hmodule, by simp [hused], by simp [hused]⟩, rfl, ?_⟩
  intro name _
  simp [hdeclarations]

theorem pure (a : α) : Hoists here [] (pure a : Emit α) (fun _ => []) fun _ => a :=
  quiet fun e _ => ⟨e, rfl, rfl, rfl, rfl⟩

theorem require (construct : Construct) :
    Hoists here [] (require construct) (fun _ => []) fun _ => () := by
  refine quiet fun e _ => ⟨_, rfl, ?_⟩
  dsimp only
  split <;> simp

theorem declare (declaration : Declaration) :
    Hoists here [] (declare declaration) (fun _ => [declaration]) fun _ => () := by
  intro e _
  refine ⟨(), _, [], rfl, ⟨rfl, by simp, id⟩, rfl, fun name _ => ⟨rfl, rfl⟩⟩

theorem bind (hx : Hoists here places x declared value)
    (hf : ∀ a, Hoists here others (f a) (declaredThen a) (valueThen a)) :
    Hoists here (places ++ others) (x >>= f)
      (fun name => declared name ++ declaredThen (value name) name)
      fun name => valueThen (value name) name := by
  intro e he
  obtain ⟨a, e', names, hrun, hgrows, hlength, hfirst⟩ := hx e he
  obtain ⟨b, e'', more, hrun', hgrows', hlength', hsecond⟩ :=
    hf a e' (hgrows.module.trans he)
  refine ⟨b, e'', names ++ more, (run_bind_of_ok hrun).trans hrun', hgrows.trans hgrows', ?_, ?_⟩
  · rw [List.length_append, List.length_append, hlength, hlength']
  · -- names for all places are names for the first ones and for the others
    intro name hnames
    rw [List.map_append] at hnames
    obtain ⟨hnames, hmore⟩ := List.append_inj hnames (by rw [List.length_map, hlength])
    obtain ⟨rfl, hdeclarations⟩ := hfirst name hnames
    obtain ⟨rfl, hdeclarations'⟩ := hsecond name hmore
    refine ⟨rfl, ?_⟩
    rw [hdeclarations', hdeclarations, List.append_assoc]

theorem map (g : α → β) (hx : Hoists here places x declared value) :
    Hoists here places (g <$> x) declared fun name => g (value name) := by
  have hbind := hx.bind fun a => pure (g a)
  simpa only [List.append_nil, bind_pure_comp] using hbind

/-- A name that is taken first counts for the last of the places. -/
theorem fresh (place : Place) {f : String → Emit α}
    {declared : String → (Place → String) → List Declaration}
    {value : String → (Place → String) → α} (hint : String)
    (hf : ∀ owner, Hoists here places (f owner) (declared owner) (value owner)) :
    Hoists here (places ++ [place]) (fresh hint >>= f)
      (fun name => declared (name place) name) fun name => value (name place) name := by
  intro e he
  let owner := TypeNaming.freshName e.used hint
  have howner : owner ∉ e.used := TypeNaming.freshName_not_mem e.used hint
  have hgrows : e.Grows { e with used := e.used ++ [owner] } [owner] := by
    refine ⟨rfl, .refl _, fun hnodup => ?_⟩
    exact List.nodup_append'.mpr ⟨hnodup, List.nodup_singleton owner, by simpa using howner⟩
  obtain ⟨a, e', names, hrun, hgrows', hlength, hrest⟩ :=
    hf owner { e with used := e.used ++ [owner] } he
  have hall := hgrows.trans hgrows'
  refine ⟨a, e', names ++ [owner], ?_, ⟨hall.module, ?_, hall.nodup⟩, ?_, ?_⟩
  · exact (run_bind_of_ok (a := owner) rfl).trans hrun
  · exact hall.used.trans (List.perm_append_comm.append_left e.used)
  · rw [List.length_append, List.length_append, hlength]
    rfl
  · intro name hnames
    rw [List.map_append] at hnames
    obtain ⟨hnames, hplace⟩ := List.append_inj hnames (by rw [List.length_map, hlength])
    have hname : name place = owner := by simpa using hplace
    dsimp only
    rw [hname]
    exact hrest name hnames

theorem reference {s : Scalar} (hwritable : (Value.scalar s).isWritable = true)
    (schema : String) :
    Hoists here [] (reference (.scalar s) schema) (fun _ => [])
      fun _ => referenceText here (.scalar s) schema := by
  refine quiet fun e he => ?_
  subst he
  have hwritten : (liftM (Value.scalar s).written : Emit String).run e =
      (.ok (Value.scalar s).shown, e) := by
    rw [run_liftM, Value.written_of_isWritable hwritable]
  unfold Emit.reference referenceText
  dsimp only
  rw [run_get_bind]
  by_cases hlocal : Value.scalar s = .null ∨ (Value.scalar s).same e.module = true
  · rw [if_pos hlocal, if_pos hlocal]
    exact ⟨e, rfl, rfl, rfl, rfl⟩
  · rw [if_neg hlocal, if_neg hlocal, run_bind_of_ok hwritten]
    refine ⟨_, rfl, ?_⟩
    dsimp only
    split <;> simp

end Hoists

/-! ## Types -/

abbrev HoistsAll (here : Value) (entries : List (Place × List (Field TypeExpr)))
    (x : Emit α) (value : (Place → String) → α) : Prop :=
  Hoists here (entries.map Prod.fst) x (fun name => entries.map (hoisted here name)) value

theorem HoistsAll.bind {entries more : List (Place × List (Field TypeExpr))}
    {x : Emit α} {f : α → Emit β} {value : (Place → String) → α}
    {valueThen : α → (Place → String) → β} (hx : HoistsAll here entries x value)
    (hf : ∀ a, HoistsAll here more (f a) (valueThen a)) :
    HoistsAll here (entries ++ more) (x >>= f) fun name => valueThen (value name) name := by
  have hbind := Hoists.bind hx hf
  simpa only [HoistsAll, List.map_append] using hbind

/-- What is to be shown of every type: it is translated to its annotation, after
the structural objects in it were declared. -/
def Translates (here : Value) (type : TypeExpr) : Prop :=
  ∀ hint place, HoistsAll here (type.structs place) (translate hint type)
    fun name => type.rendered here name place

theorem translateAll_hoists {types : List TypeExpr}
    (htypes : ∀ type ∈ types, Translates here type) (hint : String) (place : Place)
    (number start : ℕ) :
    HoistsAll here (TypeExpr.nested.nestedAmong place start types)
      (translateAll hint number types)
      fun name => TypeExpr.rendered.renderedAll here name place start types := by
  induction types generalizing number start with
  | nil =>
      rw [translateAll]
      exact Hoists.pure []
  | cons type rest ih =>
      rw [List.forall_mem_cons] at htypes
      have hfirst := htypes.1 (hint ++ "Variant" ++ toString number) (place ++ [start])
      have hrest := ih htypes.2 (number + 1) (start + 1)
      have hboth := hfirst.bind fun text => hrest.map (text :: ·)
      rw [translateAll]
      simp only [bind_pure_comp]
      exact hboth

theorem translateFields_hoists {fields : List (Field TypeExpr)}
    (hnames : ∀ field ∈ fields, field.name.text?.isSome = true)
    (htypes : ∀ field ∈ fields, Translates here field.type)
    (owner : String) (place : Place) (start : ℕ) :
    HoistsAll here (TypeExpr.nested.nestedFields place start fields)
      (translateFields owner fields)
      fun name => (fields.zipIdx start).map fun field =>
        fieldLine field.1 (field.1.type.rendered here name (place ++ [field.2])) := by
  induction fields generalizing start with
  | nil =>
      rw [translateFields]
      exact Hoists.pure []
  | cons field rest ih =>
      rw [List.forall_mem_cons] at hnames htypes
      obtain ⟨key, optional, type⟩ := field
      obtain ⟨key, rfl⟩ : ∃ text, key = .str text := by
        cases key <;> simp_all [Scalar.text?]
      have hfirst := htypes.1 (owner ++ TypeNaming.pascalOr "Field" key) (place ++ [start])
      have hrest := ih hnames.2 htypes.2 (start + 1)
      rw [translateFields]
      simp only [bind_pure_comp]
      cases optional with
      | false => exact hfirst.bind fun text => hrest.map (⟨key, text⟩ :: ·)
      | true =>
          have hnoted : HoistsAll here [] (require .notRequired) fun _ => () :=
            Hoists.require .notRequired
          exact hfirst.bind fun text => hnoted.bind fun _ =>
            hrest.map (⟨key, "NotRequired[" ++ text ++ "]"⟩ :: ·)

theorem Translates.struct {fields : List (Field TypeExpr)}
    (hnames : ∀ field ∈ fields, field.name.text?.isSome = true)
    (htypes : ∀ field ∈ fields, Translates here field.type) :
    Translates here (.struct fields) := by
  intro hint place
  have hlines := fun owner => translateFields_hoists hnames htypes owner place 0
  have hnoted : Hoists here [] (require .typedDict) (fun _ => []) fun _ => () :=
    Hoists.require .typedDict
  have hbody := fun owner => hnoted.bind fun _ => Hoists.bind (hlines owner) fun lines =>
    (Hoists.declare (.record owner [] lines)).bind fun _ => Hoists.pure owner
  have hstruct := Hoists.fresh place hint hbody
  rw [translate]
  simp only [List.append_nil, List.nil_append] at hstruct
  simp only [HoistsAll, TypeExpr.structs, List.map_append]
  exact hstruct

theorem translates {type : TypeExpr} (h : type.isComplete = true) :
    Translates here type := by
  induction type using TypeExpr.induction with
  | step type ih =>
      cases type with
      | missing => cases h
      | primitive kind =>
          intro hint place
          rw [translate]
          exact Hoists.pure _
      | nullable inner =>
          intro hint place
          have hinner := ih inner (by simp [TypeExpr.children]) h hint (place ++ [0])
          rw [translate, TypeExpr.structs_nullable, bind_pure_comp]
          exact hinner.map (· ++ " | None")
      | list item =>
          intro hint place
          have hitem := ih item (by simp [TypeExpr.children]) h (hint ++ "Item")
            (place ++ [0])
          rw [translate, TypeExpr.structs_list, bind_pure_comp]
          exact hitem.map fun text => "list[" ++ text ++ "]"
      | freeList | freeMap =>
          intro hint place
          rw [translate]
          exact (Hoists.require .any).bind fun _ => Hoists.pure _
      | union alternatives =>
          intro hint place
          have htypes : ∀ type ∈ alternatives, Translates here type := fun type htype =>
            ih type htype (TypeExpr.isComplete_union.mp h type htype)
          rw [translate, TypeExpr.structs_union]
          cases alternatives with
          | nil => exact (Hoists.require .never).bind fun _ => Hoists.pure _
          | cons first rest =>
              rw [bind_pure_comp]
              exact (translateAll_hoists htypes hint place 1 0).map (" | ".intercalate ·)
      | literal values =>
          intro hint place
          rw [translate]
          cases values with
          | nil => exact (Hoists.require .never).bind fun _ => Hoists.pure _
          | cons first rest => exact (Hoists.require .literal).bind fun _ => Hoists.pure _
      | named module schema =>
          intro hint place
          rw [translate]
          cases module with
          | scalar s =>
              apply Hoists.reference
              cases s with
              | null | str => rfl
              | bool | int | float | moment | ref => cases h
          | list items | map entries => cases h
      | struct fields =>
          rw [TypeExpr.isComplete_struct] at h
          refine Translates.struct (fun field hfield => (h field hfield).1) ?_
          intro field hfield
          exact ih field.type (List.mem_map_of_mem hfield) (h field hfield).2

/-! ## Definitions -/

theorem record_hoists {fields : List (Field TypeExpr)}
    (h : (TypeExpr.struct fields).isComplete = true) (owner : String)
    (lines : List String) (place : Place) :
    Hoists here (((TypeExpr.struct fields).nested place).map Prod.fst)
      (do
        require .typedDict
        let written ← translateFields owner fields
        declare (.record owner lines written))
      (fun name => ((TypeExpr.struct fields).nested place).map (hoisted here name) ++
        [.record owner lines (fieldLines here name place fields)])
      fun _ => () := by
  rw [TypeExpr.isComplete_struct] at h
  have hnoted : Hoists here [] (require .typedDict) (fun _ => []) fun _ => () :=
    Hoists.require .typedDict
  have htypes : ∀ field ∈ fields, Translates here field.type := fun field hfield =>
    translates (h field hfield).2
  have hfields := translateFields_hoists (fun field hfield => (h field hfield).1) htypes
    owner place 0
  have hrecord := hnoted.bind fun _ =>
    Hoists.bind hfields fun written => Hoists.declare (.record owner lines written)
  simp only [List.append_nil, List.nil_append] at hrecord
  exact hrecord

theorem alias_hoists {type : TypeExpr} (h : type.isComplete = true)
    (hnot : ∀ fields, type ≠ .struct fields) (owner : String)
    (lines : List String) (place : Place) :
    Hoists here ((type.nested place).map Prod.fst)
      (do
        let text ← translate owner type
        declare (.alias owner lines text))
      (fun name => (type.nested place).map (hoisted here name) ++
        [.alias owner lines (type.rendered here name place)])
      fun _ => () := by
  have htype : Translates here type := translates h
  have halias := Hoists.bind (htype owner place) fun text =>
    Hoists.declare (.alias owner lines text)
  simpa only [TypeExpr.structs, TypeExpr.own_of_not_struct hnot, List.append_nil] using halias

theorem define_hoists (withDescriptions : Bool) {d : Definition}
    (hname : d.name.text?.isSome = true) (h : d.type.isComplete = true)
    (place : Place) :
    Hoists here ((d.type.nested place).map Prod.fst) (define withDescriptions d)
      (fun name => (d.layout withDescriptions here name place).map Prod.snd)
      fun _ => () := by
  have hlayout : ∀ name, (d.layout withDescriptions here name place).map Prod.snd =
      (d.type.nested place).map (hoisted here name) ++
        [d.declaration withDescriptions here name place] := by
    intro name
    rw [Definition.layout, List.map_append, List.map_map]
    rfl
  have htypeName : Hoists here [] (d.typeName : Emit String) (fun _ => [])
      fun _ => d.declaredName := by
    rw [Definition.typeName_eq hname]
    exact Hoists.pure _
  simp only [hlayout]
  unfold define Definition.declaration
  dsimp only
  generalize (if withDescriptions then Lines.ofDescriptions d.descriptions else []) = lines
  generalize d.type = type at h ⊢
  by_cases hstruct : ∃ fields, type = .struct fields
  · obtain ⟨fields, rfl⟩ := hstruct
    exact htypeName.bind fun owner => record_hoists h owner lines place
  · have hnot : ∀ fields, type ≠ .struct fields := fun fields heq => hstruct ⟨fields, heq⟩
    cases type with
    | struct fields => exact absurd rfl (hnot fields)
    | _ => exact htypeName.bind fun owner => alias_hoists h hnot owner lines place

theorem definitions_hoist (withDescriptions : Bool) {definitions : List Definition}
    (h : ∀ d ∈ definitions, d.name.text?.isSome = true ∧ d.type.isComplete = true)
    (start : ℕ) :
    Hoists here
      ((definitions.zipIdx start).flatMap fun d => (d.1.type.nested [d.2]).map Prod.fst)
      (definitions.forM (define withDescriptions))
      (fun name => (definitions.zipIdx start).flatMap fun d =>
        (d.1.layout withDescriptions here name [d.2]).map Prod.snd)
      fun _ => () := by
  induction definitions generalizing start with
  | nil => exact Hoists.pure ()
  | cons d rest ih =>
      rw [List.forall_mem_cons] at h
      exact (define_hoists withDescriptions h.1.1 h.1.2 [start]).bind fun _ =>
        ih h.2 (start + 1)

/-! ## Modules -/

theorem declaredNames_cons {d : Definition} (h : d.name.text?.isSome = true)
    (declared : OrderedMap String Scalar) (rest : List Definition) :
    declaredNames declared (d :: rest) =
      match OrderedMap.find? declared d.declaredName with
      | some earlier => .error (.nameClash earlier d.name d.declaredName)
      | none => declaredNames (declared ++ [(d.declaredName, d.name)]) rest := by
  rw [declaredNames, Definition.typeName_eq h]
  rfl

theorem declaredNames_of_nodup {definitions : List Definition}
    (h : ∀ d ∈ definitions, d.name.text?.isSome = true)
    {declared : OrderedMap String Scalar}
    (hnodup : (OrderedMap.keys declared ++
      definitions.map Definition.declaredName).Nodup) :
    ∃ all, declaredNames declared definitions = .ok all ∧
      OrderedMap.keys all =
        OrderedMap.keys declared ++ definitions.map Definition.declaredName := by
  induction definitions generalizing declared with
  | nil => exact ⟨declared, rfl, by simp⟩
  | cons d rest ih =>
      rw [List.forall_mem_cons] at h
      rw [List.map_cons] at hnodup
      have hnew : d.declaredName ∉ OrderedMap.keys declared := by
        have hdisjoint := List.disjoint_of_nodup_append hnodup
        exact fun hmem => hdisjoint hmem List.mem_cons_self
      rw [declaredNames_cons h.1, OrderedMap.find?_eq_none_iff.mpr hnew]
      have hkeys := OrderedMap.keys_concat declared d.declaredName d.name
      have hrest : (OrderedMap.keys (declared ++ [(d.declaredName, d.name)]) ++
          rest.map Definition.declaredName).Nodup := by
        rwa [hkeys, List.append_assoc]
      obtain ⟨all, hall, hnames⟩ := ih h.2 hrest
      rw [hkeys, List.append_assoc] at hnames
      exact ⟨all, hall, hnames⟩

theorem exists_names {places : List Place} (h : places.Nodup) {names : List String}
    (hlength : names.length = places.length) :
    ∃ name : Place → String, places.map name = names := by
  induction places generalizing names with
  | nil => exact ⟨fun _ => "", (List.length_eq_zero_iff.mp hlength).symm⟩
  | cons place rest ih =>
      cases names with
      | nil => cases hlength
      | cons first names =>
          rw [List.nodup_cons] at h
          obtain ⟨name, rfl⟩ := ih h.2 (Nat.succ.inj hlength)
          refine ⟨Function.update name place first, ?_⟩
          rw [List.map_cons, Function.update_self]
          congr 1
          refine List.map_congr_left fun other hother => ?_
          have hne : other ≠ place := by
            rintro rfl
            exact h.1 hother
          exact Function.update_of_ne hne first name

section Generate

variable {outline : Outline}

theorem complete_of_mem (h : outline.isComplete = true) {d : Definition}
    (hd : d ∈ outline.definitions) :
    d.name.text?.isSome = true ∧ d.type.isComplete = true := by
  rw [Outline.isComplete, Bool.and_eq_true] at h
  have hd := List.all_eq_true.mp h.2 d hd
  rwa [Bool.and_eq_true] at hd

theorem generate_of_nodup (withDescriptions : Bool) (e : Emission)
    (h : outline.isComplete = true)
    (hnodup : outline.typeNames.Nodup) :
    ∃ name e', (generate withDescriptions outline).run e =
        (.ok (e'.text outline.comment), e') ∧
      (outline.typeNames ++ outline.nested.map name).Nodup ∧
        e'.declarations = (outline.layout withDescriptions name).map Prod.snd := by
  have hnames : (OrderedMap.keys ([] : OrderedMap String Scalar) ++
      outline.definitions.map Definition.declaredName).Nodup := hnodup
  obtain ⟨all, hall, hkeys⟩ := declaredNames_of_nodup
    (fun d hd => (complete_of_mem h hd).1) hnames
  let noted : Emission := { Emission.start outline.module with used := OrderedMap.keys all }
  obtain ⟨_, e', names, hrun, hgrows, hlength, hnamed⟩ :=
    definitions_hoist withDescriptions (fun d hd => complete_of_mem h hd) 0 noted rfl
  -- no two structural objects share a place, so the names can be told by it
  obtain ⟨name, hname⟩ := exists_names outline.nodup_nested hlength
  refine ⟨name, e', ?_, ?_, ?_⟩
  · unfold generate
    rw [hall]
    exact run_bind_of_ok (f := fun _ => do return (← get).text outline.comment) hrun
  · have hused : noted.used = outline.typeNames := hkeys
    rw [hname, ← hused, ← hgrows.used.nodup_iff]
    exact hgrows.nodup (hused ▸ hnodup)
  · rw [Outline.layout, List.map_flatMap]
    exact (hnamed name hname).2

end Generate

end Emit
end SchemaViews
