import SchemaViews.Proofs.ResolvedTypes
import SchemaViews.Proofs.SessionAnswers

/-!
# Closed modules

The references of a compiled schema lead into the module of its view, or name no
module, and what they name is a schema of the document.  So a module whose name equals
itself mentions no other one, and every type that it refers to is declared in it unless
the schema is ignored.
-/

namespace SchemaViews

/-! ## Equal modules -/

namespace Value

theorem sameItems_self (items : List Value) : sameItems items items = true := by
  induction items with
  | nil => rfl
  | cons item rest ih => simp [sameItems, ih]

theorem entriesWithin_of_subset {entries others : List (Scalar × Value)}
    (h : ∀ entry ∈ entries, entry ∈ others) : entriesWithin entries others = true := by
  induction entries with
  | nil => rfl
  | cons entry rest ih =>
      obtain ⟨key, value⟩ := entry
      rw [List.forall_mem_cons] at h
      rw [entriesWithin, ih h.2, Bool.and_true, List.any_eq_true]
      exact ⟨_, h.1, by simp⟩

/-- Everything but a NaN equals itself. -/
theorem same_self {v : Value} (h : ∀ x, v = .float x → x.isNaN = false) :
    v.same v = true := by
  cases v with
  | scalar s =>
      have hnumber : s.isNaN = false := by
        cases s with
        | float x => exact h x rfl
        | _ => rfl
      simp [same, Scalar.same, hnumber]
  | list items =>
      rw [same]
      exact sameItems_self items
  | map entries =>
      rw [same, entriesWithin_of_subset fun _ => id]
      simp

end Value

/-! ## References of compiled schemas -/

/-- A reference to a known name in the given module or in none, or a type that is no
reference. -/
def TypeExpr.LeadsInto (module : Value) (known : String → Prop) : TypeExpr → Prop
  | .named target name => (target = .null ∨ target = module) ∧ known name
  | _ => True

theorem Scope.makes_leadsInto {readModule writeModule : Value} {arena : Arena} {s : Scope}
    (hcontext : s.context = .uniform readModule writeModule arena) {known : String → Prop}
    (harena : ∀ name, arena.Knows name → known name)
    (horigin : ∀ name, s.origin = some name → known name) :
    s.Makes (TypeExpr.LeadsInto (s.view.choose readModule writeModule) known) := by
  constructor
  case named =>
    intro name type htype
    unfold Scope.named at htype
    split at htype
    · next hself =>
        cases htype
        exact ⟨.inl rfl, horigin name hself⟩
    · obtain ⟨module, hmodule, htype⟩ := bind_eq_ok_iff.mp htype
      cases htype
      rw [hcontext, Context.uniform_moduleOf] at hmodule
      cases hfind : OrderedMap.find? arena name with
      | none =>
          rw [hfind] at hmodule
          cases hmodule
      | some schema =>
          rw [hfind] at hmodule
          cases hmodule
          exact ⟨.inr rfl, harena name ⟨schema, hfind⟩⟩
  all_goals intros; trivial

namespace Session

variable {s : Session} {view : View}

theorem moduleOf_name (s : Session) (view : View) :
    s.moduleOf (.str view.name) =
      view.choose s.settings.readModule s.settings.writeModule := by
  cases view <;> rfl

theorem compile_leadsInto {readModule writeModule : Value} {types : ScalarMap TypeExpr}
    (hcontext : s.context = .uniform readModule writeModule (Arena.ofEntries s.schemas))
    (h : s.compile (.str view.name) = .ok types) {entry : Scalar × TypeExpr}
    (hentry : entry ∈ types) :
    entry.2.Everywhere (TypeExpr.LeadsInto (view.choose readModule writeModule)
      fun name => .str name ∈ OrderedMap.keys s.schemas) := by
  obtain ⟨names, -, -, htypes⟩ := compile_eq_ok h
  obtain ⟨name, -, htype⟩ := htypes entry hentry
  obtain ⟨schema, hschema, hresolved⟩ := compileSchema_eq_ok htype
  have hmakes : Scope.Makes ⟨view, s.context, name.text?⟩
      (TypeExpr.LeadsInto (view.choose readModule writeModule)
        fun name => .str name ∈ OrderedMap.keys s.schemas) := by
    apply Scope.makes_leadsInto hcontext
    · intro other hother
      rwa [Arena.knows_ofEntries] at hother
    · intro other hother
      have hname : name = .str other := by
        cases name <;> cases hother
        rfl
      rw [hname, ScalarMap.find?_str] at hschema
      exact List.mem_map_of_mem (OrderedMap.mem_of_find? hschema)
  exact hmakes.resolveSchema hresolved

end Session

/-! ## References in the module at hand -/

namespace Emit

variable {module target : Value} {name : String} {known : String → Prop}

theorem reference_run (hmodule : module.same module = true)
    (h : target = .null ∨ target = module) {e : Emission} (he : e.module = module) :
    (reference target name).run e = (.ok (TypeNaming.typeName name), e) := by
  have hlocal : target = .null ∨ target.same e.module = true := by
    rcases h with h | rfl
    · exact .inl h
    · exact .inr (he ▸ hmodule)
  unfold reference
  dsimp only
  rw [run_get_bind, if_pos hlocal]
  rfl

theorem stable_module (module : Value) :
    Stable (fun e => e.module = module ∧ e.modules = []) fun _ => True := by
  constructor
  · exact fun _ _ he => he
  · exact fun _ _ he => he
  · exact fun _ _ _ he => he
  · exact fun _ _ _ _ => trivial

theorem keepsReference_of_leadsInto (hmodule : module.same module = true) {type : TypeExpr}
    (h : type.Everywhere (TypeExpr.LeadsInto module known)) :
    type.Everywhere (KeepsReference fun e => e.module = module ∧ e.modules = []) := by
  intro inner hinner
  have hinto := h inner hinner
  cases inner with
  | named target name =>
      intro e _ e' he hrun
      rw [reference_run hmodule hinto.1 he.1] at hrun
      cases hrun
      exact ⟨he, trivial⟩
  | _ => exact trivial

end Emit

/-! ## Modules of a session -/

namespace Session

variable {s : Session} {mode : Value} {comment : String} {outline : Outline}

theorem outline_leadsInto {readModule writeModule : Value}
    (hcontext : s.context = .uniform readModule writeModule (Arena.ofEntries s.schemas))
    {view : View} (h : s.outline (.str view.name) comment = .ok outline) {d : Definition}
    (hd : d ∈ outline.definitions) :
    d.type.Everywhere (TypeExpr.LeadsInto (view.choose readModule writeModule)
      fun name => .str name ∈ OrderedMap.keys s.schemas) := by
  obtain ⟨_, types, -, hcompile, -, -, rfl⟩ := outline_eq_ok h
  exact compile_leadsInto hcontext hcompile (List.mem_map_of_mem hd)

theorem outline_typeNames {ordered ignored : List String}
    (hordered : s.settings.orderSchemas = some (.list (ordered.map Value.str)))
    (hignored : s.settings.ignoreSchemas = some (.list (ignored.map Value.str)))
    (h : s.outline mode comment = .ok outline) {name : String}
    (hname : .str name ∈ OrderedMap.keys s.schemas) (hkept : name ∉ ignored) :
    TypeNaming.typeName name ∈ outline.typeNames := by
  obtain ⟨_, types, -, hcompile, -, -, rfl⟩ := outline_eq_ok h
  obtain ⟨names, hnames, hkeys, -⟩ := compile_eq_ok hcompile
  have hcompiled := hkeys name (mem_names hordered hignored hnames hname hkept)
  obtain ⟨entry, hentry, hkey⟩ := List.mem_map.mp hcompiled
  obtain ⟨d, hd, rfl⟩ := List.mem_map.mp hentry
  refine List.mem_map.mpr ⟨d, hd, ?_⟩
  unfold Definition.declaredName
  rw [show d.name = .str name from hkey]
  rfl

/-- A module of a session whose modules are those of its beginning imports no other
module, and refers to what it declares or to schemas that are to be ignored. -/
theorem generate_closed {document : Value} {settings : Settings} {installed : Formatters}
    {start : Session} (hstart : ofDocument document settings installed = .ok start)
    {requests : List Request}
    (hafter : start.after requests = s)
    (hmodule : s.moduleOf mode = start.moduleOf mode)
    (hnumber : ∀ x, start.moduleOf mode = .float x → x.isNaN = false)
    {ordered ignored : List String}
    (hordered : s.settings.orderSchemas = some (.list (ordered.map Value.str)))
    (hignored : s.settings.ignoreSchemas = some (.list (ignored.map Value.str)))
    {text : String} (h : (s.generate mode comment).1 = .ok text) :
    ∃ types e, s.compile mode = .ok types ∧ (s.generate mode comment).2.emission = e ∧
      s.format (e.text (if s.settings.addComment.isPresent then comment else "")) = .ok text ∧
      ((∀ tool, s.installed tool = none) →
        text = e.text (if s.settings.addComment.isPresent then comment else "")) ∧
      e.module = start.moduleOf mode ∧ e.moduleLines = [] ∧
      ∀ entry ∈ types, ∀ module name, entry.2.Position (.named module name) →
        (∀ hint other, other.module = start.moduleOf mode →
          (Emit.translate hint (.named module name)).run other =
            (.ok (TypeNaming.typeName name), other)) ∧
        (TypeNaming.typeName name ∈ e.declarations.map Declaration.name ∨
          name ∈ ignored ∧ .str name ∈ OrderedMap.keys start.schemas) := by
  obtain ⟨hschemas, hcontext⟩ := start.after_keeps requests
  rw [hafter] at hschemas hcontext
  rw [ofDocument_context hstart, ← hschemas] at hcontext
  rw [← hschemas]
  obtain ⟨outline, raw, houtline, hformat, hrun⟩ := generate_eq_ok h
  obtain ⟨view, types, rfl, hcompile, hhome, hcomment, rfl⟩ := outline_eq_ok houtline
  rw [hmodule] at hhome
  have hsame : (start.moduleOf (.str view.name)).same (start.moduleOf (.str view.name)) = true :=
    Value.same_self hnumber
  have hinto : ∀ d ∈ outline.definitions,
      d.type.Everywhere (TypeExpr.LeadsInto (start.moduleOf (.str view.name))
        fun name => .str name ∈ OrderedMap.keys s.schemas) := by
    rw [moduleOf_name]
    exact fun d => outline_leadsInto hcontext houtline
  obtain ⟨_, -, -, rfl⟩ := Emit.generate_eq_ok hrun
  rw [hcomment] at hformat
  obtain ⟨hstays, hmodules⟩ :=
    Emit.generate_keeps (Emit.stable_module (start.moduleOf (.str view.name)))
      (fun _ => ⟨hhome, rfl⟩)
      (fun d hd => ⟨Emit.keepsReference_of_leadsInto hsame (hinto d hd), trivial⟩) hrun
  refine ⟨_, _, hcompile, rfl, hformat, fun hnone => format_of_not_installed hnone hformat,
    hstays, ?_, ?_⟩
  · simp [Emission.moduleLines, hmodules]
  · intro entry hentry module name hposition
    obtain ⟨d, hd, rfl⟩ := List.mem_map.mp hentry
    obtain ⟨hleads, hknown⟩ := hinto d hd _ hposition
    constructor
    · intro hint other hother
      rw [Emit.translate]
      exact Emit.reference_run hsame hleads hother
    · by_cases hkept : name ∈ ignored
      · exact .inr ⟨hkept, hknown⟩
      · left
        exact Emit.generate_declares hrun _
          (outline_typeNames hordered hignored houtline hknown hkept)

def ownedDocument : Value :=
  .map [(.str "components", .map [(.str "schemas", .map
    [(.str "Owner", .map [(.str "type", .str "string")]),
      (.str "Pet", .map [(.str referenceKey, .ref { name := "Owner" })])])])]

theorem generate_closed_owned :
    let requests : List Request := [.assign "ignore_schemas" (.list [.str "Owner"])]
    let mode : Value := .str View.read.name
    ∃ start s types, ofDocument ownedDocument {} (fun _ => none) = .ok start ∧
      start.after requests = s ∧
      (s.generate mode "").1 =
        .ok "from __future__ import annotations\n\n\ntype Pet = Owner\n" ∧
      s.compile mode = .ok types ∧ (s.generate mode "").2.emission.moduleLines = [] ∧
      ∀ entry ∈ types, ∀ module name, entry.2.Position (.named module name) →
        TypeNaming.typeName name ∈
            (s.generate mode "").2.emission.declarations.map Declaration.name ∨
          name ∈ ["Owner"] := by
  intro requests mode
  obtain ⟨start, hstart, hsettings, htext⟩ : ∃ start,
      ofDocument ownedDocument {} (fun _ => none) = .ok start ∧
      (start.settings = {} ∧ (start.after requests).settings =
        { ignoreSchemas := some (.list (["Owner"].map Value.str)) }) ∧
      ((start.after requests).generate mode "").1 =
        .ok "from __future__ import annotations\n\n\ntype Pet = Owner\n" := by
    refine ⟨_, rfl, ⟨rfl, rfl⟩, ?_⟩
    decide +kernel
  have hhome : start.moduleOf mode = .str "schemas.read" := by
    rw [moduleOf_name, hsettings.1]
    rfl
  have hmodule : (start.after requests).moduleOf mode = start.moduleOf mode := by
    rw [hhome, moduleOf_name, hsettings.2]
    rfl
  have hnumber : ∀ x, start.moduleOf mode = .float x → x.isNaN = false := by
    intro x hx
    rw [hhome] at hx
    cases hx
  have hordered : (start.after requests).settings.orderSchemas =
      some (.list (([] : List String).map Value.str)) := by
    rw [hsettings.2]
    rfl
  have hignored : (start.after requests).settings.ignoreSchemas =
      some (.list (["Owner"].map Value.str)) := by
    rw [hsettings.2]
  obtain ⟨types, _, hcompile, rfl, -, -, -, hlines, hnames⟩ :=
    generate_closed hstart rfl hmodule hnumber hordered hignored htext
  refine ⟨start, _, types, hstart, rfl, htext, hcompile, hlines, ?_⟩
  intro entry hentry module name hposition
  exact (hnames entry hentry module name hposition).2.imp_right And.left

/-- In a module that differs from itself every reference is to another module. -/
theorem generate_foreign_owned :
    let settings : Settings := { readModule := .float Binary64.notANumber }
    let mode : Value := .str View.read.name
    ∃ s, ofDocument ownedDocument settings (fun _ => none) = .ok s ∧
      s.settings.orderSchemas = some (.list []) ∧
      s.settings.ignoreSchemas = some (.list []) ∧
      (s.generate mode "").1 = .ok
        ("from __future__ import annotations\n\nimport nan\n\n\n" ++
          "type Owner = str\n\n\ntype Pet = nan.Owner\n") ∧
      (s.generate mode "").2.emission.moduleLines = ["import nan"] := by
  refine ⟨_, rfl, rfl, rfl, ?_, ?_⟩ <;> decide +kernel

end Session
end SchemaViews
