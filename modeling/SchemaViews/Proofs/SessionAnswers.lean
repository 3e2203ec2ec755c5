import SchemaViews.Proofs.ErrorSurface
import SchemaViews.Proofs.EmissionInvariants

/-!
# What a session answers

No request changes the document behind a session.  An answer that was given is read
apart into the answers that it was made from: a module into its outline, an outline
into types, types into the schemas that are compiled.
-/

namespace SchemaViews

/-! ## Pairs in a mapping -/

theorem ScalarMap.mem_keys_insert {α : Type} {m : ScalarMap α} {key : Scalar} {a : α}
    {text : String} (h : .str text ∈ OrderedMap.keys m ∨ .str text = key) :
    .str text ∈ OrderedMap.keys (insert m key a) := by
  rw [insert, ScalarMap.keys_update, Scalar.enter]
  split
  · next hany =>
      rcases h with h | rfl
      · exact h
      · obtain ⟨other, hother, hsame⟩ := List.any_eq_true.mp hany
        rwa [Scalar.sameKey_str.mp hsame] at hother
  · simpa using h

theorem ScalarMap.mem_keys_ofPairs {α : Type} {pairs : List (Scalar × α)} {text : String}
    {a : α} (h : (.str text, a) ∈ pairs) : .str text ∈ OrderedMap.keys (ofPairs pairs) := by
  have hfold : ∀ m : ScalarMap α,
      .str text ∈ OrderedMap.keys m ∨ .str text ∈ pairs.map Prod.fst →
        .str text ∈ OrderedMap.keys
          (pairs.foldl (fun m pair => insert m pair.1 pair.2) m) := by
    clear h
    induction pairs with
    | nil => exact fun m h => h.resolve_right List.not_mem_nil
    | cons pair rest ih =>
        intro m h
        apply ih
        rw [List.map_cons, List.mem_cons] at h
        rcases h with h | h | h
        · exact .inl (mem_keys_insert (.inl h))
        · exact .inl (mem_keys_insert (.inr h))
        · exact .inr h
  exact hfold [] (.inr (List.mem_map_of_mem h))

theorem filterM_ok {α : Type} (p : α → Bool) (members : List α) :
    members.filterM (fun a => (.ok (p a) : Except Failure Bool)) =
      .ok (members.filter p) := by
  have hauxiliary : ∀ kept, members.filterAuxM
      (fun a => (.ok (p a) : Except Failure Bool)) kept =
        .ok ((members.filter p).reverse ++ kept) := by
    induction members with
    | nil => exact fun _ => rfl
    | cons member rest ih =>
        intro kept
        change rest.filterAuxM _ (cond (p member) (member :: kept) kept) = _
        rw [ih]
        cases hmember : p member <;> simp [hmember]
  unfold List.filterM
  rw [hauxiliary]
  simp [bind, Except.bind, pure, Except.pure]

theorem Scalar.str_same {text : String} {other : Scalar} :
    (Scalar.str text).same other = true ↔ other = .str text := by
  rw [same, sameKey_comm, Bool.and_eq_true, sameKey_str]
  exact and_iff_right rfl

namespace Session

/-! ## Requests -/

/-- The session behind a list of requests. -/
def after (s : Session) (requests : List Request) : Session :=
  requests.foldl (fun s request => (s.answer request).2) s

theorem generate_of_outline {s : Session} {mode : Value} {comment : String}
    {outline : Outline} (h : s.outline mode comment = .ok outline) :
    s.generate mode comment =
      let result := (Emit.generate s.withDescriptions outline).run s.emission
      (result.1 >>= s.format, { s with emission := result.2 }) := by
  unfold generate
  rw [h]
  rfl

theorem generate_emission (s : Session) (e : Emission) (mode : Value) (comment : String) :
    (generate { s with emission := e } mode comment).1 = (s.generate mode comment).1 := by
  have houtline : outline { s with emission := e } mode comment = s.outline mode comment := rfl
  unfold generate
  rw [houtline]
  cases s.outline mode comment with
  | error failure => rfl
  | ok outline => rfl

theorem generate_keeps (s : Session) (mode : Value) (comment : String) :
    ∃ e, (s.generate mode comment).2 = { s with emission := e } := by
  unfold generate
  cases s.outline mode comment with
  | error failure => exact ⟨s.emission, rfl⟩
  | ok outline => exact ⟨_, rfl⟩

theorem answer_keeps (s : Session) (request : Request) :
    (s.answer request).2.schemas = s.schemas ∧ (s.answer request).2.context = s.context := by
  cases request with
  | generate mode comment =>
      obtain ⟨e, he⟩ := s.generate_keeps mode comment
      unfold answer
      dsimp only
      rw [he]
      exact ⟨rfl, rfl⟩
  | assign key value =>
      unfold answer
      dsimp only
      split <;> exact ⟨rfl, rfl⟩
  | names | compile | compileSchema | outline | fileName => exact ⟨rfl, rfl⟩

theorem after_keeps (s : Session) (requests : List Request) :
    (s.after requests).schemas = s.schemas ∧ (s.after requests).context = s.context := by
  induction requests generalizing s with
  | nil => exact ⟨rfl, rfl⟩
  | cons request rest ih =>
      obtain ⟨hschemas, hcontext⟩ := s.answer_keeps request
      obtain ⟨hschemas', hcontext'⟩ := ih (s.answer request).2
      exact ⟨hschemas'.trans hschemas, hcontext'.trans hcontext⟩

theorem ofDocument_context {document : Value} {settings : Settings} {installed : Formatters}
    {s : Session} (h : ofDocument document settings installed = .ok s) :
    s.context = .uniform s.settings.readModule s.settings.writeModule
      (Arena.ofEntries s.schemas) := by
  obtain ⟨schemas, -, h⟩ := bind_eq_ok_iff.mp h
  cases h
  rfl

/-! ## Names -/

section Names

variable {s : Session} {ordered ignored : List String}
  (hordered : s.settings.orderSchemas = some (.list (ordered.map Value.str)))
  (hignored : s.settings.ignoreSchemas = some (.list (ignored.map Value.str)))
include hordered hignored

theorem names_eq :
    s.names =
      let names := OrderedMap.keys s.schemas
      let first := (ordered.map Scalar.str).filter fun name => names.any name.same
      .ok ((first ++ names.filter fun name => !first.any name.same).filter fun name =>
        !(ignored.map Value.str).any ((Value.scalar name).same ·)) := by
  unfold names orderedNames
  rw [hordered, hignored]
  simp only [Option.bind_some, Value.elements?, scalars?_texts]
  exact filterM_ok (fun name =>
    !(ignored.map Value.str).any ((Value.scalar name).same ·)) _

theorem mem_names {names : List Scalar} (hnames : s.names = .ok names) {name : String}
    (hname : .str name ∈ OrderedMap.keys s.schemas) (hkept : name ∉ ignored) :
    .str name ∈ names := by
  rw [names_eq hordered hignored] at hnames
  cases hnames
  have hfresh : (ignored.map Value.str).any ((Value.scalar (.str name)).same ·) = false := by
    rw [List.any_eq_false]
    intro other hother
    obtain ⟨text, htext, rfl⟩ := List.mem_map.mp hother
    rw [show (Value.scalar (.str name)).same (.str text) = (Scalar.str name).same (.str text)
      from rfl, Scalar.str_same]
    rintro heq
    cases heq
    exact hkept htext
  rw [List.mem_filter, hfresh]
  refine ⟨?_, rfl⟩
  generalize (ordered.map Scalar.str).filter _ = first
  by_cases hfirst : first.any (Scalar.str name).same = true
  · obtain ⟨other, hother, hsame⟩ := List.any_eq_true.mp hfirst
    rw [Scalar.str_same] at hsame
    exact List.mem_append_left _ (hsame ▸ hother)
  · apply List.mem_append_right
    rw [List.mem_filter]
    exact ⟨hname, by simpa using hfirst⟩

end Names

/-! ## Types and modules -/

variable {s : Session} {mode : Value}

theorem view_eq_ok {view : View} (h : Session.view mode = .ok view) :
    mode = .str view.name := by
  unfold Session.view at h
  split at h
  · next found hfound =>
      cases h
      exact View.ofValue?_eq_some_iff.mp hfound
  · cases h

theorem compileSchema_eq_ok {name : Scalar} {view : View} {type : TypeExpr}
    (h : s.compileSchema name (.str view.name) = .ok type) :
    ∃ schema, ScalarMap.find? s.schemas name = some schema ∧
      (resolveSchema s.context name.text? schema (.str view.name)).result = .ok type := by
  cases hfind : ScalarMap.find? s.schemas name with
  | none =>
      unfold compileSchema at h
      obtain ⟨_, -, h⟩ := bind_eq_ok_iff.mp h
      rw [hfind] at h
      cases h
  | some schema =>
      rw [compileSchema_eq hfind] at h
      refine ⟨schema, rfl, ?_⟩
      cases hresult : (resolveSchema s.context name.text? schema (.str view.name)).result with
      | error failure =>
          rw [hresult] at h
          cases h
      | ok found =>
          rw [hresult] at h
          cases h
          rfl

/-- What is compiled are the chosen schemas, one after the other. -/
theorem compile_pairs {types : ScalarMap TypeExpr} (h : s.compile mode = .ok types) :
    ∃ pairs : List (Scalar × TypeExpr), s.names = .ok (pairs.map Prod.fst) ∧
      (∀ pair ∈ pairs, s.compileSchema pair.1 mode = .ok pair.2) ∧
      types = ScalarMap.ofPairs pairs := by
  obtain ⟨names, hnames, h⟩ := bind_eq_ok_iff.mp h
  obtain ⟨pairs, hpairs, h⟩ := bind_eq_ok_iff.mp h
  cases h
  have heach : List.Forall₂ (fun name (pair : Scalar × TypeExpr) =>
      name = pair.1 ∧ s.compileSchema pair.1 mode = .ok pair.2) names pairs := by
    apply (mapM_eq_ok_iff.mp hpairs).imp
    intro name pair hpair
    obtain ⟨type, htype, hpair⟩ := bind_eq_ok_iff.mp hpair
    cases hpair
    exact ⟨rfl, htype⟩
  refine ⟨pairs, ?_, fun pair hmem => ?_, rfl⟩
  · have hfirst : names = pairs.map Prod.fst := by
      rw [← List.forall₂_eq_eq_eq, List.forall₂_map_right_iff]
      exact heach.imp fun _ _ => And.left
    rw [hnames, hfirst]
  · obtain ⟨name, -, -, htype⟩ := exists_of_mem_right heach hmem
    exact htype

theorem compile_eq_ok {types : ScalarMap TypeExpr} (h : s.compile mode = .ok types) :
    ∃ names, s.names = .ok names ∧
      (∀ name, .str name ∈ names → .str name ∈ OrderedMap.keys types) ∧
      ∀ entry ∈ types, ∃ name ∈ names, s.compileSchema name mode = .ok entry.2 := by
  obtain ⟨pairs, hnames, htypes, rfl⟩ := compile_pairs h
  refine ⟨_, hnames, fun name hname => ?_, fun entry hentry => ?_⟩
  · obtain ⟨⟨_, type⟩, hmem, rfl⟩ := List.mem_map.mp hname
    exact ScalarMap.mem_keys_ofPairs hmem
  · obtain ⟨name, hmem, -⟩ := ScalarMap.mem_ofPairs hentry
    exact ⟨name, List.mem_map_of_mem hmem, htypes _ hmem⟩

theorem outline_eq_ok {comment : String} {outline : Outline}
    (h : s.outline mode comment = .ok outline) :
    ∃ view types, mode = .str (View.name view) ∧ s.compile mode = .ok types ∧
      outline.module = s.moduleOf mode ∧
      outline.comment = (if s.settings.addComment.isPresent then comment else "") ∧
      outline.definitions.map (fun d => (d.name, d.type)) = types := by
  obtain ⟨view, hview, h⟩ := bind_eq_ok_iff.mp h
  obtain ⟨types, htypes, h⟩ := bind_eq_ok_iff.mp h
  obtain ⟨definitions, hdefinitions, h⟩ := bind_eq_ok_iff.mp h
  cases h
  refine ⟨view, types, view_eq_ok hview, htypes, rfl, rfl, ?_⟩
  have hpairs : List.Forall₂ (fun d entry => (d.name, d.type) = entry) definitions types := by
    apply List.Forall₂.flip
    apply (mapM_eq_ok_iff.mp hdefinitions).imp
    rintro ⟨name, type⟩ d hd
    dsimp only at hd
    split at hd
    · obtain ⟨descriptions, -, hd⟩ := bind_eq_ok_iff.mp hd
      cases hd
      rfl
    · cases hd
  rw [← List.forall₂_eq_eq_eq, List.forall₂_map_left_iff]
  exact hpairs

theorem format_of_not_installed (h : ∀ tool, s.installed tool = none) {raw text : String}
    (hformat : s.format raw = .ok text) : text = raw := by
  obtain ⟨settings, -, hformat⟩ := bind_eq_ok_iff.mp hformat
  split at hformat
  · obtain ⟨tool, -, hformat⟩ := bind_eq_ok_iff.mp hformat
    rw [h tool] at hformat
    exact (pure_eq_ok_iff.mp hformat).symm
  · exact (pure_eq_ok_iff.mp hformat).symm

theorem generate_eq_ok {comment text : String}
    (h : (s.generate mode comment).1 = .ok text) :
    ∃ outline raw, s.outline mode comment = .ok outline ∧ s.format raw = .ok text ∧
      (Emit.generate s.withDescriptions outline).run s.emission =
        (.ok raw, (s.generate mode comment).2.emission) := by
  cases houtline : s.outline mode comment with
  | error failure =>
      unfold generate at h
      rw [houtline] at h
      cases h
  | ok outline =>
      rw [generate_of_outline houtline] at h ⊢
      obtain ⟨raw, hraw, hformat⟩ := bind_eq_ok_iff.mp h
      refine ⟨outline, raw, rfl, hformat, ?_⟩
      rw [← hraw]
      rfl

end Session
end SchemaViews
