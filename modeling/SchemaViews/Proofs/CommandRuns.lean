import SchemaViews.Proofs.LocationLaws
import SchemaViews.Proofs.SessionAnswers
import SchemaViews.Proofs.WrittenFiles

/-!
# Runs of the command

A run writes nothing before all modules are compiled.  From then on each module is
written on its own: a run whose second module is refused stops when the first is in
its place already.  All other runs that fail leave the files as they were, unless they
break off while a module is written.
-/

namespace SchemaViews

/-! ## Several files -/

namespace FileTree

/-- A tree in which several files were written, one after the other. -/
structure GainsAll (tree tree' : FileTree) (files : List (List String × String)) :
    Prop where
  file : ∀ before place text after, files = before ++ (place, text) :: after →
    place ∉ after.map Prod.fst → tree'.node? place = some (.file text)
  directories : ∀ file ∈ files, ∀ above, above <+: file.1 → above ≠ file.1 →
    tree'.node? above = some .directory
  standing : ∀ other node, tree.node? other = some node →
    node = .directory ∨ other ∉ files.map Prod.fst → tree'.node? other = some node
  elsewhere : ∀ other, (∀ file ∈ files, ¬ other <+: file.1) →
    tree'.node? other = tree.node? other

variable {tree tree₁ tree' : FileTree} {place : List String} {text : String}
  {files : List (List String × String)}

theorem Gains.standing (h : tree.Gains tree' place text) {other : List String}
    {node : Node} (hnode : tree.node? other = some node)
    (hother : node = .directory ∨ other ≠ place) : tree'.node? other = some node := by
  by_cases hplace : other = place
  · subst hplace
    rcases hother with rfl | hother
    · exact absurd (.inr (.inl hnode)) h.possible
    · exact absurd rfl hother
  · by_cases habove : other <+: place
    · cases node with
      | directory => exact h.directories other habove hplace
      | file old =>
          exact absurd (.inr (.inr ⟨other, old, habove, hplace, hnode⟩)) h.possible
    · rw [h.elsewhere other habove, hnode]

theorem GainsAll.nil (tree : FileTree) : tree.GainsAll tree [] := by
  constructor <;> simp

theorem GainsAll.cons (hfirst : tree.Gains tree₁ place text)
    (hrest : tree₁.GainsAll tree' files) : tree.GainsAll tree' ((place, text) :: files) := by
  constructor
  · intro before other content after heq hlast
    cases before with
    | nil =>
        cases heq
        exact hrest.standing place _ hfirst.file (.inr hlast)
    | cons _ before =>
        cases heq
        exact hrest.file before other content after rfl hlast
  · intro file hfile above habove hne
    rcases List.mem_cons.mp hfile with rfl | hfile
    · exact hrest.standing above _ (hfirst.directories above habove hne) (.inl rfl)
    · exact hrest.directories file hfile above habove hne
  · intro other node hnode hother
    simp only [List.map_cons, List.mem_cons, not_or] at hother
    refine hrest.standing other node (hfirst.standing hnode ?_) ?_
    · exact hother.imp_right And.left
    · exact hother.imp_right And.right
  · intro other hother
    simp only [List.forall_mem_cons] at hother
    rw [hrest.elsewhere other hother.2, hfirst.elsewhere other hother.1]

end FileTree

/-! ## Compiled modules -/

namespace Command

/-- The module of a view as it comes out of a session, and the location of its file. -/
def Renders (directory : Location) (comment : String) (session : Session) (view : View)
    (module : Location × String) : Prop :=
  ∃ file, session.fileName (.str view.name) = .ok file ∧
    module.1 = directory.join (Location.ofText file) ∧
    (session.generate (.str view.name) comment).1 = .ok module.2

theorem compileModules_cons (directory : Location) (comment : String) (session : Session)
    (view : View) (views : List View) :
    compileModules directory comment session (view :: views) = do
      let file ← session.fileName (.str view.name)
      let text ← (session.generate (.str view.name) comment).1
      let rest ← compileModules directory comment
        (session.generate (.str view.name) comment).2 views
      return (directory.join (Location.ofText file), text) :: rest :=
  rfl

theorem compileModules_eq_ok {directory : Location} {comment : String} {session : Session}
    {views : List View} {modules : List (Location × String)}
    (h : compileModules directory comment session views = .ok modules) :
    List.Forall₂ (Renders directory comment session) views modules := by
  have hall : ∀ later : Session, (∃ e, later = { session with emission := e }) →
      compileModules directory comment later views = .ok modules →
      List.Forall₂ (Renders directory comment session) views modules := by
    clear h
    induction views generalizing modules with
    | nil =>
        intro later _ h
        cases h
        exact .nil
    | cons view views ih =>
        intro later hlater h
        rw [compileModules_cons] at h
        obtain ⟨file, hfile, h⟩ := bind_eq_ok_iff.mp h
        obtain ⟨text, htext, h⟩ := bind_eq_ok_iff.mp h
        obtain ⟨rest, hrest, h⟩ := bind_eq_ok_iff.mp h
        cases h
        obtain ⟨e, rfl⟩ := hlater
        rw [Session.generate_emission] at htext
        refine .cons ⟨file, hfile, rfl, htext⟩ (ih _ ?_ hrest)
        exact Session.generate_keeps ..
  exact hall session ⟨session.emission, rfl⟩ h

theorem reporting_eq_ok_iff {result : Except Failure α} {a : α} :
    reporting result = .ok a ↔ result = .ok a := by
  cases result <;> simp [reporting, Except.mapError]

variable {env : Environment} {tree : FileTree} {words : List String} {p : Plan}

theorem plan_eq_ok (h : plan env tree words = .ok p) :
    env.readValues tree words = some p.values ∧ modes p.values = .ok p.views ∧
      compileModules (Location.ofText ((given? p.values "output_dir").getD "")) p.comment
        p.session p.views = .ok p.modules := by
  unfold plan at h
  split at h
  · next values hvalues =>
      obtain ⟨settings, -, h⟩ := bind_eq_ok_iff.mp h
      obtain ⟨views, hviews, h⟩ := bind_eq_ok_iff.mp h
      obtain ⟨text, -, h⟩ := bind_eq_ok_iff.mp h
      obtain ⟨document, -, h⟩ := bind_eq_ok_iff.mp h
      obtain ⟨session, -, h⟩ := bind_eq_ok_iff.mp h
      obtain ⟨modules, hmodules, h⟩ := bind_eq_ok_iff.mp h
      split at h
      · obtain ⟨output, -, h⟩ := bind_eq_ok_iff.mp h
        rw [pure_eq_ok_iff] at h
        subst h
        exact ⟨hvalues, mapError_eq_ok_iff.mp hviews, reporting_eq_ok_iff.mp hmodules⟩
      · cases h
  · cases h

/-! ## Output places -/

theorem convert_directory {home : Location} {tree : FileTree} {p : Parameter}
    (hp : p.type = .directory) {given : Value} {text : String}
    (h : convert home tree p given = some (.str text)) :
    ∃ path, text = (resolvePath home path).text := by
  unfold convert at h
  rw [hp] at h
  split at h
  · contradiction
  · contradiction
  · next path _ =>
      dsimp only at h
      split at h
      · cases h
      · cases h
        exact ⟨path, rfl⟩
  · next hother =>
      cases h
      exact absurd rfl (hother text rfl)

theorem exists_of_mem_mapM_some {α β : Type} {f : α → Option β} {xs : List α}
    {ys : List β} (h : xs.mapM f = some ys) {y : β} (hy : y ∈ ys) :
    ∃ x ∈ xs, f x = some y := by
  induction xs generalizing ys with
  | nil =>
      cases h
      exact absurd hy List.not_mem_nil
  | cons x rest ih =>
      rw [List.mapM_cons] at h
      obtain ⟨first, hfirst, h⟩ := Option.bind_eq_some_iff.mp h
      obtain ⟨more, hmore, h⟩ := Option.bind_eq_some_iff.mp h
      cases h
      rcases List.mem_cons.mp hy with rfl | hy
      · exact ⟨x, List.mem_cons_self, hfirst⟩
      · obtain ⟨z, hz, hy⟩ := ih hmore hy
        exact ⟨z, List.mem_cons_of_mem _ hz, hy⟩

theorem exists_of_mem_values {home : Location} {tree : FileTree} {words : List String}
    {values : ParameterValues} (h : readValues home tree words = some values)
    {entry : String × Value} (hentry : entry ∈ values) :
    ∃ p ∈ parameters, ∃ given, p.name = entry.1 ∧
      convert home tree p given = some entry.2 := by
  obtain ⟨raw, -, h⟩ := Option.bind_eq_some_iff.mp h
  obtain ⟨p, hp, h⟩ := exists_of_mem_mapM_some h hentry
  obtain ⟨given, -, h⟩ := Option.bind_eq_some_iff.mp h
  obtain ⟨value, hvalue, h⟩ := Option.bind_eq_some_iff.mp h
  cases h
  exact ⟨p, hp, given, rfl, hvalue⟩

theorem given?_eq_some {values : ParameterValues} {name text : String}
    (h : given? values name = some text) : (name, Value.str text) ∈ values := by
  unfold given? at h
  split at h
  · next found hfound =>
      split at h
      · cases h
      · cases h
        exact OrderedMap.mem_of_find? hfound
  · cases h

end Command

/-- The output directory of an accepted command line is resolved: no double dots are
left in it. -/
def Environment.ResolvesOutput (env : Environment) : Prop :=
  ∀ tree words values, env.readValues tree words = some values →
    ".." ∉ (Location.ofText ((Command.given? values "output_dir").getD "")).names

theorem Environment.standard_resolvesOutput (directory : String) :
    (Environment.standard (Location.ofText directory)).ResolvesOutput := by
  intro tree words values h
  cases hgiven : Command.given? values "output_dir" with
  | none => decide +kernel
  | some text =>
      obtain ⟨p, hp, given, hname, hconvert⟩ :=
        Command.exists_of_mem_values h (Command.given?_eq_some hgiven)
      have htype : ∀ p ∈ Command.parameters, p.name = "output_dir" → p.type = .directory := by
        decide
      obtain ⟨path, rfl⟩ := Command.convert_directory (htype p hp hname) hconvert
      obtain ⟨hproper, hdots⟩ :=
        Command.resolvePath_proper (Location.ofText_proper directory) path
      rwa [Option.getD_some, hproper.ofText_text_names]

namespace Command

theorem modules_named {env : Environment} (henv : env.ResolvesOutput) {tree : FileTree}
    {words : List String} {p : Plan} (h : plan env tree words = .ok p)
    {module : Location × String} (hmodule : module ∈ p.modules) :
    module.1.names ≠ [] ∧ ".." ∉ module.1.names := by
  obtain ⟨hvalues, -, hmodules⟩ := plan_eq_ok h
  have houtput := henv tree words p.values hvalues
  obtain ⟨view, -, file, hfile, hlocation, -⟩ :=
    exists_of_mem_right (compileModules_eq_ok hmodules) hmodule
  have hname : ∃ name, file = TypeNaming.moduleFile name := by
    unfold Session.fileName at hfile
    split at hfile
    · cases hfile
      exact ⟨_, rfl⟩
    · cases hfile
  obtain ⟨name, rfl⟩ := hname
  obtain ⟨hnames, hdots⟩ := TypeNaming.moduleFile_names name
  rw [hlocation, Location.join]
  split
  · simp [hnames, houtput, hdots]
  · exact ⟨hnames, hdots⟩

/-! ## Writing the modules -/

/-- A file at the place of a module with its encoded text. -/
def Holds (coding : Coding String) (module : Location × String)
    (file : List String × String) : Prop :=
  file.1 = module.1.names ∧ coding.encode module.2 = some file.2

/-- A desk on which modules were written, in their order. -/
structure Wrote (coding : Coding String) (desk desk' : Desk)
    (modules : List (Location × String)) : Prop where
  files : ∃ files, List.Forall₂ (Holds coding) modules files ∧
    desk.tree.GainsAll desk'.tree files
  printed : desk'.printed = desk.printed ++ modules.map fun (file, _) => "Wrote " ++ file.text
  nothing : modules = [] → desk' = desk

section Writing

variable {coding : Coding String} {settings : OutputSettings} {file : Location}
  {text content : String} {modules : List (Location × String)} {desk desk' : Desk}
  {tree' : FileTree}

theorem Wrote.refl (desk : Desk) : Wrote coding desk desk [] :=
  ⟨⟨[], .nil, .nil desk.tree⟩, (List.append_nil _).symm, fun _ => rfl⟩

theorem Wrote.cons (hencode : coding.encode text = some content)
    (hgains : desk.tree.Gains tree' file.names content)
    (h : Wrote coding ⟨tree', desk.printed ++ ["Wrote " ++ file.text]⟩ desk' modules) :
    Wrote coding desk desk' ((file, text) :: modules) := by
  obtain ⟨files, hholds, hfiles⟩ := h.files
  constructor
  · exact ⟨_, .cons ⟨rfl, hencode⟩ hholds, .cons hgains hfiles⟩
  · rw [h.printed, List.map_cons, List.append_assoc]
    rfl
  · intro hempty
    cases hempty

theorem writeModule_of_ok
    (h : (Writing.write coding settings file text).run desk.tree = (.ok (), tree')) :
    (writeModule coding settings file text).run desk =
      (.ok (), ⟨tree', desk.printed ++ ["Wrote " ++ file.text]⟩) := by
  rw [writeModule, run_get_bind, h]
  rfl

theorem writeModule_of_error {failure : Failure}
    (h : (Writing.write coding settings file text).run desk.tree = (.error failure, tree')) :
    (writeModule coding settings file text).run desk =
      (.error (report failure), ⟨tree', desk.printed⟩) := by
  rw [writeModule, run_get_bind, h]
  rfl

/-- The modules are written in turn, up to the first that fails. -/
theorem writeModules_run (coding : Coding String) (settings : OutputSettings)
    (hmodules : ∀ module ∈ modules, module.1.names ≠ [] ∧ ".." ∉ module.1.names)
    (h : desk.tree.Rooted) :
    (∃ desk', (modules.forM fun (file, text) => writeModule coding settings file text).run
        desk = (.ok (), desk') ∧ Wrote coding desk desk' modules) ∨
      ∃ done next rest failure, ∃ stopped desk' : Desk, modules = done ++ next :: rest ∧
        (modules.forM fun (file, text) => writeModule coding settings file text).run desk =
          (.error (report failure), desk') ∧
        Wrote coding desk stopped done ∧ desk'.printed = stopped.printed ∧
        Writing.Leaves coding settings next.1 next.2 stopped.tree (.error failure)
          desk'.tree := by
  induction modules generalizing desk with
  | nil => exact .inl ⟨desk, rfl, .refl desk⟩
  | cons first rest ih =>
      obtain ⟨file, text⟩ := first
      rw [List.forall_mem_cons] at hmodules
      obtain ⟨⟨hnames, hdots⟩, hrest⟩ := hmodules
      obtain ⟨hleaves, hrooted⟩ :=
        @Writing.write_leaves desk.tree _ coding settings file text hnames hdots h
      rcases hwrite : (Writing.write coding settings file text).run desk.tree with
        ⟨failure | done, tree'⟩
      · rw [hwrite] at hleaves
        exact .inr ⟨[], _, rest, failure, desk, _, rfl,
          run_forM_of_error (writeModule_of_error hwrite), .refl desk, rfl, hleaves⟩
      · rw [hwrite] at hleaves hrooted
        cases hleaves with
        | written _ hencode _ hgains =>
            have hfirst := writeModule_of_ok hwrite
            let noted : Desk := ⟨tree', desk.printed ++ ["Wrote " ++ file.text]⟩
            have hnoted : noted.tree.Rooted := hrooted
            rcases ih hrest hnoted with ⟨desk', hrun, hwrote⟩ |
              ⟨done, next, more, failure, stopped, desk', rfl, hrun, hwrote, hleft⟩
            · exact .inl ⟨desk', run_forM_of_ok hfirst hrun, hwrote.cons hencode hgains⟩
            · exact .inr ⟨_ :: done, next, more, failure, stopped, desk', rfl,
                run_forM_of_ok hfirst hrun, hwrote.cons hencode hgains, hleft⟩

end Writing

/-! ## Runs -/

theorem length_modes {values : ParameterValues} {views : List View}
    (h : modes values = .ok views) : views.length ≤ 2 := by
  unfold modes at h
  split at h
  · cases h
    exact le_rfl
  · obtain ⟨view, -, h⟩ := bind_eq_ok_iff.mp h
    cases h
    exact Nat.le_succ 1

theorem run_run (env : Environment) (words : List String) (desk : Desk) :
    (run env words).run desk =
      match plan env desk.tree words with
      | .error failure => (.error failure, desk)
      | .ok p => (p.modules.forM fun (file, text) =>
          writeModule env.coding p.output file text).run desk := by
  rw [run, run_get_bind]
  cases plan env desk.tree words <;> rfl

/-- A run that breaks off while a module is written: the modules before it are
written, and it leaves a file without text or no more than the directories above. -/
structure BreaksOff (coding : Coding String) (settings : OutputSettings)
    (next : Location × String) (stopped desk' : Desk) (failure : Failure) : Prop where
  accepted : ¬ Writing.Refuses coding settings next.1 next.2 stopped.tree
  failure : failure = .nullInName ∨ failure = .unencodable
  printed : desk'.printed = stopped.printed
  left : stopped.tree.Opens desk'.tree next.1.parent.names ∨
    stopped.tree.Gains desk'.tree next.1.names ""

/-- A run that fails leaves everything as it was, unless two modules are to be written
and only the second of them is refused, or it breaks off while a module is written.
A run that succeeds writes the module of each view, and besides only makes the
directories above. -/
theorem run_outcome {env : Environment} (henv : env.ResolvesOutput) (words : List String)
    {desk : Desk} (h : desk.tree.Rooted) :
    (∃ failure, (run env words).run desk = (.error failure, desk)) ∨
      (∃ p first second failure desk',
        plan env desk.tree words = .ok p ∧ p.modules = [first, second] ∧
        (run env words).run desk = (.error failure, desk') ∧
        Wrote env.coding desk desk' [first] ∧
        Writing.Refuses env.coding p.output second.1 second.2 desk'.tree) ∨
      (∃ p done next rest failure stopped desk',
        plan env desk.tree words = .ok p ∧ p.modules = done ++ next :: rest ∧
        (run env words).run desk = (.error (.broken failure), desk') ∧
        Wrote env.coding desk stopped done ∧
        BreaksOff env.coding p.output next stopped desk' failure) ∨
      ∃ p desk',
        plan env desk.tree words = .ok p ∧ modes p.values = .ok p.views ∧
        (run env words).run desk = (.ok (), desk') ∧
        List.Forall₂
          (Renders (Location.ofText ((given? p.values "output_dir").getD "")) p.comment
            p.session) p.views p.modules ∧
        Wrote env.coding desk desk' p.modules := by
  rw [run_run]
  cases hplan : plan env desk.tree words with
  | error failure => exact .inl ⟨failure, rfl⟩
  | ok p =>
      dsimp only
      obtain ⟨-, hviews, hmodules⟩ := plan_eq_ok hplan
      have hrenders := compileModules_eq_ok hmodules
      rcases writeModules_run env.coding p.output (fun module => modules_named henv hplan) h with
        ⟨desk', hrun, hwrote⟩ |
        ⟨done, next, rest, failure, stopped, desk', hmodules, hrun, hwrote, hprinted, hleaves⟩
      · exact .inr (.inr (.inr ⟨p, desk', rfl, hviews, hrun, hrenders, hwrote⟩))
      · obtain ⟨tree', printed⟩ := desk'
        obtain rfl : printed = stopped.printed := hprinted
        rw [hrun]
        cases hleaves with
        | refused hrefuses =>
            cases done with
            | nil =>
                rw [hwrote.nothing rfl]
                exact .inl ⟨_, rfl⟩
            | cons first done =>
                -- at most one module stands before the one that is refused
                have hlength := length_modes hviews
                rw [hrenders.length_eq, hmodules] at hlength
                simp only [List.length_append, List.length_cons] at hlength
                have hdone : done = [] := List.length_eq_zero_iff.mp (by omega)
                have hlast : rest = [] := List.length_eq_zero_iff.mp (by omega)
                subst hdone hlast
                exact .inr (.inl ⟨p, first, next, _, _, rfl, hmodules, rfl, hwrote, hrefuses⟩)
        | opened haccepted hlate hopens =>
            have hfailure : failure = .nullInName ∨ failure = .unencodable :=
              hlate.imp And.right fun hlate => hlate.2.2
            have hbroken : report failure = .broken failure := by
              rcases hfailure with rfl | rfl <;> rfl
            rw [hbroken]
            exact .inr (.inr (.inl ⟨p, done, next, rest, failure, stopped, _, rfl, hmodules, rfl,
              hwrote, haccepted, hfailure, rfl, .inl hopens⟩))
        | emptied haccepted _ _ _ hgains =>
            exact .inr (.inr (.inl ⟨p, done, next, rest, _, stopped, _, rfl, hmodules, rfl,
              hwrote, haccepted, .inr rfl, rfl, .inr hgains⟩))

/-! ## A run that stops between two files -/

def secondBlocked : Desk where
  tree :=
    [(["api.json"], .file "\x7b\"components\": \x7b\"schemas\": \x7b\x7d\x7d\x7d"),
      (["out"], .directory), (["out", "write.py"], .file "")]
  printed := []

/-- What the second file keeps from being written is met when the first is there. -/
theorem run_secondBlocked :
    let env := Environment.standard (Location.ofText "/")
    let result := (run env ["api.json", "out"]).run secondBlocked
    secondBlocked.tree.Rooted ∧
      result.1 = .error (.reported
        "Output file already exists: /out/write.py. Use force mode to overwrite.") ∧
      secondBlocked.tree.node? ["out", "read.py"] = none ∧
      result.2.tree.node? ["out", "read.py"] = some (.file
        ("# Generated by openapi_typespec api.json out\n\n" ++
          "from __future__ import annotations\n")) := by
  decide +kernel

theorem run_secondBlocked_outcome :
    let env := Environment.standard (Location.ofText "/")
    env.ResolvesOutput ∧ secondBlocked.tree.Rooted ∧
      ∃ p first second failure desk',
        plan env secondBlocked.tree ["api.json", "out"] = .ok p ∧
        p.modules = [first, second] ∧
        (run env ["api.json", "out"]).run secondBlocked = (.error failure, desk') ∧
        Wrote env.coding secondBlocked desk' [first] ∧
        Writing.Refuses env.coding p.output second.1 second.2 desk'.tree := by
  intro env
  have henv : env.ResolvesOutput := Environment.standard_resolvesOutput "/"
  have hrooted : secondBlocked.tree.Rooted := by decide
  have hresult : ((run env ["api.json", "out"]).run secondBlocked).1 = .error (.reported
      "Output file already exists: /out/write.py. Use force mode to overwrite.") ∧
        ((run env ["api.json", "out"]).run secondBlocked).2.tree ≠ secondBlocked.tree := by
    decide +kernel
  obtain ⟨hfails, hchanged⟩ := hresult
  rcases run_outcome henv ["api.json", "out"] hrooted with
    ⟨failure, hrun⟩ | hstops | ⟨p, done, next, rest, failure, stopped, desk', -, -, hrun, -⟩ |
      ⟨p, desk', -, -, hrun, -⟩
  · rw [hrun] at hchanged
    exact absurd rfl hchanged
  · exact ⟨henv, hrooted, hstops⟩
  · rw [hrun] at hfails
    cases hfails
  · rw [hrun] at hfails
    cases hfails

end Command
end SchemaViews
