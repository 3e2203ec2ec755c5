import SchemaViews.OutputWriting
import SchemaViews.Proofs.FileTreeLaws
import SchemaViews.Proofs.FreshNames
import SchemaViews.Proofs.StatefulSteps

/-!
# Written files

A content that can be encoded, under names that are names, leaves the tree as it was, or
its file and the directories that were missing above it are all that is new; written
in place or under a temporary name, this comes to the same.  Directories are made only
below a missing place, where nothing can stand in the way any more.

Any other content fails when the directories are there already.
-/

namespace SchemaViews

namespace FileTree

/-- What keeps a file from being written to a place. -/
def Blocked (tree : FileTree) (mode : OutputMode) (place : List String) : Prop :=
  (mode = .refuse ∧ tree.node? place ≠ none) ∨ tree.node? place = some .directory ∨
    ∃ above text, above <+: place ∧ above ≠ place ∧
      tree.node? above = some (.file text)

/-- A tree in which a path was made a path of directories. -/
structure Opens (tree tree' : FileTree) (place : List String) : Prop where
  rooted : tree'.Rooted
  free : ∀ above text, above <+: place → tree.node? above ≠ some (.file text)
  directories : ∀ above, above <+: place → tree'.node? above = some .directory
  elsewhere : ∀ other, ¬ other <+: place → tree'.node? other = tree.node? other

/-- A tree with a new file or a file with a new text, and with the directories
above it. -/
structure Gains (tree tree' : FileTree) (place : List String) (text : String) : Prop where
  possible : ¬ tree.Blocked .force place
  file : tree'.node? place = some (.file text)
  directories : ∀ above, above <+: place → above ≠ place →
    tree'.node? above = some .directory
  elsewhere : ∀ other, ¬ other <+: place → tree'.node? other = tree.node? other

variable {tree tree' : FileTree} {place : List String}

theorem blocked_iff {mode : OutputMode} :
    tree.Blocked mode place ↔
      (mode = .refuse ∧ tree.node? place ≠ none) ∨ tree.Blocked .force place := by
  simp [Blocked]

theorem Opens.refl (h : tree.Rooted) (hplace : tree.node? place = some .directory) :
    tree.Opens tree place := by
  have hdirectories : ∀ above, above <+: place → tree.node? above = some .directory := by
    intro above habove
    by_cases heq : above = place
    · rw [heq, hplace]
    · exact h.directory_above hplace habove heq
  refine ⟨h, ?_, hdirectories, fun _ _ => rfl⟩
  intro above text habove hfile
  rw [hdirectories above habove] at hfile
  cases hfile

theorem prefix_dropLast_iff {above : List String} (hplace : place ≠ []) :
    above <+: place.dropLast ↔ above <+: place ∧ above ≠ place := by
  obtain ⟨init, last, rfl⟩ := (List.eq_nil_or_concat place).resolve_left hplace
  rw [List.concat_eq_append, List.dropLast_concat, List.prefix_concat_iff]
  constructor
  · intro habove
    refine ⟨.inr habove, ?_⟩
    rintro rfl
    have hlength := habove.length_le
    rw [List.length_append, List.length_singleton] at hlength
    omega
  · rintro ⟨heq | habove, hne⟩
    · exact absurd heq hne
    · exact habove

theorem Opens.gains (h : tree.Opens tree' place.dropLast) (hplace : place ≠ [])
    (hdirectory : tree.node? place ≠ some .directory) (text : String) :
    FileTree.Rooted (OrderedMap.insert tree' place (.file text)) ∧
      tree.Gains (OrderedMap.insert tree' place (.file text)) place text := by
  have hnode : tree'.node? place = tree.node? place :=
    h.elsewhere _ fun hinside => ((prefix_dropLast_iff hplace).mp hinside).2 rfl
  refine ⟨h.rooted.insert hplace (h.directories _ List.prefix_rfl) ?_, ?_, ?_, ?_, ?_⟩
  · intro hthere
    exact absurd (hnode ▸ hthere) hdirectory
  · rintro (⟨hmode, -⟩ | hthere | ⟨above, other, hinside, hne, hfile⟩)
    · cases hmode
    · exact hdirectory hthere
    · exact h.free above other ((prefix_dropLast_iff hplace).mpr ⟨hinside, hne⟩) hfile
  · rw [node?_insert hplace, if_pos rfl]
  · intro above hinside hne
    rw [node?_insert hplace, if_neg hne]
    exact h.directories above ((prefix_dropLast_iff hplace).mpr ⟨hinside, hne⟩)
  · intro other hother
    rw [node?_insert hplace, if_neg (by rintro rfl; exact hother List.prefix_rfl)]
    exact h.elsewhere other fun hinside =>
      hother ((prefix_dropLast_iff hplace).mp hinside).1

theorem file_of_insert_directory {next : List String} (hnext : next ≠ [])
    {above : List String} {text : String}
    (h : FileTree.node? (OrderedMap.insert tree next .directory) above = some (.file text)) :
    tree.node? above = some (.file text) := by
  rw [node?_insert hnext] at h
  split at h
  · cases h
  · exact h

end FileTree

namespace Writing

open FileTree

variable {tree tree' : FileTree} {place : List String}

/-! ## Directories -/

theorem makeDirectories_run (path : Location) (h : tree.Rooted) {names : List String}
    (hnames : ".." ∉ names) (hplace : tree.node? place = some .directory) :
    (∃ failure above text, above <+: place ++ names ∧
        tree.node? above = some (.file text) ∧
        (makeDirectories path place names).run tree = (.error failure, tree)) ∨
      ∃ tree', (makeDirectories path place names).run tree = (.ok (), tree') ∧
        tree.Opens tree' (place ++ names) := by
  induction names generalizing tree place with
  | nil =>
      rw [List.append_nil]
      exact .inr ⟨tree, rfl, .refl h hplace⟩
  | cons name rest ih =>
      rw [List.mem_cons, not_or] at hnames
      have hnext : place ++ [name] ≠ [] := by simp
      have hinside : place ++ [name] <+: place ++ name :: rest := by simp
      have hrest := List.append_assoc place [name] rest
      rw [makeDirectories, run_get_bind, step_eq (Ne.symm hnames.1)]
      cases hnode : tree.node? (place ++ [name]) with
      | some node =>
          cases node with
          | directory =>
              have hbelow := ih h hnames.2 hnode
              rw [hrest] at hbelow
              exact hbelow
          | file text => exact .inl ⟨_, _, text, hinside, hnode, rfl⟩
      | none =>
          let made : FileTree := OrderedMap.insert tree (place ++ [name]) .directory
          have hmade : made.Rooted := by
            refine h.insert hnext ?_ fun _ => rfl
            rwa [List.dropLast_concat]
          have hthere : made.node? (place ++ [name]) = some .directory := by
            rw [node?_insert hnext, if_pos rfl]
          have hput : (put (place ++ [name]) .directory).run tree = (.ok (), made) := rfl
          dsimp only
          rw [run_bind_of_ok hput]
          have hbelow := ih hmade hnames.2 hthere
          rw [hrest] at hbelow
          rcases hbelow with ⟨failure, above, text, habove, hfile, -⟩ | ⟨tree', hrun, hopens⟩
          · exact absurd (file_of_insert_directory hnext hfile)
              (h.no_file_through hplace hnode hinside habove text)
          · refine .inr ⟨tree', hrun, hopens.rooted, ?_, hopens.directories, ?_⟩
            · intro above text habove hfile
              refine hopens.free above text habove ?_
              rw [node?_insert hnext, if_neg, hfile]
              rintro rfl
              rw [hnode] at hfile
              cases hfile
            · intro other hother
              rw [hopens.elsewhere other hother, node?_insert hnext, if_neg]
              rintro rfl
              exact hother hinside

theorem makeDirectories_of_directory (path : Location) (h : tree.Rooted)
    {names : List String} (hnames : ".." ∉ names)
    (hplace : tree.node? (place ++ names) = some .directory) :
    (makeDirectories path place names).run tree = (.ok (), tree) := by
  induction names generalizing place with
  | nil => rfl
  | cons name rest ih =>
      rw [List.mem_cons, not_or] at hnames
      have hrest := List.append_assoc place [name] rest
      have hall := Opens.refl h hplace
      rw [makeDirectories, run_get_bind, step_eq (Ne.symm hnames.1),
        hall.directories (place ++ [name]) (by simp)]
      exact ih hnames.2 (hrest ▸ hplace)

/-! ## Temporary files -/

theorem temporaryPlace_spec (tree : FileTree) (place : List String) :
    ∃ number : ℕ, temporaryPlace tree place = place.dropLast ++
        ["." ++ place.getLast?.getD "" ++ "." ++ toString number ++ ".tmp"] ∧
      temporaryPlace tree place ∉ OrderedMap.keys tree := by
  let candidate (number : ℕ) : List String :=
    place.dropLast ++ ["." ++ place.getLast?.getD "" ++ "." ++ toString number ++ ".tmp"]
  have hinjective : Function.Injective candidate := by
    intro a b hab
    have hdigits : toString a = toString b := by
      simpa [candidate, String.append_assoc] using hab
    exact TypeNaming.toString_injective hdigits
  have hfirst : temporaryPlace tree place =
      TypeNaming.firstUnused candidate (OrderedMap.keys tree)
        (OrderedMap.keys tree).length 0 := by
    rw [show (OrderedMap.keys tree).length = tree.length from List.length_map ..]
    rfl
  obtain ⟨number, hnumber, hunused, -⟩ :=
    @TypeNaming.firstUnused_spec _ _ candidate (OrderedMap.keys tree) hinjective
  rw [hfirst, hnumber]
  exact ⟨number, rfl, hunused⟩

theorem temporaryPlace_ne (tree : FileTree) (hplace : place ≠ []) :
    temporaryPlace tree place ≠ place := by
  obtain ⟨number, htemporary, -⟩ := temporaryPlace_spec tree place
  obtain ⟨init, last, rfl⟩ := (List.eq_nil_or_concat place).resolve_left hplace
  rw [htemporary]
  intro heq
  have hlast : "." ++ last ++ "." ++ toString number ++ ".tmp" = last := by
    simpa using heq
  have hlength := congrArg String.length hlast
  simp only [String.length_append] at hlength
  have hdot : ".".length = 1 := rfl
  omega

/-! ## Contents in files -/

section Contents

variable {Content : Type} (coding : Coding Content) (content : Content)

theorem writeInPlace_run (tree : FileTree) (place : List String) :
    (writeInPlace coding place content).run tree =
      if tree.node? place = some .directory then (.error .outputIsDirectory, tree)
      else match coding.encode content with
        | some text => (.ok (), OrderedMap.insert tree place (.file text))
        | none => (.error .unencodable, OrderedMap.insert tree place (.file "")) := by
  let opened : FileTree := OrderedMap.insert tree place (.file "")
  have hopen : (put place (.file "")).run tree = (.ok (), opened) := rfl
  have hfill : (put place (.file "") >>= fun _ =>
        (liftM (encoded coding content) : Writing String) >>= fun text =>
          put place (.file text)).run tree =
      match coding.encode content with
      | some text => (.ok (), OrderedMap.insert tree place (.file text))
      | none => (.error .unencodable, opened) := by
    rw [run_bind_of_ok hopen, run_bind, run_liftM]
    unfold encoded
    cases coding.encode content with
    | none => rfl
    | some text => exact congrArg (Prod.mk _) (OrderedMap.insert_update ..)
  unfold writeInPlace
  rw [run_get_bind]
  cases tree.node? place with
  | none => exact hfill
  | some node =>
      cases node with
      | directory => rfl
      | file => exact hfill

/-- A file under a temporary name comes to its place as if it were written there, and
is removed otherwise. -/
theorem writeByRenaming_run (tree : FileTree) (hplace : place ≠ []) :
    (writeByRenaming coding place content).run tree =
      match coding.encode content with
      | some text =>
        if tree.node? place = some .directory then (.error .outputIsDirectory, tree)
        else (.ok (), OrderedMap.insert tree place (.file text))
      | none => (.error .unencodable, tree) := by
  let temporary := temporaryPlace tree place
  obtain ⟨number, hname, hunused⟩ := temporaryPlace_spec tree place
  have htemporary : temporary ≠ [] := by
    rw [show temporary = _ from hname]
    simp
  let noted (text : String) : FileTree := OrderedMap.insert tree temporary (.file text)
  have hopen : (put temporary (.file "")).run tree = (.ok (), noted "") := rfl
  have hput : ∀ text, (put temporary (.file text)).run (noted "") = (.ok (), noted text) :=
    fun text => congrArg (Prod.mk _) (OrderedMap.insert_update ..)
  have hremove : ∀ text, (remove temporary).run (noted text) = (.ok (), tree) := fun text =>
    congrArg (Prod.mk _)
      ((OrderedMap.erase_update_self ..).trans (OrderedMap.erase_of_not_mem hunused))
  have hnode : ∀ text, (noted text).node? place = tree.node? place := fun text => by
    rw [node?_insert htemporary, if_neg (Ne.symm (temporaryPlace_ne tree hplace))]
  have hrename : ∀ text, (rename temporary place text).run (noted text) =
      if tree.node? place = some .directory then (.error .outputIsDirectory, noted text)
      else (.ok (), OrderedMap.insert tree place (.file text)) := by
    intro text
    unfold rename
    rw [run_get_bind, hnode]
    cases tree.node? place with
    | none => exact run_bind_of_ok (hremove text)
    | some node =>
        cases node with
        | directory => rfl
        | file => exact run_bind_of_ok (hremove text)
  unfold writeByRenaming
  rw [run_get_bind]
  dsimp only
  rw [run_bind_of_ok hopen, run_tryCatch, run_bind, run_liftM]
  unfold encoded
  cases coding.encode content with
  | none => exact run_bind_of_ok (hremove "")
  | some text =>
      dsimp only
      rw [run_bind_of_ok (hput text), hrename]
      by_cases hthere : tree.node? place = some .directory
      · rw [if_pos hthere, if_pos hthere]
        exact run_bind_of_ok (hremove text)
      · rw [if_neg hthere, if_neg hthere]

theorem store_of_directory {tree : FileTree} (hplace : place ≠ [])
    (hthere : tree.node? place = some .directory) (atomic : Bool) :
    ∃ failure, (if atomic then writeByRenaming coding place content
      else writeInPlace coding place content).run tree = (.error failure, tree) := by
  cases atomic with
  | true =>
      rw [if_pos rfl, writeByRenaming_run coding content tree hplace]
      cases coding.encode content with
      | none => exact ⟨_, rfl⟩
      | some text => exact ⟨_, if_pos hthere⟩
  | false => exact ⟨_, (writeInPlace_run coding content tree place).trans (if_pos hthere)⟩

theorem store_of_free {tree : FileTree} (hplace : place ≠ [])
    (hfree : tree.node? place ≠ some .directory) (atomic : Bool) :
    (if atomic then writeByRenaming coding place content
      else writeInPlace coding place content).run tree =
      match coding.encode content with
      | some text => (.ok (), OrderedMap.insert tree place (.file text))
      | none => (.error .unencodable,
          if atomic then tree else OrderedMap.insert tree place (.file "")) := by
  cases atomic with
  | true =>
      rw [if_pos rfl, writeByRenaming_run coding content tree hplace]
      cases coding.encode content with
      | none => rfl
      | some text => exact if_neg hfree
  | false =>
      refine (writeInPlace_run coding content tree place).trans ((if_neg hfree).trans ?_)
      cases coding.encode content <;> rfl

end Contents

/-! ## Output files -/

section Write

variable {Content : Type} {coding : Coding Content} {settings : OutputSettings}
  {path : Location} {content : Content}

theorem occupied_eq {names : List String} (hnames : ".." ∉ names) (h : tree.Rooted) :
    tree.occupied names = (names.all isName && (tree.node? names).isSome) := by
  rw [occupied, h.lookup_eq hnames, List.nil_append]

theorem checkNames_run (names : List String) (tree : FileTree) :
    (checkNames names).run tree =
      if names.all isName then (.ok (), tree) else (.error .nullInName, tree) := by
  unfold checkNames
  split <;> rfl

/-- What is run once the directories above have been named and made. -/
theorem writeFile_run (coding : Coding Content) (content : Content) (atomic : Bool)
    (hnames : ".." ∉ path.names) (hparent : path.parent.names.all isName = true)
    (tree : FileTree) :
    (writeFile coding atomic path content).run tree =
      match (makeDirectories path.parent [] path.parent.names).run tree with
      | (.error failure, left) => (.error failure, left)
      | (.ok (), opened) =>
        if path.names.all isName then
          (if atomic then writeByRenaming coding path.names content
            else writeInPlace coding path.names content).run opened
        else (.error .nullInName, opened) := by
  rw [writeFile, run_bind, checkNames_run, if_pos hparent, placeOf_eq hnames]
  dsimp only
  rw [run_bind]
  rcases (makeDirectories path.parent [] path.parent.names).run tree with
    ⟨failure | done, opened⟩
  · rfl
  · dsimp only
    rw [run_bind, checkNames_run]
    by_cases hname : path.names.all isName = true
    · rw [if_pos hname, if_pos hname]
    · rw [if_neg hname, if_neg hname]

/-- What refuses a content before anything is changed: something is in the way, it is
not valid, or a directory cannot have its name. -/
def Refuses (coding : Coding Content) (settings : OutputSettings) (path : Location)
    (content : Content) (tree : FileTree) : Prop :=
  tree.Blocked settings.mode path.names ∨ validated coding settings content ≠ .ok () ∨
    path.parent.names.all isName = false

/-- How writing a content ends, and the tree that it leaves. -/
inductive Leaves (coding : Coding Content) (settings : OutputSettings) (path : Location)
    (content : Content) (tree : FileTree) : Except Failure Unit → FileTree → Prop
  | refused {failure : Failure} : Refuses coding settings path content tree →
      Leaves coding settings path content tree (.error failure) tree
  | written {tree' : FileTree} {text : String} :
      ¬ Refuses coding settings path content tree → coding.encode content = some text →
        path.names.all isName = true → tree.Gains tree' path.names text →
          Leaves coding settings path content tree (.ok ()) tree'
  | opened {tree' : FileTree} {failure : Failure} :
      ¬ Refuses coding settings path content tree →
        path.names.all isName = false ∧ failure = .nullInName ∨
          settings.atomic.isPresent = true ∧ coding.encode content = none ∧
            failure = .unencodable →
        tree.Opens tree' path.parent.names →
          Leaves coding settings path content tree (.error failure) tree'
  | emptied {tree' : FileTree} : ¬ Refuses coding settings path content tree →
      settings.atomic.isPresent = false → coding.encode content = none →
        path.names.all isName = true → tree.Gains tree' path.names "" →
          Leaves coding settings path content tree (.error .unencodable) tree'

section Ends

variable {result : Except Failure Unit}
  (hleaves : Leaves coding settings path content tree result tree')
include hleaves

theorem Leaves.of_encoded {text : String} (hencode : coding.encode content = some text)
    (hname : path.names.all isName = true) :
    (Refuses coding settings path content tree ∧ (∃ failure, result = .error failure) ∧
        tree' = tree) ∨
      (¬ Refuses coding settings path content tree ∧ result = .ok () ∧
        tree.Gains tree' path.names text) := by
  cases hleaves with
  | refused hrefuses => exact .inl ⟨hrefuses, ⟨_, rfl⟩, rfl⟩
  | written hfree hfound _ hgains =>
      cases hencode.symm.trans hfound
      exact .inr ⟨hfree, rfl, hgains⟩
  | opened _ hlate =>
      rcases hlate with ⟨hbad, _⟩ | ⟨_, hnone, _⟩
      · rw [hname] at hbad
        cases hbad
      · rw [hencode] at hnone
        cases hnone
  | emptied _ _ hnone =>
      rw [hencode] at hnone
      cases hnone

theorem Leaves.of_late
    (hlate : coding.encode content = none ∨ path.names.all isName = false) :
    ∃ failure, result = .error failure ∧
      (Refuses coding settings path content tree → tree' = tree) ∧
      (¬ Refuses coding settings path content tree →
        tree.Opens tree' path.parent.names ∨
          (settings.atomic.isPresent = false ∧ path.names.all isName = true ∧
            tree.Gains tree' path.names "")) := by
  cases hleaves with
  | refused hrefuses => exact ⟨_, rfl, fun _ => rfl, fun hfree => absurd hrefuses hfree⟩
  | written _ hencode hname =>
      rcases hlate with hnone | hbad
      · rw [hencode] at hnone
        cases hnone
      · rw [hname] at hbad
        cases hbad
  | opened hfree _ hopens =>
      exact ⟨_, rfl, fun hrefuses => absurd hrefuses hfree, fun _ => .inl hopens⟩
  | emptied hfree hatomic _ hname hgains =>
      exact ⟨_, rfl, fun hrefuses => absurd hrefuses hfree,
        fun _ => .inr ⟨hatomic, hname, hgains⟩⟩

end Ends

variable (hpath : path.names ≠ []) (hnames : ".." ∉ path.names)
include hpath hnames

/-- Where a directory is in the way, all directories above it are there already. -/
theorem writeFile_of_directory (h : tree.Rooted)
    (hparent : path.parent.names.all isName = true)
    (hthere : tree.node? path.names = some .directory) :
    ∃ failure, (writeFile coding settings.atomic.isPresent path content).run tree =
      (.error failure, tree) := by
  have habove : ".." ∉ path.parent.names := fun hmem =>
    hnames (List.mem_of_mem_dropLast hmem)
  rw [writeFile_run coding content _ hnames hparent,
    makeDirectories_of_directory _ h habove (h.parent hthere)]
  dsimp only
  by_cases hname : path.names.all isName = true
  · rw [if_pos hname]
    exact store_of_directory coding content hpath hthere settings.atomic.isPresent
  · rw [if_neg hname]
    exact ⟨_, rfl⟩

omit hnames in
/-- When the directories above are made, nothing but what stands in the place itself
refuses a valid content. -/
theorem occupied_of_refuses {opened : FileTree} (hopens : tree.Opens opened path.parent.names)
    (hthere : tree.node? path.names ≠ some .directory)
    (hvalid : validated coding settings content = .ok ())
    (hparent : path.parent.names.all isName = true)
    (h : Refuses coding settings path content tree) :
    settings.mode = .refuse ∧ tree.node? path.names ≠ none := by
  rcases h with hblocked | hinvalid | hbad
  · exact (blocked_iff.mp hblocked).resolve_right (hopens.gains hpath hthere "").2.possible
  · exact absurd hvalid hinvalid
  · rw [hparent] at hbad
    cases hbad

theorem writeFile_of_opens {opened : FileTree}
    (hfree : ¬ Refuses coding settings path content tree)
    (hthere : tree.node? path.names ≠ some .directory)
    (hparent : path.parent.names.all isName = true)
    (hrun : (makeDirectories path.parent [] path.parent.names).run tree = (.ok (), opened))
    (hopens : tree.Opens opened path.parent.names) :
    let left := (writeFile coding settings.atomic.isPresent path content).run tree
    Leaves coding settings path content tree left.1 left.2 ∧ left.2.Rooted := by
  have hgains := fun text => hopens.gains hpath hthere text
  have hplace : opened.node? path.names ≠ some .directory := by
    rwa [hopens.elsewhere _ fun hinside => ((prefix_dropLast_iff hpath).mp hinside).2 rfl]
  rw [writeFile_run coding content _ hnames hparent, hrun]
  dsimp only
  by_cases hname : path.names.all isName = true
  case neg =>
    rw [if_neg hname]
    exact ⟨.opened hfree (.inl ⟨by simpa using hname, rfl⟩) hopens, hopens.rooted⟩
  rw [if_pos hname, store_of_free _ _ hpath hplace]
  cases hencode : coding.encode content with
  | some text => exact ⟨.written hfree hencode hname (hgains text).2, (hgains text).1⟩
  | none =>
      cases hatomic : settings.atomic.isPresent with
      | true => exact ⟨.opened hfree (.inr ⟨hatomic, hencode, rfl⟩) hopens, hopens.rooted⟩
      | false => exact ⟨.emptied hfree hatomic hencode hname (hgains "").2, (hgains "").1⟩

theorem writeFile_leaves (h : tree.Rooted)
    (hexists : ¬ (tree.occupied path.names = true ∧ settings.mode = .refuse))
    (hvalid : validated coding settings content = .ok ()) :
    let left := (writeFile coding settings.atomic.isPresent path content).run tree
    Leaves coding settings path content tree left.1 left.2 ∧ left.2.Rooted := by
  have habove : ".." ∉ path.parent.names := fun hmem =>
    hnames (List.mem_of_mem_dropLast hmem)
  by_cases hparent : path.parent.names.all isName = true
  case neg =>
    rw [writeFile, run_bind, checkNames_run, if_neg hparent]
    exact ⟨.refused (.inr (.inr (by simpa using hparent))), h⟩
  by_cases hthere : tree.node? path.names = some .directory
  · obtain ⟨_, hfails⟩ := writeFile_of_directory hpath hnames h hparent hthere
    rw [hfails]
    exact ⟨.refused (.inl (.inr (.inl hthere))), h⟩
  rcases makeDirectories_run path.parent h habove (node?_nil tree) with
    ⟨failure, above, other, hinside, hfile, hrun⟩ | ⟨opened, hrun, hopens⟩
  · obtain ⟨hinside, hne⟩ := (prefix_dropLast_iff hpath).mp hinside
    rw [writeFile_run coding content _ hnames hparent, hrun]
    exact ⟨.refused (.inl (.inr (.inr ⟨above, other, hinside, hne, hfile⟩))), h⟩
  by_cases hrefuses : Refuses coding settings path content tree
  · -- something stands there under a name that is none, so no directory above was missing
    obtain ⟨hmode, hnode⟩ := occupied_of_refuses hpath hopens hthere hvalid hparent hrefuses
    obtain ⟨node, hnode⟩ := Option.ne_none_iff_exists'.mp hnode
    have hname : ¬ path.names.all isName = true := fun hname =>
      hexists ⟨by rw [occupied_eq hnames h, hname, hnode]; rfl, hmode⟩
    rw [writeFile_run coding content _ hnames hparent,
      makeDirectories_of_directory _ h habove (h.parent hnode)]
    dsimp only
    rw [if_neg hname]
    exact ⟨.refused hrefuses, h⟩
  · exact writeFile_of_opens hpath hnames hrefuses hthere hparent hrun hopens

theorem write_leaves (h : tree.Rooted) :
    let left := (write coding settings path content).run tree
    Leaves coding settings path content tree left.1 left.2 ∧ left.2.Rooted := by
  unfold write
  rw [run_get_bind]
  by_cases hexists : tree.occupied path.names = true ∧ settings.mode = .refuse
  · have hthrow : (throw (.outputExists path.text) : Writing PUnit).run tree =
        (.error (.outputExists path.text), tree) := rfl
    rw [if_pos hexists, run_bind_of_error hthrow]
    refine ⟨.refused (.inl (.inl ⟨hexists.2, ?_⟩)), h⟩
    have hoccupied := hexists.1
    rw [occupied_eq hnames h, Bool.and_eq_true] at hoccupied
    exact Option.isSome_iff_ne_none.mp hoccupied.2
  · rw [if_neg hexists, run_bind, run_liftM]
    cases hvalid : validated coding settings content with
    | error failure => exact ⟨.refused (.inr (.inl (by simp [hvalid]))), h⟩
    | ok done => exact writeFile_leaves hpath hnames h hexists hvalid

theorem write_congr {text : String} (hencode : coding.encode content = some text)
    {other : OutputSettings} (hmode : other.mode = settings.mode)
    (hvalid : validated coding settings content = .ok ())
    (hother : validated coding other content = .ok ()) :
    write coding other path content = write coding settings path content := by
  have hstore : ∀ atomic : Bool,
      (if atomic then writeByRenaming coding path.names content
        else writeInPlace coding path.names content) =
          writeInPlace coding path.names content := by
    intro atomic
    cases atomic with
    | false => rfl
    | true =>
        funext tree
        have hrenamed := writeByRenaming_run coding content tree hpath
        have hplain := writeInPlace_run coding content tree path.names
        rw [hencode] at hrenamed hplain
        exact hrenamed.trans hplain.symm
  unfold write writeFile
  rw [hmode, hvalid, hother, placeOf_eq hnames]
  simp only [hstore]

/-- A content that can be encoded either leaves the tree as it was, or its file and
the directories above it are all that is new; it cannot be written exactly if
something is in the way, whether under a temporary name or in place.  No other
content is written, and no content under a name that is none: then directories may
have been made, and a file that is written in place is empty. -/
theorem write_allOrNothing (h : tree.Rooted)
    (hvalid : validated coding settings content = .ok ()) :
    (settings.mode = .refuse → tree.occupied path.names = true →
      (write coding settings path content).run tree =
        (.error (.outputExists path.text), tree)) ∧
    (∀ text, coding.encode content = some text → path.names.all isName = true →
      ((∃ failure, ((write coding settings path content).run tree).1 = .error failure) ↔
        tree.Blocked settings.mode path.names) ∧
      (∀ failure, ((write coding settings path content).run tree).1 = .error failure →
        ((write coding settings path content).run tree).2 = tree) ∧
      (((write coding settings path content).run tree).1 = .ok () →
        tree.Gains ((write coding settings path content).run tree).2 path.names text) ∧
      ∀ other : OutputSettings, other.mode = settings.mode →
        validated coding other content = .ok () →
          (write coding other path content).run tree =
            (write coding settings path content).run tree) ∧
    (coding.encode content = none ∨ path.names.all isName = false →
      ∃ failure left, (write coding settings path content).run tree = (.error failure, left) ∧
        (Refuses coding settings path content tree → left = tree) ∧
        (¬ Refuses coding settings path content tree →
          tree.Opens left path.parent.names ∨
            (settings.atomic.isPresent = false ∧ path.names.all isName = true ∧
              tree.Gains left path.names ""))) := by
  have hleaves : Leaves coding settings path content tree _ _ := (write_leaves hpath hnames h).1
  refine ⟨fun hmode hoccupied => ?_, fun text hencode hname => ?_, fun hlate => ?_⟩
  · rw [write, run_get_bind, if_pos ⟨hoccupied, hmode⟩]
    rfl
  · have hparent : path.parent.names.all isName = true := by
      rw [List.all_eq_true] at hname ⊢
      exact fun name hmem => hname name (List.mem_of_mem_dropLast hmem)
    have hrefuses : Refuses coding settings path content tree ↔
        tree.Blocked settings.mode path.names := by
      simp [Refuses, hvalid, hparent]
    have hsame : ∀ other : OutputSettings, other.mode = settings.mode →
        validated coding other content = .ok () →
          (write coding other path content).run tree =
            (write coding settings path content).run tree :=
      fun other hmode hother => by rw [write_congr hpath hnames hencode hmode hvalid hother]
    rcases hleaves.of_encoded hencode hname with
      ⟨hblocked, ⟨failure, hresult⟩, hleft⟩ | ⟨hfree, hresult, hgains⟩
    · rw [hrefuses] at hblocked
      refine ⟨⟨fun _ => hblocked, fun _ => ⟨failure, hresult⟩⟩, fun _ _ => hleft, ?_, hsame⟩
      rw [hresult]
      rintro ⟨⟩
    · rw [hrefuses] at hfree
      rw [hresult]
      refine ⟨⟨?_, fun hblocked => absurd hblocked hfree⟩, ?_, fun _ => hgains, hsame⟩
      · rintro ⟨failure, ⟨⟩⟩
      · rintro failure ⟨⟩
  · obtain ⟨failure, hresult, hkept⟩ := hleaves.of_late hlate
    exact ⟨failure, _, Prod.ext hresult rfl, hkept⟩

end Write

theorem write_nested_file :
    let tree : FileTree := [(["out"], .directory), (["out", "read.py"], .file "old")]
    let path : Location := ⟨"", ["out", "models", "write.py"]⟩
    let left := (write .texts {} path "new").run tree
    tree.Rooted ∧ ".." ∉ path.names ∧
      left.2.node? ["out", "models", "write.py"] = some (.file "new") ∧
      left.2.node? ["out", "models"] = some .directory ∧
      left.2.node? ["out", "read.py"] = some (.file "old") ∧
      ∃ failure left, (write .codePoints {} path [0xD800]).run tree = (.error failure, left) ∧
        left.node? ["out", "read.py"] = some (.file "old") := by
  intro tree path left
  have hrooted : tree.Rooted := by decide
  have hpath : path.names ≠ [] := by decide
  have hnames : ".." ∉ path.names := by decide
  have hfree : ¬ tree.Blocked .refuse path.names := by
    rintro (⟨-, hthere⟩ | hthere | ⟨above, text, habove, -, hfile⟩)
    · exact hthere (by decide)
    · revert hthere
      decide
    · rw [← List.mem_inits] at habove
      simp [path] at habove
      rcases habove with rfl | rfl | rfl | rfl <;> cases hfile
  obtain ⟨-, hencoded, -⟩ :=
    @write_allOrNothing tree _ .texts {} path "new" hpath hnames hrooted rfl
  obtain ⟨hblocked, -, hok, -⟩ := hencoded "new" rfl (by decide)
  obtain ⟨-, -, hlate⟩ :=
    @write_allOrNothing tree _ .codePoints {} path [0xD800] hpath hnames hrooted rfl
  obtain ⟨failure, kept, hrun, hrefused, hopened⟩ := hlate (.inl (by decide))
  have hresult : left.1 = .ok () := by
    cases hresult : left.1 with
    | error failure => exact absurd (hblocked.mp ⟨failure, hresult⟩) hfree
    | ok done => rfl
  have hgains := hok hresult
  refine ⟨hrooted, hnames, hgains.file, hgains.directories _ (by decide) (by decide), ?_,
    failure, kept, hrun, ?_⟩
  · rw [hgains.elsewhere _ (by decide)]
    rfl
  · by_cases hrefuses : Refuses .codePoints {} path [0xD800] tree
    · rw [hrefused hrefuses]
      rfl
    · rcases hopened hrefuses with hopens | ⟨hatomic, -⟩
      · rw [hopens.elsewhere _ (by decide)]
        rfl
      · cases hatomic

/-- A name that is none is met when the directory above it was made, and a content
that has no encoding when the file is open: in place it is lost, under a temporary
name it stays. -/
theorem write_lateFailure :
    let plain : OutputSettings := { validate := .bool false, atomic := .bool false }
    let name : Location := ⟨"", ["d", "a\x00b"]⟩
    let named := (write .texts plain name "x").run []
    let place : Location := ⟨"", ["a.py"]⟩
    let forced : OutputSettings := { mode := .force, validate := .bool false }
    let tree : FileTree := [(["a.py"], .file "old")]
    let renamed := (write .codePoints forced place [0xD800]).run tree
    let lost := (write .codePoints { forced with atomic := .bool false } place [0xD800]).run tree
    (named.1 = .error .nullInName ∧ named.2 = [(["d"], .directory)]) ∧
      (renamed.1 = .error .unencodable ∧ renamed.2 = tree) ∧
      (lost.1 = .error .unencodable ∧ lost.2 = [(["a.py"], .file "")]) := by
  decide

end Writing
end SchemaViews
