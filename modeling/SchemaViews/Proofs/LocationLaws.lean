import Mathlib.Data.List.Infix
import SchemaViews.StandardEnvironment

/-!
# Laws of locations

The text of a location is read back as its names.  A path that was resolved has no
double dots, and neither has the file of a module, which has a single dot.  So the
place of an output file has names, and no double dots among them.
-/

namespace SchemaViews

/-! ## Pieces -/

section Pieces

variable {separator c : Char} {text piece : List Char}

theorem pieces_cons_self (separator : Char) (rest : List Char) :
    pieces separator (separator :: rest) = [] :: pieces separator rest :=
  if_pos rfl

theorem pieces_ne_nil (separator : Char) (text : List Char) :
    pieces separator text ≠ [] := by
  cases text with
  | nil => exact List.cons_ne_nil _ _
  | cons c rest =>
      rw [pieces]
      split
      · exact List.cons_ne_nil _ _
      · split <;> exact List.cons_ne_nil _ _

theorem pieces_cons_of_ne (hc : c ≠ separator) (rest : List Char) :
    ∃ first more, pieces separator rest = first :: more ∧
      pieces separator (c :: rest) = (c :: first) :: more := by
  obtain ⟨first, more, hrest⟩ := List.exists_cons_of_ne_nil (pieces_ne_nil separator rest)
  refine ⟨first, more, hrest, ?_⟩
  rw [pieces, if_neg hc, hrest]

theorem pieces_eq_splitOn (separator : Char) (text : List Char) :
    pieces separator text = text.splitOn separator := by
  induction text with
  | nil => rfl
  | cons c rest ih =>
      rw [List.splitOn, List.splitOnP_cons_eq_if_modifyHead, ← List.splitOn, ← ih]
      by_cases hc : c = separator
      · rw [hc, pieces_cons_self, if_pos (beq_iff_eq.mpr rfl)]
      · obtain ⟨first, more, hrest, hpieces⟩ := pieces_cons_of_ne hc rest
        rw [hpieces, hrest, if_neg (by simpa using hc), List.modifyHead_cons]

theorem not_mem_of_mem_pieces (h : piece ∈ pieces separator text) : separator ∉ piece := by
  induction text generalizing piece with
  | nil =>
      rw [List.mem_singleton.mp h]
      exact List.not_mem_nil
  | cons c rest ih =>
      by_cases hc : c = separator
      · rw [hc, pieces_cons_self, List.mem_cons] at h
        rcases h with rfl | h
        · exact List.not_mem_nil
        · exact ih h
      · obtain ⟨first, more, hrest, hpieces⟩ := pieces_cons_of_ne hc rest
        rw [hrest, List.forall_mem_cons] at ih
        rw [hpieces, List.mem_cons] at h
        rcases h with rfl | h
        · rw [List.mem_cons, not_or]
          exact ⟨Ne.symm hc, ih.1⟩
        · exact ih.2 piece h

theorem sublist_of_mem_pieces (h : piece ∈ pieces separator text) :
    piece.Sublist text := by
  induction text generalizing piece with
  | nil => rw [List.mem_singleton.mp h]
  | cons c rest ih =>
      by_cases hc : c = separator
      · rw [hc, pieces_cons_self, List.mem_cons] at h
        rcases h with rfl | h
        · exact List.nil_sublist _
        · exact (ih h).cons c
      · obtain ⟨first, more, hrest, hpieces⟩ := pieces_cons_of_ne hc rest
        rw [hrest, List.forall_mem_cons] at ih
        rw [hpieces, List.mem_cons] at h
        rcases h with rfl | h
        · exact ih.1.cons_cons c
        · exact (ih.2 piece h).cons c

theorem exists_mem_pieces (h : c ∈ text) (hc : c ≠ separator) :
    ∃ piece ∈ pieces separator text, c ∈ piece := by
  induction text with
  | nil => exact absurd h List.not_mem_nil
  | cons d rest ih =>
      by_cases hd : d = separator
      · rw [hd, List.mem_cons] at h
        obtain ⟨piece, hpiece, hmem⟩ := ih (h.resolve_left hc)
        rw [hd, pieces_cons_self]
        exact ⟨piece, List.mem_cons_of_mem _ hpiece, hmem⟩
      · obtain ⟨first, more, hrest, hpieces⟩ := pieces_cons_of_ne hd rest
        rw [hrest] at ih
        rw [hpieces]
        rcases List.mem_cons.mp h with rfl | h
        · exact ⟨_, List.mem_cons_self, List.mem_cons_self⟩
        · obtain ⟨piece, hpiece, hmem⟩ := ih h
          rcases List.mem_cons.mp hpiece with rfl | hpiece
          · exact ⟨_, List.mem_cons_self, List.mem_cons_of_mem d hmem⟩
          · exact ⟨piece, List.mem_cons_of_mem _ hpiece, hmem⟩

end Pieces

/-! ## Texts of locations -/

namespace Location

structure Proper (l : Location) : Prop where
  root : l.root = "" ∨ l.root = "/" ∨ l.root = "//"
  names : ∀ name ∈ l.names, name ≠ "" ∧ name ≠ "." ∧ '/' ∉ name.toList

theorem mem_ofText_names {text name : String} :
    name ∈ (ofText text).names ↔
      name ∈ segments '/' text ∧ name ≠ "" ∧ name ≠ "." := by
  rw [ofText, List.mem_filter, decide_eq_true_iff]

theorem not_mem_of_mem_segments {separator : Char} {text name : String}
    (h : name ∈ segments separator text) : separator ∉ name.toList := by
  obtain ⟨piece, hpiece, rfl⟩ := List.mem_map.mp h
  rw [String.toList_ofList]
  exact not_mem_of_mem_pieces hpiece

theorem ofText_proper (text : String) : (ofText text).Proper := by
  constructor
  · change rootOf text.toList = "" ∨ rootOf text.toList = "/" ∨ rootOf text.toList = "//"
    unfold rootOf
    split <;> simp
  · intro name hname
    obtain ⟨hsegment, hempty, hdot⟩ := mem_ofText_names.mp hname
    exact ⟨hempty, hdot, not_mem_of_mem_segments hsegment⟩

theorem segments_slash (text : String) :
    segments '/' ("/" ++ text) = "" :: segments '/' text := by
  rw [segments, String.toList_append]
  exact congrArg (List.map String.ofList) (pieces_cons_self '/' text.toList)

theorem segments_intercalate {names : List String} (hnames : names ≠ [])
    (h : ∀ name ∈ names, '/' ∉ name.toList) :
    segments '/' ("/".intercalate names) = names := by
  have hsplit : pieces '/' ("/".intercalate names).toList = names.map String.toList := by
    rw [pieces_eq_splitOn, String.toList_intercalate]
    refine List.splitOn_intercalate '/' ?_ (by simpa using hnames)
    simpa using h
  rw [segments, hsplit, List.map_map]
  simp [Function.comp_def]

theorem Proper.ofText_text_names {l : Location} (h : l.Proper) :
    (ofText l.text).names = l.names := by
  have hslash (text : String) : (ofText ("/" ++ text)).names = (ofText text).names := by
    simp [ofText, segments_slash]
  have hkept : l.names.filter (fun name => name ≠ "" ∧ name ≠ ".") = l.names := by
    rw [List.filter_eq_self]
    intro name hname
    exact decide_eq_true ⟨(h.names name hname).1, (h.names name hname).2.1⟩
  have hnames : (ofText ("/".intercalate l.names)).names = l.names := by
    by_cases hempty : l.names = []
    · rw [hempty]
      rfl
    · rw [ofText, segments_intercalate hempty fun name hname => (h.names name hname).2.2]
      exact hkept
  unfold text
  split
  · next hempty =>
      rw [hempty.2]
      rfl
  · rcases h.root with hroot | hroot | hroot
    · rw [hroot, String.empty_append, hnames]
    · rw [hroot, hslash, hnames]
    · rw [hroot, show "//" = "/" ++ "/" from rfl, String.append_assoc, hslash, hslash,
        hnames]

end Location

/-! ## Places of output files -/

theorem FileTree.mem_placeOf {names : List String} {name : String}
    (h : name ∈ FileTree.placeOf names) : name ∈ names ∧ name ≠ ".." := by
  have hfold : ∀ place, name ∈ names.foldl FileTree.step place →
      name ∈ place ∨ name ∈ names ∧ name ≠ ".." := by
    clear h
    induction names with
    | nil => exact fun _ => .inl
    | cons next rest ih =>
        intro place hname
        rcases ih _ hname with hname | ⟨hname, hdots⟩
        · rw [FileTree.step] at hname
          split at hname
          · exact .inl (List.mem_of_mem_dropLast hname)
          · next hnext =>
              rcases List.mem_append.mp hname with hname | hname
              · exact .inl hname
              · rw [List.mem_singleton.mp hname]
                exact .inr ⟨List.mem_cons_self, hnext⟩
        · exact .inr ⟨List.mem_cons_of_mem _ hname, hdots⟩
  exact (hfold [] h).resolve_left List.not_mem_nil

/-- A resolved path is proper, and no double dots are left in it. -/
theorem Command.resolvePath_proper {home : Location} (h : home.Proper) (path : String) :
    (Command.resolvePath home path).Proper ∧
      ".." ∉ (Command.resolvePath home path).names := by
  have hgiven := (Location.ofText_proper path).names
  rw [Command.resolvePath]
  split
  · refine ⟨⟨h.root, fun name hname => ?_⟩, fun hdots => (FileTree.mem_placeOf hdots).2 rfl⟩
    rcases List.mem_append.mp (FileTree.mem_placeOf hname).1 with hname | hname
    · exact h.names name hname
    · exact hgiven name hname
  · refine ⟨⟨by simp, fun name hname => ?_⟩, fun hdots => (FileTree.mem_placeOf hdots).2 rfl⟩
    exact hgiven name (FileTree.mem_placeOf hname).1

theorem TypeNaming.moduleFile_names (module : String) :
    (Location.ofText (TypeNaming.moduleFile module)).names ≠ [] ∧
      ".." ∉ (Location.ofText (TypeNaming.moduleFile module)).names := by
  let last := (segments '.' module).getLast?.getD ""
  have hlast : '.' ∉ last.toList := by
    cases hsegment : (segments '.' module).getLast? with
    | none => simp [last, hsegment]
    | some segment =>
        have hmem := Location.not_mem_of_mem_segments (List.mem_of_getLast? hsegment)
        simpa [last, hsegment] using hmem
  have htext : (TypeNaming.moduleFile module).toList = last.toList ++ ['.', 'p', 'y'] :=
    String.toList_append
  constructor
  · -- the piece with the letter `y` is a name
    have hletter : 'y' ∈ (TypeNaming.moduleFile module).toList := by simp [htext]
    obtain ⟨piece, hpiece, hy⟩ := exists_mem_pieces hletter (by decide : 'y' ≠ '/')
    have hname : String.ofList piece ∈ (Location.ofText (moduleFile module)).names := by
      refine Location.mem_ofText_names.mpr ⟨List.mem_map_of_mem hpiece, ?_, ?_⟩
      all_goals
        intro hpiece
        have hchars := congrArg String.toList hpiece
        rw [String.toList_ofList] at hchars
        simp [hchars] at hy
    exact List.ne_nil_of_mem hname
  · intro hdots
    obtain ⟨piece, hpiece, hname⟩ :=
      List.mem_map.mp (Location.mem_ofText_names.mp hdots).1
    have hchars : piece = ['.', '.'] := by simpa using congrArg String.toList hname
    have hcount := (sublist_of_mem_pieces hpiece).count_le '.'
    rw [htext, List.count_append, List.count_eq_zero.mpr hlast, hchars] at hcount
    exact absurd hcount (by decide)

end SchemaViews
