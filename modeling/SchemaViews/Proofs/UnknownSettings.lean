import SchemaViews.Proofs.ExportedSettings

/-!
# Keys that are no settings

A key that is no setting is passed over, unless it is one of the four that settings carry
beside their values.  Two of these are refused, and one keeps the settings from being
exported.  The last gives all settings at once: a list that it leaves out is unknown from
then on, and sections have to be given once more behind it.
-/

namespace SchemaViews

theorem Section.not_succeeds_raw {α : Type} (value : Option Value) :
    ¬ Succeeds (Section.settings (value.map .raw : Option (Section α))) := by
  rintro ⟨settings, h⟩
  obtain ⟨_, -, hrecord⟩ := Option.map_eq_some_iff.mp (Section.settings_eq_ok h)
  cases hrecord

namespace Settings

def plainNames : List String :=
  ["read_module", "write_module", "ignore_schemas", "order_schemas",
    "add_generation_comment", "include_descriptions"]

def names : List String :=
  plainNames ++ ["formatter", "output"]

/-- Keys that are no settings, but are not passed over. -/
def reserved : List String :=
  ["__class__", "__weakref__", "__dict__", "to_dict"]

/-- The entries of a mapping that are settings. -/
def known (given : Entries) : Entries :=
  given.filter fun entry => entry.1 ∈ names.map Scalar.str

theorem known_cons_of_mem {key : String} (hkey : key ∈ names) (value : Value)
    (rest : Entries) : known ((.str key, value) :: rest) = (.str key, value) :: known rest :=
  List.filter_cons_of_pos (by simpa using hkey)

theorem known_cons_of_not_mem {key : String} (hkey : key ∉ names) (value : Value)
    (rest : Entries) : known ((.str key, value) :: rest) = known rest :=
  List.filter_cons_of_neg (by simpa using hkey)

/-! ## One key -/

/-- Nothing changes that an export depends on. -/
structure Alike (s s' : Settings) : Prop where
  ignored : s'.ignoreSchemas.isSome = s.ignoreSchemas.isSome
  ordered : s'.orderSchemas.isSome = s.orderSchemas.isSome
  formatter : s'.formatter = s.formatter
  output : s'.output = s.output
  exportable : s'.exportable = s.exportable

variable {s s' t : Settings} {key : String} {value : Value} {given : Entries}

theorem enter_assign (h : ∀ entries, value = .map entries → key ≠ "formatter" ∧ key ≠ "output")
    (s : Settings) :
    s.enter (.str key, value) = if s.knows key then s.assign key value else .ok s := by
  unfold enter
  split <;> simp_all

theorem enter_plain (hkey : key ∈ plainNames) (s : Settings) (value : Value) :
    ∃ s', s.enter (.str key, value) = .ok s' ∧ s.Alike s' := by
  obtain ⟨_, _, ignored, ordered, _, _, _, _, _⟩ := s
  simp only [plainNames, List.mem_cons, List.not_mem_nil, or_false] at hkey
  rcases hkey with rfl | rfl | rfl | rfl | rfl | rfl
  · exact ⟨_, rfl, rfl, rfl, rfl, rfl, rfl⟩
  · exact ⟨_, rfl, rfl, rfl, rfl, rfl, rfl⟩
  · cases ignored <;> exact ⟨_, rfl, rfl, rfl, rfl, rfl, rfl⟩
  · cases ordered <;> exact ⟨_, rfl, rfl, rfl, rfl, rfl, rfl⟩
  · exact ⟨_, rfl, rfl, rfl, rfl, rfl, rfl⟩
  · exact ⟨_, rfl, rfl, rfl, rfl, rfl, rfl⟩

theorem enter_formatter_map (s : Settings) (entries : Entries) :
    s.enter (.str "formatter", .map entries) =
      (fun formatter => { s with formatter := some (.record formatter) }) <$>
        FormatterSettings.ofEntries entries := by
  unfold enter
  rw [map_eq_pure_bind]
  rfl

theorem enter_output_map (s : Settings) (entries : Entries) :
    s.enter (.str "output", .map entries) =
      (fun output => { s with output := some (.record output) }) <$>
        OutputSettings.ofEntries entries := by
  unfold enter
  rw [map_eq_pure_bind]
  rfl

theorem enter_formatter_raw (s : Settings) (h : ∀ entries, value ≠ .map entries) :
    s.enter (.str "formatter", value) =
      .ok { s with formatter := (s.formatter.map fun _ => value).map .raw } := by
  rw [enter_assign fun entries heq => absurd heq (h entries)]
  obtain ⟨_, _, _, _, _, _, formatter, _, _⟩ := s
  cases formatter <;> rfl

theorem enter_output_raw (s : Settings) (h : ∀ entries, value ≠ .map entries) :
    s.enter (.str "output", value) =
      .ok { s with output := (s.output.map fun _ => value).map .raw } := by
  rw [enter_assign fun entries heq => absurd heq (h entries)]
  obtain ⟨_, _, _, _, _, _, _, output, _⟩ := s
  cases output <;> rfl

theorem formatter_cases (value : Value) :
    (∃ read, ∀ s : Settings, s.enter (.str "formatter", value) =
      (fun formatter => { s with formatter := some (.record formatter) }) <$> read) ∨
    ∀ s : Settings, s.enter (.str "formatter", value) =
      .ok { s with formatter := (s.formatter.map fun _ => value).map .raw } := by
  by_cases hmap : ∃ entries, value = .map entries
  · obtain ⟨entries, rfl⟩ := hmap
    exact .inl ⟨_, fun s => enter_formatter_map s entries⟩
  · exact .inr fun s => enter_formatter_raw s (not_exists.mp hmap)

theorem output_cases (value : Value) :
    (∃ read, ∀ s : Settings, s.enter (.str "output", value) =
      (fun output => { s with output := some (.record output) }) <$> read) ∨
    ∀ s : Settings, s.enter (.str "output", value) =
      .ok { s with output := (s.output.map fun _ => value).map .raw } := by
  by_cases hmap : ∃ entries, value = .map entries
  · obtain ⟨entries, rfl⟩ := hmap
    exact .inl ⟨_, fun s => enter_output_map s entries⟩
  · exact .inr fun s => enter_output_raw s (not_exists.mp hmap)

theorem enter_unknown (hkey : key ∉ names) (hreserved : key ∉ reserved) (s : Settings)
    (value : Value) : s.enter (.str key, value) = .ok s := by
  simp only [names, plainNames, reserved, List.cons_append, List.nil_append, List.mem_cons,
    List.not_mem_nil, or_false, not_or] at hkey hreserved
  have hknows : s.knows key = true := by
    unfold knows
    split <;> simp_all
  have hassign : s.assign key value = .ok s := by
    unfold assign
    split <;> simp_all
  have hplain : key ≠ "formatter" ∧ key ≠ "output" := by simp_all
  rw [enter_assign fun _ _ => hplain, if_pos hknows, hassign]

/-- What entering a key can do to settings. -/
inductive Entered (s : Settings) : (key : String) → (value : Value) → Settings → Prop
  | plain {key : String} {value : Value} {s' : Settings} :
      key ∈ plainNames → s.Alike s' → Entered s key value s'
  | formatter {value : Value} (read : Option (Section FormatterSettings)) :
      Entered s "formatter" value { s with formatter := read }
  | output {value : Value} (read : Option (Section OutputSettings)) :
      Entered s "output" value { s with output := read }
  | unknown {key : String} {value : Value} :
      key ∉ names → key ∉ reserved → Entered s key value s
  | method {value : Value} : Entered s "to_dict" value { s with exportable := false }
  | whole (entries : Entries) : Entered s "__dict__" (.map entries) (replaced entries)

theorem entered_formatter (h : s.enter (.str "formatter", value) = .ok s') :
    s.Entered "formatter" value s' := by
  rcases formatter_cases value with ⟨read, hread⟩ | hraw
  · rw [hread] at h
    obtain ⟨formatter, -, rfl⟩ := map_eq_ok_iff.mp h
    exact .formatter _
  · rw [hraw] at h
    cases h
    exact .formatter _

theorem entered_output (h : s.enter (.str "output", value) = .ok s') :
    s.Entered "output" value s' := by
  rcases output_cases value with ⟨read, hread⟩ | hraw
  · rw [hread] at h
    obtain ⟨output, -, rfl⟩ := map_eq_ok_iff.mp h
    exact .output _
  · rw [hraw] at h
    cases h
    exact .output _

theorem enter_whole_eq_ok (h : s.enter (.str "__dict__", value) = .ok s') :
    ∃ entries : Entries, value = .map entries ∧ s' = replaced entries := by
  cases value with
  | scalar _ => cases h
  | list _ => cases h
  | map entries =>
      cases h
      exact ⟨entries, rfl, rfl⟩

theorem entered_reserved (hkey : key ∈ reserved) (h : s.enter (.str key, value) = .ok s') :
    s.Entered key value s' := by
  simp only [reserved, List.mem_cons, List.not_mem_nil, or_false] at hkey
  rcases hkey with rfl | rfl | rfl | rfl
  · cases h
  · cases h
  · obtain ⟨entries, rfl, rfl⟩ := enter_whole_eq_ok h
    exact .whole entries
  · cases h
    exact .method

theorem entered (h : s.enter (.str key, value) = .ok s') : s.Entered key value s' := by
  by_cases hname : key ∈ names
  · rcases List.mem_append.mp hname with hplain | hsection
    · obtain ⟨other, hother, halike⟩ := enter_plain hplain s value
      cases h.symm.trans hother
      exact .plain hplain halike
    · have hsection : key = "formatter" ∨ key = "output" := by simpa using hsection
      rcases hsection with rfl | rfl
      · exact entered_formatter h
      · exact entered_output h
  · by_cases hreserved : key ∈ reserved
    · exact entered_reserved hreserved h
    · cases (enter_unknown hname hreserved s value).symm.trans h
      exact .unknown hname hreserved

theorem text_of_enter {entry : Scalar × Value} (h : s.enter entry = .ok s') :
    ∃ key, entry.1 = .str key := by
  unfold enter at h
  split at h
  · exact ⟨_, rfl⟩
  · exact ⟨_, rfl⟩
  · exact ⟨_, rfl⟩
  · cases h

/-! ## What is missing stays missing -/

/-- What an export needs was there before, as far as a key that gives all settings at once
does not bring it. -/
structure NoGain (s s' : Settings) : Prop where
  ignored : s'.ignoreSchemas.isSome → s.ignoreSchemas.isSome
  ordered : s'.orderSchemas.isSome → s.orderSchemas.isSome
  exportable : s'.exportable = true → s.exportable = true

theorem NoGain.refl (s : Settings) : s.NoGain s :=
  ⟨id, id, id⟩

theorem NoGain.trans {s s' s'' : Settings} (h : s.NoGain s') (h' : s'.NoGain s'') :
    s.NoGain s'' :=
  ⟨h.ignored ∘ h'.ignored, h.ordered ∘ h'.ordered, h.exportable ∘ h'.exportable⟩

theorem Entered.noGain (h : s.Entered key value s') (hkey : key ≠ "__dict__") : s.NoGain s' := by
  cases h with
  | plain _ halike =>
      exact ⟨fun hsome => halike.ignored ▸ hsome, fun hsome => halike.ordered ▸ hsome,
        fun htrue => halike.exportable ▸ htrue⟩
  | formatter read => exact ⟨id, id, id⟩
  | output read => exact ⟨id, id, id⟩
  | unknown _ _ => exact .refl s
  | method => exact ⟨id, id, by simp⟩
  | whole entries => exact absurd rfl hkey

theorem noGain_run (hdict : .str "__dict__" ∉ OrderedMap.keys given)
    (h : given.foldlM enter s = .ok s') : s.NoGain s' := by
  induction given generalizing s with
  | nil =>
      cases h
      exact .refl _
  | cons entry rest ih =>
      rw [OrderedMap.keys, List.map_cons, List.mem_cons, not_or] at hdict
      rw [List.foldlM_cons] at h
      obtain ⟨next, hnext, hrest⟩ := bind_eq_ok_iff.mp h
      obtain ⟨key, hkey⟩ := text_of_enter hnext
      obtain ⟨_, value⟩ := entry
      cases hkey
      have hne : key ≠ "__dict__" := fun heq => hdict.1 (by rw [heq])
      exact ((entered hnext).noGain hne).trans (ih hdict.2 hrest)

theorem run_split (h : given.foldlM enter s = .ok s')
    {entry : Scalar × Value} (hentry : entry ∈ given) :
    ∃ (before after : Entries) (s₁ s₂ : Settings), given = before ++ entry :: after ∧
      s₁.enter entry = .ok s₂ ∧ after.foldlM enter s₂ = .ok s' := by
  obtain ⟨before, after, rfl⟩ := List.append_of_mem hentry
  rw [List.foldlM_append] at h
  obtain ⟨s₁, -, h⟩ := bind_eq_ok_iff.mp h
  rw [List.foldlM_cons] at h
  obtain ⟨s₂, henter, hafter⟩ := bind_eq_ok_iff.mp h
  exact ⟨before, after, s₁, s₂, rfl, henter, hafter⟩

/-! ## What is passed over -/

theorem foldlM_known
    (htexts : ∀ key ∈ OrderedMap.keys given, ∃ text, key = .str text)
    (hreserved : ∀ name ∈ reserved, .str name ∉ OrderedMap.keys given) (s : Settings) :
    (known given).foldlM enter s = given.foldlM enter s := by
  induction given generalizing s with
  | nil => rfl
  | cons entry rest ih =>
      obtain ⟨key, value⟩ := entry
      simp only [OrderedMap.keys, List.map_cons, List.mem_cons, not_or] at htexts hreserved
      obtain ⟨text, rfl⟩ := htexts key (.inl rfl)
      have hrest := ih (fun other hother => htexts other (.inr hother))
        (fun name hname => (hreserved name hname).2)
      by_cases hname : text ∈ names
      · rw [known_cons_of_mem hname, List.foldlM_cons, List.foldlM_cons]
        simp only [hrest]
      · have htext : text ∉ reserved := fun hmem => (hreserved text hmem).1 rfl
        rw [known_cons_of_not_mem hname, hrest, List.foldlM_cons, enter_unknown hname htext]
        rfl

/-! ## What is not gained by unknown keys -/

/-- The first settings know everything, and every section that the second have read. -/
structure Covers (t s : Settings) : Prop where
  ignored : t.ignoreSchemas.isSome
  ordered : t.orderSchemas.isSome
  exportable : t.exportable = true
  formatter : Succeeds (Section.settings s.formatter) → Succeeds (Section.settings t.formatter)
  output : Succeeds (Section.settings s.output) → Succeeds (Section.settings t.output)

theorem covers_default : Covers {} {} :=
  ⟨rfl, rfl, rfl, id, id⟩

theorem Covers.succeeds_toValue (h : t.Covers s) (hs : Succeeds s.toValue) :
    Succeeds t.toValue := by
  obtain ⟨-, -, -, hformatter, houtput⟩ := succeeds_toValue_iff.mp hs
  exact succeeds_toValue_iff.mpr
    ⟨h.ignored, h.ordered, h.exportable, h.formatter hformatter, h.output houtput⟩

theorem Covers.enter_plain (hcovers : t.Covers s) (hkey : key ∈ plainNames)
    (h : s.enter (.str key, value) = .ok s') :
    ∃ t', t.enter (.str key, value) = .ok t' ∧ t'.Covers s' := by
  obtain ⟨other, hother, hs⟩ := Settings.enter_plain hkey s value
  obtain ⟨t', ht', ht⟩ := Settings.enter_plain hkey t value
  cases h.symm.trans hother
  refine ⟨t', ht', ?_, ?_, ?_, ?_, ?_⟩
  · rw [ht.ignored]
    exact hcovers.ignored
  · rw [ht.ordered]
    exact hcovers.ordered
  · rw [ht.exportable]
    exact hcovers.exportable
  · rw [hs.formatter, ht.formatter]
    exact hcovers.formatter
  · rw [hs.output, ht.output]
    exact hcovers.output

theorem Covers.enter_formatter (hcovers : t.Covers s)
    (h : s.enter (.str "formatter", value) = .ok s') :
    ∃ t', t.enter (.str "formatter", value) = .ok t' ∧ t'.Covers s' := by
  obtain ⟨hignored, hordered, hexportable, -, houtput⟩ := hcovers
  rcases formatter_cases value with ⟨read, hread⟩ | hraw
  · rw [hread] at h
    obtain ⟨formatter, rfl, rfl⟩ := map_eq_ok_iff.mp h
    exact ⟨_, hread t, hignored, hordered, hexportable, fun _ => succeeds_ok formatter, houtput⟩
  · rw [hraw] at h
    cases h
    exact ⟨_, hraw t, hignored, hordered, hexportable,
      fun hsucceeds => absurd hsucceeds (Section.not_succeeds_raw _), houtput⟩

theorem Covers.enter_output (hcovers : t.Covers s)
    (h : s.enter (.str "output", value) = .ok s') :
    ∃ t', t.enter (.str "output", value) = .ok t' ∧ t'.Covers s' := by
  obtain ⟨hignored, hordered, hexportable, hformatter, -⟩ := hcovers
  rcases output_cases value with ⟨read, hread⟩ | hraw
  · rw [hread] at h
    obtain ⟨output, rfl, rfl⟩ := map_eq_ok_iff.mp h
    exact ⟨_, hread t, hignored, hordered, hexportable, hformatter, fun _ => succeeds_ok output⟩
  · rw [hraw] at h
    cases h
    exact ⟨_, hraw t, hignored, hordered, hexportable, hformatter,
      fun hsucceeds => absurd hsucceeds (Section.not_succeeds_raw _)⟩

theorem Covers.enter_known (hcovers : t.Covers s) (hkey : key ∈ names)
    (h : s.enter (.str key, value) = .ok s') :
    ∃ t', t.enter (.str key, value) = .ok t' ∧ t'.Covers s' := by
  rcases List.mem_append.mp hkey with hplain | hsection
  · exact hcovers.enter_plain hplain h
  · have hsection : key = "formatter" ∨ key = "output" := by simpa using hsection
    rcases hsection with rfl | rfl
    · exact hcovers.enter_formatter h
    · exact hcovers.enter_output h

theorem Covers.entered_unknown (hcovers : t.Covers s) (hkey : key ∉ names)
    (h : s.Entered key value s') : t.Covers s' := by
  obtain ⟨hignored, hordered, hexportable, hformatter, houtput⟩ := hcovers
  cases h with
  | plain hplain _ => exact absurd (List.mem_append_left _ hplain) hkey
  | formatter read => exact absurd (by decide) hkey
  | output read => exact absurd (by decide) hkey
  | unknown _ _ => exact ⟨hignored, hordered, hexportable, hformatter, houtput⟩
  | method => exact ⟨hignored, hordered, hexportable, hformatter, houtput⟩
  | whole entries =>
      exact ⟨hignored, hordered, hexportable,
        fun hread => absurd hread (Section.not_succeeds_raw _),
        fun hread => absurd hread (Section.not_succeeds_raw _)⟩

theorem Covers.run (hcovers : t.Covers s)
    (h : given.foldlM enter s = .ok s') :
    ∃ t', (known given).foldlM enter t = .ok t' ∧ t'.Covers s' := by
  induction given generalizing s t with
  | nil =>
      cases h
      exact ⟨t, rfl, hcovers⟩
  | cons entry rest ih =>
      rw [List.foldlM_cons] at h
      obtain ⟨next, hnext, hrest⟩ := bind_eq_ok_iff.mp h
      obtain ⟨key, hkey⟩ := text_of_enter hnext
      obtain ⟨_, value⟩ := entry
      cases hkey
      by_cases hname : key ∈ names
      · obtain ⟨t₁, ht₁, hcovers₁⟩ := hcovers.enter_known hname hnext
        obtain ⟨t', ht', hcovers'⟩ := ih hcovers₁ hrest
        refine ⟨t', ?_, hcovers'⟩
        rw [known_cons_of_mem hname, List.foldlM_cons]
        exact bind_eq_ok_iff.mpr ⟨t₁, ht₁, ht'⟩
      · rw [known_cons_of_not_mem hname]
        exact ih (hcovers.entered_unknown hname (entered hnext)) hrest

/-! ## Unknown keys -/

theorem run_split_key (h : given.foldlM enter s = .ok s') {name : String}
    (hname : .str name ∈ OrderedMap.keys given) :
    ∃ (value : Value) (before after : Entries) (s₁ s₂ : Settings),
      given = before ++ (.str name, value) :: after ∧
        s₁.enter (.str name, value) = .ok s₂ ∧ after.foldlM enter s₂ = .ok s' := by
  obtain ⟨⟨_, value⟩, hentry, rfl⟩ := List.mem_map.mp hname
  exact ⟨value, run_split h hentry⟩

theorem not_refused (h : given.foldlM enter s = .ok s') :
    .str "__class__" ∉ OrderedMap.keys given ∧ .str "__weakref__" ∉ OrderedMap.keys given := by
  constructor
  · intro hmem
    obtain ⟨value, _, _, s₁, s₂, -, henter, -⟩ := run_split_key h hmem
    cases henter
  · intro hmem
    obtain ⟨value, _, _, s₁, s₂, -, henter, -⟩ := run_split_key h hmem
    cases henter

theorem not_method (hdict : .str "__dict__" ∉ OrderedMap.keys given)
    (h : given.foldlM enter s = .ok s') (hexportable : s'.exportable = true) :
    .str "to_dict" ∉ OrderedMap.keys given := by
  intro hmem
  obtain ⟨value, before, after, s₁, s₂, rfl, henter, hafter⟩ := run_split_key h hmem
  have hbehind : .str "__dict__" ∉ OrderedMap.keys after := by
    simp_all [OrderedMap.keys]
  have hexported : s₂.exportable = true := (noGain_run hbehind hafter).exportable hexportable
  cases henter
  cases hexported

/-- Settings that were all given at once were given as a mapping, which has what is
missing without it. -/
theorem whole_of_exportable (hdistinct : OrderedMap.Distinct given)
    (h : given.foldlM enter s = .ok s') (hexported : Succeeds s'.toValue)
    (hentry : (.str "__dict__", value) ∈ given) :
    ∃ whole : Entries, value = .map whole ∧ .str "ignore_schemas" ∈ OrderedMap.keys whole ∧
      .str "order_schemas" ∈ OrderedMap.keys whole ∧ .str "to_dict" ∉ OrderedMap.keys whole := by
  obtain ⟨hignored, hordered, hexportable, -, -⟩ := succeeds_toValue_iff.mp hexported
  obtain ⟨before, after, s₁, s₂, rfl, henter, hafter⟩ := run_split h hentry
  have hbehind : .str "__dict__" ∉ OrderedMap.keys after := by
    rw [OrderedMap.Distinct, OrderedMap.keys, List.map_append, List.map_cons] at hdistinct
    exact (List.nodup_cons.mp (List.nodup_append.mp hdistinct).2.1).1
  have hgain := noGain_run hbehind hafter
  obtain ⟨whole, rfl, rfl⟩ := enter_whole_eq_ok henter
  have hmem : ∀ {name : Scalar}, (OrderedMap.find? whole name).isSome →
      name ∈ OrderedMap.keys whole := by
    intro name hsome
    by_contra habsent
    rw [OrderedMap.find?_eq_none_iff.mpr habsent] at hsome
    cases hsome
  refine ⟨whole, rfl, hmem (hgain.ignored hignored), hmem (hgain.ordered hordered), ?_⟩
  have habsent := Option.isNone_iff_eq_none.mp (hgain.exportable hexportable)
  exact OrderedMap.find?_eq_none_iff.mp habsent

/-- Without a key that gives all settings at once, a mapping can be exported if the settings
in it can be and no other reserved key is there, and it is exported as they are.  Such a key
can go unnoticed in an export, but it makes none possible. -/
theorem complete_known (htexts : ∀ key ∈ OrderedMap.keys given, ∃ text, key = .str text)
    (hdistinct : OrderedMap.Distinct given) :
    ((∀ name ∈ reserved, .str name ∉ OrderedMap.keys given) →
      ofValue (.map given) = ofValue (.map (known given))) ∧
    (.str "__dict__" ∉ OrderedMap.keys given → ∀ exported,
      complete (.map given) = .ok exported ↔
        (∀ name ∈ reserved, .str name ∉ OrderedMap.keys given) ∧
          complete (.map (known given)) = .ok exported) ∧
    (Succeeds (complete (.map given)) →
      Succeeds (complete (.map (known given))) ∧
      .str "__class__" ∉ OrderedMap.keys given ∧ .str "__weakref__" ∉ OrderedMap.keys given ∧
      ∀ value, (.str "__dict__", value) ∈ given → ∃ whole : Entries, value = .map whole ∧
        .str "ignore_schemas" ∈ OrderedMap.keys whole ∧
        .str "order_schemas" ∈ OrderedMap.keys whole ∧
        .str "to_dict" ∉ OrderedMap.keys whole) := by
  have hsame : (∀ name ∈ reserved, .str name ∉ OrderedMap.keys given) →
      ofValue (.map given) = ofValue (.map (known given)) :=
    fun hreserved => (foldlM_known htexts hreserved {}).symm
  refine ⟨hsame, fun hdict exported => ⟨fun h => ?_, fun h => ?_⟩, fun h => ?_⟩
  · obtain ⟨s, hread, hexported⟩ := bind_eq_ok_iff.mp h
    obtain ⟨-, -, hexportable, -, -⟩ := succeeds_toValue_iff.mp ⟨exported, hexported⟩
    have hreserved : ∀ name ∈ reserved, .str name ∉ OrderedMap.keys given := by
      have hrefused := not_refused hread
      have hmethod := not_method hdict hread hexportable
      simp [reserved, hrefused, hdict, hmethod]
    refine ⟨hreserved, ?_⟩
    rwa [complete, ← hsame hreserved]
  · rw [complete, hsame h.1]
    exact h.2
  · obtain ⟨s, hread, hexported⟩ := succeeds_bind_iff.mp h
    obtain ⟨t, ht, hcovers⟩ := covers_default.run hread
    have hknown : Succeeds (complete (.map (known given))) :=
      succeeds_bind_iff.mpr ⟨t, ht, hcovers.succeeds_toValue hexported⟩
    have hrefused := not_refused hread
    exact ⟨hknown, hrefused.1, hrefused.2, fun value hentry =>
      whole_of_exportable hdistinct hread hexported hentry⟩

theorem complete_known_ruff :
    let ruff : Value := .map [(.str "tool", .str "ruff")]
    let given : Entries :=
      [(.str "unknown_option", .int 1), (.str "formatter", ruff), (.str "", .null),
        (.str "from_dict", .bool false)]
    (∀ key ∈ OrderedMap.keys given, ∃ text, key = .str text) ∧ OrderedMap.Distinct given ∧
      ofValue (.map given) = ofValue (.map [(.str "formatter", ruff)]) ∧
      Succeeds (complete (.map given)) := by
  intro ruff given
  have htexts : ∀ key ∈ OrderedMap.keys given, ∃ text, key = .str text := by
    simp [given, OrderedMap.keys]
  have hdistinct : OrderedMap.Distinct given := by
    simp [given, OrderedMap.Distinct, OrderedMap.keys]
  have hreserved : ∀ name ∈ reserved, .str name ∉ OrderedMap.keys given := by
    simp [given, reserved, OrderedMap.keys]
  have hdict : .str "__dict__" ∉ OrderedMap.keys given := hreserved _ (by simp [reserved])
  obtain ⟨hread, hcomplete, -⟩ := complete_known htexts hdistinct
  have hexported := (hcomplete hdict _).mpr ⟨hreserved, rfl⟩
  exact ⟨htexts, hdistinct, hread hreserved, _, hexported⟩

/-- A value in the place of the method that exports the settings. -/
theorem complete_known_method :
    let given : Entries := [(.str "to_dict", .int 1)]
    known given = [] ∧ complete (.map given) = .error .wrongShape ∧
      Succeeds (complete (.map (known given))) := by
  exact ⟨rfl, rfl, _, rfl⟩

end Settings
end SchemaViews
