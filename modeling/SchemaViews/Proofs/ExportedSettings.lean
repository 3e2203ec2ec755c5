import SchemaViews.Proofs.OutcomeLaws
import SchemaViews.Settings

/-!
# Exported settings

What is entered can be partial and of any type, but an export lists every setting, its
sections in full.  Nothing of the defaults is left when it is entered, and so it gives the
settings back that were exported.
-/

namespace SchemaViews

theorem Section.settings_eq_ok {α : Type} {s : Option (Section α)} {settings : α}
    (h : Section.settings s = .ok settings) : s = some (.record settings) := by
  unfold Section.settings at h
  split at h
  · cases h
    rfl
  · cases h

namespace Settings

/-- All settings that a given value stands for, in the form in which they are given. -/
def complete (given : Value) : Except Failure Value :=
  ofValue given >>= toValue

theorem enter_formatter (s : Settings) (formatter : FormatterSettings) :
    s.enter (.str "formatter", formatter.toValue) =
      .ok { s with formatter := some (.record formatter) } := rfl

theorem enter_output (s : Settings) (output : OutputSettings) :
    s.enter (.str "output", output.toValue) =
      .ok { s with output := some (.record output) } := by
  obtain ⟨mode, validate, atomic⟩ := output
  cases mode <;> rfl

theorem toValue_eq_ok {s : Settings} {exported : Value} (h : s.toValue = .ok exported) :
    ∃ ignored ordered formatter output,
      s.ignoreSchemas = some ignored ∧ s.orderSchemas = some ordered ∧
      s.formatter = some (.record formatter) ∧ s.output = some (.record output) ∧
      s.exportable = true ∧
      exported = .map
        [(.str "read_module", s.readModule),
          (.str "write_module", s.writeModule),
          (.str "ignore_schemas", ignored),
          (.str "order_schemas", ordered),
          (.str "add_generation_comment", s.addComment),
          (.str "include_descriptions", s.includeDescriptions),
          (.str "formatter", formatter.toValue),
          (.str "output", output.toValue)] := by
  obtain ⟨formatter, hformatter, h⟩ := bind_eq_ok_iff.mp h
  obtain ⟨output, houtput, h⟩ := bind_eq_ok_iff.mp h
  split at h
  · next ignored ordered hexportable hignored hordered =>
      cases h
      exact ⟨ignored, ordered, formatter, output, hignored, hordered,
        Section.settings_eq_ok hformatter, Section.settings_eq_ok houtput, hexportable, rfl⟩
  · cases h

theorem succeeds_toValue_iff {s : Settings} : Succeeds s.toValue ↔
    s.ignoreSchemas.isSome ∧ s.orderSchemas.isSome ∧ s.exportable = true ∧
      Succeeds (Section.settings s.formatter) ∧ Succeeds (Section.settings s.output) := by
  constructor
  · rintro ⟨exported, h⟩
    obtain ⟨ignored, ordered, formatter, output, hignored, hordered, hformatter, houtput,
      hexportable, -⟩ := toValue_eq_ok h
    simp [hignored, hordered, hformatter, houtput, hexportable, Section.settings, succeeds_ok]
  · rintro ⟨hignored, hordered, hexportable, ⟨formatter, hformatter⟩, output, houtput⟩
    obtain ⟨ignored, hignored⟩ := Option.isSome_iff_exists.mp hignored
    obtain ⟨ordered, hordered⟩ := Option.isSome_iff_exists.mp hordered
    unfold toValue
    rw [hformatter, houtput, hexportable, hignored, hordered]
    exact succeeds_ok _

theorem ofValue_toValue {s : Settings} {exported : Value} (h : s.toValue = .ok exported) :
    ofValue exported = .ok s := by
  obtain ⟨ignored, ordered, formatter, output, hignored, hordered, hformatter, houtput,
    hexportable, rfl⟩ := toValue_eq_ok h
  let plain : Settings :=
    { readModule := s.readModule
      writeModule := s.writeModule
      ignoreSchemas := some ignored
      orderSchemas := some ordered
      addComment := s.addComment
      includeDescriptions := s.includeDescriptions }
  calc ofValue (.map _)
      -- the six entries in front are taken over as they are
      _ = List.foldlM enter plain
          [(.str "formatter", formatter.toValue), (.str "output", output.toValue)] := rfl
      _ = List.foldlM enter { plain with formatter := some (.record formatter) }
          [(.str "output", output.toValue)] := by
        rw [List.foldlM_cons, enter_formatter]
        rfl
      _ = .ok { plain with
            formatter := some (.record formatter), output := some (.record output) } := by
        rw [List.foldlM_cons, enter_output]
        rfl
      _ = .ok s := by
        dsimp only [plain]
        rw [← hignored, ← hordered, ← hformatter, ← houtput, ← hexportable]

/-- Settings that are entered and exported are the same after any number of rounds. -/
theorem complete_again {given exported : Value} (h : complete given = .ok exported) :
    ∃ s, ofValue given = .ok s ∧ s.toValue = .ok exported ∧
      ofValue exported = .ok s ∧ s.survivesExport = .ok true ∧
      complete exported = .ok exported := by
  obtain ⟨s, hread, hexported⟩ := bind_eq_ok_iff.mp h
  have hagain : ofValue exported = .ok s := ofValue_toValue hexported
  have hsurvives : s.survivesExport = .ok true := by
    rw [survivesExport, hexported]
    change ofValue exported >>= _ = _
    rw [hagain]
    simp [bind, Except.bind]
  exact ⟨s, hread, hexported, hagain, hsurvives, bind_eq_ok_iff.mpr ⟨s, hagain, hexported⟩⟩

theorem complete_again_partial :
    let given : Value := .map
      [(.str "formatter", .map [(.str "tool", .int 5)]),
        (.str "read_module", .null),
        (.str "unknown_option", .bool true),
        (.str "output", .map [(.str "mode", .str "force"), (.str "backup", .str "old")]),
        (.str "ignore_schemas", .map [(.str "Pet", .int 1)])]
    let exported : Value := .map
      [(.str "read_module", .null),
        (.str "write_module", .str "schemas.write"),
        (.str "ignore_schemas", .map [(.str "Pet", .int 1)]),
        (.str "order_schemas", .list []),
        (.str "add_generation_comment", .bool true),
        (.str "include_descriptions", .bool true),
        (.str "formatter", .map
          [(.str "enabled", .bool false), (.str "tool", .int 5), (.str "line_length", .int 100),
            (.str "target_version", .str "py312")]),
        (.str "output", .map
          [(.str "mode", .str "force"), (.str "validate_before_write", .bool true),
            (.str "atomic_write", .bool true)])]
    complete given = .ok exported ∧
      ∃ s, ofValue given = .ok s ∧ ofValue exported = .ok s ∧ complete exported = .ok exported := by
  intro given exported
  have hgiven : complete given = .ok exported := by decide
  obtain ⟨s, hread, -, hagain, -, hcomplete⟩ := complete_again hgiven
  exact ⟨hgiven, s, hread, hagain, hcomplete⟩

end Settings
end SchemaViews
