import SchemaViews.Proofs.MappingTargets

/-!
# Pointers to names

Every name has a pointer: first the tildes of the name are escaped, then its slashes.
A pointer is read the other way round, slashes first.  Both are passes over the whole
text, so what one pass writes must not look like an escape to another: behind every
tilde of the written name stands the digit of its own escape.
-/

namespace SchemaViews
namespace ComponentPointer

/-! ## One escape -/

def writePair (first second target : Char) (text : List Char) : List Char :=
  text.flatMap fun c => if c = target then [first, second] else [c]

section Pairs

variable {first second target c : Char} {text : List Char}

@[simp] theorem writePair_nil : writePair first second target [] = [] := rfl

theorem writePair_cons_self :
    writePair first second target (target :: text) =
      first :: second :: writePair first second target text := by
  simp [writePair]

theorem writePair_cons_of_ne (hc : c ≠ target) :
    writePair first second target (c :: text) = c :: writePair first second target text := by
  simp [writePair, hc]

theorem replacePair_cons_self :
    replacePair first second target (first :: second :: text) =
      target :: replacePair first second target text := by
  simp [replacePair]

theorem replacePair_cons_of_not_prefix (h : ¬ [first, second] <+: c :: text) :
    replacePair first second target (c :: text) = c :: replacePair first second target text := by
  cases text with
  | nil => simp [replacePair]
  | cons b rest =>
      have hpair : ¬ (c = first ∧ b = second) := by
        rintro ⟨rfl, rfl⟩
        exact h (List.prefix_append [c, b] rest)
      rw [replacePair, if_neg hpair]

theorem prefix_of_prefix_writePair (hne : first ≠ second)
    (h : [second] <+: writePair first second target text) : [second] <+: text := by
  cases text with
  | nil => exact h
  | cons b rest =>
      by_cases hb : b = target
      · rw [hb, writePair_cons_self, List.cons_prefix_cons] at h
        exact absurd h.1.symm hne
      · rw [writePair_cons_of_ne hb, List.cons_prefix_cons] at h
        simp [h.1]

theorem not_mem_writePair (hfirst : target ≠ first) (hsecond : target ≠ second)
    (text : List Char) : target ∉ writePair first second target text := by
  intro h
  obtain ⟨c, -, hc⟩ := List.mem_flatMap.mp h
  by_cases heq : c = target
  · simp [heq, hfirst, hsecond] at hc
  · simp [heq, Ne.symm heq] at hc

/-- What was written is read back, unless the text holds the pair itself and the first
character is not the one that is escaped. -/
theorem replacePair_writePair (hne : first ≠ second)
    (h : first = target ∨ ¬ [first, second] <:+: text) :
    replacePair first second target (writePair first second target text) = text := by
  induction text with
  | nil => rfl
  | cons c rest ih =>
      have hrest : first = target ∨ ¬ [first, second] <:+: rest :=
        h.imp_right fun hnot hinfix => hnot (List.infix_cons hinfix)
      by_cases hc : c = target
      · rw [hc, writePair_cons_self, replacePair_cons_self, ih hrest]
      · have hfront : ¬ [first, second] <+: c :: writePair first second target rest := by
          intro hpair
          rw [List.cons_prefix_cons] at hpair
          obtain ⟨rfl, hsecond⟩ := hpair
          have hinfix : [first, second] <:+: first :: rest :=
            (List.cons_prefix_cons.mpr ⟨rfl, prefix_of_prefix_writePair hne hsecond⟩).isInfix
          exact h.elim hc fun hnot => hnot hinfix
        rw [writePair_cons_of_ne hc, replacePair_cons_of_not_prefix hfront, ih hrest]

end Pairs

/-! ## Both escapes -/

def escape (name : List Char) : List Char :=
  writePair '~' '1' '/' (writePair '~' '0' '~' name)

/-- No escaped tilde is followed by the digit of a slash. -/
theorem not_infix_writePair_tilde (name : List Char) :
    ¬ ['~', '1'] <:+: writePair '~' '0' '~' name := by
  induction name with
  | nil => simp
  | cons c rest ih =>
      by_cases hc : c = '~'
      · rw [hc, writePair_cons_self]
        simp [List.infix_cons_iff, ih]
      · rw [writePair_cons_of_ne hc]
        have hc' : '~' ≠ c := fun heq => hc heq.symm
        simp [List.infix_cons_iff, ih, hc']

theorem unescape_escape (name : List Char) : unescape (escape name) = name := by
  have hslash : replacePair '~' '1' '/' (escape name) = writePair '~' '0' '~' name :=
    replacePair_writePair (by decide) (.inr (not_infix_writePair_tilde name))
  have htilde : replacePair '~' '0' '~' (writePair '~' '0' '~' name) = name :=
    replacePair_writePair (by decide) (.inl rfl)
  rw [unescape, hslash, htilde]

theorem slash_not_mem_escape (name : List Char) : '/' ∉ escape name :=
  not_mem_writePair (by decide) (by decide) _

theorem escape_ne_nil {name : List Char} (h : name ≠ []) : escape name ≠ [] := by
  intro hnil
  have hname := unescape_escape name
  rw [hnil] at hname
  exact h hname.symm

/-! ## Pointers -/

def pointerTo (name : String) : String :=
  rootText ++ String.ofList (escape name.toList)

theorem pointerTo_inj {name other : String} (h : pointerTo name = pointerTo other) :
    name = other := by
  have hescaped : escape name.toList = escape other.toList :=
    String.ofList_inj.mp (rootText_append_inj h)
  have hname := congrArg unescape hescaped
  rw [unescape_escape, unescape_escape] at hname
  exact String.toList_inj.mp hname

/-- The pointer to a name is read as the component of that name, and as no other. -/
theorem parse?_pointerTo {name : String} (hname : name ≠ "") :
    parse? (pointerTo name) = some { kind := "components.schemas", name := name } ∧
      ∀ other, name ≠ other →
        pointerTo name ≠ pointerTo other ∧ parse? (pointerTo name) ≠ parse? (pointerTo other) := by
  have hread : ∀ {name : String}, name ≠ "" →
      parse? (pointerTo name) = some { kind := "components.schemas", name := name } := by
    intro name hname
    refine parse?_eq_some_iff.mpr ⟨String.ofList (escape name.toList), rfl, ?_, ?_, ?_⟩
    · have hchars : name.toList ≠ [] := by simpa using hname
      simpa using escape_ne_nil hchars
    · simpa using slash_not_mem_escape name.toList
    · simp [unescape_escape]
  refine ⟨hread hname, fun other hother => ⟨fun heq => hother (pointerTo_inj heq), ?_⟩⟩
  by_cases hempty : other = ""
  · have hnone : parse? (pointerTo "") = none := by decide
    rw [hread hname, hempty, hnone]
    simp
  · rw [hread hname, hread hempty]
    simpa using hother

theorem parse?_pointerTo_escapes :
    "~01/~1" ≠ "" ∧ pointerTo "~01/~1" = "#/components/schemas/~001~1~01" ∧
      parse? "#/components/schemas/~001~1~01" = some { name := "~01/~1" } ∧
      parse? (pointerTo "~01/~1") ≠ parse? (pointerTo "~1/~1") := by
  have hpointer : pointerTo "~01/~1" = "#/components/schemas/~001~1~01" := by decide
  obtain ⟨hread, hothers⟩ := parse?_pointerTo (show "~01/~1" ≠ "" by decide)
  rw [hpointer] at hread
  exact ⟨by decide, hpointer, hread, (hothers "~1/~1" (by decide)).2⟩

end ComponentPointer
end SchemaViews
