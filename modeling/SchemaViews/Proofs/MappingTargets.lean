import SchemaViews.DiscriminatorTag
import SchemaViews.FragmentReading
import SchemaViews.Proofs.LocationLaws

/-!
# Pointers and the targets of mappings

A pointer denotes the component whose name it holds in an escaped form.  The
targets of a discriminator mapping are pointers or bare names, but they are
compared as they are written: a target stands for a component only if it spells
the component's name.

Spelling and denoting are the same for every target that holds no escape.  So a
referenced alternative has the tag of the first entry that denotes it as long as
no target up to that entry holds one.
-/

namespace SchemaViews
namespace ComponentPointer

/-! ## Escapes -/

section Pairs

variable {first second : Char} {text : List Char} (target : Char)

theorem length_replacePair_le (first second : Char) (text : List Char) :
    (replacePair first second target text).length ≤ text.length := by
  fun_induction replacePair first second target text with
  | case1 a b rest h ih | case2 a b rest h ih =>
      simp only [List.length_cons] at ih ⊢
      omega
  | case3 => exact Nat.le_refl _

theorem replacePair_of_absent (h : ¬ [first, second] <:+: text) :
    replacePair first second target text = text := by
  fun_induction replacePair first second target text with
  | case1 a b rest hpair =>
      obtain ⟨rfl, rfl⟩ := hpair
      exact absurd (List.prefix_append [a, b] rest).isInfix h
  | case2 a b rest _ ih => rw [ih fun hinfix => h (List.infix_cons hinfix)]
  | case3 => rfl

theorem length_replacePair_lt (h : [first, second] <:+: text) :
    (replacePair first second target text).length < text.length := by
  fun_induction replacePair first second target text with
  | case1 a b rest =>
      have hrest := length_replacePair_le target first second rest
      simp only [List.length_cons]
      omega
  | case2 a b rest hpair ih =>
      rcases List.infix_cons_iff.mp h with hfront | hbehind
      · simp only [List.cons_prefix_cons] at hfront
        exact absurd ⟨hfront.1.symm, hfront.2.1.symm⟩ hpair
      · simpa only [List.length_cons, Nat.add_lt_add_iff_right] using ih hbehind
  | case3 text hshort =>
      have hlength := h.length_le
      match text, hshort with
      | [], _ | [_], _ => simp at hlength
      | a :: b :: rest, hshort => exact absurd rfl (hshort a b rest)

end Pairs

def HoldsEscape (name : List Char) : Prop :=
  ['~', '1'] <:+: name ∨ ['~', '0'] <:+: name

theorem unescape_eq_self_iff {name : List Char} : unescape name = name ↔ ¬ HoldsEscape name := by
  unfold unescape HoldsEscape
  constructor
  · intro heq hescape
    have hlength := congrArg List.length heq
    have htildes := length_replacePair_le '~' '~' '0' (replacePair '~' '1' '/' name)
    by_cases hslash : ['~', '1'] <:+: name
    · have hshorter := length_replacePair_lt '/' hslash
      omega
    · rw [replacePair_of_absent '/' hslash] at hlength
      have hshorter := length_replacePair_lt '~' (hescape.resolve_left hslash)
      omega
  · intro hnone
    rw [not_or] at hnone
    rw [replacePair_of_absent '/' hnone.1, replacePair_of_absent '~' hnone.2]

theorem unescape_ne_nil {name : List Char} (h : name ≠ []) : unescape name ≠ [] := by
  have hpair : ∀ {first second target : Char} {text : List Char}, text ≠ [] →
      replacePair first second target text ≠ [] := by
    intro first second target text htext
    unfold replacePair
    split
    · split <;> exact List.cons_ne_nil _ _
    · exact htext
  exact hpair (hpair h)

/-! ## What a text denotes and what it spells -/

def rootText : String := "#/components/schemas/"

/-- A pointer to a component, or its bare name.  A text with a slash or a number
sign is no bare name. -/
def Denotes (text name : String) : Prop :=
  parse? text = some { name } ∨ text = name ∧ '/' ∉ text.toList ∧ '#' ∉ text.toList

/-- The name itself stands in the text, and no slash is in it. -/
def Spells (text name : String) : Prop :=
  '/' ∉ name.toList ∧ (text = rootText ++ name ∨ text = name ∧ '#' ∉ name.toList)

instance (text name : String) : Decidable (Spells text name) :=
  inferInstanceAs (Decidable (_ ∧ _))

/-- A pointer whose name holds an escape. -/
def Escaped (text : String) : Prop :=
  ∃ name, text = rootText ++ name ∧ '/' ∉ name.toList ∧ HoldsEscape name.toList

theorem not_escaped_of_not_mem {text : String} (h : '~' ∉ text.toList) : ¬ Escaped text := by
  rintro ⟨name, rfl, -, hescape⟩
  refine h ?_
  rw [String.toList_append]
  rcases hescape with hescape | hescape
  · exact List.mem_append_right _ (hescape.subset List.mem_cons_self)
  · exact List.mem_append_right _ (hescape.subset List.mem_cons_self)

theorem parse?_eq_some_iff {text : String} {target : Reference} :
    parse? text = some target ↔ ∃ name, text = rootText ++ name ∧ name ≠ "" ∧
      '/' ∉ name.toList ∧ target = { name := String.ofList (unescape name.toList) } := by
  have hroot : root = rootText.toList := rfl
  unfold parse?
  constructor
  · intro h
    split at h
    · next hprefix =>
        obtain ⟨name, hname⟩ := List.isPrefixOf_iff_prefix.mp hprefix
        rw [← hname, List.drop_left] at h
        dsimp only at h
        split at h
        · cases h
        · next hproper =>
            rw [not_or] at hproper
            refine ⟨String.ofList name, ?_, ?_, ?_, ?_⟩
            · rw [← String.toList_inj, ← hname, String.toList_append, String.toList_ofList, hroot]
            · simpa using hproper.1
            · simpa using hproper.2
            · simpa using (Option.some.inj h).symm
    · cases h
  · rintro ⟨name, rfl, hne, hslash, rfl⟩
    have hprefix : root <+: (rootText ++ name).toList := by
      rw [String.toList_append, hroot]
      exact List.prefix_append _ _
    have hdrop : (rootText ++ name).toList.drop root.length = name.toList := by
      rw [String.toList_append, hroot, List.drop_left]
    rw [if_pos (List.isPrefixOf_iff_prefix.mpr hprefix), hdrop]
    simp [hne, hslash]

theorem rootText_append_inj {first second : String} (h : rootText ++ first = rootText ++ second) :
    first = second := by
  rw [← String.toList_inj, String.toList_append, String.toList_append] at h
  exact String.toList_inj.mp (List.append_cancel_left h)

theorem name_ne_of_parse? {text : String} {target : Reference} (h : parse? text = some target) :
    target.name ≠ "" := by
  obtain ⟨name, -, hne, -, rfl⟩ := parse?_eq_some_iff.mp h
  have hchars : name.toList ≠ [] := by simpa using hne
  simpa using unescape_ne_nil hchars

theorem path_name (name : String) :
    ({ name } : Reference).path = ["components", "schemas", name] := by
  have hkind : segments '.' "components.schemas" = ["components", "schemas"] := by
    decide
  rw [Reference.path, hkind]
  rfl

theorem intercalate_segments (text : String) : "/".intercalate (segments '/' text) = text := by
  have hjoined : ['/'].intercalate (pieces '/' text.toList) = text.toList := by
    rw [pieces_eq_splitOn]
    exact List.intercalate_splitOn '/'
  rw [← String.toList_inj, String.toList_intercalate, segments, List.map_map]
  simpa [Function.comp_def] using hjoined

theorem targetPath?_eq_path_iff {text name : String} :
    targetPath? text = some ({ name } : Reference).path ↔ Spells text name := by
  rw [path_name]
  unfold targetPath?
  constructor
  · intro h
    split at h
    · next hprefix =>
        obtain ⟨rest, hrest⟩ := List.isPrefixOf_iff_prefix.mp hprefix
        have hdrop : text.toList.drop 2 = rest := by
          rw [← hrest]
          rfl
        rw [hdrop, Option.some.injEq] at h
        have hmem : name ∈ segments '/' (String.ofList rest) := by simp [h]
        have hslash : '/' ∉ name.toList := Location.not_mem_of_mem_segments hmem
        have hjoined := intercalate_segments (String.ofList rest)
        rw [h] at hjoined
        refine ⟨hslash, .inl ?_⟩
        have hrest' : rest = ("/".intercalate ["components", "schemas", name]).toList := by
          rw [hjoined, String.toList_ofList]
        rw [← String.toList_inj, ← hrest, hrest']
        simp [rootText]
    · split at h
      · next hbare =>
          have hname : text = name := by simpa using h
          exact ⟨hname ▸ hbare.1, .inr ⟨hname, hname ▸ hbare.2⟩⟩
      · cases h
  · rintro ⟨hslash, rfl | ⟨rfl, hsign⟩⟩
    · have hdrop : String.ofList ((rootText ++ name).toList.drop 2) =
          "/".intercalate ["components", "schemas", name] := by
        rw [← String.toList_inj]
        simp [rootText]
      have hpieces : segments '/' ("/".intercalate ["components", "schemas", name]) =
          ["components", "schemas", name] :=
        Location.segments_intercalate (by simp) (by simpa using hslash)
      rw [if_pos (by simp [rootText]), hdrop, hpieces]
    · have hnone : ¬ ("#/".toList.isPrefixOf text.toList = true) := by
        intro hprefix
        exact hsign ((List.isPrefixOf_iff_prefix.mp hprefix).subset (by simp))
      rw [if_neg hnone, if_pos ⟨hslash, hsign⟩]

theorem spells_iff_denotes {text name : String} (hname : name ≠ "") (h : ¬ Escaped text) :
    Spells text name ↔ Denotes text name := by
  have hplain : ∀ raw, text = rootText ++ raw → '/' ∉ raw.toList →
      unescape raw.toList = raw.toList := fun raw hraw hslash =>
    unescape_eq_self_iff.mpr fun hescape => h ⟨raw, hraw, hslash, hescape⟩
  constructor
  · rintro ⟨hslash, hpointer | ⟨rfl, hsign⟩⟩
    · left
      refine parse?_eq_some_iff.mpr ⟨name, hpointer, hname, hslash, ?_⟩
      rw [hplain name hpointer hslash, String.ofList_toList]
    · exact .inr ⟨rfl, hslash, hsign⟩
  · rintro (hparse | ⟨rfl, hslash, hsign⟩)
    · obtain ⟨raw, hraw, -, hslash, heq⟩ := parse?_eq_some_iff.mp hparse
      have hsame : name = raw := by
        rw [hplain raw hraw hslash, String.ofList_toList] at heq
        exact congrArg Reference.name heq
      exact hsame ▸ ⟨hslash, .inl hraw⟩
    · exact ⟨hslash, .inr ⟨rfl, hsign⟩⟩

/-- A pointer spells the name that it denotes unless it holds an escape. -/
theorem targetPath?_of_parse? {text : String} {target : Reference}
    (h : parse? text = some target) :
    targetPath? text = some target.path ↔ ¬ Escaped text := by
  obtain ⟨raw, hraw, -, -, rfl⟩ := parse?_eq_some_iff.mp h
  rw [targetPath?_eq_path_iff]
  constructor
  · rintro ⟨-, hspelled⟩ ⟨other, hother, -, hescape⟩
    have hpointer : text = rootText ++ String.ofList (unescape raw.toList) := by
      refine hspelled.resolve_right ?_
      rintro ⟨hbare, hsign⟩
      refine hsign ?_
      rw [← hbare, hraw]
      simp [rootText]
    have hsame := rootText_append_inj (hraw.symm.trans hpointer)
    rw [← rootText_append_inj (hraw.symm.trans hother)] at hescape
    refine unescape_eq_self_iff.mp ?_ hescape
    simpa using (congrArg String.toList hsame).symm
  · exact fun hplain => (spells_iff_denotes (name_ne_of_parse? h) hplain).mpr (.inl h)

end ComponentPointer

/-! ## Tags of referenced alternatives -/

namespace Discriminator

open ComponentPointer

def ofTexts (property : Value) (entries : List (Scalar × String)) : Discriminator where
  property := property
  mapping := entries.map fun entry => (entry.1, .str entry.2)

theorem keyFor?_ofTexts (path : List String) (property : Value)
    (entries : List (Scalar × String)) :
    keyFor? path (ofTexts property entries).mapping =
      .ok ((entries.find? fun entry => targetPath? entry.2 = some path).map Prod.fst) := by
  unfold ofTexts
  induction entries with
  | nil => rfl
  | cons entry rest ih =>
      rw [List.map_cons, List.find?_cons]
      by_cases hpath : targetPath? entry.2 = some path
      · simp [keyFor?, hpath]
      · simpa [keyFor?, hpath] using ih

/-- The tag of a reference is the key of the first entry that spells its name, or the
name itself. -/
theorem tag_reference (arena : Arena) (notes : Annotations) (name : String) (property : Value)
    (entries : List (Scalar × String)) :
    ((ofTexts property entries).tag arena (.reference notes { name })).result =
      .ok (((entries.find? fun entry => Spells entry.2 name).map Prod.fst).getD
        (.str name)).present? := by
  have hkey := keyFor?_ofTexts ({ name } : Reference).path property entries
  simp only [targetPath?_eq_path_iff] at hkey
  unfold tag
  rw [Outcome.result_bind]
  change (keyFor? _ _ >>= fun key => _) = _
  rw [hkey]
  rfl

theorem read_marked {pointer : String} {target : Reference} (h : parse? pointer = some target) :
    ∃ marked notes,
      (Value.map [(.str "$ref", .str pointer)]).markReferences.result = .ok marked ∧
        Fragment.read marked = .ok (.reference notes target) := by
  have hpointer : Entries.pointer? [(.str "$ref", .str pointer)] =
      some (pointer, some target) := by
    rw [← h]
    rfl
  refine ⟨.map [(.str referenceKey, .ref target)], .of [(.str referenceKey, .ref target)],
    ?_, ?_⟩
  · rw [Value.markReferences, hpointer]
    rfl
  · rw [Fragment.read]
    rfl

/-- A target has the path of the component that it points to exactly if it holds no
escape.  An option that is a pointer has the key of the first entry that spells the
component's name for its tag, or else the name.  If the pointer is among the targets
there is a first entry that denotes the component, and the tag is its key as long as
no target up to it holds an escape. -/
theorem tag_of_pointer {pointer : String} {target : Reference}
    (h : parse? pointer = some target) (arena : Arena) :
    (targetPath? pointer = some target.path ↔ ¬ Escaped pointer) ∧
    ∃ marked option,
      (Value.map [(.str "$ref", .str pointer)]).markReferences.result = .ok marked ∧
      Fragment.read marked = .ok option ∧
      ∀ (property : Value) (entries : List (Scalar × String)),
        ((ofTexts property entries).tag arena option).result =
          .ok (((entries.find? fun entry => Spells entry.2 target.name).map Prod.fst).getD
            (.str target.name)).present? ∧
        ((∃ key, (key, pointer) ∈ entries) →
          ∃ before key text after, entries = before ++ (key, text) :: after ∧
            Denotes text target.name ∧ (∀ entry ∈ before, ¬ Denotes entry.2 target.name) ∧
            ((∀ entry ∈ before ++ [(key, text)], ¬ Escaped entry.2) →
              ((ofTexts property entries).tag arena option).result = .ok key.present?)) := by
  obtain ⟨marked, notes, hmarked, hread⟩ := read_marked h
  have htarget : target = { name := target.name } := by
    obtain ⟨_, -, -, -, rfl⟩ := parse?_eq_some_iff.mp h
    rfl
  have htag := tag_reference arena notes target.name
  rw [← htarget] at htag
  refine ⟨targetPath?_of_parse? h, marked, _, hmarked, hread, fun property entries =>
    ⟨htag property entries, ?_⟩⟩
  rintro ⟨first, hfirst⟩
  have hdenoted : Denotes pointer target.name := .inl (h.trans (congrArg some htarget))
  classical
  obtain ⟨⟨key, text⟩, hfound⟩ : ∃ entry,
      entries.find? (fun entry => Denotes entry.2 target.name) = some entry :=
    Option.isSome_iff_exists.mp (List.find?_isSome.mpr ⟨_, hfirst, by simpa using hdenoted⟩)
  obtain ⟨hdenotes, before, after, rfl, hbefore⟩ := List.find?_eq_some_iff_append.mp hfound
  have hdenotes : Denotes text target.name := by simpa using hdenotes
  have hbefore : ∀ entry ∈ before, ¬ Denotes entry.2 target.name := by simpa using hbefore
  refine ⟨before, key, text, after, rfl, hdenotes, hbefore, fun hplain => ?_⟩
  have hspelled : ∀ entry ∈ before ++ [(key, text)],
      (Spells entry.2 target.name ↔ Denotes entry.2 target.name) :=
    fun entry hentry => spells_iff_denotes (name_ne_of_parse? h) (hplain entry hentry)
  rw [List.forall_mem_append, List.forall_mem_singleton] at hspelled
  have hfirst : (before ++ (key, text) :: after).find?
      (fun entry => Spells entry.2 target.name) = some (key, text) := by
    refine List.find?_eq_some_iff_append.mpr ⟨?_, before, after, rfl, fun entry hentry => ?_⟩
    · simpa using hspelled.2.mpr hdenotes
    · simpa using fun hspells => hbefore entry hentry ((hspelled.1 entry hentry).mp hspells)
  rw [htag, hfirst]
  rfl

theorem tag_of_pointer_cat :
    let pointer := "#/components/schemas/v1.Cat"
    let entries : List (Scalar × String) :=
      [(.str "other", "#/definitions/v1.Cat"), (.str "cat", "v1.Cat"), (.str "late", pointer)]
    parse? pointer = some { name := "v1.Cat" } ∧
    targetPath? pointer = some ["components", "schemas", "v1.Cat"] ∧
    ∃ marked option before key text after,
      (Value.map [(.str "$ref", .str pointer)]).markReferences.result = .ok marked ∧
      Fragment.read marked = .ok option ∧ entries = before ++ (key, text) :: after ∧
      Denotes text "v1.Cat" ∧ key.present? = some (.str "cat") ∧
      ((ofTexts (.str "kind") entries).tag [] option).result = .ok key.present? := by
  intro pointer entries
  have hparse : parse? pointer = some { name := "v1.Cat" } := by decide
  have hplain : ∀ entry ∈ entries, ¬ Escaped entry.2 := by
    have htildes : ∀ entry ∈ entries, '~' ∉ entry.2.toList := by decide
    exact fun entry hentry => not_escaped_of_not_mem (htildes entry hentry)
  obtain ⟨hpath, marked, option, hmarked, hread, hall⟩ := tag_of_pointer hparse []
  obtain ⟨htag, hfirst⟩ := hall (.str "kind") entries
  obtain ⟨before, key, text, after, heq, hdenotes, -, hkey⟩ :=
    hfirst ⟨.str "late", by simp [entries]⟩
  have hpointer : ¬ Escaped pointer := hplain (.str "late", pointer) (by simp [entries])
  have hsame : ((ofTexts (.str "kind") entries).tag [] option).result = .ok key.present? := by
    refine hkey fun entry hentry => hplain entry ?_
    rw [heq]
    simp only [List.mem_append, List.mem_cons, List.not_mem_nil, or_false] at hentry ⊢
    exact hentry.imp_right .inl
  have hcat : key.present? = some (.str "cat") := by
    rw [hsame] at htag
    exact (Except.ok.inj htag).trans (by decide)
  exact ⟨hparse, (hpath.mpr hpointer).trans (by decide), marked, option, before, key,
    text, after, hmarked, hread, heq, hdenotes, hcat, hsame⟩

/-- A pointer with an escape among the targets is not recognised as the option that it
denotes, and taken for another one whose name it spells. -/
theorem tag_of_escaped_pointer :
    let slash := "#/components/schemas/a~1b"
    let tilde := "#/components/schemas/a~01b"
    let d := ofTexts (.str "kind") [(.str "x", slash), (.str "y", tilde)]
    parse? slash = some { name := "a/b" } ∧ parse? tilde = some { name := "a~1b" } ∧
      targetPath? slash = some ["components", "schemas", "a~1b"] ∧
      (d.tag [] (.reference (.of []) { name := "a/b" })).result = .ok (some (.str "a/b")) ∧
      (d.tag [] (.reference (.of []) { name := "a~1b" })).result = .ok (some (.str "x")) := by
  decide

end Discriminator
end SchemaViews
