import SchemaViews.Proofs.DescriptionText
import SchemaViews.Proofs.LiteralReading

/-!
# Keys in class syntax

A key of a class is what its name in the class body is read as.  Names are read
in their normal form, one name takes no annotation, and a private name gets the
name of its class in front.  So not every identifier that is no keyword comes
back as the key that it was written for.  In functional syntax every key is a
literal, and none of this happens to it.
-/

namespace SchemaViews
namespace Declaration

open Characters StringLiteral

/-! ## Reading the body of a class -/

/-- A normal form for names.  ASCII is normal, and an ASCII character does not
combine with what stands in front of it. -/
structure NormalForm where
  apply : List Char → List Char
  ascii : ∀ name, isAscii name = true → apply name = name
  again : ∀ name, apply (apply name) = apply name
  split : ∀ front c behind, c.toNat < 128 →
    apply (front ++ c :: behind) = apply front ++ apply (c :: behind)
  empty : ∀ name, apply name = [] → name = []

def narrowChar (c : Char) : Char :=
  if 0xFF01 ≤ c.toNat ∧ c.toNat ≤ 0xFF5E then Char.ofNat (c.toNat - 0xFEE0) else c

theorem narrowChar_of_ascii {c : Char} (h : c.toNat < 128) : narrowChar c = c :=
  if_neg (by omega)

theorem narrowChar_again (c : Char) : narrowChar (narrowChar c) = narrowChar c := by
  by_cases hwide : 0xFF01 ≤ c.toNat ∧ c.toNat ≤ 0xFF5E
  · have hvalid : (c.toNat - 0xFEE0).isValidChar := Or.inl (by omega)
    have hnumber : (Char.ofNat (c.toNat - 0xFEE0)).toNat = c.toNat - 0xFEE0 := by
      rw [Char.ofNat, dif_pos hvalid]
      rfl
    have hascii : (narrowChar c).toNat < 128 := by
      rw [narrowChar, if_pos hwide, hnumber]
      omega
    exact narrowChar_of_ascii hascii
  · have hsame : narrowChar c = c := if_neg hwide
    rw [hsame, hsame]

def NormalForm.narrow : NormalForm where
  apply := List.map narrowChar
  ascii := by
    intro name h
    have hsame : ∀ c ∈ name, narrowChar c = id c := fun c hc =>
      narrowChar_of_ascii (of_decide_eq_true (List.all_eq_true.mp h c hc))
    rw [List.map_congr_left hsame, List.map_id]
  again := by
    intro name
    rw [List.map_map]
    exact List.map_congr_left fun c _ => narrowChar_again c
  split := by
    intro front c behind _
    exact List.map_append
  empty := by
    intro name h
    exact List.map_eq_nil_iff.mp h

def IsPrivate (name : List Char) : Prop :=
  ['_', '_'] <+: name ∧ ¬ ['_', '_'] <:+ name

instance (name : List Char) : Decidable (IsPrivate name) :=
  inferInstanceAs (Decidable (_ ∧ _))

def bareOwner (owner : List Char) : List Char :=
  owner.dropWhile (· == '_')

def mangle (owner name : List Char) : List Char :=
  if IsPrivate name ∧ bareOwner owner ≠ [] then '_' :: bareOwner owner ++ name else name

def debugName : List Char :=
  "__debug__".toList

/-- The key for a name in the body of a class. -/
def keyOf? (form : NormalForm) (owner name : List Char) : Option (List Char) :=
  if form.apply name = debugName then none
  else some (mangle (form.apply owner) (form.apply name))

def readName? (text : List Char) : Option (List Char × List Char) :=
  let text := text.dropWhile (· == ' ')
  let name := text.takeWhile continuesIdentifier
  match text.dropWhile continuesIdentifier with
  | ':' :: ' ' :: rest => if isPlainKey (String.ofList name) then some (name, rest) else none
  | _ => none

def readKey? (form : NormalForm) (owner text : List Char) : Option (List Char × List Char) :=
  match readName? text with
  | some (name, rest) => (keyOf? form owner name).map fun key => (key, rest)
  | none => none

def classLine (field : FieldLine) : String :=
  "    " ++ field.key ++ ": " ++ field.type ++ "\n"

theorem isPlainKey_iff {key : String} :
    isPlainKey key = true ↔ isIdentifier key = true ∧ key ∉ keywords := by
  simp [isPlainKey]

theorem continuesIdentifier_of_isIdentifier {key : String} (h : isIdentifier key = true) :
    key.toList ≠ [] ∧ ∀ c ∈ key.toList, continuesIdentifier c = true := by
  unfold isIdentifier at h
  split at h
  · cases h
  · next first rest hkey =>
      rw [Bool.and_eq_true] at h
      rw [hkey, List.forall_mem_cons]
      refine ⟨by simp, ?_, List.all_eq_true.mp h.2⟩
      simp [continuesIdentifier, h.1]

theorem readName?_classLine {field : FieldLine} (h : isPlainKey field.key = true)
    (rest : List Char) :
    readName? ((classLine field).toList ++ rest) =
      some (field.key.toList, field.type.toList ++ '\n' :: rest) := by
  obtain ⟨hne, hall⟩ := continuesIdentifier_of_isIdentifier (isPlainKey_iff.mp h).1
  have hblank : continuesIdentifier ' ' = false := by decide +kernel
  have hcolon : continuesIdentifier ':' = false := by decide +kernel
  let behind := ':' :: ' ' :: (field.type.toList ++ '\n' :: rest)
  have hline : ((classLine field).toList ++ rest).dropWhile (· == ' ') =
      field.key.toList ++ behind := by
    obtain ⟨first, others, hkey⟩ := List.exists_cons_of_ne_nil hne
    have hfirst : first ≠ ' ' := by
      rintro rfl
      have hcontinues := hall ' ' (by simp [hkey])
      rw [hblank] at hcontinues
      cases hcontinues
    simp [classLine, behind, hkey, hfirst]
  have htake : (field.key.toList ++ behind).takeWhile continuesIdentifier = field.key.toList := by
    rw [List.takeWhile_append_of_pos hall]
    simp [behind, hcolon]
  have hdrop : (field.key.toList ++ behind).dropWhile continuesIdentifier = behind := by
    rw [List.dropWhile_append_of_pos hall]
    simp [behind, hcolon]
  rw [readName?, hline, htake, hdrop]
  simp only [behind, String.ofList_toList, if_pos h]

/-! ## Keys that class syntax keeps -/

/-- The names that are keys as they are. -/
structure KeptBy (form : NormalForm) (owner name : List Char) : Prop where
  normal : form.apply name = name
  assignable : name ≠ debugName
  shared : ¬ (IsPrivate name ∧ bareOwner (form.apply owner) ≠ [])

/-- A private name does not become itself: what is put in front of it would have
to vanish in the normal form. -/
theorem mangle_ne {form : NormalForm} {owner name : List Char}
    (h : IsPrivate (form.apply name)) : '_' :: bareOwner owner ++ form.apply name ≠ name := by
  intro hname
  obtain ⟨⟨rest, hrest⟩, -⟩ := h
  have hsplit := form.split ('_' :: bareOwner owner) '_' ('_' :: rest) (by decide)
  have hwhole : '_' :: bareOwner owner ++ '_' :: '_' :: rest = name := by
    rw [← hname, ← hrest]
    rfl
  have hbehind : form.apply ('_' :: '_' :: rest) = '_' :: '_' :: rest := by
    have hagain := form.again name
    rwa [← hrest] at hagain
  rw [hwhole, hbehind, ← hrest] at hsplit
  have hnone : form.apply ('_' :: bareOwner owner) = [] := by
    simpa using hsplit
  cases form.empty _ hnone

theorem keyOf?_eq_some_iff {form : NormalForm} {owner name : List Char} :
    keyOf? form owner name = some name ↔ KeptBy form owner name := by
  unfold keyOf? mangle
  constructor
  · intro h
    split at h
    · cases h
    · next hdebug =>
        rw [Option.some.injEq] at h
        split at h
        · next hprivate => exact absurd h (mangle_ne hprivate.1)
        · next hshared =>
            rw [h] at hdebug hshared
            exact ⟨h, hdebug, hshared⟩
  · rintro ⟨hnormal, hassignable, hshared⟩
    rw [hnormal, if_neg hassignable, if_neg hshared]

theorem readKey?_classLine (form : NormalForm) (owner : List Char) {field : FieldLine}
    (h : isPlainKey field.key = true) (rest : List Char) :
    readKey? form owner ((classLine field).toList ++ rest) =
      (keyOf? form owner field.key.toList).map fun key =>
        (key, field.type.toList ++ '\n' :: rest) := by
  rw [readKey?, readName?_classLine h]

/-! ## Both syntaxes -/

def classOpening (owner : String) (lines : List String) (fields : List FieldLine) : String :=
  "class " ++ owner ++ "(TypedDict):\n" ++
    if docText lines = "" then ""
    else "    \"\"\"" ++ docText lines ++ "\"\"\"\n" ++ if fields.isEmpty then "" else "\n"

theorem classText_eq (owner : String) (lines : List String) (fields : List FieldLine) :
    classText owner lines fields =
      classOpening owner lines fields ++ String.join (fields.map classLine) ++
        if fields.isEmpty ∧ docText lines = "" then "    pass\n" else "" := by
  have hline : (fun f : FieldLine => "    " ++ f.key ++ ": " ++ f.type ++ "\n") = classLine := rfl
  simp only [classText, hline]
  simp only [classOpening, String.append_assoc]

theorem dropFinalFeeds_functionalText (owner : String) (lines : List String)
    (fields : List FieldLine) :
    Lines.dropFinalFeeds (functionalText owner lines fields) =
      functionalText owner lines fields := by
  have hlast : (functionalText owner lines fields).toList.getLast? = some ')' := by
    rw [functionalText, String.toList_append, List.getLast?_append]
    rfl
  have hnone : Lines.dropFinalFeeds "" = "" := by simp [Lines.dropFinalFeeds]
  generalize functionalText owner lines fields = whole at hlast ⊢
  have hdrop := Lines.dropFinalFeeds_append hlast (by decide) ""
  rwa [hnone, String.append_empty] at hdrop

/-- A dictionary type is written in class syntax exactly if each of its keys is an
identifier and no keyword.  Then the line of a field is read as a key of the class,
which is the key that it was written for exactly if this is in normal form, can be
assigned to and is not private, or private to a class without a name of its own.
Otherwise every key is a literal that denotes it up to surrogates. -/
theorem keys_kept_iff (form : NormalForm) (owner : String) (lines : List String)
    (fields : List FieldLine) :
    if ∀ field ∈ fields, isIdentifier field.key = true ∧ field.key ∉ keywords then
      (record owner lines fields).text = Lines.dropFinalFeeds
        (classOpening owner lines fields ++ String.join (fields.map classLine) ++
          if fields.isEmpty ∧ docText lines = "" then "    pass\n" else "") ∧
      ∀ field ∈ fields,
        (∀ rest, readKey? form owner.toList ((classLine field).toList ++ rest) =
          (keyOf? form owner.toList field.key.toList).map fun key =>
            (key, field.type.toList ++ '\n' :: rest)) ∧
        (keyOf? form owner.toList field.key.toList = some field.key.toList ↔
          KeptBy form owner.toList field.key.toList)
    else
      ∃ entries : String,
        (record owner lines fields).text =
          String.join (lines.map commentLine) ++ owner ++ " = TypedDict(\n    \"" ++ owner ++
            "\",\n    \x7b\n" ++ entries ∧
        readEntries entries.toList =
          (fields.map fun field => (utf16Units field.key, utf16Units field.type),
            "    \x7d,\n)".toList) ∧
        ∀ field ∈ fields, utf16Units field.key = codePoints field.key ↔
          ∀ c ∈ field.key.toList, c.toNat < 0x10000 := by
  have hplain : (fields.all fun f => isPlainKey f.key) = true ↔
      ∀ field ∈ fields, isIdentifier field.key = true ∧ field.key ∉ keywords := by
    simp only [List.all_eq_true, isPlainKey_iff]
  split
  · next hall =>
      rw [text, if_pos (hplain.mpr hall), classText_eq]
      refine ⟨rfl, fun field hfield => ⟨fun rest => ?_, keyOf?_eq_some_iff⟩⟩
      exact readKey?_classLine form _ (isPlainKey_iff.mpr (hall field hfield)) rest
  · next hnot =>
      rw [text, if_neg (mt hplain.mp hnot), dropFinalFeeds_functionalText]
      refine ⟨_, String.append_assoc, ?_, fun field _ => utf16Units_eq_codePoints_iff field.key⟩
      rw [String.toList_append]
      exact readEntries_lines fields (by simp [readEntry, read?])

theorem keys_kept_iff_pet :
    let id : FieldLine := ⟨"id", "int"⟩
    let hidden : FieldLine := ⟨"__id", "str"⟩
    let dashed : FieldLine := ⟨"a-b", "str"⟩
    ((record "Pet" [] [id]).text = "class Pet(TypedDict):\n    id: int" ∧
      readKey? .narrow "Pet".toList (classLine id).toList =
        some ("id".toList, "int\n".toList)) ∧
      ∃ entries : String,
        (record "Pet" [] [hidden, dashed]).text =
          "Pet = TypedDict(\n    \"Pet\",\n    \x7b\n" ++ entries ∧
        (readEntries entries.toList).1.map Prod.fst = [codePoints "__id", codePoints "a-b"] := by
  intro id hidden dashed
  have hclass := keys_kept_iff .narrow "Pet" [] [id]
  have hfunctional := keys_kept_iff .narrow "Pet" [] [hidden, dashed]
  rw [if_pos (by decide)] at hclass
  rw [if_neg (by decide +kernel)] at hfunctional
  obtain ⟨htext, hkeys⟩ := hclass
  obtain ⟨hread, hkept⟩ := hkeys id (by simp)
  obtain ⟨entries, hentries, hliterals, -⟩ := hfunctional
  refine ⟨⟨htext.trans (by decide), ?_⟩, entries, ?_, ?_⟩
  · have hkey : KeptBy .narrow "Pet".toList id.key.toList :=
      ⟨by decide, by decide, by decide⟩
    have hline := hread []
    rw [hkept.mpr hkey, List.append_nil] at hline
    exact hline.trans (by decide)
  · exact hentries.trans (by simp)
  · rw [hliterals]
    decide

theorem class_key_private :
    (record "Pet" [] [⟨"__id", "str"⟩]).text = "class Pet(TypedDict):\n    __id: str" ∧
      readKey? .narrow "Pet".toList "    __id: str".toList =
        some ("_Pet__id".toList, "str".toList) := by
  decide +kernel

end Declaration
end SchemaViews
