import Mathlib.Tactic.IntervalCases
import SchemaViews.Emission
import SchemaViews.JsonText

/-!
# What string literals denote

A string literal of a generated module denotes a row of code points: a letter
behind a backslash stands for one of the common controls, a quote or a
backslash, and four hexadecimal digits for the one code point with that number,
also if that is half of a surrogate pair.

So a literal denotes the UTF-16 units of the text that it was written for.
These are the characters of the text only as long as each of them has a single
unit.
-/

namespace SchemaViews
namespace StringLiteral

/-! ## Texts as numbers -/

def codePoints (text : String) : List ℕ :=
  text.toList.map Char.toNat

/-- The UTF-16 units of a character. -/
def unitsOf (c : Char) : List ℕ :=
  if c.toNat < 0x10000 then [c.toNat]
  else [0xD800 + (c.toNat - 0x10000) / 0x400, 0xDC00 + (c.toNat - 0x10000) % 0x400]

def utf16Units (text : String) : List ℕ :=
  text.toList.flatMap unitsOf

/-! ## Reading -/

def letterEscape? : Char → Option ℕ
  | '"' => some 34
  | '\\' => some 92
  | 'n' => some 10
  | 'r' => some 13
  | 't' => some 9
  | 'b' => some 8
  | 'f' => some 12
  | _ => none

def prepend (point : ℕ) (reading : List ℕ × List Char) : List ℕ × List Char :=
  (point :: reading.1, reading.2)

/-- The code points up to the closing quote, and the text behind it.  No line
ends inside a literal. -/
def readBody : List Char → Option (List ℕ × List Char)
  | [] => none
  | '"' :: rest => some ([], rest)
  | '\\' :: 'u' :: a :: b :: c :: d :: rest =>
    match JsonText.unit? a b c d with
    | some point => (readBody rest).map (prepend point)
    | none => none
  | '\\' :: c :: rest =>
    match letterEscape? c with
    | some point => (readBody rest).map (prepend point)
    | none => none
  | c :: rest => if c = '\n' ∨ c = '\r' then none else (readBody rest).map (prepend c.toNat)

/-- The literal at the front of a text.  Three quotes open a literal of several
lines, which is none of these. -/
def read? : List Char → Option (List ℕ × List Char)
  | '"' :: '"' :: '"' :: _ => none
  | '"' :: rest => readBody rest
  | _ => none

theorem readBody_length {text rest : List Char} {points : List ℕ}
    (h : readBody text = some (points, rest)) : rest.length < text.length := by
  have hmapped : ∀ {more : List Char} {point : ℕ} {points : List ℕ},
      (∀ {inner}, readBody more = some (inner, rest) → rest.length < more.length) →
      (readBody more).map (prepend point) = some (points, rest) →
      rest.length < more.length := by
    intro more point points ih hmore
    obtain ⟨⟨inner, behind⟩, hinner, heq⟩ := Option.map_eq_some_iff.mp hmore
    have hbehind : behind = rest := congrArg Prod.snd heq
    exact ih (hbehind ▸ hinner)
  fun_induction readBody text generalizing points with
  | case1 => cases h
  | case2 more =>
      cases h
      exact Nat.lt_succ_self _
  | case3 _ _ _ _ more _ _ ih | case5 _ more _ _ _ ih | case8 _ more _ _ _ _ ih =>
      have hlength := hmapped ih h
      simp only [List.length_cons]
      omega
  | case4 | case6 | case7 => cases h

theorem read?_length {text rest : List Char} {points : List ℕ}
    (h : read? text = some (points, rest)) : rest.length < text.length := by
  unfold read? at h
  split at h
  · cases h
  · have hlength := readBody_length h
    simp only [List.length_cons]
    omega
  · cases h

def readRow (text : List Char) : List (List ℕ) × List Char :=
  match _h : read? text with
  | some (points, ',' :: ' ' :: more) =>
    let row := readRow more
    (points :: row.1, row.2)
  | some (points, rest) => ([points], rest)
  | none => ([], text)
termination_by text.length
decreasing_by
  have hlength := read?_length _h
  simp only [List.length_cons] at hlength
  omega

def readEntry (text : List Char) : Option ((List ℕ × List ℕ) × List Char) :=
  match read? (text.dropWhile (· == ' ')) with
  | some (key, ':' :: ' ' :: rest) =>
    match read? rest with
    | some (type, ',' :: '\n' :: rest) => some ((key, type), rest)
    | _ => none
  | _ => none

theorem readEntry_length {text rest : List Char} {entry : List ℕ × List ℕ}
    (h : readEntry text = some (entry, rest)) : rest.length < text.length := by
  unfold readEntry at h
  split at h
  · rename_i key afterKey hkey
    split at h
    · rename_i type more htype
      cases h
      have hfirst := read?_length hkey
      have hsecond := read?_length htype
      have hblanks := (List.dropWhile_suffix (· == ' ') (l := text)).length_le
      simp only [List.length_cons] at hfirst hsecond
      omega
    · cases h
  · cases h

def readEntries (text : List Char) : List (List ℕ × List ℕ) × List Char :=
  match _h : readEntry text with
  | some (entry, rest) =>
    let entries := readEntries rest
    (entry :: entries.1, entries.2)
  | none => ([], text)
termination_by text.length
decreasing_by exact readEntry_length _h

/-! ## Escapes -/

theorem hexValue?_digitChar {n : ℕ} (h : n < 16) :
    Numerals.hexValue? (Nat.digitChar n) = some n := by
  interval_cases n <;> decide

theorem unit?_hexDigits {n : ℕ} (h : n < 0x10000) :
    ∃ a b c d, Characters.hexDigits 4 n = [a, b, c, d] ∧
      JsonText.unit? a b c d = some n := by
  refine ⟨_, _, _, _, rfl, ?_⟩
  have hbound : ∀ m : ℕ, m % 16 < 16 := fun m => Nat.mod_lt m (by decide)
  have hdigit : ∀ m : ℕ, Numerals.hexValue? (Nat.digitChar (m % 16)) = some (m % 16) :=
    fun m => hexValue?_digitChar (hbound m)
  have hvalue : 16 * (16 * (16 * (n / 16 / 16 / 16 % 16) + n / 16 / 16 % 16) +
      n / 16 % 16) + n % 16 = n := by omega
  simpa [JsonText.unit?, Numerals.isDigitOf, Numerals.value, hdigit, hbound] using hvalue

theorem readBody_unit {n : ℕ} (h : n < 0x10000) (rest : List Char) :
    readBody (unit n ++ rest) = (readBody rest).map (prepend n) := by
  obtain ⟨a, b, c, d, hdigits, hunit⟩ := unit?_hexDigits h
  rw [unit, hdigits]
  simp [readBody, hunit]

theorem toNat_lt (c : Char) : c.toNat < 0x110000 := by
  have hvalid := c.valid
  simp only [UInt32.isValidChar, Nat.isValidChar] at hvalid
  have heq : c.toNat = c.val.toNat := rfl
  omega

theorem readBody_escape (c : Char) (rest : List Char) :
    readBody (escape c ++ rest) =
      (readBody rest).map fun reading => (unitsOf c ++ reading.1, reading.2) := by
  unfold escape
  split_ifs with hquote hslash hfeed hreturn htab hback hform hvisible hsingle
  · subst hquote
    rfl
  · subst hslash
    rfl
  · subst hfeed
    rfl
  · subst hreturn
    rfl
  · subst htab
    rfl
  · subst hback
    rfl
  · subst hform
    rfl
  · have hunits : unitsOf c = [c.toNat] := if_pos (by omega)
    have hplain : readBody (c :: rest) = (readBody rest).map (prepend c.toNat) := by
      simp [readBody, hslash, hfeed, hreturn]
    rw [hunits]
    exact hplain
  · rw [readBody_unit hsingle, unitsOf, if_pos hsingle]
    rfl
  · have hbound := toNat_lt c
    have hhigh : 0xD800 + (c.toNat - 0x10000) / 0x400 < 0x10000 := by omega
    have hlow : 0xDC00 + (c.toNat - 0x10000) % 0x400 < 0x10000 := by omega
    rw [List.append_assoc, readBody_unit hhigh, readBody_unit hlow, Option.map_map, unitsOf,
      if_neg hsingle]
    rfl

theorem readBody_body (text rest : List Char) :
    readBody (body text ++ '"' :: rest) = some (text.flatMap unitsOf, rest) := by
  induction text with
  | nil => rfl
  | cons c text ih =>
      rw [body, List.flatMap_cons, List.append_assoc, readBody_escape]
      rw [body] at ih
      rw [ih, Option.map_some, List.flatMap_cons]

theorem head?_escape (c : Char) (rest : List Char) :
    (escape c ++ rest).head? ≠ some '"' := by
  unfold escape
  repeat' split
  all_goals simp_all [unit]

/-- A literal is read up to its own closing quote, unless it is the empty one
and a third quote follows. -/
theorem read?_encode (text : String) (rest : List Char) (h : rest.head? ≠ some '"') :
    read? ((encode text).toList ++ rest) = some (utf16Units text, rest) := by
  have hbody := readBody_body text.toList rest
  have hencode : (encode text).toList ++ rest =
      '"' :: (body text.toList ++ '"' :: rest) := by
    simp [encode]
  have hthree : ∀ more, body text.toList ++ '"' :: rest ≠ '"' :: '"' :: more := by
    intro more hmore
    cases htext : text.toList with
    | nil =>
        have hrest : rest = '"' :: more := by simpa [htext, body] using hmore
        rw [hrest] at h
        exact h rfl
    | cons c others =>
        rw [htext, body, List.flatMap_cons, List.append_assoc] at hmore
        exact head?_escape c _ (by rw [hmore]; rfl)
  rw [hencode, read?.eq_def]
  split
  · rename_i more hmore
    exact absurd (List.cons.inj hmore).2 (hthree more)
  · rename_i more hmore
    rw [← (List.cons.inj hmore).2]
    exact hbody
  · rename_i _ hnone
    exact (hnone _ rfl).elim

/-! ## Annotations and keys -/

theorem readRow_encode (text : String) (rest : List Char)
    (hquote : rest.head? ≠ some '"') (hcomma : rest.head? ≠ some ',') :
    readRow ((encode text).toList ++ rest) = ([utf16Units text], rest) := by
  rw [readRow]
  have hread := read?_encode text rest hquote
  split
  · rename_i points more hmore
    rw [hread] at hmore
    cases hmore
    exact absurd rfl hcomma
  · rename_i points more _ hmore
    rw [hread] at hmore
    cases hmore
    rfl
  · rename_i hnone
    rw [hread] at hnone
    cases hnone

theorem readRow_cons (text : String) (more : List Char) :
    readRow ((encode text).toList ++ ',' :: ' ' :: more) =
      (utf16Units text :: (readRow more).1, (readRow more).2) := by
  rw [readRow]
  have hread := read?_encode text (',' :: ' ' :: more) (by simp)
  split
  · rename_i points other hother
    rw [hread] at hother
    cases hother
    rfl
  · rename_i points other hdifferent hother
    rw [hread] at hother
    cases hother
    exact absurd rfl (hdifferent more)
  · rename_i hnone
    rw [hread] at hnone
    cases hnone

theorem readRow_intercalate (values : List String) :
    readRow ((", ".intercalate (values.map encode)).toList ++ [']']) =
      (values.map utf16Units, [']']) := by
  rw [String.toList_intercalate]
  induction values with
  | nil => rw [readRow]; rfl
  | cons value rest ih =>
      cases rest with
      | nil => simpa using readRow_encode value [']'] (by simp) (by simp)
      | cons next others =>
          rw [List.map_cons, List.map_cons] at ih
          simp only [List.map_cons, List.intercalate_cons_cons, List.append_assoc]
          have hrest := congrArg (fun reading => (utf16Units value :: reading.1, reading.2)) ih
          exact (readRow_cons value _).trans hrest

theorem readEntry_line (field : FieldLine) (rest : List Char) :
    readEntry (("        " ++ encode field.key ++ ": " ++ encode field.type ++ ",\n").toList ++
        rest) =
      some ((utf16Units field.key, utf16Units field.type), rest) := by
  have hkey := read?_encode field.key
    (':' :: ' ' :: ((encode field.type).toList ++ ',' :: '\n' :: rest)) (by simp)
  have htype := read?_encode field.type (',' :: '\n' :: rest) (by simp)
  have hline : (("        " ++ encode field.key ++ ": " ++ encode field.type ++ ",\n").toList ++
      rest).dropWhile (· == ' ') =
        (encode field.key).toList ++ ':' :: ' ' ::
          ((encode field.type).toList ++ ',' :: '\n' :: rest) := by
    simp [encode]
  rw [readEntry, hline, hkey]
  simp only [htype]

theorem readEntries_lines (fields : List FieldLine) {rest : List Char}
    (hend : readEntry rest = none) :
    readEntries ((String.join (fields.map fun field =>
        "        " ++ encode field.key ++ ": " ++ encode field.type ++ ",\n")).toList ++ rest) =
      (fields.map fun field => (utf16Units field.key, utf16Units field.type), rest) := by
  induction fields with
  | nil =>
      rw [readEntries]
      split
      · rename_i entry more hentry
        exact absurd (hend.symm.trans hentry) (by simp)
      · rfl
  | cons field others ih =>
      rw [String.toList_join] at ih ⊢
      rw [List.map_cons, List.flatMap_cons, List.append_assoc, readEntries]
      split
      · rename_i entry more hentry
        rw [readEntry_line] at hentry
        cases hentry
        rw [ih]
        rfl
      · rename_i hnone
        rw [readEntry_line] at hnone
        cases hnone

/-! ## Units and characters -/

theorem length_le_length_units (text : List Char) :
    text.length ≤ (text.flatMap unitsOf).length := by
  induction text with
  | nil => exact Nat.zero_le _
  | cons c text ih =>
      have hpositive : 1 ≤ (unitsOf c).length := by
        unfold unitsOf
        split <;> simp
      rw [List.flatMap_cons, List.length_append, List.length_cons]
      omega

/-- A pair of units makes the row longer than the text, and no unit is missing
elsewhere that could make up for it. -/
theorem utf16Units_eq_codePoints_iff (text : String) :
    utf16Units text = codePoints text ↔ ∀ c ∈ text.toList, c.toNat < 0x10000 := by
  unfold utf16Units codePoints
  induction text.toList with
  | nil => simp
  | cons c rest ih =>
      rw [List.flatMap_cons, List.map_cons, List.forall_mem_cons]
      by_cases hsingle : c.toNat < 0x10000
      · have hunits : unitsOf c = [c.toNat] := if_pos hsingle
        rw [hunits, List.singleton_append, List.cons.injEq, ih]
        simp [hsingle]
      · have hlonger := length_le_length_units rest
        have hunits : (unitsOf c).length = 2 := by
          rw [unitsOf, if_neg hsingle]
          rfl
        constructor
        · intro heq
          have hlength := congrArg List.length heq
          rw [List.length_append, List.length_cons, List.length_map] at hlength
          omega
        · intro h
          exact absurd h.1 hsingle

/-! ## Literals in ASCII -/

def isAscii (text : List Char) : Bool :=
  text.all fun c => c.toNat < 128

theorem isAscii_append (front behind : List Char) :
    isAscii (front ++ behind) = (isAscii front && isAscii behind) :=
  List.all_append

theorem isAscii_flatMap {texts : List Char} {f : Char → List Char}
    (h : ∀ c, isAscii (f c) = true) : isAscii (texts.flatMap f) = true := by
  rw [isAscii, List.all_flatMap, List.all_eq_true]
  exact fun c _ => h c

theorem isAscii_hexDigits (width n : ℕ) : isAscii (Characters.hexDigits width n) = true := by
  induction width generalizing n with
  | zero => rfl
  | succ width ih =>
      have hlast : isAscii [Nat.digitChar (n % 16)] = true := by
        have hdigit : n % 16 < 16 := Nat.mod_lt n (by decide)
        interval_cases n % 16 <;> rfl
      rw [Characters.hexDigits, isAscii_append, ih, hlast]
      rfl

theorem isAscii_unit (n : ℕ) : isAscii (unit n) = true :=
  isAscii_hexDigits 4 n

theorem isAscii_escape (c : Char) : isAscii (escape c) = true := by
  unfold escape
  repeat' split
  any_goals rfl
  · rename_i hvisible
    have hascii : c.toNat < 128 := by omega
    simpa [isAscii] using hascii
  · exact isAscii_unit _
  · rw [isAscii_append, isAscii_unit, isAscii_unit]
    rfl

theorem isAscii_encode (text : String) : isAscii (encode text).toList = true := by
  have hbody : isAscii (body text.toList) = true := isAscii_flatMap isAscii_escape
  rw [encode, String.toList_ofList, isAscii_append, isAscii, List.all_cons, ← isAscii, hbody]
  rfl

theorem isAscii_literalText (values : List String) :
    isAscii (Emit.literalText values).toList = true := by
  have hrow : isAscii (", ".intercalate (values.map encode)).toList = true := by
    rw [String.toList_intercalate]
    induction values with
    | nil => rfl
    | cons value rest ih =>
        cases rest with
        | nil => simpa using isAscii_encode value
        | cons next others =>
            simp only [List.map_cons, List.intercalate_cons_cons, isAscii_append] at ih ⊢
            rw [ih, isAscii_encode]
            rfl
  rw [Emit.literalText, String.toList_append, String.toList_append, isAscii_append,
    isAscii_append, hrow]
  rfl

theorem utf16Units_of_isAscii {text : String} (h : isAscii text.toList = true) :
    utf16Units text = codePoints text := by
  refine (utf16Units_eq_codePoints_iff text).mpr fun c hc => ?_
  have hascii := of_decide_eq_true (List.all_eq_true.mp h c hc)
  omega

/-! ## The literals of a module -/

/-- Wherever a module writes a text as a literal, the literal denotes the UTF-16
units of the text: as a value of a closed set, and as a key or an annotation of
a dictionary in functional syntax.  The units are the characters exactly if none
of these lies beyond the basic plane.  A closed set that is quoted once more is
read back as it was written, so that its own literals stay what they are. -/
theorem literals_denote_units (text name : String) (values lines : List String)
    (fields : List FieldLine) :
    (read? (encode text).toList = some (utf16Units text, []) ∧
      (utf16Units text = codePoints text ↔ ∀ c ∈ text.toList, c.toNat < 0x10000)) ∧
    (∃ row : String,
      Emit.literalText values = "Literal[" ++ row ∧
      readRow row.toList = (values.map utf16Units, [']']) ∧
      utf16Units (Emit.literalText values) = codePoints (Emit.literalText values)) ∧
    (∃ entries : String,
      Declaration.functionalText name lines fields =
        String.join (lines.map Declaration.commentLine) ++ name ++ " = TypedDict(\n    \"" ++ name
          ++ "\",\n    \x7b\n" ++ entries ∧
      readEntries entries.toList =
        (fields.map fun field => (utf16Units field.key, utf16Units field.type),
          "    \x7d,\n)".toList)) := by
  refine ⟨⟨?_, utf16Units_eq_codePoints_iff text⟩, ?_, ?_⟩
  · have hread := read?_encode text [] (by simp)
    rwa [List.append_nil] at hread
  · refine ⟨", ".intercalate (values.map encode) ++ "]", String.append_assoc, ?_, ?_⟩
    · rw [String.toList_append]
      exact readRow_intercalate values
    · exact utf16Units_of_isAscii (isAscii_literalText values)
  · refine ⟨_, String.append_assoc, ?_⟩
    rw [String.toList_append]
    exact readEntries_lines fields (by decide)

theorem literal_astral :
    Emit.literalText ["😀"] = "Literal[\"\\ud83d\\ude00\"]" ∧
      read? (encode "😀").toList = some ([0xD83D, 0xDE00], []) ∧
      codePoints "😀" = [0x1F600] := by
  decide

end StringLiteral
end SchemaViews
