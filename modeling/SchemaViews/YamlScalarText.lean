import SchemaViews.Numerals
import SchemaViews.YamlPlace

/-!
# Texts of YAML scalars

A plain or quoted scalar may run over several lines: a single line break inside it stands for a
space, and of several breaks the first is dropped.  A block scalar keeps its lines or folds them.
Texts are collected last character first.
-/

namespace SchemaViews
namespace YamlText

inductive Gap
  | spaces (read : List Char)
  | breaks (first : Char) (more : List Char)
  | escaped (more : List Char)

namespace Gap

def empty : Gap := .spaces []

def isEmpty : Gap → Bool
  | .spaces [] => true
  | _ => false

def crossesLine : Gap → Bool
  | .spaces _ => false
  | _ => true

def space (c : Char) : Gap → Gap
  | .spaces read => .spaces (c :: read)
  | gap => gap

def newLine (c : Char) : Gap → Gap
  | .spaces _ => .breaks (breakText c) []
  | .breaks first more => .breaks first (breakText c :: more)
  | .escaped more => .escaped (breakText c :: more)

def text : Gap → List Char
  | .spaces read => read
  | .breaks '\n' [] => [' ']
  | .breaks '\n' more => more
  | .breaks first more => more ++ [first]
  | .escaped more => more

end Gap

/-! ## Plain scalars -/

def isFlowIndicator (c : Char) : Bool :=
  c == ',' || c == '[' || c == ']' || c == '\x7b' || c == '\x7d'

def endsKey (flow : Bool) (rest : List Placed) : Bool :=
  endsWord rest || flow && (rest.head?.any fun c => isFlowIndicator c.char)

def startsPlain (flow : Bool) (c : Char) (rest : List Placed) : Bool :=
  !isSpace c && !"-?:,[]\x7b\x7d#&*!|>'\"%@`".toList.contains c
    || !endsWord rest && (c == '-' || !flow && (c == '?' || c == ':'))

/-- The rest of a plain scalar, whether a line break follows it, and the text behind.  Further
words on the line or, in a block, on lines that are indented enough belong to the scalar; a tab ends
it. -/
def plainText (flow : Bool) (indent : Nat) (read : List Char) (gap : Gap) :
    List Placed → List Char × Bool × List Placed
  | [] => (read, gap.crossesLine, [])
  | c :: rest =>
    if c.char == ' ' then plainText flow indent read (gap.space ' ') rest
    else if isBreak c.char then
      if atDocumentMark rest then (read, true, rest)
      else plainText flow indent read (gap.newLine c.char) rest
    else if c.char == '\t'
        || !gap.isEmpty && (c.char == '#' || !flow && c.column < indent)
        || c.char == ':' && endsKey flow rest
        || flow && (isFlowIndicator c.char || c.char == '?') then
      (read, gap.crossesLine, c :: rest)
    else plainText flow indent (c.char :: (gap.text ++ read)) .empty rest

/-! ## Quoted scalars -/

def shortEscape? : Char → Option Char
  | '0' => some '\x00'
  | 'a' => some '\x07'
  | 'b' => some '\x08'
  | 't' | '\t' => some '\t'
  | 'n' => some '\n'
  | 'v' => some '\x0b'
  | 'f' => some '\x0c'
  | 'r' => some '\r'
  | 'e' => some '\x1b'
  | ' ' => some ' '
  | '"' => some '"'
  | '\\' => some '\\'
  | '/' => some '/'
  | 'N' => some '\x85'
  | '_' => some '\xa0'
  | 'L' => some '\u2028'
  | 'P' => some '\u2029'
  | _ => none

def codeWidth? : Char → Option Nat
  | 'x' => some 2
  | 'u' => some 4
  | 'U' => some 8
  | _ => none

def escape? : List Placed → Option (Char × List Placed)
  | [] => none
  | c :: rest =>
    match shortEscape? c.char, codeWidth? c.char with
    | some e, _ => some (e, rest)
    | none, some width =>
      let digits := (rest.take width).map Placed.char
      let code := Numerals.value 16 digits
      if digits.length = width ∧ digits.all (Numerals.isDigitOf 16) ∧ code.isValidChar then
        some (Char.ofNat code, rest.drop width)
      else none
    | none, none => none

/-- The rest of a scalar behind its opening quote, and the text behind it.  In single quotes a
doubled quote stands for one; in double quotes there are escapes.  Every step takes a character, so
the length of the text is fuel enough. -/
def quotedText (quote : Char) : (fuel : Nat) → (read : List Char) → Gap → List Placed →
    Option (List Char × List Placed)
  | 0, _, _, _ => none
  | _, _, _, [] => none
  | fuel + 1, read, gap, c :: rest =>
    let words := gap.text ++ read
    if isSpace c.char then quotedText quote fuel read (gap.space c.char) rest
    else if isBreak c.char then
      if atDocumentMark rest then none
      else quotedText quote fuel read (gap.newLine c.char) rest
    else if c.char == quote then
      match rest with
      | next :: behind =>
        if quote == '\'' && next.char == '\'' then
          quotedText quote fuel ('\'' :: words) .empty behind
        else some (words, rest)
      | [] => some (words, [])
    else if quote == '"' && c.char == '\\' then
      match rest with
      | next :: behind =>
        if isBreak next.char then
          if atDocumentMark behind then none
          else quotedText quote fuel words (.escaped []) behind
        else match escape? rest with
          | some (e, behind) => quotedText quote fuel (e :: words) .empty behind
          | none => none
      | [] => none
    else quotedText quote fuel (c.char :: words) .empty rest

/-! ## Block scalars -/

inductive Chomping
  | strip
  | clip
  | keep
deriving DecidableEq

structure BlockHeader where
  folded : Bool
  chomping : Chomping := .clip
  indentation : Option Nat := none

def BlockHeader.read (header : BlockHeader) (chomped : Bool) :
    List Placed → Option (BlockHeader × List Placed)
  | [] => some (header, [])
  | c :: rest =>
    if !chomped && (c.char == '+' || c.char == '-') then
      let chomping := if c.char == '+' then Chomping.keep else .strip
      BlockHeader.read { header with chomping } true rest
    else if c.char.isDigit && header.indentation.isNone then
      if c.char == '0' then none
      else BlockHeader.read
        { header with indentation := some (Numerals.decimal [c.char]) } chomped rest
    else if c.char == ' ' || isBreak c.char then some (header, c :: rest)
    else none

def skipLine (comment : Bool) : List Placed → Option (List Placed)
  | [] => some []
  | c :: rest =>
    if isBreak c.char then some rest
    else if comment || c.char == ' ' then skipLine comment rest
    else if c.char == '#' then skipLine true rest
    else none

def leadingBreaks (breaks : List Char) (width : Nat) : List Placed →
    List Char × Nat × List Placed
  | [] => (breaks, width, [])
  | c :: rest =>
    if c.char == ' ' then leadingBreaks breaks (max width (c.column + 1)) rest
    else if isBreak c.char then leadingBreaks (breakText c.char :: breaks) width rest
    else (breaks, width, c :: rest)

def blockBreaks (indent : Nat) (breaks : List Char) : List Placed → List Char × List Placed
  | [] => (breaks, [])
  | c :: rest =>
    if c.char == ' ' && c.column < indent then blockBreaks indent breaks rest
    else if isBreak c.char then blockBreaks indent (breakText c.char :: breaks) rest
    else (breaks, c :: rest)

def atColumn (indent : Nat) : List Placed → Bool
  | [] => false
  | c :: _ => c.column == indent

def startsWithSpace : List Placed → Bool
  | [] => false
  | c :: _ => isSpace c.char

/-- The lines of a block scalar.  `ending` is the break behind the last line, `breaks` are those of
the empty lines behind it.  A fold joins two lines that both begin with a word. -/
def blockLines (header : BlockHeader) (indent : Nat) :
    (fuel : Nat) → (read ending breaks : List Char) → List Placed → List Char × List Placed
  | 0, read, _, _, text => (read, text)
  | fuel + 1, read, ending, breaks, text =>
    if atColumn indent text then
      let (line, rest) := text.span fun c => !isBreak c.char
      let joined := (line.map Placed.char).reverse ++ breaks ++ read
      let (ending, rest) := match rest with
        | [] => ([], [])
        | c :: rest => ([breakText c.char], rest)
      let (breaks, rest) := blockBreaks indent [] rest
      let joined :=
        if !atColumn indent rest then joined
        else if header.folded && ending == ['\n'] && !startsWithSpace text
            && !startsWithSpace rest then
          if breaks.isEmpty then ' ' :: joined else joined
        else ending ++ joined
      blockLines header indent fuel joined ending breaks rest
    else
      match header.chomping with
      | .strip => (read, text)
      | .clip => (ending ++ read, text)
      | .keep => (breaks ++ ending ++ read, text)

def blockText (folded : Bool) (outer : Nat) (fuel : Nat) (text : List Placed) :
    Option (List Char × List Placed) := do
  let (header, rest) ← BlockHeader.read { folded } false text
  let rest ← skipLine false rest
  match header.indentation with
  | some width =>
    let indent := outer + width - 1
    let (breaks, rest) := blockBreaks indent [] rest
    return blockLines header indent fuel [] [] breaks rest
  | none =>
    let (breaks, width, rest) := leadingBreaks [] 0 rest
    return blockLines header (max outer width) fuel [] [] breaks rest

end YamlText
end SchemaViews
