import SchemaViews.YamlScalarText

/-!
# Tokens of YAML text

Indentation becomes tokens that open and close blocks.  Whether a scalar or a flow collection is a
key is known only at its colon: its beginning is remembered as a pending key, and the tokens of a
key are put in at that place afterwards.  A pending key lapses at the end of its line and after
1024 characters.
-/

namespace SchemaViews
namespace YamlText

inductive Token
  | openItems
  | openMembers
  | closeBlock
  | openList
  | closeList
  | openMap
  | closeMap
  | dash
  | comma
  | key
  | value
  | scalar (text : String) (plain : Bool)
  | documentStart
  | documentEnd
deriving DecidableEq, Repr

/-- Where a key may have begun, with the number of tokens before it.  A key that must come is one at
the indentation of its block. -/
structure PendingKey where
  position : Nat
  start : Placed
  required : Bool

structure Tokens where
  read : List Token := []
  count : Nat := 0
  indents : List Nat := []
  pending : Option PendingKey := none
  outer : List (Option PendingKey) := []
  allowsKey : Bool := true

namespace Tokens

def inFlow (s : Tokens) : Bool :=
  !s.outer.isEmpty

def push (s : Tokens) (token : Token) : Tokens :=
  { s with read := token :: s.read, count := s.count + 1 }

def putIn (s : Tokens) (position : Nat) (token : Token) : Tokens :=
  let (behind, before) := s.read.splitAt (s.count - position)
  { s with read := behind ++ token :: before, count := s.count + 1 }

/-! ## Blocks -/

def innerIndent (s : Tokens) : Nat :=
  match s.indents with
  | [] => 0
  | column :: _ => column + 1

def closeTo (s : Tokens) (column : Nat) : Tokens :=
  if s.inFlow then s
  else
    let (closed, open') := s.indents.span (column < ·)
    closed.foldl (fun s _ => s.push .closeBlock) { s with indents := open' }

def closeAll (s : Tokens) : Tokens :=
  if s.inFlow then s
  else s.indents.foldl (fun s _ => s.push .closeBlock) { s with indents := [] }

def deepens (s : Tokens) (column : Nat) : Bool :=
  s.indents.head?.all (· < column)

def openBlock (s : Tokens) (column position : Nat) (token : Token) : Tokens :=
  if !s.inFlow && s.deepens column then
    { s.putIn position token with indents := column :: s.indents }
  else s

/-! ## Pending keys -/

/-- Forgets a pending key that can no longer be one; a required key must not lapse. -/
def lapse (here : Placed) : Option PendingKey → Option (Option PendingKey)
  | none => some none
  | some k =>
    if k.start.line = here.line ∧ here.index ≤ k.start.index + 1024 then some (some k)
    else if k.required then none
    else some none

def lapseAll (s : Tokens) (here : Placed) : Option Tokens := do
  let pending ← lapse here s.pending
  let outer ← s.outer.mapM (lapse here)
  return { s with pending, outer }

def dropPending (s : Tokens) : Option Tokens :=
  if s.pending.any PendingKey.required then none else some { s with pending := none }

def mayBeKey (s : Tokens) (here : Placed) : Option Tokens :=
  if s.allowsKey then do
    let s ← s.dropPending
    let required := !s.inFlow && s.indents.head? == some here.column
    return { s with pending := some ⟨s.count, here, required⟩ }
  else some s

/-! ## Indicators -/

def openFlow (s : Tokens) (here : Placed) (token : Token) : Option Tokens := do
  let s ← s.mayBeKey here
  return { s.push token with pending := none, outer := s.pending :: s.outer, allowsKey := true }

def closeFlow (s : Tokens) (token : Token) : Option Tokens := do
  match (← s.dropPending).outer with
  | [] => none
  | pending :: outer => return { s.push token with pending, outer, allowsKey := false }

def separate (s : Tokens) : Option Tokens := do
  let s ← s.dropPending
  return { s.push .comma with allowsKey := true }

def divide (s : Tokens) (token : Token) : Option Tokens := do
  let s ← s.closeAll.dropPending
  return { s.push token with allowsKey := false }

def beginItem (s : Tokens) (here : Placed) : Option Tokens :=
  if !s.inFlow && !s.allowsKey then none
  else do
    let s ← (s.openBlock here.column s.count .openItems).dropPending
    return { s.push .dash with allowsKey := true }

def beginKey (s : Tokens) (here : Placed) : Option Tokens :=
  if !s.inFlow && !s.allowsKey then none
  else do
    let s ← (s.openBlock here.column s.count .openMembers).dropPending
    return { s.push .key with allowsKey := !s.inFlow }

def beginValue (s : Tokens) (here : Placed) : Option Tokens :=
  match s.pending with
  | some k =>
    let s := (s.putIn k.position .key).openBlock k.start.column k.position .openMembers
    some { s.push .value with pending := none, allowsKey := false }
  | none =>
    if !s.inFlow && !s.allowsKey then none
    else
      let s := s.openBlock here.column s.count .openMembers
      some { s.push .value with allowsKey := !s.inFlow }

/-! ## Scalars -/

def pushText (s : Tokens) (read : List Char) (plain allowsKey : Bool) : Tokens :=
  { s.push (.scalar (String.ofList read.reverse) plain) with allowsKey }

def step (s : Tokens) (fuel : Nat) (c : Placed) (rest : List Placed) :
    Option (Tokens × List Placed) := do
  if atMark '-' (c :: rest) then return (← s.divide .documentStart, rest.drop 2)
  if atMark '.' (c :: rest) then return (← s.divide .documentEnd, rest.drop 2)
  match c.char with
  | '[' => return (← s.openFlow c .openList, rest)
  | '\x7b' => return (← s.openFlow c .openMap, rest)
  | ']' => return (← s.closeFlow .closeList, rest)
  | '\x7d' => return (← s.closeFlow .closeMap, rest)
  | ',' => return (← s.separate, rest)
  | '\'' | '"' =>
    let s ← s.mayBeKey c
    let (text, rest) ← quotedText c.char fuel [] .empty rest
    return (s.pushText text false false, rest)
  | _ =>
    if c.char == '-' && endsWord rest then return (← s.beginItem c, rest)
    if c.char == '?' && (s.inFlow || endsWord rest) then return (← s.beginKey c, rest)
    if c.char == ':' && (s.inFlow || endsWord rest) then return (← s.beginValue c, rest)
    if (c.char == '|' || c.char == '>') && !s.inFlow then
      let s ← s.dropPending
      let (text, rest) ← blockText (c.char == '>') (max 1 s.innerIndent) fuel rest
      return (s.pushText text false true, rest)
    if startsPlain s.inFlow c.char rest && !(c.char == '%' && c.column == 0) then
      let s ← s.mayBeKey c
      let (text, crossed, rest) := plainText s.inFlow s.innerIndent [c.char] .empty rest
      return (s.pushText text true crossed, rest)
    none

/-- The tokens behind those that are read.  Every step takes a character, so the length of the text
is fuel enough. -/
def finish : (fuel : Nat) → Tokens → List Placed → Option (List Token)
  | 0, _, _ => none
  | fuel + 1, s, text =>
    let (crossed, text) := skipGaps false false text
    let s := if crossed && !s.inFlow then { s with allowsKey := true } else s
    match text with
    | [] =>
      if s.inFlow then none else do
        let s ← s.closeAll.dropPending
        return s.read.reverse
    | c :: rest => do
      let s ← s.lapseAll c
      let (s, rest) ← (s.closeTo c.column).step fuel c rest
      finish fuel s rest

end Tokens

def tokens? (text : List Char) : Option (List Token) :=
  Tokens.finish (text.length + 1) {} (place 0 0 0 text)

end YamlText
end SchemaViews
