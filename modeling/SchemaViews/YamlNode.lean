import SchemaViews.YamlToken

/-!
# Nodes of YAML text

The tree that the tokens of a text spell: scalars as they are written, sequences, and mappings whose
keys are nodes as well.
-/

namespace SchemaViews
namespace YamlText

inductive Node
  | scalar (text : String) (plain : Bool)
  | items (nodes : List Node)
  | members (pairs : List (Node × Node))

def Node.absent : Node := .scalar "" true

/-- Where a node stands: a block may begin only inside blocks, and one in the column of its key only
as a member. -/
inductive Position
  | flow
  | item
  | member
deriving DecidableEq

def endsItem (token : Token) : Bool :=
  token = .dash ∨ token = .closeBlock

def endsMember (token : Token) : Bool :=
  token = .key ∨ token = .value ∨ token = .closeBlock

def endsLooseItem (token : Token) : Bool :=
  endsItem token || endsMember token

def endsListed (token : Token) : Bool :=
  token = .comma ∨ token = .closeList

def endsMapped (token : Token) : Bool :=
  token = .comma ∨ token = .closeMap

mutual

def node (position : Position) : (fuel : Nat) → List Token → Option (Node × List Token)
  | 0, _ => none
  | fuel + 1, tokens =>
    match tokens with
    | .scalar text plain :: rest => some (.scalar text plain, rest)
    | .openList :: rest => (listed fuel true rest).map fun (nodes, rest) => (.items nodes, rest)
    | .openMap :: rest => (mapped fuel true rest).map fun (pairs, rest) => (.members pairs, rest)
    | .openItems :: rest =>
      if position = .flow then none
      else (blockItems fuel rest).map fun (nodes, rest) => (.items nodes, rest)
    | .openMembers :: rest =>
      if position = .flow then none
      else (blockMembers fuel rest).map fun (pairs, rest) => (.members pairs, rest)
    | .dash :: _ =>
      if position = .member then
        (looseItems fuel tokens).map fun (nodes, rest) => (.items nodes, rest)
      else none
    | _ => none

def nodeUnless (ends : Token → Bool) (position : Position) : (fuel : Nat) → List Token →
    Option (Node × List Token)
  | 0, _ => none
  | _, [] => none
  | fuel + 1, token :: rest =>
    if ends token then some (.absent, token :: rest) else node position fuel (token :: rest)

def valueUnless (ends : Token → Bool) (position : Position) : (fuel : Nat) → List Token →
    Option (Node × List Token)
  | 0, _ => none
  | fuel + 1, tokens =>
    match tokens with
    | .value :: rest => nodeUnless ends position fuel rest
    | _ => some (.absent, tokens)

def blockItems : (fuel : Nat) → List Token → Option (List Node × List Token)
  | 0, _ => none
  | fuel + 1, tokens =>
    match tokens with
    | .closeBlock :: rest => some ([], rest)
    | .dash :: rest => do
      let (item, rest) ← nodeUnless endsItem .item fuel rest
      let (items, rest) ← blockItems fuel rest
      return (item :: items, rest)
    | _ => none

def looseItems : (fuel : Nat) → List Token → Option (List Node × List Token)
  | 0, _ => none
  | fuel + 1, tokens =>
    match tokens with
    | .dash :: rest => do
      let (item, rest) ← nodeUnless endsLooseItem .item fuel rest
      let (items, rest) ← looseItems fuel rest
      return (item :: items, rest)
    | _ => some ([], tokens)

def blockMembers : (fuel : Nat) → List Token → Option (List (Node × Node) × List Token)
  | 0, _ => none
  | fuel + 1, tokens =>
    match tokens with
    | .closeBlock :: rest => some ([], rest)
    | .key :: rest => do
      let (key, rest) ← nodeUnless endsMember .member fuel rest
      let (value, rest) ← valueUnless endsMember .member fuel rest
      let (pairs, rest) ← blockMembers fuel rest
      return ((key, value) :: pairs, rest)
    | _ => none

/-- The items up to the closing bracket; a key with its value is an item of its own. -/
def listed : (fuel : Nat) → (first : Bool) → List Token → Option (List Node × List Token)
  | 0, _, _ => none
  | fuel + 1, first, tokens =>
    match first, tokens with
    | _, .closeList :: rest => some ([], rest)
    | false, .comma :: rest => listed fuel true rest
    | false, _ => none
    | true, .key :: rest => do
      let (key, rest) ← nodeUnless (fun t => t = .value || endsListed t) .flow fuel rest
      let (value, rest) ← valueUnless endsListed .flow fuel rest
      let (items, rest) ← listed fuel false rest
      return (.members [(key, value)] :: items, rest)
    | true, _ => do
      let (item, rest) ← node .flow fuel tokens
      let (items, rest) ← listed fuel false rest
      return (item :: items, rest)

def mapped : (fuel : Nat) → (first : Bool) → List Token → Option (List (Node × Node) × List Token)
  | 0, _, _ => none
  | fuel + 1, first, tokens =>
    match first, tokens with
    | _, .closeMap :: rest => some ([], rest)
    | false, .comma :: rest => mapped fuel true rest
    | false, _ => none
    | true, .key :: rest => do
      let (key, rest) ← nodeUnless (fun t => t = .value || endsMapped t) .flow fuel rest
      let (value, rest) ← valueUnless endsMapped .flow fuel rest
      let (pairs, rest) ← mapped fuel false rest
      return ((key, value) :: pairs, rest)
    | true, _ => do
      let (key, rest) ← node .flow fuel tokens
      let (pairs, rest) ← mapped fuel false rest
      return ((key, .absent) :: pairs, rest)

end

/-! ## Documents -/

def isDone (tokens : List Token) : Bool :=
  tokens.all (· = .documentEnd)

def Node.ofTokens? (tokens : List Token) : Option Node := do
  let fuel := 3 * tokens.length + 3
  let (root, rest) ← match tokens with
    | [] => some (.absent, [])
    | .documentStart :: rest =>
      match rest with
      | [] => some (.absent, [])
      | _ => nodeUnless (fun t => t = .documentStart || t = .documentEnd) .item fuel rest
    | _ => node .item fuel tokens
  if isDone rest then return root else none

end YamlText
end SchemaViews
