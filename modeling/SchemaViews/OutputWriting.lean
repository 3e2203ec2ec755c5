import SchemaViews.FileTree
import SchemaViews.Location
import SchemaViews.Settings
import SchemaViews.TypeNaming

/-!
# Writing output files

A content is validated, the directories above its place are made, and then the file is written: in
place, or under a temporary name beside its place and renamed.  An existing file is only overwritten
by force.

A content is encoded when its file has been opened already.  Where that fails, the directories stay,
and a file that was opened in place stays empty.
-/

namespace SchemaViews

structure Coding (Content : Type) where
  parse : Content → Except Failure Unit
  encode : Content → Option String

namespace Coding

def texts : Coding String where
  parse _ := .ok ()
  encode := some

def codePoints : Coding (List (Fin 0x110000)) where
  parse _ := .ok ()
  encode points :=
    if points.all fun point => point.val.isValidChar then
      some (String.ofList (points.map fun point => Char.ofNat point.val))
    else none

end Coding

/-- Steps that change a tree; a failure leaves the changes made before it. -/
abbrev Writing := ExceptT Failure (StateM FileTree)

namespace Writing

variable {Content : Type}

/-! ## Validation -/

def validate (coding : Coding Content) (content : Content) : Except Failure Unit :=
  (coding.parse content).mapError fun
    | .syntaxFault message => .invalidCode message
    | failure => failure

/-! ## Places -/

def put (place : List String) (node : Node) : Writing Unit :=
  modify fun tree => OrderedMap.insert tree place node

def remove (place : List String) : Writing Unit :=
  modify fun tree => OrderedMap.erase tree place

def checkNames (names : List String) : Writing Unit :=
  if names.all FileTree.isName then return
  else throw .nullInName

def makeDirectories (path : Location) (place : List String) : (names : List String) → Writing Unit
  | [] => return
  | name :: rest => do
    let next := FileTree.step place name
    match (← get).node? next with
    | some .directory => makeDirectories path next rest
    | none =>
      put next .directory
      makeDirectories path next rest
    | some (.file _) =>
      throw (if rest.isEmpty then .fileInPlaceOfDirectory path.text else .pathThroughFile)

/-! ## Files -/

def encoded (coding : Coding Content) (content : Content) : Except Failure String :=
  match coding.encode content with
  | some text => .ok text
  | none => .error .unencodable

def writeInPlace (coding : Coding Content) (place : List String) (content : Content) :
    Writing Unit := do
  match (← get).node? place with
  | some .directory => throw .outputIsDirectory
  | _ =>
    put place (.file "")
    let text ← encoded coding content
    put place (.file text)

/-- Moves a file to a place, where it replaces a file but no directory. -/
def rename (source target : List String) (text : String) : Writing Unit := do
  match (← get).node? target with
  | some .directory => throw .outputIsDirectory
  | _ =>
    remove source
    put target (.file text)

def temporaryPlace (tree : FileTree) (place : List String) : List String :=
  let candidate (number : Nat) : List String :=
    place.dropLast ++ ["." ++ place.getLast?.getD "" ++ "." ++ toString number ++ ".tmp"]
  TypeNaming.firstUnused candidate (OrderedMap.keys tree) tree.length 0

/-- Writes a temporary file and renames it; when that fails the temporary file is removed. -/
def writeByRenaming (coding : Coding Content) (place : List String) (content : Content) :
    Writing Unit := do
  let temporary := temporaryPlace (← get) place
  put temporary (.file "")
  let fill : Writing Unit := do
    let text ← encoded coding content
    put temporary (.file text)
    rename temporary place text
  tryCatch fill fun failure => do
    remove temporary
    throw failure

def writeFile (coding : Coding Content) (atomic : Bool) (path : Location) (content : Content) :
    Writing Unit := do
  checkNames path.parent.names
  makeDirectories path.parent [] path.parent.names
  checkNames path.names
  let place := FileTree.placeOf path.names
  if atomic then writeByRenaming coding place content
  else writeInPlace coding place content

def validated (coding : Coding Content) (settings : OutputSettings) (content : Content) :
    Except Failure Unit :=
  if settings.validate.isPresent then validate coding content else .ok ()

def write (coding : Coding Content) (settings : OutputSettings) (path : Location)
    (content : Content) : Writing Unit := do
  if (← get).occupied path.names ∧ settings.mode = .refuse then
    throw (.outputExists path.text)
  validated coding settings content
  writeFile coding settings.atomic.isPresent path content

end Writing
end SchemaViews
