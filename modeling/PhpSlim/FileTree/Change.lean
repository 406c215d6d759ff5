import PhpSlim.FileTree.Lookup

/-!
# Reading and changing a file tree

Making folders, reading and writing files. Each operation says why it fails; making folders may
have made some before it fails.
-/

namespace PhpSlim.FileTree

/-- The pieces of a path without the slashes at its end. -/
def dropTrailing (pieces : List Name) : List Name :=
  (pieces.reverse.dropWhile List.isEmpty).reverse

/-- Makes one folder where the pieces lead. -/
def makeFolder (t : FileTree) (here : Location) (pieces : List Name) : Except Fault FileTree := do
  match ← t.lookup false maxLinks here (dropTrailing pieces) with
  | .missing folder name => return t.put (folder ++ [name]) .folder
  | _ => throw .alreadyExists

/-- A folder path and the paths of the folders around it, the innermost first. -/
def enclosing (pieces : List Name) : List (List Name) :=
  let ways := pieces.filter fun n => !Path.isIdle n
  pieces :: (((List.range ways.length).drop 1).map ways.take).reverse

/-- Makes the first folder of the list; where the folder around it is missing, makes that first. -/
def makeEnclosing (t : FileTree) (here : Location) :
    List (List Name) → FileTree × Except Fault Unit
  | [] => (t, .ok ())
  | pieces :: outer =>
    match t.makeFolder here pieces with
    | .ok t => (t, .ok ())
    | .error .notFound =>
      match t.makeEnclosing here outer with
      | (t, .error e) => (t, .error e)
      | (t, .ok ()) =>
        match t.makeFolder here pieces with
        | .ok t => (t, .ok ())
        | .error e => (t, if t.reachesFolder (t.find here pieces) then .ok () else .error e)
    | .error e => (t, if t.reachesFolder (t.find here pieces) then .ok () else .error e)

/-- Makes the folder where the pieces lead, with all the folders around it. -/
def makeWay (t : FileTree) (here : Location) (pieces : List Name) :
    FileTree × Except Fault Unit :=
  if pieces.all List.isEmpty then (t, .ok ()) else t.makeEnclosing here (enclosing pieces)

/-- Makes the folder at a location, with all the folders around it, if its path is not too long. -/
def makeFolders (t : FileTree) (p : Location) : FileTree × Except Fault Unit :=
  if Path.isLong (Path.absolute p) then (t, .error .tooLong) else t.makeWay [] p

/-- Makes the folder at a path that a user wrote, with all the folders around it. -/
def makeFolderPath (t : FileTree) (here : Location) (path : List Char) :
    FileTree × Except Fault Unit :=
  match refusal? path with
  | some f => (t, .error f)
  | none => t.makeWay (Path.start here path) (Path.pieces path)

/-- The bytes of the file at a location. -/
def read (t : FileTree) (p : Location) : Except Fault (List UInt8) := do
  match t.get? (← t.locate p) with
  | some (.file bytes) => return bytes
  | some .folder => throw .isFolder
  | _ => throw .notFound

/-- Writes a file at a location; a link there leads to the file that is written, and no file can be
written where a slash asks for a folder. -/
def write (t : FileTree) (p : Location) (bytes : List UInt8) : Except Fault FileTree :=
  if Path.isLong (Path.absolute p) then .error .tooLong
  else do
    match ← t.lookup true maxLinks [] p with
    | .existing q =>
      if t.get? q = some .folder then throw .isFolder else return t.put q (.file bytes)
    | .missing folder name => return t.put (folder ++ [name]) (.file bytes)
    | .slashed _ => throw .isFolder

/-- Makes a link at a location. -/
def makeLink (t : FileTree) (p : Location) (target : List Char) : Except Fault FileTree := do
  match ← t.lookup false maxLinks [] p with
  | .missing folder name => return t.put (folder ++ [name]) (.link target)
  | _ => throw .alreadyExists

end PhpSlim.FileTree
