import PhpSlim.Build.Config

/-!
# Walking the input

A walk visits the input and everything below it, a folder before what it holds, and leaves out what
lies in the output. A link counts as a file, unless links are followed: then it counts as what it
leads to, and a link to a folder that is being walked already is an error.
-/

namespace PhpSlim.Build

inductive WalkError where
  | unreachable (p : Location) (fault : Fault)
  | loop (p ancestor : Location)
  deriving DecidableEq, Repr

def WalkError.message : WalkError → String
  | unreachable p fault =>
    let path := String.ofList (Path.absolute p)
    path ++ ": IO error for operation on " ++ path ++ ": " ++ fault.message
  | loop p ancestor =>
    "File system loop found: " ++ String.ofList (Path.absolute p) ++ " points to an ancestor " ++
      String.ofList (Path.absolute ancestor)

/-- What a walk meets, with the way to it. -/
inductive Visit where
  | folder (p : Location)
  | file (p : Location)
  | failed (error : WalkError)
  deriving DecidableEq, Repr

/-- The terms of a walk. -/
structure Walk where
  tree : FileTree
  followLinks : Bool
  /-- The output, which is not walked. -/
  output : Location

/-- A folder on the way of a walk: where it is, and how the walk came to it. -/
structure Stop where
  place : Location
  path : Location
  deriving DecidableEq, Repr

/-- What an entry counts as; a folder comes with the place where its entries are. -/
inductive Sight where
  | folder (place : Location)
  | file
  | failed (error : WalkError)
  deriving DecidableEq, Repr

namespace Walk

/-- What the entry `n` of the folder `stop` counts as, with `around` the folders around it. -/
def look (w : Walk) (around : List Stop) (stop : Stop) (n : Name) : Sight :=
  match w.tree.get? (stop.place ++ [n]) with
  | some .folder => .folder (stop.place ++ [n])
  | some (.link _) =>
    if w.followLinks then
      match w.tree.locate (stop.path ++ [n]) with
      | .error f => .failed (.unreachable (stop.path ++ [n]) f)
      | .ok q =>
        if w.tree.get? q = some .folder then
          match (stop :: around).find? fun s => s.place == q with
          | some s => .failed (.loop (stop.path ++ [n]) s.path)
          | none => .folder q
        else .file
    else .file
  | _ => .file

/-- Whether a location lies in the output. -/
def isOutput (w : Walk) (p : Location) : Bool :=
  w.output.isPrefixOf p

/-- Visits what lies below a folder, to a depth of at most `depth`. -/
def below (w : Walk) : (depth : Nat) → (around : List Stop) → Stop → List Visit
  | 0, _, _ => []
  | depth + 1, around, stop =>
    (w.tree.names stop.place).flatMap fun n =>
      let path := stop.path ++ [n]
      match w.look around stop n with
      | .failed e => [.failed e]
      | .file => if w.isOutput path then [] else [.file path]
      | .folder place =>
        if w.isOutput path then []
        else .folder path :: w.below depth (stop :: around) ⟨place, path⟩

/-- A depth that no walk exceeds: between two links it goes down, and no two links of one way lead
to the same folder. -/
def depth (w : Walk) : Nat :=
  (w.tree.entries.length + 1) * ((w.tree.entries.map fun x => x.1.length).foldr max 0 + 1)

/-- Everything that a walk from `root` meets; the root itself is never left out. -/
def visits (w : Walk) (root : Location) : List Visit :=
  if w.tree.get? root = some .folder then .folder root :: w.below w.depth [] ⟨root, root⟩
  else [.file root]

end Walk

/-- What making the folders of the output comes to. -/
structure Folders where
  tree : FileTree
  logs : List Log.Line := []
  /-- How many folders of the input got a new folder in the output. -/
  made : Nat := 0
  result : Except Failure Unit := .ok ()

/-- Makes a folder of the output for every visited folder that has nothing at its place yet. -/
def makeFolders (r : Roots) (t : FileTree) : List Visit → Folders
  | [] => { tree := t }
  | .failed e :: rest =>
    let later := makeFolders r t rest
    { later with logs := Log.error ("Walk error: " ++ e.message) :: later.logs }
  | .file _ :: rest => makeFolders r t rest
  | .folder p :: rest =>
    let dest := r.destination p
    if FileTree.reaches (t.locate dest) then makeFolders r t rest
    else
      let path := Path.absolute dest
      let line := Log.info ("Creating directory " ++ String.ofList path)
      match t.makeFolders dest with
      | (t, .error f) => { tree := t, logs := [line], result := .error (.noFolder path f) }
      | (t, .ok ()) =>
        let later := makeFolders r t rest
        { later with logs := line :: later.logs, made := later.made + 1 }

/-- How many visits failed. -/
def failedVisits (visits : List Visit) : Nat :=
  visits.countP fun v => match v with
    | .failed _ => true
    | _ => false

end PhpSlim.Build
