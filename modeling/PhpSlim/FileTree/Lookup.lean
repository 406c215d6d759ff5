import PhpSlim.FileTree.Basic

/-!
# Finding things in a file tree

A path is followed piece by piece from a folder. A dot stays, two dots go up, and a link is replaced
by the path it names; at most forty links are followed on one way. No name takes more than 255 bytes
and no path more than 4095.
-/

namespace PhpSlim

/-- Why a path cannot be used. -/
inductive Fault where
  | notFound
  | alreadyExists
  | notFolder
  | isFolder
  | tooLong
  | tooManyLinks
  /-- The path holds the character that ends a path for the system. -/
  | nulCharacter
  deriving DecidableEq, Repr

def Fault.message : Fault → String
  | notFound => "No such file or directory (os error 2)"
  | alreadyExists => "File exists (os error 17)"
  | notFolder => "Not a directory (os error 20)"
  | isFolder => "Is a directory (os error 21)"
  | tooLong => "File name too long (os error 36)"
  | tooManyLinks => "Too many levels of symbolic links (os error 40)"
  | nulCharacter => "file name contained an unexpected NUL byte"

/-- Where a path leads. -/
inductive Found where
  | existing (p : Location)
  /-- To a name that the folder does not hold yet. -/
  | missing (folder : Location) (name : Name)
  /-- To a location where no folder is, though a slash at the end asks for one. -/
  | slashed (p : Location)
  deriving DecidableEq, Repr

namespace FileTree

/-- Follows pieces from the location `here`. A link at the end is followed only if `last` says so;
`jump` takes over where a link is followed. -/
def walk (t : FileTree) (last : Bool) (jump : Location → List Name → Except Fault Found)
    (here : Location) : List Name → Except Fault Found
  | [] => .ok (.existing here)
  | n :: rest =>
    if t.get? here ≠ some .folder then
      if n.isEmpty && rest.all List.isEmpty then .ok (.slashed here) else .error .notFolder
    else if Path.isIdle n then t.walk last jump here rest
    else if n = ['.', '.'] then t.walk last jump here.dropLast rest
    else if Path.isLongName n then .error .tooLong
    else
      match t.get? (here ++ [n]) with
      | none =>
        if rest.isEmpty then .ok (.missing here n)
        else if rest.all List.isEmpty then .ok (.slashed (here ++ [n]))
        else .error .notFound
      | some (.link target) =>
        if rest.isEmpty && !last then .ok (.existing (here ++ [n]))
        else jump (Path.start here target) (Path.pieces target ++ rest)
      | some _ => t.walk last jump (here ++ [n]) rest

/-- Follows pieces and up to `links` links on the way. -/
def lookup (t : FileTree) (last : Bool) :
    (links : Nat) → (here : Location) → List Name → Except Fault Found
  | 0 => t.walk last fun _ _ => .error .tooManyLinks
  | links + 1 => t.walk last (t.lookup last links)

/-- How many links one way may take. -/
def maxLinks : Nat := 40

/-- The location of what exists where the pieces lead. -/
def find (t : FileTree) (here : Location) (pieces : List Name) : Except Fault Location := do
  match ← t.lookup true maxLinks here pieces with
  | .existing p => return p
  | .missing _ _ => throw .notFound
  | .slashed p => throw (if (t.get? p).isSome then .notFolder else .notFound)

/-- The location of what exists where a location leads, if its path is not too long. -/
def locate (t : FileTree) (p : Location) : Except Fault Location :=
  if Path.isLong (Path.absolute p) then .error .tooLong else t.find [] p

/-- Why a path that a user wrote is refused as it stands. -/
def refusal? (path : List Char) : Option Fault :=
  if path.contains '\x00' then some .nulCharacter
  else if Path.isLong path then some .tooLong
  else none

/-- The location of what exists at a path that a user wrote; the empty path leads nowhere. -/
def findPath (t : FileTree) (here : Location) (path : List Char) : Except Fault Location :=
  match refusal? path with
  | some f => .error f
  | none =>
    if path.isEmpty then .error .notFound
    else t.find (Path.start here path) (Path.pieces path)

/-- Whether something exists where a lookup ended. -/
def reaches (found : Except Fault Location) : Bool :=
  match found with
  | .ok _ => true
  | .error _ => false

/-- Whether a lookup ended at a folder. -/
def reachesFolder (t : FileTree) (found : Except Fault Location) : Bool :=
  match found with
  | .ok p => t.get? p == some .folder
  | .error _ => false

end FileTree

end PhpSlim
