import PhpSlim.CommandLine.Session

/-!
# The command

Reads the part of the disk that the command line names into a file tree, runs the command on that
tree, and brings what has changed back to the disk.
-/

namespace PhpSlim.Main

open PhpSlim

/-- What was read from the disk. -/
structure Disk where
  tree : FileTree := .empty
  /-- The folders of which the entries are read too. -/
  loaded : List Location := []
  /-- Whether the folders that links lead to are of interest. -/
  followLinks : Bool

def pathText (p : Location) : String :=
  String.ofList (Path.absolute p)

def locationOf (path : String) : Location :=
  Path.components path.toList

/-- What stands at an entry of a folder; links are not followed. -/
def kind? (folder : Location) (n : Name) : IO (Option IO.FS.FileType) := do
  let entry : IO.FS.DirEntry := { root := pathText folder, fileName := String.ofList n }
  try
    return some (← entry.path.symlinkMetadata).type
  catch _ =>
    return none

/-- Adds the folders around a location. -/
def addAround (d : Disk) (p : Location) : Disk :=
  { d with tree := (List.range p.length).foldl (fun t k => t.put (p.take k) .folder) d.tree }

mutual

/-- Reads the entries of a folder and everything below. -/
partial def loadBelow (d : Disk) (p : Location) : IO Disk := do
  if d.loaded.contains p then return d
  let mut d := { d with loaded := p :: d.loaded }
  let folder ← IO.FS.realPath (pathText p)
  for entry in ← folder.readDir do
    d ← loadEntry d p entry.fileName.toList
  return d

/-- Reads an entry of a folder. -/
partial def loadEntry (d : Disk) (folder : Location) (n : Name) : IO Disk := do
  let p := folder ++ [n]
  match ← kind? folder n with
  | some .dir => loadBelow { d with tree := d.tree.put p .folder } p
  | some .symlink => return (← loadLink d p).1
  | some _ =>
    let bytes ← IO.FS.readBinFile (pathText p)
    return { d with tree := d.tree.put p (.file bytes.toList) }
  | none => return d

/-- Reads a link and what it leads to; a link that leads nowhere gets a target that is not there. -/
partial def loadLink (d : Disk) (p : Location) : IO (Disk × Option Location) := do
  match ← (IO.FS.realPath (pathText p)).toBaseIO with
  | .error _ =>
    return ({ d with tree := d.tree.put p (.link ['.', '.', '.', ' ', '?']) }, none)
  | .ok target =>
    let q := locationOf target.toString
    let d := addAround { d with tree := d.tree.put p (.link target.toString.toList) } q
    match q.getLast? with
    | none => return (d, some q)
    | some n =>
      if (← kind? q.dropLast n) == some .dir && !d.followLinks then
        return ({ d with tree := d.tree.put q .folder }, some q)
      else
        return (← loadEntry d q.dropLast n, some q)

end

/-- Reads what a path leads to, with everything on the way. -/
partial def loadPath (d : Disk) (here : Location) : List Name → IO Disk
  | [] => if d.tree.get? here == some .folder then loadBelow d here else return d
  | n :: rest => do
    if Path.isIdle n then loadPath d here rest
    else if n == ['.', '.'] then loadPath d here.dropLast rest
    else
      let p := here ++ [n]
      match ← kind? here n with
      | some .dir => loadPath { d with tree := d.tree.put p .folder } p rest
      | some .symlink =>
        match ← loadLink d p with
        | (d, some q) => loadPath d q rest
        | (d, none) => return d
      | some _ => loadEntry d here n
      | none => return d

/-- Reads what the options name. -/
def load (here : Location) (o : CommandLine.Options) : IO FileTree := do
  let d := addAround { followLinks := o.followLinks } here
  let d := { d with tree := d.tree.put here .folder }
  let mut d := d
  for path in [o.input.toList, o.output.toList] do
    d ← loadPath d (Path.start here path) (Path.pieces path)
  return d.tree

/-- Brings to the disk what differs from what was read. -/
def store (before after : FileTree) : IO Unit := do
  let changed := after.entries.filter fun x => before.get? x.1 != some x.2
  for (p, e) in changed.mergeSort fun a b => decide (a.1.length ≤ b.1.length) do
    match e with
    | .folder => IO.FS.createDir (pathText p)
    | .file bytes => IO.FS.writeBinFile (pathText p) ⟨bytes.toArray⟩
    | .link _ => pure ()

/-- A time in seconds with three decimals. -/
def seconds (ms : Nat) : String :=
  let digits := toString (ms % 1000)
  toString (ms / 1000) ++ "." ++ String.ofList (List.replicate (3 - digits.length) '0') ++ digits

def runCommand (args : List String) : IO UInt32 := do
  let started ← IO.monoMsNow
  let here := locationOf (← IO.currentDir).toString
  let before ← match CommandLine.parse args with
    | .ok o => load here o
    | .error _ => pure .empty
  let session := CommandLine.run here (← IO.getEnv "POPTIMIZER_SILENT") args before
  store before session.tree
  let elapsed := seconds ((← IO.monoMsNow) - started)
  IO.eprint (session.errorOutput elapsed)
  IO.print (session.output elapsed)
  return UInt32.ofNat session.status

end PhpSlim.Main

def main (args : List String) : IO UInt32 :=
  PhpSlim.Main.runCommand args
