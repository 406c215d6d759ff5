import PhpSlim.Charset.Codec
import PhpSlim.Exclusion
import PhpSlim.FileTree.Change
import PhpSlim.Stage

/-!
# What a build is asked to do

A build copies a file or a folder to an output folder and optimizes PHP sources on the way.
-/

namespace PhpSlim.Build

structure Config where
  /-- The folder from which relative paths start. -/
  here : Location
  input : List Char
  output : List Char
  excludes : List String := []
  stages : List Stage := Stage.all
  inputCharset : Charset := .utf8
  outputCharset : Charset := .utf8
  followLinks : Bool := false
  deriving Repr

/-- Why a build as a whole fails. -/
inductive Failure where
  | missingInput (path : List Char)
  | outputNotFolder (path : List Char)
  | noFolder (path : List Char) (fault : Fault)
  | unresolved (path : List Char) (fault : Fault)
  | exclusion (error : Exclusion.Error)
  /-- The build went on to the end, but `count` files could not be processed. -/
  | incomplete (count : Nat)
  deriving DecidableEq, Repr

/-- How a message names a folder that could not be made. -/
def noFolderMessage (path : List Char) (fault : Fault) : String :=
  "Unable to create directory " ++ String.ofList path ++ ": " ++ fault.message

def Failure.message : Failure → String
  | missingInput path => "the input file/folder must exist: " ++ String.ofList path
  | outputNotFolder path => "the output must be a folder, not a file: " ++ String.ofList path
  | noFolder path fault => noFolderMessage path fault
  | unresolved path fault => "Failed to resolve " ++ String.ofList path ++ ": " ++ fault.message
  | exclusion error => error.message
  | incomplete count => toString count ++ " file(s) could not be processed. See stderr for details."

/-- Where a build reads and writes. -/
structure Roots where
  /-- The file or folder that is copied. -/
  input : Location
  /-- The folder to which the paths of the output are relative. -/
  base : Location
  output : Location
  deriving DecidableEq, Repr

namespace Roots

/-- The names that lead from the base to a location. -/
def relative (r : Roots) (p : Location) : List Name :=
  p.drop r.base.length

/-- The location in the output that corresponds to one in the input. -/
def destination (r : Roots) (p : Location) : Location :=
  r.output ++ r.relative p

end Roots

namespace Config

def findInput (cfg : Config) (t : FileTree) : Except Fault Location :=
  t.findPath cfg.here cfg.input

def findOutput (cfg : Config) (t : FileTree) : Except Fault Location :=
  t.findPath cfg.here cfg.output

/-- The input has to exist, and the output, where it exists, has to be a folder. -/
def check (cfg : Config) (t : FileTree) : Except Failure Unit :=
  if !FileTree.reaches (cfg.findInput t) then .error (.missingInput cfg.input)
  else if FileTree.reaches (cfg.findOutput t) && !t.reachesFolder (cfg.findOutput t) then
    .error (.outputNotFolder cfg.output)
  else .ok ()

/-- Makes the output folder, with the folders on the way to it. -/
def makeOutput (cfg : Config) (t : FileTree) : FileTree × Except Failure Unit :=
  match t.makeFolderPath cfg.here cfg.output with
  | (t, .ok ()) => (t, .ok ())
  | (t, .error f) => (t, .error (.noFolder cfg.output f))

/-- The locations of a build; a file is copied relative to the folder it stands in. -/
def roots (cfg : Config) (t : FileTree) : Except Failure Roots := do
  let input ← (cfg.findInput t).mapError (.unresolved cfg.input)
  let output ← (cfg.findOutput t).mapError (.unresolved cfg.output)
  let base := if t.get? input = some .folder then input else input.dropLast
  return { input, base, output }

end Config

end PhpSlim.Build
