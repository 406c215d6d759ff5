import PhpSlim.Blanks
import PhpSlim.Comments
import PhpSlim.Log
import PhpSlim.Text.WhiteSpace

/-!
# Stages

A stage is a named pass over a text. Users name the stages they want; whatever order they are named
in, the selected ones run in the order of `Stage.all`.
-/

namespace PhpSlim

inductive Stage where
  /-- Removes comments and keeps line numbers. -/
  | comments
  /-- Removes indentation and blanks around operators. -/
  | spaces
  deriving DecidableEq, Repr, Inhabited

/-- A name that no stage has. -/
structure UnknownStage where
  name : String
  deriving DecidableEq, Repr

def UnknownStage.message (e : UnknownStage) : String :=
  "unknown optimization module: " ++ e.name

namespace Stage

/-- Every stage, in the order in which they run. -/
def all : List Stage :=
  [comments, spaces]

def name : Stage → String
  | comments => "comments"
  | spaces => "spaces"

def apply : Stage → List Char → List Char
  | comments => Comments.strip
  | spaces => Blanks.compact

/-- Reads the name of a stage; case and white space around it do not matter. -/
def parse (s : String) : Except UnknownStage Stage :=
  match all.find? fun stage => Text.sameName stage.name (Text.trim s) with
  | some stage => .ok stage
  | none => .error ⟨s⟩

/-- Applies stages from left to right, each to what the one before it made. -/
def run (stages : List Stage) (text : List Char) : List Char :=
  stages.foldl (fun acc stage => stage.apply acc) text

/-- The stages that a list of names selects, and the names that were ignored. -/
structure Selection where
  stages : List Stage
  ignored : List UnknownStage := []
  deriving DecidableEq, Repr

/-- Whether a name stands for all stages. -/
def namesAll (s : String) : Bool :=
  Text.sameName (Text.trim s) "all"

/-- Reads names from left to right, up to the first that stands for all stages; `chosen` are the
stages named so far. -/
def collect (chosen : List Stage) : List String → Selection
  | [] => { stages := all.filter chosen.contains }
  | s :: rest =>
    if namesAll s then { stages := all }
    else
      match parse (Text.trim s) with
      | .ok stage => collect (stage :: chosen) rest
      | .error e =>
        let later := collect chosen rest
        { later with ignored := e :: later.ignored }

/-- The selection that the user's list of names makes; an empty list selects all stages. -/
def select (names : List String) : Selection :=
  if names.isEmpty then { stages := all } else collect [] names

/-- One warning for every ignored name. -/
def Selection.warnings (s : Selection) : List Log.Line :=
  s.ignored.map fun e => Log.warn ("Ignoring " ++ e.message)

end Stage

end PhpSlim
