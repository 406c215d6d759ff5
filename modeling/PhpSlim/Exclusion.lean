import PhpSlim.Charset.Utf8
import PhpSlim.Glob.Expression
import PhpSlim.Path
import PhpSlim.Text.WhiteSpace

/-!
# Exclusions

An exclusion is a path or a glob; it covers what it matches and everything below. Excluded files
are copied as they are.
-/

namespace PhpSlim.Exclusion

inductive Error where
  /-- The exclusion `pattern` is no valid glob. -/
  | invalid (pattern glob : List Char) (cause : Glob.Error)
  /-- A glob with an extension is nested too deep. -/
  | tooDeep (expression : String)
  /-- Another glob is nested too deep: the one at `index` among those without an extension that are
  not compared as texts. -/
  | tooDeepAt (index : Nat)
  deriving DecidableEq, Repr

def Error.message : Error → String
  | invalid pattern glob cause =>
    "Invalid --exclude pattern: " ++ String.ofList pattern ++ ": error parsing glob '" ++
      String.ofList glob ++ "': " ++ cause.message
  | tooDeep expression =>
    "Failed to build exclude glob set: error parsing glob '" ++ expression ++
      "': error parsing pattern 0"
  | tooDeepAt index =>
    "Failed to build exclude glob set: error parsing pattern " ++ toString index

/-- An exclusion without the white space around it and then without the slashes around it. -/
def clean (entry : String) : List Char :=
  Text.stripEnds (· == '/') (Text.stripEnds Text.isWhiteSpace entry.toList)

/-- The globs of an exclusion: itself, and everything below it. -/
def globs (pattern : List Char) : List (List Char) :=
  [pattern, pattern ++ ['/', '*', '*']]

/-- The globs of one exclusion, read; an empty one has none. -/
def read (entry : String) : Except Error (List (List Glob.Item)) :=
  if (clean entry).isEmpty then .ok []
  else
    (globs (clean entry)).mapM fun glob =>
      (Glob.parse glob).mapError fun cause => .invalid (clean entry) glob cause

/-- What is wrong with the depth of globs: those with an extension come first. -/
def depthError? (globs : List (List Glob.Item)) : Option Error :=
  let (extended, others) := (globs.filter fun g => !Glob.isText g).partition Glob.hasExtension
  match extended.find? Glob.isTooDeep with
  | some g => some (.tooDeep (Glob.expression g))
  | none => (others.findIdx? Glob.isTooDeep).map .tooDeepAt

/-- The patterns of all exclusions. -/
def ofEntries (entries : List String) : Except Error (List Glob.Pattern) := do
  let globs := (← entries.mapM read).flatten
  match depthError? globs with
  | some e => throw e
  | none => return globs.map Glob.toPattern

/-- Whether one of the patterns matches a path. -/
def covers (patterns : List Glob.Pattern) (path : List Char) : Bool :=
  patterns.any fun p => p.matchesAll (Charset.Utf8.encode (Path.withSlashes path))

end PhpSlim.Exclusion
