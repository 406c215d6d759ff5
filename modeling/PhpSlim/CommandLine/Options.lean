/-!
# Options of the command line

Options have a long name, some a letter too. A flag takes no value, an input or a charset takes
one, exclusions and modules take one or more. Letters of flags may be joined, and the value of an
option may stand right behind it.
-/

namespace PhpSlim.CommandLine

inductive Key where
  | input
  | output
  | exclude
  | modules
  | inputCharset
  | outputCharset
  | followLinks
  | json
  | quiet
  | version
  | help
  deriving DecidableEq, Repr

/-- How many values an option takes. -/
inductive Arity where
  | flag
  | one
  | many
  deriving DecidableEq, Repr

namespace Key

def arity : Key → Arity
  | input | output | inputCharset | outputCharset => .one
  | exclude | modules => .many
  | followLinks | json | quiet | version | help => .flag

/-- Whether the value of an option is a path, which cannot be empty. -/
def isPath : Key → Bool
  | input | output => true
  | _ => false

def ofLong? : String → Option Key
  | "input" => some input
  | "output" => some output
  | "exclude" => some exclude
  | "modules" => some modules
  | "ics" => some inputCharset
  | "input-charset" => some inputCharset
  | "ocs" => some outputCharset
  | "output-charset" => some outputCharset
  | "follow-symlinks" => some followLinks
  | "json" => some json
  | "quiet" => some quiet
  | "version" => some version
  | "help" => some help
  | _ => none

def ofLetter? : Char → Option Key
  | 'i' => some input
  | 'o' => some output
  | 'e' => some exclude
  | 'm' => some modules
  | 'q' => some quiet
  | 'V' => some version
  | 'h' => some help
  | _ => none

/-- The option as messages show it. -/
def name : Key → String
  | input => "--input <PATH>"
  | output => "--output <DIR>"
  | exclude => "--exclude <PATH>"
  | modules => "--modules <MODULE>"
  | inputCharset => "--ics <CHARSET>"
  | outputCharset => "--ocs <CHARSET>"
  | followLinks => "--follow-symlinks"
  | json => "--json"
  | quiet => "--quiet"
  | version => "--version"
  | help => "--help"

end Key

/-- What is wrong with a command line. -/
inductive UsageError where
  | unknown (arg : String)
  | stray (arg : String)
  | missingValue (key : Key)
  | unexpectedValue (key : Key)
  | repeated (key : Key)
  | missing (key : Key)
  deriving DecidableEq, Repr

def UsageError.message : UsageError → String
  | unknown arg => "unexpected argument '" ++ arg ++ "' found"
  | stray arg => "unexpected argument '" ++ arg ++ "' found"
  | missingValue key => "a value is required for '" ++ key.name ++ "' but none was supplied"
  | unexpectedValue key => "unexpected value for '" ++ key.name ++ "' found; no more were expected"
  | repeated key => "the argument '" ++ key.name ++ "' cannot be used multiple times"
  | missing key => "the following required argument was not provided: " ++ key.name

/-- Why reading stops before the end of the command line. -/
inductive Stop where
  | usage (error : UsageError)
  | version
  | help
  deriving DecidableEq, Repr

/-- What the command line asks for. -/
structure Options where
  input : String
  output : String
  excludes : List String := []
  modules : List String := []
  inputCharset : Option String := none
  outputCharset : Option String := none
  followLinks : Bool := false
  json : Bool := false
  quiet : Bool := false
  deriving DecidableEq, Repr

/-- A command line that is being read. -/
structure State where
  /-- The options read so far with their values, the latest first. -/
  given : List (Key × List String) := []
  /-- An option that takes the values to come, with those it has, the latest first. -/
  pending : Option (Key × List String) := none
  /-- Behind `--`, where no options are read. -/
  ended : Bool := false
  deriving DecidableEq, Repr

namespace State

def isGiven (s : State) (k : Key) : Bool :=
  s.given.any fun x => x.1 == k

/-- Accepts an option with its values. -/
def accept (s : State) (k : Key) (values : List String) : Except Stop State :=
  let ok : Except Stop State := .ok { s with given := (k, values) :: s.given }
  match k with
  | .version => .error .version
  | .help => .error .help
  | _ =>
    match k.arity with
    | .flag => if s.isGiven k then .error (.usage (.repeated k)) else ok
    | .one =>
      if values.isEmpty || (k.isPath && values == [""]) then .error (.usage (.missingValue k))
      else if s.isGiven k then .error (.usage (.repeated k))
      else ok
    | .many => if values.isEmpty then .error (.usage (.missingValue k)) else ok

/-- Accepts the option that takes values, if there is one; no more values belong to it. -/
def flush (s : State) : Except Stop State :=
  match s.pending with
  | none => .ok s
  | some (k, values) => { s with pending := none }.accept k values.reverse

/-- Reads an option, perhaps with a value attached to it. -/
def option (s : State) (k : Key) (attached : Option String) : Except Stop State := do
  let s ← s.flush
  match k.arity, attached with
  | .flag, some _ => throw (.usage (.unexpectedValue k))
  | .flag, none => s.accept k []
  | _, some v => s.accept k [v]
  | _, none => return { s with pending := some (k, []) }

/-- Reads the letters of joined options; behind a letter that takes a value stands that value,
perhaps after `=`. -/
def letters (s : State) : List Char → Except Stop State
  | [] => .ok s
  | c :: rest =>
    match Key.ofLetter? c with
    | none => .error (.usage (.unknown ("-" ++ String.singleton c)))
    | some k =>
      if k.arity = .flag then do (← s.option k none).letters rest
      else
        match rest with
        | [] => s.option k none
        | '=' :: value => s.option k (some (String.ofList value))
        | value => s.option k (some (String.ofList value))

/-- Reads an option by its long name; a value may stand after `=`. -/
def long (s : State) (text : List Char) : Except Stop State :=
  let name := String.ofList (text.takeWhile (· != '='))
  let attached := match text.dropWhile (· != '=') with
    | [] => none
    | _ :: value => some (String.ofList value)
  match Key.ofLong? name with
  | none => .error (.usage (.unknown ("--" ++ name)))
  | some k => s.option k attached

/-- Reads an argument that is no option: a value of the option before it. -/
def value (s : State) (arg : String) : Except Stop State :=
  match s.pending with
  | some (k, values) =>
    if k.arity = .many || values.isEmpty then .ok { s with pending := some (k, arg :: values) }
    else .error (.usage (.stray arg))
  | none => .error (.usage (.stray arg))

/-- Reads one argument. A single dash is a value. -/
def step (s : State) (arg : String) : Except Stop State :=
  if s.ended then .error (.usage (.stray arg))
  else
    match arg.toList with
    | ['-', '-'] => .ok { s with ended := true }
    | '-' :: '-' :: text => s.long text
    | '-' :: c :: rest => s.letters (c :: rest)
    | _ => s.value arg

def run (s : State) : List String → Except Stop State
  | [] => s.flush
  | arg :: rest => do (← s.step arg).run rest

def values (s : State) (k : Key) : List String :=
  (s.given.reverse.filter fun x => x.1 == k).flatMap Prod.snd

/-- The options of a command line that is read to its end. Lists are divided at commas. -/
def options (s : State) : Except Stop Options := do
  let some input := (s.values .input).head? | throw (.usage (.missing .input))
  let some output := (s.values .output).head? | throw (.usage (.missing .output))
  return {
    input, output
    excludes := (s.values .exclude).flatMap (·.splitOn ",")
    modules := (s.values .modules).flatMap (·.splitOn ",")
    inputCharset := (s.values .inputCharset).head?
    outputCharset := (s.values .outputCharset).head?
    followLinks := s.isGiven .followLinks
    json := s.isGiven .json
    quiet := s.isGiven .quiet }

end State

/-- Older spellings of three options, as whole arguments. -/
def modern (arg : String) : String :=
  if arg = "-ics" then "--ics"
  else if arg = "-ocs" then "--ocs"
  else if arg = "-v" then "--version"
  else arg

/-- The options of a command line. -/
def parse (args : List String) : Except Stop Options := do
  (← ({} : State).run (args.map modern)).options

end PhpSlim.CommandLine
