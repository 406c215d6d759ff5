import PhpSlim.Build.Run
import PhpSlim.CommandLine.Options

/-!
# A run of the command

What the command does with its arguments on a file tree, and what it prints.
-/

namespace PhpSlim.CommandLine

/-- How the command ends. -/
inductive Ending where
  | usage (error : UsageError)
  | version
  | help
  | failed (failure : Build.Failure)
  | built (report : Build.Report) (json : Bool)
  deriving DecidableEq, Repr

structure Session where
  tree : FileTree
  /-- The lines of the log that are shown. -/
  logs : List Log.Line
  /-- Whether only warnings and errors are shown. -/
  quiet : Bool
  ending : Ending

/-- The charset of a name, with a warning for a name that no charset has. -/
def charset : Option String → Charset × List Log.Line
  | none => (.utf8, [])
  | some name =>
    match Charset.ofName? name with
    | some cs => (cs, [])
    | none =>
      (.utf8, [Log.warn ("Unknown charset " ++ Text.quoted name ++ ", using " ++ Charset.utf8.name)])

/-- Whether the value of the environment's switch asks for silence. -/
def isSilent : Option String → Bool
  | none => false
  | some v => v == "1" || Text.sameName v "true"

def shown (quiet : Bool) (l : Log.Line) : Bool :=
  !quiet || l.level != .info

/-- Runs the command in the folder `here`, with `silent` the environment's switch. -/
def run (here : Location) (silent : Option String) (args : List String) (t : FileTree) : Session :=
  match parse args with
  | .error stop =>
    { tree := t, logs := [], quiet := false,
      ending := match stop with
        | .usage e => .usage e
        | .version => .version
        | .help => .help }
  | .ok o =>
    let quiet := o.quiet || isSilent silent
    let selection := Stage.select o.modules
    let (inputCharset, inputWarnings) := charset o.inputCharset
    let (outputCharset, outputWarnings) := charset o.outputCharset
    let outcome := Build.run
      { here, input := o.input.toList, output := o.output.toList, excludes := o.excludes
        stages := selection.stages, inputCharset, outputCharset, followLinks := o.followLinks } t
    let logs := selection.warnings ++ inputWarnings ++ outputWarnings ++
      Log.info "Beginning optimization" :: outcome.logs
    { tree := outcome.tree, logs := logs.filter (shown quiet), quiet
      ending := match outcome.result with
        | .ok report => .built report o.json
        | .error f => .failed f }

/-- The two lines that end the log of a build; `elapsed` is the time it took, in seconds. -/
def summary (r : Build.Report) (elapsed : String) : List Log.Line :=
  [Log.info (toString r.optimized ++ " optimized, " ++ toString r.copied ++ " copied, " ++
      toString r.directories ++ " directories created (" ++ toString r.bytesIn ++ " -> " ++
      toString r.bytesOut ++ " bytes)"),
    Log.info ("Optimization achieved in " ++ elapsed ++ " seconds")]

/-- A report as a JSON object. -/
def reportJson (r : Build.Report) (elapsed : String) : String :=
  "\x7b\"optimized\":" ++ toString r.optimized ++ ",\"copied\":" ++ toString r.copied ++
    ",\"directories\":" ++ toString r.directories ++ ",\"failed\":" ++ toString r.failed ++
    ",\"bytes_in\":" ++ toString r.bytesIn ++ ",\"bytes_out\":" ++ toString r.bytesOut ++
    ",\"elapsed_secs\":" ++ elapsed ++ "\x7d"

def versionText : String := "poptimizer 1.1.0\n"

def helpText : String :=
  "Copies a file or folder to an output folder. PHP files are optimized\n" ++
  "on the way, every other file is copied as is.\n\n" ++
  "Modules:\n" ++
  "  comments   removes all comments, keeping line numbers\n" ++
  "  spaces     removes indentation and spaces around operators\n" ++
  "  all        every module (default)\n\n" ++
  "Usage: poptimizer [OPTIONS] --input <PATH> --output <DIR>\n\n" ++
  "Options:\n" ++
  "  -i, --input <PATH>          Input path (a file or a folder)\n" ++
  "  -o, --output <DIR>          Output folder. Created if it does not exist\n" ++
  "  -e, --exclude <PATH>...     Paths to exclude, relative to the input folder\n" ++
  "  -m, --modules <MODULE>...   Optimization modules to apply: comments, spaces or all (default)\n" ++
  "      --ics <CHARSET>         Charset of the files to read: UTF-8, UTF-16, US-ASCII or ISO-8859-1\n" ++
  "      --ocs <CHARSET>         Charset of the files to write: UTF-8, UTF-16, US-ASCII or ISO-8859-1\n" ++
  "      --follow-symlinks       Follow symbolic links during traversal\n" ++
  "      --json                  Print the run report as JSON on stdout\n" ++
  "  -q, --quiet                 Only log warnings and errors\n" ++
  "  -h, --help                  Print help\n" ++
  "  -V, --version               Print version\n"

namespace Session

/-- The exit status. -/
def status (s : Session) : Nat :=
  match s.ending with
  | .usage _ => 2
  | .failed _ => 1
  | _ => 0

/-- What is printed on standard output. -/
def output (s : Session) (elapsed : String) : String :=
  match s.ending with
  | .version => versionText
  | .help => helpText
  | .built r true => reportJson r elapsed ++ "\n"
  | _ => ""

/-- The lines of the log, with the summary of a build that is not reported as JSON. -/
def allLogs (s : Session) (elapsed : String) : List Log.Line :=
  match s.ending with
  | .built r false => s.logs ++ (summary r elapsed).filter (shown s.quiet)
  | _ => s.logs

/-- The line about a failure that ends standard error. -/
def errorLine? (s : Session) : Option String :=
  match s.ending with
  | .usage e => some ("error: " ++ e.message)
  | .failed f => some ("Error: " ++ f.message)
  | _ => none

/-- What is printed on standard error. -/
def errorOutput (s : Session) (elapsed : String) : String :=
  String.join (((s.allLogs elapsed).map Log.Line.shown ++ s.errorLine?.toList).map (· ++ "\n"))

end Session

end PhpSlim.CommandLine
