import PhpSlim.Build.Walk

/-!
# Jobs

A job brings one file to the output in three steps: it reads the source, makes the folders around
the destination, and writes what the file becomes. Jobs may run in any order.
-/

namespace PhpSlim.Build

structure Job where
  source : Location
  destination : Location
  /-- The name under which messages show the file. -/
  name : List Char
  /-- Whether the file is a PHP source that no exclusion covers. -/
  optimize : Bool
  deriving DecidableEq, Repr

/-- Why a job fails. -/
inductive JobError where
  | unreadable (fault : Fault)
  | noFolder (folder : Location) (fault : Fault)
  | undecodable (error : Charset.Error)
  | unencodable (error : Charset.Error)
  | unwritable (fault : Fault)
  deriving DecidableEq, Repr

/-- What a job that succeeds read and wrote. -/
structure Done where
  bytesIn : Nat
  bytesOut : Nat
  deriving DecidableEq, Repr

/-- How far a job has come. -/
inductive Progress where
  | waiting
  /-- The source is read. -/
  | loaded (bytes : List UInt8)
  /-- The folders around the destination are there. -/
  | placed (bytes : List UInt8)
  | failed (error : JobError)
  | succeeded (done : Done)
  deriving DecidableEq, Repr

namespace Job

/-- The jobs of the files that a walk met. -/
def ofVisits (r : Roots) (excluded : List Glob.Pattern) : List Visit → List Job
  | [] => []
  | .file p :: rest =>
    let path := Path.relative (r.relative p)
    { source := p
      destination := r.destination p
      name := Path.withSlashes path
      optimize := Path.isPhpSource path && !Exclusion.covers excluded path } ::
    ofVisits r excluded rest
  | _ :: rest => ofVisits r excluded rest

/-- The bytes that a file becomes. -/
def convert (cfg : Config) (job : Job) (bytes : List UInt8) : Except JobError (List UInt8) :=
  if job.optimize then do
    let text ← (cfg.inputCharset.decode bytes).mapError .undecodable
    (cfg.outputCharset.encode (Stage.run cfg.stages text)).mapError .unencodable
  else if cfg.inputCharset = cfg.outputCharset then .ok bytes
  else do
    let text ← (cfg.inputCharset.decode bytes).mapError .undecodable
    (cfg.outputCharset.encode text).mapError .unencodable

/-- Takes the next step of a job. -/
def step (cfg : Config) (job : Job) (t : FileTree) : Progress → FileTree × Progress
  | .waiting =>
    match t.read job.source with
    | .error f => (t, .failed (.unreadable f))
    | .ok bytes => (t, .loaded bytes)
  | .loaded bytes =>
    match t.makeFolders job.destination.dropLast with
    | (t, .error f) => (t, .failed (.noFolder job.destination.dropLast f))
    | (t, .ok ()) => (t, .placed bytes)
  | .placed bytes =>
    match job.convert cfg bytes with
    | .error e => (t, .failed e)
    | .ok written =>
      match t.write job.destination written with
      | .error f => (t, .failed (.unwritable f))
      | .ok t => (t, .succeeded ⟨bytes.length, written.length⟩)
  | .failed e => (t, .failed e)
  | .succeeded done => (t, .succeeded done)

/-- Takes the three steps of a job one after the other. -/
def run (cfg : Config) (job : Job) (t : FileTree) : FileTree × Progress :=
  let (t, p) := job.step cfg t .waiting
  let (t, p) := job.step cfg t p
  job.step cfg t p

/-- Runs jobs one after the other. -/
def runAll (cfg : Config) (t : FileTree) : List Job → FileTree × List (Job × Progress)
  | [] => (t, [])
  | job :: rest =>
    let (t, p) := job.run cfg t
    let (t, later) := runAll cfg t rest
    (t, (job, p) :: later)

/-- The line that announces what happens to a file. -/
def announcement (cfg : Config) (job : Job) : Log.Line :=
  let name := String.ofList job.name
  if job.optimize then Log.info ("Optimizing " ++ name)
  else if cfg.inputCharset = cfg.outputCharset then Log.info ("Copying " ++ name)
  else
    Log.info ("Copying " ++ name ++ " (" ++ cfg.inputCharset.name ++ " -> " ++
      cfg.outputCharset.name ++ ")")

def errorMessage (cfg : Config) (job : Job) : JobError → String
  | .unreadable f => "Failed to read " ++ String.ofList job.name ++ ": " ++ f.message
  | .noFolder folder f => noFolderMessage (Path.absolute folder) f
  | .undecodable e =>
    "Failed to decode " ++ String.ofList job.name ++ " as " ++ cfg.inputCharset.name ++ ": " ++
      e.message
  | .unencodable e =>
    "Failed to encode " ++ String.ofList job.name ++ " as " ++ cfg.outputCharset.name ++ ": " ++
      e.message
  | .unwritable f =>
    "Failed to write " ++ String.ofList (Path.absolute job.destination) ++ ": " ++ f.message

/-- A file is announced once its source is read and its folders are there. -/
def announced : Progress → Bool
  | .waiting => false
  | .loaded _ => false
  | .placed _ => true
  | .failed (.unreadable _) => false
  | .failed (.noFolder _ _) => false
  | .failed _ => true
  | .succeeded _ => true

/-- The lines about jobs that have run: first what happened, then what went wrong. -/
def logs (cfg : Config) (ran : List (Job × Progress)) : List Log.Line :=
  (ran.filter fun x => announced x.2).map (fun x => x.1.announcement cfg) ++
    ran.filterMap fun x => match x.2 with
      | .failed e =>
        some (Log.error ("Error processing " ++ String.ofList x.1.name ++ ": " ++
          x.1.errorMessage cfg e))
      | _ => none

end Job

end PhpSlim.Build
