import PhpSlim.Build.Job

/-!
# Builds

A build checks its paths, makes the output folder, reads the exclusions, walks the input, makes the
folders of the output and runs the jobs of the files. Its report counts what was done.
-/

namespace PhpSlim.Build

structure Report where
  optimized : Nat := 0
  copied : Nat := 0
  directories : Nat := 0
  failed : Nat := 0
  bytesIn : Nat := 0
  bytesOut : Nat := 0
  deriving DecidableEq, Repr

namespace Report

/-- Counts one job. -/
def add (r : Report) (job : Job) (p : Progress) : Report :=
  match p with
  | .succeeded done =>
    { r with
      optimized := r.optimized + if job.optimize then 1 else 0
      copied := r.copied + if job.optimize then 0 else 1
      bytesIn := r.bytesIn + done.bytesIn
      bytesOut := r.bytesOut + done.bytesOut }
  | _ => { r with failed := r.failed + 1 }

def addAll (r : Report) (ran : List (Job × Progress)) : Report :=
  ran.foldl (fun r x => r.add x.1 x.2) r

end Report

/-- What a build comes to: the tree it leaves, what it logs, and its report or failure. -/
structure Outcome where
  tree : FileTree
  logs : List Log.Line
  result : Except Failure Report

/-- Walks the input and brings everything to the output. The walk comes to its end before a folder
is made: where a link that is followed leads into the output, it does not see what this build makes
there. -/
def execute (cfg : Config) (r : Roots) (excluded : List Glob.Pattern) (t : FileTree) : Outcome :=
  let visits := (Walk.mk t cfg.followLinks r.output).visits r.input
  let folders := makeFolders r t visits
  match folders.result with
  | .error e => ⟨folders.tree, folders.logs, .error e⟩
  | .ok () =>
    let (t, ran) := Job.runAll cfg folders.tree (Job.ofVisits r excluded visits)
    let start : Report := { directories := folders.made, failed := failedVisits visits }
    let report := start.addAll ran
    ⟨t, folders.logs ++ Job.logs cfg ran,
      if report.failed = 0 then .ok report else .error (.incomplete report.failed)⟩

/-- Finds the roots, reads the exclusions and executes the build; the output folder is there. -/
def proceed (cfg : Config) (t : FileTree) : Outcome :=
  match cfg.roots t with
  | .error e => ⟨t, [], .error e⟩
  | .ok r =>
    match Exclusion.ofEntries cfg.excludes with
    | .error e => ⟨t, [], .error (.exclusion e)⟩
    | .ok excluded => execute cfg r excluded t

/-- Runs a build on a file tree. -/
def run (cfg : Config) (t : FileTree) : Outcome :=
  match cfg.check t with
  | .error e => ⟨t, [], .error e⟩
  | .ok () =>
    if FileTree.reaches (cfg.findOutput t) then proceed cfg t
    else
      let line := Log.info ("Creating directory " ++ String.ofList cfg.output)
      match cfg.makeOutput t with
      | (t, .error e) => ⟨t, [line], .error e⟩
      | (t, .ok ()) =>
        let later := proceed cfg t
        { later with logs := line :: later.logs }

end PhpSlim.Build
