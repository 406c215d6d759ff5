import PhpSlim.Text.Terminal

/-!
# Log lines
-/

namespace PhpSlim.Log

inductive Level where
  | info
  | warn
  | error
  deriving DecidableEq, Repr

def Level.name : Level → String
  | info => "INFO"
  | warn => "WARN"
  | error => "ERROR"

structure Line where
  level : Level
  text : String
  deriving DecidableEq, Repr

def info (text : String) : Line := ⟨.info, text⟩

def warn (text : String) : Line := ⟨.warn, text⟩

def error (text : String) : Line := ⟨.error, text⟩

def Line.render (l : Line) : String :=
  l.level.name ++ " " ++ l.text

/-- The line as a terminal shows it. -/
def Line.shown (l : Line) : String :=
  l.level.name ++ " " ++ Text.forTerminal l.text

end PhpSlim.Log
