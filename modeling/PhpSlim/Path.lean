/-!
# Paths

A path as users write it is a text with `/` between its pieces. A `Location` is a place in a file
tree: the names on the way from the root. The last part of a path decides whether it names a PHP
source.
-/

namespace PhpSlim

abbrev Name := List Char

/-- The names on the way from the root of a file tree. -/
abbrev Location := List Name

namespace Path

/-- What stands between the slashes of a path. -/
def pieces (path : List Char) : List Name :=
  path.splitOn '/'

/-- Whether a piece leads nowhere else: it is empty or a dot. -/
def isIdle (n : Name) : Bool :=
  n == [] || n == ['.']

/-- How many bytes a name or a path takes. -/
def size (s : List Char) : Nat :=
  s.foldr (fun c n => c.utf8Size + n) 0

/-- Whether a piece takes more bytes than a name may. -/
def isLongName (n : Name) : Bool :=
  decide (255 < size n)

/-- Whether a path takes more bytes than a path may. -/
def isLong (path : List Char) : Bool :=
  decide (4095 < size path)

/-- Whether a piece is a name that an entry can have. -/
def isProper (n : Name) : Bool :=
  !isIdle n && n != ['.', '.'] && !n.contains '/' && !isLongName n

/-- Where a path starts: at the root if it begins with a slash, at `here` otherwise. -/
def start (here : Location) (path : List Char) : Location :=
  if path.head? = some '/' then [] else here

/-- The pieces that lead somewhere. -/
def components (path : List Char) : List Name :=
  (pieces path).filter fun n => !isIdle n

/-- The last component, unless it leads up. -/
def fileName? (path : List Char) : Option Name :=
  match (components path).getLast? with
  | some n => if n == ['.', '.'] then none else some n
  | none => none

/-- What follows the last dot of a file name, unless the name begins with that dot. -/
def extension? (name : Name) : Option Name :=
  match name.reverse.dropWhile (· != '.') with
  | _ :: stem => if stem.isEmpty then none else some (name.reverse.takeWhile (· != '.')).reverse
  | [] => none

/-- Whether a path names a PHP source: a file with the extension `php` in any case. -/
def isPhpSource (path : List Char) : Bool :=
  match (fileName? path).bind extension? with
  | some ext => ext.map Char.toLower == ['p', 'h', 'p']
  | none => false

/-- Names with slashes between them. -/
def relative (names : List Name) : List Char :=
  ['/'].intercalate names

/-- A location as an absolute path. -/
def absolute (p : Location) : List Char :=
  '/' :: relative p

/-- A path with each backslash read as a slash, the form that is shown and matched. -/
def withSlashes (path : List Char) : List Char :=
  path.map fun c => if c == '\\' then '/' else c

end Path

end PhpSlim
