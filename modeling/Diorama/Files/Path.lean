/-! # Paths

Paths are texts. Their steps are separated by slashes; empty steps and `.` lead nowhere.
-/

namespace Diorama.Path

/-- The texts between the slashes that are not empty. -/
def pieces (path : String) : List String :=
  ((path.toList.splitOn '/').filter (· ≠ [])).map String.ofList

def steps (path : String) : List String := (pieces path).filter (· ≠ ".")

def isAbsolute (path : String) : Bool := path.toList.head? = some '/'

/-- The path ends in a slash. -/
def endsInSlash (path : String) : Bool := path.toList.getLast? = some '/'

/-- The steps of a lookup. A slash at the end is a step without a name: it leads nowhere, but it starts
from directories only. -/
def trail (path : String) : List String := pieces path ++ if endsInSlash path then [""] else []

/-- No file name holds the zero character. -/
def isProper (path : String) : Bool := path.toList.all (· ≠ '\x00')

/-- The number of bytes of the longest path. -/
def maxLength : Nat := 4095

/-- Drops the slashes and the steps `.` in front of a path that is written backwards. -/
def dropIdle : List Char → List Char
  | '/' :: rest => dropIdle rest
  | '.' :: '/' :: rest => dropIdle rest
  | rest => rest

/-- The text of a path before its last step, without what is idle at its end. -/
def parent (path : String) : String :=
  String.ofList (dropIdle ((dropIdle path.toList.reverse).dropWhile (· ≠ '/'))).reverse

/-- The last step, unless it leads upwards. -/
def fileName? (path : String) : Option String := (steps path).getLast?.filter (· ≠ "..")

/-- What follows the last dot of a file name. A dot in front does not count. -/
def extension? (path : String) : Option String := do
  let backwards := (← fileName? path).toList.reverse
  match backwards.dropWhile (· ≠ '.') with
  | _ :: _ :: _ => some (String.ofList (backwards.takeWhile (· ≠ '.')).reverse)
  | _ => none

end Diorama.Path
