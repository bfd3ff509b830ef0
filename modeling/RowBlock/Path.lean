set_option autoImplicit false

/-! # Paths

A path names a file by directories and a name, with slashes between them. Empty parts do not
count, a single dot stands for the directory itself and two dots for the one above it.
-/

namespace RowBlock.Path

/-! ## Parts

Empty parts, those between two slashes, do not count, but a slash at the end does: it asks for a
directory. -/

def split : List Char → List (List Char)
  | [] => [[]]
  | c :: cs =>
    if c = '/' then [] :: split cs
    else
      match split cs with
      | part :: parts => (c :: part) :: parts
      | [] => [[c]]

/-- The parts of a path that are not empty. -/
def parts (path : String) : List String :=
  (split path.toList).map String.ofList |>.filter (· != "")

def isAbsolute (path : String) : Bool := path.toList.head? == some '/'

/-- Whether a path can only name a directory. -/
def endsInSlash (path : String) : Bool := path.toList.getLast? == some '/'

def hasZero (path : String) : Bool := path.toList.contains (Char.ofNat 0)

def maxPartBytes : Nat := 255

def maxBytes : Nat := 4095

/-! ## Paths as text

Before a table is written, the directory it lies in is looked up by its text alone. The format of a
chart is read off the text as well, so both are computed here without asking what the path leads to. -/

/-- How the text of a path from the root begins; exactly two slashes are kept. -/
def rootText (path : String) : String :=
  match (path.toList.takeWhile (· == '/')).length with
  | 0 => ""
  | 2 => "//"
  | _ => "/"

/-- The text of the directory a path lies in, without the parts that do not count. -/
def parentText (path : String) : String :=
  let root := rootText path
  match ((parts path).filter (· != ".")).dropLast with
  | [] => if root = "" then "." else root
  | parts => root ++ String.intercalate "/" parts

/-- The part of a file's name after its last dot; dots at the start of the name do not count. -/
def extension (path : String) : String :=
  let name := ((split path.toList).getLast?.getD []).dropWhile (· == '.')
  if name.contains '.' then
    String.ofList (name.reverse.takeWhile (· != '.')).reverse
  else ""

def dropDots (path : String) : String :=
  String.ofList (path.toList.reverse.dropWhile (· == '.')).reverse

end RowBlock.Path
