import RowBlock.Cell
import RowBlock.Kernel
import RowBlock.Log
import RowBlock.Role

set_option autoImplicit false

/-! # The settings of a job

A job is described by its options. An option holds a value, or nothing at all: `--rows=--` names
an option and leaves it blank. The counts among the settings are checked before the job starts,
so `Settings` is given the type its counts have: `Setting Int` while options are read, `Int` for
a job that may start.
-/

namespace RowBlock

/-! ## Values and blanks -/

/-- What an option holds. -/
inductive Setting (α : Type) where
  | value (a : α)
  | blank
  deriving DecidableEq, Repr

inductive Fill where
  | pattern
  | random
  deriving DecidableEq, Repr

def Fill.name : Fill → String
  | .pattern => "pattern"
  | .random => "random"

/-- The settings of a job. -/
structure Settings (Count : Type) where
  rows : Count
  inner : Count
  type : Setting IntType
  fill : Setting Fill
  seed : Option (Setting Int)
  low : Setting Int
  high : Setting Int
  matrixA : Option (Setting String)
  matrixB : Option (Setting String)
  kernel : Setting Kernel
  order : Setting Order
  skipEmpty : Bool
  rounds : Count
  verify : Bool
  quiet : Bool
  output : Option (Setting String)
  stats : Option (Setting String)
  plot : Option (Setting String)
  logLevel : Setting Level
  deriving DecidableEq, Repr

def Settings.initial : Settings (Setting Int) where
  rows := .value 20
  inner := .value 32
  type := .value .int64
  fill := .value .pattern
  seed := none
  low := .value (-10)
  high := .value 10
  matrixA := none
  matrixB := none
  kernel := .value .rows
  order := .value .rank
  skipEmpty := false
  rounds := .value 1
  verify := false
  quiet := false
  output := none
  stats := none
  plot := none
  logLevel := .value .warning

/-! ## Looking settings up

A setting that came through the command line is one of the choices of its option. It is looked up
again when it is used, as the type of the operands is here, and a look-up that finds nothing is an
error of its own. -/

/-- The integer types of operands, by the names they are chosen by. -/
def Settings.types : List (String × IntType) := [("int32", .int32), ("int64", .int64)]

/-- The file an optional setting names: an empty name and a blank setting name none. -/
def Setting.file? : Option (Setting String) → Option String
  | some (.value path) => if path.isEmpty then none else some path
  | _ => none

inductive SettingError where
  | notComparable (sign left right : String)
  | blankName
  | blankPath
  deriving DecidableEq, Repr

namespace SettingError

def kind : SettingError → ErrorKind
  | blankPath => .value
  | _ => .type

def message : SettingError → String
  | notComparable sign left right =>
    s!"'{sign}' not supported between instances of '{left}' and '{right}'"
  | blankName => "unhashable type: 'list'"
  | blankPath => "Invalid file path or buffer object type: <class 'list'>"

end SettingError

end RowBlock
