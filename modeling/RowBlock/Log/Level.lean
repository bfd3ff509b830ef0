set_option autoImplicit false

/-! # Levels of the log

A record of the log has one of five levels. Two more exist beside them: the level that is not set,
at which nothing is recorded, and the level of a switch that is on, the lowest at which anything is.
-/

namespace RowBlock

/-- How important a record is. -/
inductive Level where
  | notSet
  | switchedOn
  | debug
  | info
  | warning
  | error
  | critical
  deriving DecidableEq, Repr

namespace Level

def number : Level → Nat
  | notSet => 0
  | switchedOn => 1
  | debug => 10
  | info => 20
  | warning => 30
  | error => 40
  | critical => 50

def name : Level → String
  | notSet => "NOTSET"
  | switchedOn => "Level True"
  | debug => "DEBUG"
  | info => "INFO"
  | warning => "WARNING"
  | error => "ERROR"
  | critical => "CRITICAL"

end Level

end RowBlock
