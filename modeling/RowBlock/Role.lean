import RowBlock.Error.Kind

set_option autoImplicit false

/-! # Roles and orders

Rank zero of a job is the coordinator, every other rank a worker. The coordinator collects
replies in the order of the ranks or in the order they arrive.
-/

namespace RowBlock

def coordinatorRank : Nat := 0

/-! ## Orders and errors

Orders are given by name, on the command line as well as by a caller. A coordinator checks its rank
first, then the name of the order, and then that there is a worker. -/

/-- The order in which replies are collected. -/
inductive Order where
  | rank
  | arrival
  deriving DecidableEq, Repr

/-- Why a rank cannot take a role. -/
inductive RoleError where
  | coordinatorOn (rank : Nat)
  | workerOnCoordinator
  | unknownOrder (name : String)
  | tooFewRanks (size : Nat)
  deriving DecidableEq, Repr

namespace RoleError

def kind : RoleError → ErrorKind
  | tooFewRanks _ => .topology
  | _ => .value

def message : RoleError → String
  | coordinatorOn rank => s!"Coordinator must run on rank {coordinatorRank}, not rank {rank}"
  | workerOnCoordinator => "Worker cannot run on the coordinator rank"
  | unknownOrder name => s!"Unknown gather order '{name}', choose from ('rank', 'arrival')"
  | tooFewRanks size => s!"Need at least 2 processes (1 coordinator + 1 worker), got {size}"

end RoleError

namespace Order

def name : Order → String
  | rank => "rank"
  | arrival => "arrival"

def named (name : String) : Except RoleError Order :=
  match [rank, arrival].find? (·.name == name) with
  | some order => .ok order
  | none => .error (.unknownOrder name)

end Order

end RowBlock
