set_option autoImplicit false

/-! # Kinds of errors

Every error has a kind, whose name opens the line that reports it. Some kinds are special cases
of others: a parsing error is a value error and a missing file is a system error. A job reports
the kinds of topology, transport, value and system errors (`isReported`) and stops; any other
kind leaves the program.
-/

namespace RowBlock

/-- What kind of error occurred. -/
inductive ErrorKind where
  | value
  | emptyData
  | parsing
  | decoding
  | topology
  | transport
  | system
  | missingFile
  | isDirectory
  | notDirectory
  | type
  | index
  | overflow
  | memory
  | missingKey
  | missingName
  | missingModule
  deriving DecidableEq, Repr

namespace ErrorKind

def name : ErrorKind → String
  | value => "ValueError"
  | emptyData => "EmptyDataError"
  | parsing => "ParserError"
  | decoding => "UnicodeDecodeError"
  | topology => "TopologyError"
  | transport => "TransportError"
  | system => "OSError"
  | missingFile => "FileNotFoundError"
  | isDirectory => "IsADirectoryError"
  | notDirectory => "NotADirectoryError"
  | type => "TypeError"
  | index => "IndexError"
  | overflow => "OverflowError"
  | memory => "MemoryError"
  | missingKey => "KeyError"
  | missingName => "AttributeError"
  | missingModule => "ModuleNotFoundError"

/-! ## Special cases

A handler for a kind also handles its special cases. The kinds of memory, keys, types and overflow
are special cases of none that is reported. -/

def isValue : ErrorKind → Bool
  | value | emptyData | parsing | decoding => true
  | _ => false

/-- System errors and their special cases. -/
def isSystem : ErrorKind → Bool
  | system | missingFile | isDirectory | notDirectory => true
  | _ => false

/-- Whether a job reports the error and stops, rather than letting it leave the program. -/
def isReported (kind : ErrorKind) : Bool :=
  kind == topology || kind == transport || kind.isValue || kind.isSystem

end ErrorKind

end RowBlock
