import RowBlock.Log.Level
import RowBlock.Text.Listing
import RowBlock.Text.Quoted

set_option autoImplicit false

/-! # Names in the log

A level is asked for by name, and the names are those of the whole logging facility: the levels,
the switches, which are all on, a few texts, and the parts that the facility is made of. `LogName`
says what a name stands for. Only levels and switches can be the level of a record; a part is
shown as it describes itself where it is refused.
-/

namespace RowBlock

/-- What a name stands for. -/
inductive LogName where
  | level (level : Level)
  | text (text : String)
  | part (shown : String)
  | nothing
  deriving DecidableEq, Repr

namespace LogName

/-! ## Levels, switches and texts

A threshold that names a switch is a level, the lowest but one; a text is compared with the names of
levels and is none. -/

def levels : List (String × Level) :=
  [("CRITICAL", .critical), ("FATAL", .critical), ("ERROR", .error), ("WARN", .warning),
    ("WARNING", .warning), ("INFO", .info), ("DEBUG", .debug), ("NOTSET", .notSet)]

def switches : List String :=
  ["raiseExceptions", "logThreads", "logMultiprocessing", "logProcesses"]

def plainForm : String := "%(levelname)s:%(name)s:%(message)s"

def texts : List (String × String) :=
  [("BASIC_FORMAT", plainForm), ("__name__", "logging"), ("__package__", "logging"),
    ("__version__", "0.5.1.2"), ("__status__", "production"), ("__date__", "07 February 2010")]

/-! ## Parts

All other names stand for parts, which are no levels. They only have to be shown, each in the way it
describes itself, and for some of them that is not more than their name. -/

def kinds : List String := [
  "BufferingFormatter", "FileHandler", "Filter", "Filterer", "Formatter", "Handler", "LogRecord",
  "Logger", "LoggerAdapter", "Manager", "NullHandler", "PercentStyle", "PlaceHolder",
  "RootLogger", "StrFormatStyle", "StreamHandler", "StringTemplateStyle", "_StderrHandler"]

def shownKind (name : String) : String := s!"<class '{name}'>"

def actions : List String := [
  "_acquireLock", "_addHandlerRef", "_after_at_fork_child_reinit_locks", "_checkLevel",
  "_is_internal_frame", "_register_at_fork_reinit_lock", "_releaseLock", "_removeHandlerRef",
  "_showwarning", "addLevelName", "basicConfig", "captureWarnings", "critical", "currentframe",
  "debug", "disable", "error", "exception", "fatal", "getLevelName", "getLevelNamesMapping",
  "getLogRecordFactory", "getLogger", "getLoggerClass", "info", "log", "makeLogRecord",
  "setLogRecordFactory", "setLoggerClass", "shutdown", "warn", "warning",
  "__delattr__", "__eq__", "__ge__", "__getattribute__", "__gt__", "__hash__", "__init__",
  "__init_subclass__", "__le__", "__lt__", "__ne__", "__new__", "__repr__", "__setattr__",
  "__str__", "__subclasshook__"]

def plainActions : List String := [
  "__dir__", "__format__", "__getstate__", "__reduce__", "__reduce_ex__", "__sizeof__"]

def openNames : List String := [
  "BASIC_FORMAT", "BufferingFormatter", "CRITICAL", "DEBUG", "ERROR", "FATAL", "FileHandler",
  "Filter", "Formatter", "Handler", "INFO", "LogRecord", "Logger", "LoggerAdapter", "NOTSET",
  "NullHandler", "StreamHandler", "WARN", "WARNING", "addLevelName", "basicConfig",
  "captureWarnings", "critical", "debug", "disable", "error", "exception", "fatal",
  "getLevelName", "getLogger", "getLoggerClass", "info", "log", "makeLogRecord", "setLoggerClass",
  "shutdown", "warn", "warning", "getLogRecordFactory", "setLogRecordFactory", "lastResort",
  "raiseExceptions", "getLevelNamesMapping"]

def shownPairs (pairs : List (String × String)) : String :=
  "\x7b" ++ String.intercalate ", " (pairs.map fun (key, value) => key ++ ": " ++ value) ++ "\x7d"

/-- The levels by number, greatest first, each under its first name. -/
def shownNumbers : String :=
  shownPairs <| [Level.critical, .error, .warning, .info, .debug, .notSet].map fun l =>
    (toString l.number, Text.quoted l.name)

def shownForms : String :=
  let form (mark kind line : String) : String × String :=
    (Text.quoted mark, Text.tuple [shownKind ("logging." ++ kind), Text.quoted line])
  shownPairs [form "%" "PercentStyle" plainForm,
    form "\x7b" "StrFormatStyle" "\x7blevelname\x7d:\x7bname\x7d:\x7bmessage\x7d",
    form "$" "StringTemplateStyle" "$\x7blevelname\x7d:$\x7bname\x7d:$\x7bmessage\x7d"]

def shownLastResort : String := "<_StderrHandler (WARNING)>"

/-- The other parts, and how each is shown. -/
def parts : List (String × String) :=
  [("_logRecordFactory", shownKind "logging.LogRecord"),
    ("_loggerClass", shownKind "logging.Logger"), ("GenericAlias", shownKind "types.GenericAlias"),
    ("Template", shownKind "string.Template"),
    ("__class__", shownKind "module"), ("__annotations__", shownPairs []),
    ("_levelToName", shownNumbers),
    ("_nameToLevel", shownPairs (levels.map fun (name, l) =>
      (Text.quoted name, toString l.number))),
    ("_STYLES", shownForms),
    ("__all__", Text.bracketed (openNames.map Text.quoted)),
    ("root", "<RootLogger root (WARNING)>"), ("lastResort", shownLastResort),
    ("_defaultLastResort", shownLastResort), ("atexit", "<module 'atexit' (built-in)>"),
    ("sys", "<module 'sys' (built-in)>"), ("time", "<module 'time' (built-in)>"),
    ("io", "<module 'io' (frozen)>"), ("os", "<module 'os' (frozen)>")]

def hiddenParts : List String := [
  "_at_fork_reinit_lock_weakset", "_defaultFormatter", "_handlerList", "_handlers", "_lock",
  "_srcfile", "_startTime", "_str_formatter", "__author__", "__builtins__", "__cached__",
  "__dict__", "__doc__", "__file__", "__loader__", "__path__", "__spec__", "collections", "re",
  "threading", "traceback", "warnings", "weakref"]

/-- **What a name stands for**; `none` for a name that is unknown. -/
def named? (name : String) : Option LogName :=
  match levels.lookup name, texts.lookup name, parts.lookup name with
  | some l, _, _ => some (.level l)
  | _, some t, _ => some (.text t)
  | _, _, some shown => some (.part shown)
  | _, _, _ =>
    if switches.contains name then some (.level .switchedOn)
    else if kinds.contains name then some (.part (shownKind ("logging." ++ name)))
    else if plainActions.contains name then some (.part (s!"<built-in function {name}>"))
    else if actions.contains name || hiddenParts.contains name then some (.part name)
    else if name = "_warnings_showwarning" then some .nothing
    else none

end LogName

end RowBlock
