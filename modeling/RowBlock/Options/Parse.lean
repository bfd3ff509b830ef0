import RowBlock.Options.Settings
import RowBlock.Options.Usage
import RowBlock.Text.DecimalDigit
import RowBlock.Text.Quoted

set_option autoImplicit false

/-! # Reading options

The arguments of the program are classified one by one before any of them takes effect
(`classifyAll`). An option may be named by any beginning of a long name that fits no other, its
value may be attached with `=`, a short option may have its value or further short flags right
behind it, and after `--` nothing is an option any more. Then the arguments are read as uses of options
(`read`), these take effect in order (`settle`), and the settings are checked as a whole (`check`).
-/

namespace RowBlock.Options

abbrev Draft := Settings (Setting Int)

/-- Why the program stops before its job: it prints something and exits, or its settings cannot
even be checked. -/
inductive Stop where
  | exit (code : Nat) (output errors : String)
  | failed (error : SettingError)
  deriving DecidableEq, Repr

def Stop.helped : Stop := .exit 0 help ""

def Stop.refused (text : String) : Stop := .exit 2 "" (complaint text)

inductive Action where
  | help
  | flag (set : Draft → Draft)
  | value (read : String → Except String (Draft → Draft)) (blank : Draft → Draft)

structure Spec where
  names : List String
  action : Action

/-! ## The options

An option is described by its names and by what it does to the settings. What a value may be is part
of that description: a whole number, any text or one of a few words. So are the complaints about
values, which name the option by all its names. -/

/-- An option that takes what its text is read as. -/
def reader {α : Type} (reading : String → Option α) (complaint : String → String)
    (set : Setting α → Draft → Draft) : Action :=
  .value
    (fun s =>
      match reading s with
      | some a => .ok (set (.value a))
      | none => .error (complaint s))
    (set .blank)

def whole (set : Setting Int → Draft → Draft) : Action :=
  reader Text.wholeNumber? (fun s => s!"invalid int value: {Text.quoted s}") set

def text (set : Setting String → Draft → Draft) : Action := reader some id set

/-- The value that a word names. -/
def named? {α : Type} (name : α → String) (values : List α) (word : String) : Option α :=
  values.find? (name · == word)

/-- An option that takes one of some words. -/
def choice {α : Type} (name : α → String) (values : List α)
    (set : Setting α → Draft → Draft) : Action :=
  reader (named? name values)
    (fun s =>
      let words := String.intercalate ", " (values.map fun a => Text.quoted (name a))
      s!"invalid choice: {Text.quoted s} (choose from {words})")
    set

/-- **All options**, in the order the help names them. -/
def specs : List Spec := [
  ⟨["-h", "--help"], .help⟩,
  ⟨["--rows", "-n"], whole fun v d => { d with rows := v }⟩,
  ⟨["--inner", "-m"], whole fun v d => { d with inner := v }⟩,
  ⟨["--dtype"], choice IntType.name [.int32, .int64] fun v d => { d with type := v }⟩,
  ⟨["--fill"], choice Fill.name [.pattern, .random] fun v d => { d with fill := v }⟩,
  ⟨["--seed"], whole fun v d => { d with seed := some v }⟩,
  ⟨["--low"], whole fun v d => { d with low := v }⟩,
  ⟨["--high"], whole fun v d => { d with high := v }⟩,
  ⟨["--matrix-a"], text fun v d => { d with matrixA := some v }⟩,
  ⟨["--matrix-b"], text fun v d => { d with matrixB := some v }⟩,
  ⟨["--kernel"], choice Kernel.name Kernel.all fun v d => { d with kernel := v }⟩,
  ⟨["--gather-order"], choice Order.name [.rank, .arrival] fun v d => { d with order := v }⟩,
  ⟨["--skip-empty"], .flag fun d => { d with skipEmpty := true }⟩,
  ⟨["--rounds"], whole fun v d => { d with rounds := v }⟩,
  ⟨["--verify"], .flag fun d => { d with verify := true }⟩,
  ⟨["--quiet", "-q"], .flag fun d => { d with quiet := true }⟩,
  ⟨["--output"], text fun v d => { d with output := some v }⟩,
  ⟨["--stats"], text fun v d => { d with stats := some v }⟩,
  ⟨["--plot"], text fun v d => { d with plot := some v }⟩,
  ⟨["--log-level"],
    choice Level.name [.debug, .info, .warning, .error] fun v d => { d with logLevel := v }⟩]

/-- Every name with its option, in order. -/
def namedSpecs : List (String × Spec) :=
  specs.flatMap fun spec => spec.names.map fun name => (name, spec)

def specOf? (name : String) : Option Spec := namedSpecs.lookup name

/-- A complaint about an option's value. -/
def Spec.refused (spec : Spec) (what : String) : Stop :=
  let names := String.intercalate "/" spec.names
  .refused s!"argument {names}: {what}"

/-- A complaint about a value attached to an option that takes none. -/
def Spec.ignored (spec : Spec) (value : String) : Stop :=
  spec.refused ("ignored explicit argument " ++ Text.quoted value)

/-! ## Classification

An argument opens like an option if it starts with a hyphen and has more than that. It is looked for
in full, then up to its first equals sign, and then as a beginning of a name or as a short option
with something behind it. What more than one option could be meant by is refused. -/

inductive Token where
  | separator
  | plain (text : String)
  | unknown (text : String)
  | option (spec : Spec) (name : String) (attached : Option String)

structure Meaning where
  name : String
  spec : Spec
  attached : Option String

/-- A text cut at the first equals sign. -/
def cutAtEquals (cs : List Char) : List Char × Option String :=
  let head := cs.takeWhile (· != '=')
  match cs.drop head.length with
  | _ :: value => (head, some (String.ofList value))
  | [] => (head, none)

/-- The options an argument may stand for: those whose long name begins like it, or the short
one it begins with. -/
def meanings : List Char → List Meaning
  | '-' :: '-' :: rest =>
    let (head, attached) := cutAtEquals ('-' :: '-' :: rest)
    (namedSpecs.filter fun (name, _) => head.isPrefixOf name.toList).map
      fun (name, spec) => ⟨name, spec, attached⟩
  | cs =>
    namedSpecs.filterMap fun (name, spec) =>
      if name.toList = cs.take 2 then some ⟨name, spec, some (String.ofList (cs.drop 2))⟩
      else if cs.isPrefixOf name.toList then some ⟨name, spec, none⟩
      else none

/-- An argument that opens like an option but names none: a negative number and anything with a
blank in it are plain. -/
def unnamed (arg : String) : Token :=
  if Text.looksNegative arg || arg.toList.contains ' ' then .plain arg else .unknown arg

/-- An argument that names no option in full. -/
def abbreviated (arg : String) : Except Stop Token :=
  match meanings arg.toList with
  | [] => .ok (unnamed arg)
  | [m] => .ok (.option m.spec m.name m.attached)
  | ms =>
    let names := String.intercalate ", " (ms.map Meaning.name)
    .error (.refused s!"ambiguous option: {arg} could match {names}")

/-- **One argument** before the separator. -/
def classify (arg : String) : Except Stop Token :=
  match arg.toList with
  | '-' :: _ :: _ =>
    match specOf? arg with
    | some spec => .ok (.option spec arg none)
    | none =>
      let (head, attached) := cutAtEquals arg.toList
      match attached, specOf? (String.ofList head) with
      | some value, some spec => .ok (.option spec (String.ofList head) (some value))
      | _, _ => abbreviated arg
  | _ => .ok (.plain arg)

/-- **All arguments.** -/
def classifyAll : List String → Except Stop (List Token)
  | [] => .ok []
  | arg :: rest =>
    if arg = "--" then .ok (.separator :: rest.map .plain)
    else do
      let token ← classify arg
      let tokens ← classifyAll rest
      return token :: tokens

/-! ## Uses

The arguments are read from left to right with at most one option waiting for its value. An option
that waits takes the next plain argument and nothing else; the separator does not count as one. A
complaint cuts the reading, and the uses before it have been read already. -/

/-- An option that takes effect, with the value given to it. -/
structure Use where
  spec : Spec
  value? : Option String

/-- What arguments come to: uses of options one after the other, the arguments that belong to no
option, and the complaint that cuts them short. -/
structure Reading where
  uses : List Use
  extras : List String
  stop? : Option Stop

namespace Reading

def nothing : Reading := ⟨[], [], none⟩

def cut (stop : Stop) : Reading := ⟨[], [], some stop⟩

/-- Flags and the option behind them are used before the rest. -/
def after (r : Reading) (flags : List Spec) (last : Use) : Reading :=
  { r with uses := flags.map (Use.mk · none) ++ last :: r.uses }

/-- An argument that belongs to no option stands before the rest. -/
def beside (r : Reading) (extra : String) : Reading := { r with extras := extra :: r.extras }

end Reading

/-- Whether a name is a short one. -/
def isShort (name : String) : Bool := name.toList[1]? != some '-'

/-- Follows a cluster of short flags: the flags passed, the option at the end and the value
attached to it. -/
def cluster (flags : List Spec) (name : String) (spec : Spec) :
    List Char → Except Stop (List Spec × Spec × Option String)
  | [] =>
    match spec.action with
    | .value _ _ => .ok (flags, spec, some "")
    | _ => .error (spec.ignored "")
  | c :: cs =>
    match spec.action with
    | .value _ _ => .ok (flags, spec, some (String.ofList (c :: cs)))
    | _ =>
      let next := String.ofList ['-', c]
      match isShort name, specOf? next with
      | true, some spec' =>
        if cs.isEmpty then .ok (flags ++ [spec], spec', none)
        else cluster (flags ++ [spec]) next spec' cs
      | _, _ =>
        .error (spec.ignored (String.ofList (c :: cs)))

/-- The flags and the last option that an argument names, and the value attached to that. -/
def opened (spec : Spec) (name : String) :
    Option String → Except Stop (List Spec × Spec × Option String)
  | some value => cluster [] name spec value.toList
  | none => .ok ([], spec, none)

def Spec.wantsValue (spec : Spec) : Bool :=
  match spec.action with
  | .value _ _ => true
  | _ => false

def Spec.unvalued (spec : Spec) : Stop := spec.refused "expected one argument"

/-- The arguments as they were written. -/
def Token.text : Token → String
  | .separator => "--"
  | .plain s => s
  | .unknown s => s
  | .option _ name _ => name

/-- **The uses of options** among arguments, where an option may wait for its value. A cluster is
used as a whole: nothing of it is if the value of its last option is missing. -/
def read : Option (List Spec × Spec) → List Token → Reading
  | none, [] => .nothing
  | none, .option spec name attached :: rest =>
    match opened spec name attached with
    | .error stop => .cut stop
    | .ok (flags, last, some value) => (read none rest).after flags ⟨last, some value⟩
    | .ok (flags, last, none) =>
      if last.wantsValue then read (some (flags, last)) rest
      else (read none rest).after flags ⟨last, none⟩
  | none, token :: rest => (read none rest).beside token.text
  | some (flags, last), .plain value :: rest => (read none rest).after flags ⟨last, some value⟩
  | some (_, last), _ => .cut last.unvalued

/-! ## Effect

Uses take effect in their order, so of several values for one option the last one counts. They take
effect before a complaint is raised that comes after them, and that is how the help is shown even if
a later option lacks its value. -/

def Spec.act (spec : Spec) (draft : Draft) : Except Stop Draft :=
  match spec.action with
  | .help => .error .helped
  | .flag set => .ok (set draft)
  | .value _ _ => .error spec.unvalued

/-- An option with its value; the separator as an attached value leaves the option blank. -/
def Spec.assign (spec : Spec) (value : String) (draft : Draft) : Except Stop Draft :=
  match spec.action with
  | .value read blank =>
    if value = "--" then .ok (blank draft)
    else
      match read value with
      | .ok set => .ok (set draft)
      | .error what => .error (spec.refused what)
  | _ => spec.act draft

def Use.apply (u : Use) (draft : Draft) : Except Stop Draft :=
  match u.value? with
  | some value => u.spec.assign value draft
  | none => u.spec.act draft

/-- Uses that take effect one after the other. -/
def applyAll (draft : Draft) : List Use → Except Stop Draft
  | [] => .ok draft
  | u :: us => do applyAll (← u.apply draft) us

/-- **The effect of arguments**: the settings, and the arguments that belong to no option. -/
def settle (draft : Draft) (tokens : List Token) : Except Stop (Draft × List String) := do
  let reading := read none tokens
  let draft ← applyAll draft reading.uses
  match reading.stop? with
  | some stop => .error stop
  | none => .ok (draft, reading.extras)

/-! ## The settings as a whole

The checks are made in a fixed order, and each looks at one or two settings. Counts that are blank
cannot be compared, and this is no complaint but an error of the program. -/

/-- A count compared with its least value; a blank one is not comparable. -/
def isBelow (least : Int) : Setting Int → Except Stop Bool
  | .value n => .ok (n < least)
  | .blank => .error (.failed (.notComparable "<" "list" "int"))

def count : Setting Int → Int
  | .value n => n
  | .blank => 0

/-- **The check** of the settings as a whole: files for both operands or for none, no negative
extents, at least one round. -/
def check (d : Draft) : Except Stop (Settings Int) := do
  if d.matrixA.isNone != d.matrixB.isNone then
    throw (.refused "--matrix-a and --matrix-b must be given together")
  if (← isBelow 0 d.rows) then
    throw (.refused "--rows and --inner must be non-negative")
  if (← isBelow 0 d.inner) then
    throw (.refused "--rows and --inner must be non-negative")
  if (← isBelow 1 d.rounds) then
    throw (.refused "--rounds must be at least 1")
  return { d with rows := count d.rows, inner := count d.inner, rounds := count d.rounds }

/-- **Reading the command line.** -/
def parse (args : List String) : Except Stop (Settings Int) := do
  let tokens ← classifyAll args
  let (draft, extras) ← settle .initial tokens
  if extras ≠ [] then
    throw (.refused ("unrecognized arguments: " ++ String.intercalate " " extras))
  check draft

end RowBlock.Options
