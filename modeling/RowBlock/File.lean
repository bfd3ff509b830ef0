import RowBlock.Chart
import RowBlock.Error.Kind
import RowBlock.Path
import RowBlock.Text.LowerCase
import RowBlock.Text.Quoted

set_option autoImplicit false

/-! # Files

A job reads and writes files in its directory. A file holds bytes or a chart. A path is followed
part by part (`Files.walk`), and every part but the last has to lead to a directory, two dots
and single dots included. The directories are the job's own, those that its files lie in, and
the ones above it; of what else lies outside nothing is known.
-/

namespace RowBlock

/-! ## Contents and errors

The errors are those of the system, except the last two, which the writer of a table and the writer
of a chart raise themselves. -/

inductive Content where
  | bytes (bytes : List UInt8)
  | chart (chart : Chart)

/-- Why a file cannot be read or written. -/
inductive FileError where
  | missing (path : String)
  | isDirectory (path : String)
  | notDirectory (path : String)
  | tooLong (path : String)
  | zeroByte
  | noParent (parent : String)
  | unknownFormat (format : String)
  deriving DecidableEq, Repr

namespace FileError

def chartFormats : List String :=
  ["avif", "eps", "gif", "jpeg", "jpg", "pdf", "pgf", "png", "ps", "raw", "rgba", "svg", "svgz",
    "tif", "tiff", "webp"]

def kind : FileError → ErrorKind
  | missing _ => .missingFile
  | isDirectory _ => .isDirectory
  | notDirectory _ => .notDirectory
  | tooLong _ | noParent _ => .system
  | zeroByte | unknownFormat _ => .value

def message : FileError → String
  | missing path => s!"[Errno 2] No such file or directory: {Text.quoted path}"
  | isDirectory path => s!"[Errno 21] Is a directory: {Text.quoted path}"
  | notDirectory path => s!"[Errno 20] Not a directory: {Text.quoted path}"
  | tooLong path => s!"[Errno 36] File name too long: {Text.quoted path}"
  | zeroByte => "embedded null byte"
  | noParent parent => s!"Cannot save file into a non-existent directory: '{parent}'"
  | unknownFormat format =>
    s!"Format {Text.quoted format} is not supported (supported formats: " ++
      String.intercalate ", " chartFormats ++ ")"

end FileError

/-! ## Directories

Directories are not stored. A directory exists inside the job's own if a file lies below it; outside
of it nothing is known by name, so no path leads back in. -/

/-- A directory: in the job's directory by the names that lead there, or outside of it. -/
inductive Directory where
  | inside (names : List String)
  | outside
  deriving DecidableEq, Repr

namespace Directory

def up : Directory → Directory
  | inside (name :: names) => inside (name :: names).dropLast
  | _ => outside

def start (path : String) : Directory := if Path.isAbsolute path then outside else inside []

end Directory

inductive DirectoryEntry where
  | directory (directory : Directory)
  | file (content : Content)
  | nothing

/-- The files of a job by their names from its directory on, in the order they were made. -/
structure Files where
  entries : List (List String × Content)

namespace Files

def get? (files : Files) (names : List String) : Option Content := files.entries.lookup names

def put (files : Files) (names : List String) (content : Content) : Files :=
  if (files.get? names).isSome then
    ⟨files.entries.map fun (other, old) => (other, if other = names then content else old)⟩
  else ⟨files.entries ++ [(names, content)]⟩

/-- Files given by path and content. -/
def ofList (contents : List (String × Content)) : Files :=
  contents.foldl (fun files (path, content) => files.put (Path.parts path) content) ⟨[]⟩

def pathOf (names : List String) : String := String.intercalate "/" names

/-! ## Following a path

The walk looks at one part at a time, and its first error is the error of the path. The last part is
looked at by whoever reads or writes, because a missing file is an error for one of them only. -/

def hasDirectory (files : Files) (names : List String) : Bool :=
  files.entries.any fun (other, _) => names.isPrefixOf other && names.length < other.length

/-- What a directory has under a part of a path. -/
def entry (files : Files) (directory : Directory) (part : String) : DirectoryEntry :=
  if part = "." then .directory directory
  else if part = ".." then .directory directory.up
  else
    match directory with
    | .outside => .nothing
    | .inside names =>
      let names := names ++ [part]
      if files.hasDirectory names then .directory (.inside names)
      else
        match files.get? names with
        | some content => .file content
        | none => .nothing

/-- What the path has at one of its parts. -/
def step (files : Files) (path : String) (directory : Directory) (part : String) :
    Except FileError DirectoryEntry :=
  if Path.maxPartBytes < part.utf8ByteSize then .error (.tooLong path)
  else .ok (files.entry directory part)

/-- **The directory** that parts of a path lead to. -/
def walk (files : Files) (path : String) (directory : Directory) :
    List String → Except FileError Directory
  | [] => .ok directory
  | part :: parts => do
    match ← files.step path directory part with
    | .directory next => files.walk path next parts
    | .file _ => throw (.notDirectory path)
    | .nothing => throw (.missing path)

/-- What no path may be: it has no zero, it is not empty, and not too long. -/
def checkPath (path : String) : Except FileError Unit :=
  if Path.hasZero path then .error .zeroByte
  else if path = "" then .error (.missing path)
  else if Path.maxBytes < path.utf8ByteSize then .error (.tooLong path)
  else .ok ()

/-- The directory that all parts of a path lead to. -/
def directory (files : Files) (path : String) : Except FileError Directory := do
  checkPath path
  files.walk path (.start path) (Path.parts path)

/-- The directory that a path leads through and its last part; slashes alone end in a dot. -/
def locate (files : Files) (path : String) : Except FileError (Directory × String) := do
  checkPath path
  let parts := Path.parts path
  return (← files.walk path (.start path) parts.dropLast, parts.getLast?.getD ".")

/-! ## Reading and writing

A table and a chart differ in what is checked before the file is made. Both replace a file that
exists. -/

/-- **Reading** a file's bytes; a chart has none that can be read. -/
def read (files : Files) (path : String) : Except FileError (List UInt8) := do
  let (directory, part) ← files.locate path
  match ← files.step path directory part with
  | .directory _ => throw (.isDirectory path)
  | .nothing => throw (.missing path)
  | .file content =>
    if Path.endsInSlash path then throw (.notDirectory path)
    match content with
    | .bytes bytes => return bytes
    | .chart _ => return []

/-- Makes a file in a directory that exists. A file outside the job's directory is not kept. -/
def create (files : Files) (path : String) (content : Content) : Except FileError Files := do
  let (directory, part) ← files.locate path
  if Path.endsInSlash path then throw (.isDirectory path)
  match ← files.step path directory part, directory with
  | .directory _, _ => throw (.isDirectory path)
  | _, .inside names => return files.put (names ++ [part]) content
  | _, .outside => return files

/-- Makes a table's file. The directory it lies in is looked for first. -/
def createTable (files : Files) (path : String) (content : Content) : Except FileError Files :=
  let parent := Path.parentText path
  match files.directory parent with
  | .ok _ => files.create path content
  | .error (.tooLong parent) => .error (.tooLong parent)
  | .error _ => .error (.noParent parent)

/-- Makes a chart's file in the format that its path ends in; `.png` is added to a path that ends
in none. -/
def createChart (files : Files) (path : String) (content : Content) : Except FileError Files :=
  let format := Path.extension path
  if format = "" then files.create (Path.dropDots path ++ ".png") content
  else if FileError.chartFormats.contains (Text.lowered format) then files.create path content
  else .error (.unknownFormat (Text.lowered format))

/-- **Writing** a file. -/
def write (files : Files) (path : String) (content : Content) : Except FileError Files :=
  match content with
  | .bytes _ => files.createTable path content
  | .chart _ => files.createChart path content

end Files

end RowBlock
