import RowBlock.Tensor.Display
import RowBlock.Text.Quoted

set_option autoImplicit false

/-! # Payloads

What one message carries: a tensor, a whole number, or anything else a rank may send. Whole
numbers come plain or as a single cell of an integer type; truth values are not numbers. A
payload describes itself in one line for log lines and error texts (`Payload.describe`).
-/

namespace RowBlock

/-! ## Kinds of payloads

The programs of the library send whole numbers and tensors only. The other constructors are for what
a rank that does not keep to the protocol may send, and every receiver has to say what came. -/

/-- The content of a message. -/
inductive Payload where
  | none
  | bool (b : Bool)
  | int (n : Int)
  | real (x : Float)
  | text (s : String)
  | scalar (type : CellType) (word : Int)
  | tensor (t : Tensor)
  | list (items : List Payload)
  | dict (entries : List (String × Payload))

namespace Payload

instance : Inhabited Payload := ⟨.none⟩

def int? : Payload → Option Int
  | int n => some n
  | scalar (.int _) n => some n
  | _ => Option.none

def matrix? : Payload → Option Tensor
  | tensor t => if t.rank = 2 then some t else Option.none
  | _ => Option.none

def contiguous : Payload → Payload
  | tensor t => tensor t.contiguous
  | p => p

def typeName : Payload → String
  | none => "NoneType"
  | bool _ => "bool"
  | int _ => "int"
  | real _ => "float"
  | text _ => "str"
  | scalar type _ => type.name
  | tensor _ => "ndarray"
  | list _ => "list"
  | dict _ => "dict"

/-! ## Texts

A payload is described in three ways that differ for tensors and texts: as an item of a listing, by
`describe` in log lines, and as text of its own. -/

/-- A single cell as an item: `np.int64(3)`, `np.True_`. -/
def scalarText (type : CellType) (word : Int) : String :=
  match type with
  | .bool => "np." ++ Tensor.cellText type word ++ "_"
  | _ => "np." ++ type.name ++ "(" ++ Tensor.cellText type word ++ ")"

mutual

def item : Payload → String
  | none => "None"
  | bool b => Text.truth b
  | int n => toString n
  | real x => Decimal.floatText x
  | text s => Text.quoted s
  | scalar type word => scalarText type word
  | tensor t => t.listed
  | list items => "[" ++ String.intercalate ", " (itemsOf items) ++ "]"
  | dict entries => "\x7b" ++ String.intercalate ", " (entriesOf entries) ++ "\x7d"

def itemsOf : List Payload → List String
  | [] => []
  | p :: ps => item p :: itemsOf ps

/-- The entries of a dictionary, each a quoted key, a colon and an item. -/
def entriesOf : List (String × Payload) → List String
  | [] => []
  | (key, p) :: rest => (Text.quoted key ++ ": " ++ item p) :: entriesOf rest

end

/-- **The description** of a payload: a tensor by shape and type, all else as an item. -/
def describe : Payload → String
  | tensor t => t.describe
  | p => item p

/-- The payload as text of its own: texts stand as they are, cells without their type. -/
def plainText : Payload → String
  | text s => s
  | scalar type word => Tensor.cellText type word
  | tensor t => t.display
  | p => item p

end Payload

end RowBlock
