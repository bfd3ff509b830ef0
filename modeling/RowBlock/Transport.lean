import RowBlock.Network

set_option autoImplicit false

/-! # Checked fields

The parts of a round trip are sent as separate messages, its *fields*: row numbers and blocks of
rows. A receiver accepts nothing else: `Field.int` and `Field.block` refuse every payload that
is not what the protocol expects at that place, and say what came instead.
-/

namespace RowBlock

/-! ## Refusals

Errors carry what their texts say: the rank, the channel and what the network answered, or what came
in place of the field. They have one kind, whichever of them occurs. -/

inductive TransportError where
  | notSent (dest : Int) (channel : Channel) (cause : Refusal)
  | notReceived (source : Source) (channel : Channel) (cause : Refusal)
  | notInteger (source : Int) (payload : Payload)
  | negative (source value : Int)
  | notMatrix (source : Int) (payload : Payload)
  | notIntegerBlock (source : Int) (type : CellType)
  | wrongShape (source : Int) (shape : List Nat) (rows cols : Int)
  | unexpected (worker : Int)
  | wrongField (worker : Int) (name : String) (value expected : Int)

def TransportError.message : TransportError → String
  | notSent dest channel cause =>
    s!"send to rank {dest} on {channel.name} failed: {cause.text}"
  | notReceived source channel cause =>
    s!"receive from rank {source.number} on {channel.name} failed: {cause.text}"
  | notInteger source payload =>
    s!"expected an integer from rank {source}, got {payload.typeName}"
  | negative source value => s!"rank {source} sent a negative value {value}"
  | notMatrix source payload =>
    s!"expected a 2-D array from rank {source}, got {payload.describe}"
  | notIntegerBlock source type => s!"rank {source} sent a non-integer block ({type.name})"
  | wrongShape source shape rows cols =>
    let expected := Text.tuple [toString rows, toString cols]
    s!"rank {source} sent a block of shape {Tensor.shapeText shape}, expected {expected}"
  | unexpected worker => s!"unexpected reply from rank {worker}"
  | wrongField worker name value expected =>
    s!"rank {worker} replied with {name}={value}, it was assigned {expected}"

namespace Field

/-! ## Fields

A field is checked by its receiver alone, against nothing but the number of rows it already knows.
Whether a number is the one that was assigned is a check of its own (`Field.known`), which only
replies need. -/

/-- **A row number or count**: a whole number that is not negative. -/
def int (source : Int) (payload : Payload) : Except TransportError Int :=
  match payload.int? with
  | none => .error (.notInteger source payload)
  | some n => if n < 0 then .error (.negative source n) else .ok n

/-- **A block of rows**: a matrix of integers with that many rows and, where that is fixed, that
many columns. -/
def block (source rows : Int) (cols? : Option Int) (payload : Payload) :
    Except TransportError Tensor :=
  match payload.matrix? with
  | none => .error (.notMatrix source payload)
  | some t =>
    if !t.type.isInt then .error (.notIntegerBlock source t.type)
    else
      let cols := cols?.getD t.cols
      if (t.rows : Int) = rows ∧ (t.cols : Int) = cols then .ok t
      else .error (.wrongShape source t.shape rows cols)

/-- A field of a reply that was already known when the work was assigned. -/
def known (worker : Int) (name : String) (value expected : Int) :
    Except TransportError Unit :=
  if value = expected then .ok () else .error (.wrongField worker name value expected)

end Field

end RowBlock
