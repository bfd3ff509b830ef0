import RowBlock.Random.Generator

set_option autoImplicit false

/-! # Bounded draws

A number from `low` to `low + range` is drawn from words of 32 or 64 bits, whichever suffice.
A word times the number of values is split at the width of a word: the upper part is the
result, and the lower part tells whether the word is one of the few that would favour some
results, in which case another word is drawn. A range of one value draws no word at all, and a
range of all words takes the word itself.
-/

namespace RowBlock.Random

/-! ## Words

A short range is drawn from half words and a long one from whole ones, so the stream that a seed
gives depends on the range as well. -/

structure WordSource where
  bits : Nat
  next : Generator → Nat × Generator

def halves : WordSource := ⟨32, Generator.nextHalf⟩

def words : WordSource := ⟨64, Generator.nextWord⟩

/-- The words that a draw takes from a range of `range + 1` values. -/
def sourceFor (range : Nat) : WordSource := if range < 2 ^ 32 then halves else words

/-- The most words one draw may take: two halves for every state of the generator. The states do not
come round earlier, and at least one of them shows a word that is accepted. -/
def maxRedraws : Nat := 2 ^ 129

/-! ## Draws

Refusing a word is rare, and how often it can happen in a row is not bounded by the algorithm. The
fuel of `redraw` is as large as the period of the generator, so that running out of it says
something about the generator and not about the number. -/

/-- Draws words until one is accepted: its product with the number of values has a lower part
of at least the threshold. -/
def redraw (source : WordSource) (values threshold : Nat) :
    Nat → Generator → Option (Nat × Generator)
  | 0, _ => none
  | fuel + 1, g =>
    let (word, g) := source.next g
    let product := word * values
    if product % 2 ^ source.bits < threshold then redraw source values threshold fuel g
    else some (product / 2 ^ source.bits, g)

/-- **A bounded draw**: a number from zero to `range`; `none` if no word was accepted. -/
def bounded (range : Nat) (g : Generator) : Option (Nat × Generator) :=
  if range = 0 then some (0, g)
  else
    let source := sourceFor range
    if range = 2 ^ source.bits - 1 then some (source.next g)
    else
      let values := range + 1
      redraw source values ((2 ^ source.bits - values) % values) maxRedraws g

/-- The first `count` numbers from `low` to `low + range`, and the generator after them. -/
def boundedList (low : Int) (range : Nat) : Nat → Generator → Option (List Int × Generator)
  | 0, g => some ([], g)
  | count + 1, g => do
    let (n, g) ← bounded range g
    let (ns, g) ← boundedList low range count g
    return ((low + n) :: ns, g)

end RowBlock.Random
