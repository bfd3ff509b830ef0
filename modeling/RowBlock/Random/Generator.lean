import RowBlock.Random.Seed

set_option autoImplicit false

/-! # The generator

A linear congruential generator on 128 bits whose output is a permuted half of its state. Its
words have sixty-four bits; of a thirty-two bit draw the upper half of the word is kept for the
next one.
-/

namespace RowBlock.Random

/-- The state of a generator; `kept` is the half word left over from the last short draw. -/
structure Generator where
  state : Nat
  increment : Nat
  kept : Option Nat
  deriving DecidableEq, Repr

namespace Generator

def multiplier : Nat := 0x2360ED051FC65DA44385DF649FCCF645

def advance (increment state : Nat) : Nat := (state * multiplier + increment) % 2 ^ 128

def ofSeed (seed : Nat) : Generator :=
  let s := startNumbers seed
  let start := s.getD 0 0 * 2 ^ 64 + s.getD 1 0
  let increment := ((s.getD 2 0 * 2 ^ 64 + s.getD 3 0) * 2 + 1) % 2 ^ 128
  let state := advance increment ((advance increment 0 + start) % 2 ^ 128)
  ⟨state, increment, none⟩

/-- The word shown by a state: its two halves joined and turned right by its top six bits. -/
def output (state : Nat) : Nat :=
  let joined := (state / 2 ^ 64) ^^^ (state % 2 ^ 64)
  let turn := state / 2 ^ 122
  (joined / 2 ^ turn + joined % 2 ^ turn * 2 ^ (64 - turn)) % 2 ^ 64

def nextWord (g : Generator) : Nat × Generator :=
  let state := advance g.increment g.state
  (output state, { g with state })

def nextHalf (g : Generator) : Nat × Generator :=
  match g.kept with
  | some half => (half, { g with kept := none })
  | none =>
    let (word, g) := g.nextWord
    (word % 2 ^ 32, { g with kept := some (word / 2 ^ 32) })

end Generator

end RowBlock.Random
