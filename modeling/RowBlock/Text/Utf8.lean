set_option autoImplicit false

/-! # UTF-8

Text is stored in files as UTF-8. `encode` writes it; `fault?` finds the first place where bytes
are not UTF-8: a byte that starts no character, a byte that does not continue the character
begun, or the end of the bytes inside a character. A fault spans the bytes from the start of
the character up to before the first one that cannot belong to it.
-/

namespace RowBlock.Text.Utf8

def encode (s : String) : List UInt8 := s.toList.flatMap String.utf8EncodeChar

/-! ## Faults

A fault is reported with its position, with the bytes it spans and with one of three reasons; a
fault of a single byte also shows that byte. -/

inductive Reason where
  | start
  | continuation
  | truncated
  deriving DecidableEq, Repr

def Reason.text : Reason → String
  | .start => "invalid start byte"
  | .continuation => "invalid continuation byte"
  | .truncated => "unexpected end of data"

structure Fault where
  position : Nat
  span : Nat
  first : UInt8
  reason : Reason
  deriving DecidableEq, Repr

def Fault.message (f : Fault) : String :=
  let place :=
    if f.span = 1 then
      "byte 0x" ++ String.ofList [Nat.digitChar (f.first.toNat / 16),
        Nat.digitChar (f.first.toNat % 16)] ++ s!" in position {f.position}"
    else s!"bytes in position {f.position}-{f.position + f.span - 1}"
  "'utf-8' codec can't decode " ++ place ++ ": " ++ f.reason.text

/-! ## Checking

The first byte of a character says how many follow it. The range of the second byte is narrower for
a few first bytes, which shuts out forms that are too long, surrogates and code points beyond the
last one; all later bytes are continuations like any other. -/

/-- The number of bytes that must follow a first byte, and the range of the byte right after
it; `none` when no character starts with it. -/
def lead? (b : UInt8) : Option (Nat × UInt8 × UInt8) :=
  if b < 0x80 then some (0, 0, 0)
  else if b < 0xC2 then none
  else if b < 0xE0 then some (1, 0x80, 0xBF)
  else if b = 0xE0 then some (2, 0xA0, 0xBF)
  else if b = 0xED then some (2, 0x80, 0x9F)
  else if b < 0xF0 then some (2, 0x80, 0xBF)
  else if b = 0xF0 then some (3, 0x90, 0xBF)
  else if b < 0xF4 then some (3, 0x80, 0xBF)
  else if b = 0xF4 then some (3, 0x80, 0x8F)
  else none

/-- Checks bytes from a position on: `begun` is the first byte of the character being read and
the number of its bytes read so far, `owed` the bytes it still needs, `low` and `high` the range
of the next one. -/
def faultFrom (position : Nat) (begun : UInt8) (taken owed : Nat) (low high : UInt8) :
    List UInt8 → Option Fault
  | [] =>
    if owed = 0 then none else some ⟨position - taken, taken, begun, .truncated⟩
  | b :: rest =>
    if owed = 0 then
      match lead? b with
      | none => some ⟨position, 1, b, .start⟩
      | some (more, low, high) => faultFrom (position + 1) b 1 more low high rest
    else if low ≤ b && b ≤ high then
      faultFrom (position + 1) begun (taken + 1) (owed - 1) 0x80 0xBF rest
    else some ⟨position - taken, taken, begun, .continuation⟩

/-- **The first fault** of bytes, if they are not UTF-8. -/
def fault? (bytes : List UInt8) : Option Fault := faultFrom 0 0 0 0 0 0 bytes

end RowBlock.Text.Utf8
