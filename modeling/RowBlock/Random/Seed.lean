import RowBlock.Arithmetic

set_option autoImplicit false

/-! # From a seed to a generator's start

A seed of any size is cut into thirty-two bit words, least significant first, and hashed into a
pool of four words so that every word of the seed acts on every word of the pool. The pool is
hashed again into the eight words a generator starts from. The multiplier of a hash changes
with every use, so the hashes are threaded through the computation.
-/

namespace RowBlock.Random

/-- The thirty-two bit words of a number, least significant first; zero has one word. -/
def seedWords (n : Nat) : List UInt32 :=
  if n < 2 ^ 32 then [UInt32.ofNat n]
  else UInt32.ofNat n :: seedWords (n / 2 ^ 32)

/-! ## Hashes

One hash fills the pool and another one reads it. Both are a key that is multiplied on with each
word, and the word is mixed with the key before and after that. -/

/-- A multiplicative hash: the value to mix in next and the multiplier that changes it. -/
structure Hash where
  key : UInt32
  multiplier : UInt32

def poolHash : Hash := ⟨0x43b0d7e5, 0x931e8875⟩

def outputHash : Hash := ⟨0x8b51f9dd, 0x58f38ded⟩

/-- The hash of a word, and the hash to use next. -/
def Hash.apply (h : Hash) (word : UInt32) : UInt32 × Hash :=
  let key := h.key * h.multiplier
  let mixed := (word ^^^ h.key) * key
  (mixed ^^^ (mixed >>> 16), { h with key })

def Hash.applyAll (h : Hash) : List UInt32 → List UInt32 × Hash
  | [] => ([], h)
  | word :: words =>
    let (hashed, h) := h.apply word
    let (rest, h) := h.applyAll words
    (hashed :: rest, h)

/-! ## The pool -/

def blend (x y : UInt32) : UInt32 :=
  let r := 0xca01f9dd * x - 0x4973f715 * y
  r ^^^ (r >>> 16)

/-- Mixes a word into place `i` of the pool. -/
def stir (pool : List UInt32 × Hash) (i : Nat) (word : UInt32) : List UInt32 × Hash :=
  let (hashed, h) := pool.2.apply word
  (pool.1.modify i (blend · hashed), h)

def places : List Nat := [0, 1, 2, 3]

def stirAll (pool : List UInt32 × Hash) : List UInt32 × Hash :=
  places.foldl (fun pool source =>
    (places.filter (· != source)).foldl
      (fun pool i => stir pool i (pool.1.getD source 0)) pool) pool

/-- **The pool** of a seed. -/
def pool (seed : Nat) : List UInt32 :=
  let words := seedWords seed
  let filled := poolHash.applyAll (places.map (words.getD · 0))
  ((words.drop 4).foldl
    (fun pool word => places.foldl (fun pool i => stir pool i word) pool) (stirAll filled)).1

/-- The four sixty-four bit numbers a generator starts from. -/
def startNumbers (seed : Nat) : List Nat :=
  let source := pool seed
  let words := (outputHash.applyAll (source ++ source)).1.map UInt32.toNat
  places.map fun i => words.getD (2 * i) 0 + 2 ^ 32 * words.getD (2 * i + 1) 0

end RowBlock.Random
