import RowBlock.Machine
import RowBlock.Operands
import RowBlock.Proofs.FullPeriod
import RowBlock.Proofs.Matrices

set_option autoImplicit false

/-! # Random operands

The draws of a seeded generator always end: its states do not come round before they have all been
there (`Generator.exists_advance_eq`), and the state one shows the word one, which every draw accepts
(`exists_redraw`). So the draws from a seed and a range are one endless sequence of numbers in the range
(`stream`), and random operands take their cells from its beginning, first those of `A` and then those of
`B` (`Operands.random_cells`): another shape takes more or fewer of the same numbers, and the type of the
cells changes none of them.
-/

namespace RowBlock.Random

/-! ## Seeded generators

The increment of a seeded generator is odd, and a half that it keeps is a half word. Both survive
every draw. Halves are drawn two for one word, so after an even number of them the state has gone
half as many steps. -/

namespace Generator

/-- What every generator made from a seed satisfies, however far it has been advanced. -/
structure IsSeeded (g : Generator) : Prop where
  increment_odd : g.increment % 2 = 1
  kept_lt : ∀ half ∈ g.kept, half < 2 ^ 32

theorem isSeeded_ofSeed (seed : Nat) : (ofSeed seed).IsSeeded := by
  refine ⟨?_, nofun⟩
  simp only [ofSeed]
  omega

theorem output_lt (state : Nat) : output state < 2 ^ 64 := by
  simp only [output]
  exact Nat.mod_lt _ (Nat.two_pow_pos 64)

theorem output_one : output 1 = 1 := by simp [output]

variable {g : Generator}

theorem nextWord_lt (g : Generator) : g.nextWord.1 < 2 ^ 64 := by
  simp only [Generator.nextWord, output_lt]

theorem IsSeeded.withState (hg : g.IsSeeded) (state : Nat) : { g with state }.IsSeeded :=
  ⟨hg.increment_odd, hg.kept_lt⟩

theorem IsSeeded.nextWord (hg : g.IsSeeded) : g.nextWord.2.IsSeeded :=
  hg.withState (advance g.increment g.state)

theorem nextHalf_of_some {half : Nat} (hkept : g.kept = some half) :
    g.nextHalf = (half, { g with kept := none }) := by
  simp only [Generator.nextHalf, hkept]

theorem nextHalf_of_none (hkept : g.kept = none) :
    g.nextHalf = (g.nextWord.1 % 2 ^ 32, { g.nextWord.2 with kept := some (g.nextWord.1 / 2 ^ 32) }) := by
  simp only [Generator.nextHalf, Generator.nextWord, hkept]

theorem IsSeeded.withHalf (hg : g.IsSeeded) {half : Nat} (hhalf : half < 2 ^ 32) :
    { g with kept := some half }.IsSeeded := by
  refine ⟨hg.increment_odd, ?_⟩
  intro other hother
  obtain rfl := Option.mem_some.mp hother
  exact hhalf

theorem IsSeeded.nextHalf (hg : g.IsSeeded) : g.nextHalf.2.IsSeeded ∧ g.nextHalf.1 < 2 ^ 32 := by
  cases hkept : g.kept with
  | some half =>
      rw [nextHalf_of_some hkept]
      exact ⟨⟨hg.increment_odd, nofun⟩, hg.kept_lt half hkept⟩
  | none =>
      have hword := nextWord_lt g
      rw [nextHalf_of_none hkept]
      exact ⟨hg.nextWord.withHalf (by omega), Nat.mod_lt _ (Nat.two_pow_pos 32)⟩

theorem iterate_nextWord (g : Generator) (k : Nat) :
    (fun g : Generator => g.nextWord.2)^[k] g = { g with state := (advance g.increment)^[k] g.state } := by
  induction k with
  | zero => rfl
  | succ k ih => rw [Function.iterate_succ_apply', Function.iterate_succ_apply', ih]; rfl

theorem iterate_nextHalf (hkept : g.kept = none) (k : Nat) :
    (fun g : Generator => g.nextHalf.2)^[2 * k] g
      = { g with state := (advance g.increment)^[k] g.state } := by
  induction k with
  | zero => rfl
  | succ k ih =>
      rw [Nat.mul_succ, Function.iterate_succ_apply', Function.iterate_succ_apply',
        Function.iterate_succ_apply', ih]
      simp only [nextHalf, nextWord, hkept]

end Generator

/-! ## Fair sources

A draw of either width only needs to know that the words fit and that the word one comes up within
the fuel of a draw. For the whole words that is the full period; for the halves the word one is the
lower half of the word one. -/

namespace WordSource

def rest (source : WordSource) (g : Generator) : Generator := (source.next g).2

/-- A source of words that fit their width, among which the word one comes up before too long. -/
structure IsFair (source : WordSource) : Prop where
  bits_pos : 0 < source.bits
  seeded_rest : ∀ {g}, g.IsSeeded → (source.rest g).IsSeeded
  next_lt : ∀ {g}, g.IsSeeded → (source.next g).1 < 2 ^ source.bits
  exists_one : ∀ {g}, g.IsSeeded → ∃ k < maxRedraws, (source.next (source.rest^[k] g)).1 = 1

end WordSource

theorem isFair_words : words.IsFair where
  bits_pos := Nat.succ_pos 63
  seeded_rest hg := hg.nextWord
  next_lt _ := Generator.nextWord_lt _
  exists_one := by
    intro g hg
    obtain ⟨k, hk, hstate⟩ :=
      Generator.exists_advance_eq hg.increment_odd g.state (Nat.one_lt_two_pow (n := 128) (by decide))
    refine ⟨k, hk.trans (by decide), ?_⟩
    have hrest : words.rest^[k] g = { g with state := (Generator.advance g.increment)^[k] g.state } :=
      Generator.iterate_nextWord g k
    rw [Function.iterate_succ_apply'] at hstate
    rw [hrest]
    simp only [words, Generator.nextWord, hstate, Generator.output_one]

theorem isFair_halves : halves.IsFair where
  bits_pos := Nat.succ_pos 31
  seeded_rest hg := hg.nextHalf.1
  next_lt hg := hg.nextHalf.2
  exists_one := by
    -- from a generator that has kept no half, every second half is the lower one of a new word
    have hnone {g : Generator} (hg : g.IsSeeded) (hkept : g.kept = none) :
        ∃ k < 2 ^ 128, (halves.next (halves.rest^[2 * k] g)).1 = 1 := by
      obtain ⟨k, hk, hstate⟩ :=
        Generator.exists_advance_eq hg.increment_odd g.state (Nat.one_lt_two_pow (n := 128) (by decide))
      refine ⟨k, hk, ?_⟩
      have hrest : halves.rest^[2 * k] g
          = { g with state := (Generator.advance g.increment)^[k] g.state } :=
        Generator.iterate_nextHalf hkept k
      rw [Function.iterate_succ_apply'] at hstate
      rw [hrest]
      simp only [halves, Generator.nextHalf, Generator.nextWord, hkept, hstate, Generator.output_one]
    intro g hg
    cases hkept : g.kept with
    | none =>
        obtain ⟨k, hk, hone⟩ := hnone hg hkept
        exact ⟨2 * k, by unfold maxRedraws; omega, hone⟩
    | some half =>
        have hrest : (halves.rest g).kept = none := by
          simp only [WordSource.rest, halves, Generator.nextHalf, hkept]
        obtain ⟨k, hk, hone⟩ := hnone hg.nextHalf.1 hrest
        exact ⟨2 * k + 1, by unfold maxRedraws; omega, hone⟩

/-- The source of every range is fair, and its words reach the end of a range that fits sixty-four
bits. -/
theorem isFair_sourceFor {range : Nat} (h : range < 2 ^ 64) :
    (sourceFor range).IsFair ∧ range < 2 ^ (sourceFor range).bits := by
  unfold sourceFor
  split
  · exact ⟨isFair_halves, ‹_›⟩
  · exact ⟨isFair_words, h⟩

/-! ## Draws

The threshold of a draw is less than the number of values, and the word one times this number is the
number itself: it is accepted. So a draw ends no later than at the next word one. -/

variable {source : WordSource} {g : Generator}

theorem WordSource.IsFair.seeded_iterate (hsource : source.IsFair) (hg : g.IsSeeded) (k : Nat) :
    (source.rest^[k] g).IsSeeded := by
  induction k with
  | zero => exact hg
  | succ k ih =>
      rw [Function.iterate_succ_apply']
      exact hsource.seeded_rest ih

theorem redraw_succ (source : WordSource) (values threshold fuel : Nat) (g : Generator) :
    redraw source values threshold (fuel + 1) g
      = if (source.next g).1 * values % 2 ^ source.bits < threshold then
          redraw source values threshold fuel (source.rest g)
        else some ((source.next g).1 * values / 2 ^ source.bits, source.rest g) := rfl

/-- **A draw ends** with the first word that is accepted. -/
theorem exists_redraw {values threshold fuel k : Nat} (hk : k < fuel)
    (haccept : threshold ≤ (source.next (source.rest^[k] g)).1 * values % 2 ^ source.bits) :
    ∃ j, redraw source values threshold fuel g
      = some ((source.next (source.rest^[j] g)).1 * values / 2 ^ source.bits, source.rest^[j + 1] g) := by
  induction fuel generalizing k g with
  | zero => exact absurd hk (Nat.not_lt_zero k)
  | succ fuel ih =>
      rw [redraw_succ]
      by_cases hrefuse : (source.next g).1 * values % 2 ^ source.bits < threshold
      · rw [if_pos hrefuse]
        cases k with
        | zero => exact absurd haccept (Nat.not_le_of_lt hrefuse)
        | succ k =>
            obtain ⟨j, hj⟩ := ih (g := source.rest g) (Nat.lt_of_succ_lt_succ hk) haccept
            exact ⟨j + 1, hj⟩
      · rw [if_neg hrefuse]
        exact ⟨0, rfl⟩

/-- **A bounded draw** from a seeded generator is a number of the range and leaves a seeded generator. -/
theorem exists_bounded {range : Nat} (hrange : range < 2 ^ 64) (hg : g.IsSeeded) :
    ∃ n rest, bounded range g = some (n, rest) ∧ n ≤ range ∧ rest.IsSeeded := by
  obtain ⟨hfair, hlt⟩ := isFair_sourceFor hrange
  set source := sourceFor range with hsource
  unfold bounded
  by_cases hzero : range = 0
  · exact ⟨0, g, if_pos hzero, Nat.zero_le range, hg⟩
  · rw [if_neg hzero, ← hsource]
    by_cases hfull : range = 2 ^ source.bits - 1
    · refine ⟨(source.next g).1, source.rest g, if_pos hfull, ?_, hfair.seeded_rest hg⟩
      exact hfull ▸ Nat.le_sub_one_of_lt (hfair.next_lt hg)
    · obtain ⟨k, hk, hone⟩ := hfair.exists_one hg
      have hvalues : range + 1 < 2 ^ source.bits := by omega
      -- the word one times the number of values is above every threshold
      have haccept : (2 ^ source.bits - (range + 1)) % (range + 1)
          ≤ (source.next (source.rest^[k] g)).1 * (range + 1) % 2 ^ source.bits := by
        rw [hone, Nat.one_mul, Nat.mod_eq_of_lt hvalues]
        exact (Nat.mod_lt _ (Nat.succ_pos range)).le
      obtain ⟨j, hj⟩ := exists_redraw hk haccept
      refine ⟨_, _, (if_neg hfull).trans hj, ?_, hfair.seeded_iterate hg (j + 1)⟩
      have hword := hfair.next_lt (hfair.seeded_iterate hg j)
      refine Nat.le_of_lt_succ ((Nat.div_lt_iff_lt_mul (Nat.two_pow_pos source.bits)).mpr ?_)
      rw [Nat.mul_comm]
      exact Nat.mul_lt_mul_of_pos_left hword (Nat.succ_pos range)

/-! ## The stream

A list of draws is the iteration of one draw, with the generator handed on. Numbers are indexed from
the start of the stream, whatever shape they are put into. -/

/-- The number drawn from a range, and the generator after the draw. -/
def drawn (range : Nat) (g : Generator) : Nat × Generator := (bounded range g).getD (0, g)

/-- **The stream** of a seed and a range: number `i` is the one drawn after `i` draws. -/
def stream (seed : Nat) (low high : Int) (i : Nat) : Int :=
  let range := (high - low).toNat
  low + (drawn range ((fun g => (drawn range g).2)^[i] (.ofSeed seed))).1

variable {range : Nat}

theorem bounded_eq_drawn (hrange : range < 2 ^ 64) (hg : g.IsSeeded) :
    bounded range g = some (drawn range g) := by
  obtain ⟨n, rest, hdraw, -, -⟩ := exists_bounded hrange hg
  simp only [drawn, hdraw, Option.getD_some]

theorem drawn_le (hrange : range < 2 ^ 64) (hg : g.IsSeeded) : (drawn range g).1 ≤ range := by
  obtain ⟨n, rest, hdraw, hn, -⟩ := exists_bounded hrange hg
  simpa only [drawn, hdraw, Option.getD_some] using hn

theorem isSeeded_drawn (hrange : range < 2 ^ 64) (hg : g.IsSeeded) : (drawn range g).2.IsSeeded := by
  obtain ⟨n, rest, hdraw, -, hrest⟩ := exists_bounded hrange hg
  simpa only [drawn, hdraw, Option.getD_some] using hrest

theorem isSeeded_iterate_drawn (hrange : range < 2 ^ 64) (hg : g.IsSeeded) (i : Nat) :
    ((fun g => (drawn range g).2)^[i] g).IsSeeded := by
  induction i with
  | zero => exact hg
  | succ i ih =>
      rw [Function.iterate_succ_apply']
      exact isSeeded_drawn hrange ih

/-- **Drawing a list** takes one number after the other. -/
theorem boundedList_eq (low : Int) (hrange : range < 2 ^ 64) (count : Nat) (hg : g.IsSeeded) :
    boundedList low range count g
      = some ((List.range count).map fun i => low + (drawn range ((fun g => (drawn range g).2)^[i] g)).1,
          (fun g => (drawn range g).2)^[count] g) := by
  induction count generalizing g with
  | zero => rfl
  | succ count ih =>
      rw [boundedList, bounded_eq_drawn hrange hg, List.range_succ_eq_map, List.map_cons, List.map_map]
      simp only [Option.bind_eq_bind, Option.bind_some, ih (isSeeded_drawn hrange hg)]
      rfl

/-- A list drawn from a seeded generator is the beginning of its stream. -/
theorem boundedList_ofSeed {low high : Int} (seed count : Nat) (hrange : high - low < 2 ^ 64) :
    ∃ g, boundedList low (high - low).toNat count (.ofSeed seed)
      = some ((List.range count).map (stream seed low high), g) :=
  ⟨_, boundedList_eq low (by omega) count (Generator.isSeeded_ofSeed seed)⟩

theorem stream_mem {low high : Int} (seed : Nat) (hle : low ≤ high) (hrange : high - low < 2 ^ 64)
    (i : Nat) : low ≤ stream seed low high i ∧ stream seed low high i ≤ high := by
  have hlt : (high - low).toNat < 2 ^ 64 := by omega
  have hn := drawn_le hlt (isSeeded_iterate_drawn hlt (Generator.isSeeded_ofSeed seed) i)
  simp only [stream]
  omega

end RowBlock.Random

namespace RowBlock

theorem Tensor.toList_words_generate (type : CellType) (shape : List Nat) (cell : Nat → Int) :
    (generate type shape cell).words.toList = (List.range shape.prod).map cell := by
  apply List.ext_getElem
  · simp [generate]
  · intro i _ _
    simp [generate]

theorem IntType.sub_lt_of_holds {type : IntType} {low high : Int} (hlow : type.Holds low)
    (hhigh : type.Holds high) : high - low < 2 ^ 64 := by
  obtain ⟨hleast, -⟩ := hlow
  obtain ⟨-, hgreatest⟩ := hhigh
  rcases type with ⟨signed, width⟩
  revert hleast hgreatest
  cases signed <;> cases width <;>
    simp only [least, greatest, Width.bits, Bool.false_eq_true, if_false, if_true] <;> omega

namespace Operands

variable {n m : Nat} {type : IntType} {low high seed : Int}

/-- **Random operands** of a good range are filled from the stream, `B` after `A`, where there is room
for them. -/
theorem random_eq [Memory] (hle : low ≤ high) (hlow : type.Holds low) (hhigh : type.Holds high)
    (hseed : 0 ≤ seed) :
    random n m type low high seed = match Tensor.room (.int type) [n, m] with
      | .error e => .error (.room e)
      | .ok _ => .ok (.generate (.int type) [n, m] fun i => Random.stream seed.toNat low high i,
          .generate (.int type) [m, n] fun i => Random.stream seed.toNat low high (n * m + i)) := by
  have hcheck : checkRange type low high = .ok () := by
    rw [checkRange, if_neg (Int.not_lt.mpr hlow.1), if_neg (Int.not_lt.mpr hhigh.2)]
  have hrange : high - low < 2 ^ 64 := IntType.sub_lt_of_holds hlow hhigh
  obtain ⟨g, hcells⟩ := Random.boundedList_ofSeed seed.toNat (2 * (n * m)) hrange
  -- the looked-up cells are those of the stream as far as the shapes go
  have hcell {i : Nat} (hi : i < 2 * (n * m)) :
      ((List.range (2 * (n * m))).map (Random.stream seed.toNat low high)).toArray.getD i 0
        = Random.stream seed.toNat low high i := by
    simp [Array.getD, hi]
  rw [random, if_neg (Int.not_lt.mpr hle), if_neg (Int.not_lt.mpr hseed), hcheck, shapes]
  rcases Tensor.room_matrix_cases (.int type) n m with hroom | ⟨e, hroom⟩
  · have hprod : [n, m].prod = n * m := by simp
    simp only [hroom, Except.mapError, bind, Except.bind, pure, Except.pure, ite_self, hprod, hcells,
      List.reverse_cons, List.reverse_nil, List.nil_append, List.cons_append, Except.ok.injEq,
      Prod.mk.injEq]
    constructor
    · apply Tensor.generate_congr
      intro i hi
      rw [hprod] at hi
      exact hcell (by omega)
    · apply Tensor.generate_congr
      intro i hi
      rw [List.prod_cons, List.prod_singleton, Nat.mul_comm] at hi
      exact hcell (by omega)
  · simp only [hroom, Except.mapError, bind, Except.bind, ite_self]

/-- **Random operands are one bounded stream.** With bounds in the range of the type and a seed, either
there is no room for the operands, or they are matrices of the extents asked for, all cells lie between the
bounds, and the cells of `A` and then of `B`, row by row, are the first numbers of the stream of the seed
and the bounds. -/
theorem random_cells [Memory] (hle : low ≤ high) (hlow : type.Holds low) (hhigh : type.Holds high)
    (hseed : 0 ≤ seed) :
    (∃ e, Tensor.room (.int type) [n, m] = .error e
      ∧ random n m type low high seed = .error (.room e))
    ∨ ∃ a b, random n m type low high seed = .ok (a, b)
      ∧ a.IsMatrix type n m ∧ b.IsMatrix type m n
      ∧ (∀ x ∈ a.words.toList ++ b.words.toList, low ≤ x ∧ x ≤ high)
      ∧ a.words.toList ++ b.words.toList
          = (List.range (2 * (n * m))).map (Random.stream seed.toNat low high) := by
  have hrandom := random_eq (n := n) (m := m) hle hlow hhigh hseed
  rcases Tensor.room_matrix_cases (.int type) n m with hroom | ⟨e, hroom⟩
  · right
    rw [hroom] at hrandom
    have hcells : (List.range (n * m)).map (Random.stream seed.toNat low high)
          ++ (List.range (m * n)).map (fun i => Random.stream seed.toNat low high (n * m + i))
        = (List.range (2 * (n * m))).map (Random.stream seed.toNat low high) := by
      rw [Nat.mul_comm m n, Nat.two_mul, List.range_add, List.map_append, List.map_map]
      rfl
    refine ⟨_, _, hrandom, ⟨rfl, rfl⟩, ⟨rfl, rfl⟩, ?_⟩
    rw [Tensor.toList_words_generate, Tensor.toList_words_generate, List.prod_cons, List.prod_singleton,
      List.prod_cons, List.prod_singleton, hcells]
    refine ⟨?_, rfl⟩
    intro x hx
    obtain ⟨i, -, rfl⟩ := List.mem_map.mp hx
    exact Random.stream_mem seed.toNat hle (IntType.sub_lt_of_holds hlow hhigh) i
  · left
    rw [hroom] at hrandom
    exact ⟨e, hroom, hrandom⟩

/-- The stream of the seed zero from minus ten to ten begins with 7, 3, 0 and −5, in a matrix of one row and
in one of one column. -/
theorem random_cells_row :
    ((-10 : Int) ≤ 10 ∧ IntType.int64.Holds (-10) ∧ IntType.int64.Holds 10 ∧ (0 : Int) ≤ 0)
    ∧ ∃ a b, random (1 : Nat) (2 : Nat) .int64 (-10) 10 0 = .ok (a, b)
      ∧ a.IsMatrix .int64 1 2 ∧ b.IsMatrix .int64 2 1
      ∧ a.words.toList ++ b.words.toList = [7, 3, 0, -5] := by
  have hgood : (-10 : Int) ≤ 10 ∧ IntType.int64.Holds (-10) ∧ IntType.int64.Holds 10 ∧ (0 : Int) ≤ 0 := by
    decide
  refine ⟨hgood, ?_⟩
  obtain ⟨hle, hlow, hhigh, hseed⟩ := hgood
  have hroom : Tensor.room (.int .int64) [(1 : Nat), (2 : Nat)] = .ok [1, 2] := by decide
  rcases random_cells (n := 1) (m := 2) hle hlow hhigh hseed with ⟨e, he, -⟩ | ⟨a, b, h, ha, hb, -, hcells⟩
  · rw [hroom] at he
    cases he
  · refine ⟨a, b, h, ha, hb, ?_⟩
    rw [hcells]
    decide +kernel

end Operands

end RowBlock
