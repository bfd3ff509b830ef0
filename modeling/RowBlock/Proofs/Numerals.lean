import RowBlock.Csv.Matrix
import RowBlock.Proofs.LineEnds
import RowBlock.Proofs.Matrices
import Mathlib.Data.List.Induction
import Mathlib.Data.List.TakeWhile
import Mathlib.Data.Nat.Digits.Defs

set_option autoImplicit false

/-! # Tables of numerals

A numeral is a number written with decimal digits after a sign or none; it may have any number of digits
and leading zeros. Its field is read as its value, where the type has it (`Numeral.readInt_field`). A
column of numerals that are not all `int64` is a column of `uint64` or of texts, so it either keeps the
values or has no type (`Column.Carries`), and columns of several types have none of the integer ones in
common (`type?_eq_of_commonType?`). So a table of numerals is read as the matrix of their values if the
type has all of them (`read_rows`), and is refused otherwise (`exists_error_rows`).
-/

namespace RowBlock.Csv

/-! ## Numerals

A numeral is kept as its digits, not as a number, since leading zeros and a plus sign are part of
the field. Its value is defined by Horner's rule from the most significant digit, as the reader
computes it. -/

inductive Sign where
  | plus
  | minus
  deriving DecidableEq, Repr

def Sign.byte : Sign → UInt8
  | plus => 43
  | minus => 45

/-- **A numeral**: digits, the most significant one first, after a sign or none. -/
structure Numeral where
  sign? : Option Sign
  digits : List (Fin 10)
  digits_ne_nil : digits ≠ []
  deriving DecidableEq, Repr

def digitByte (d : Fin 10) : UInt8 := UInt8.ofNat (48 + d)

namespace Numeral

instance : Inhabited Numeral := ⟨⟨none, [0], by simp⟩⟩

def magnitude (w : Numeral) : Nat := Nat.ofDigits 10 (w.digits.reverse.map Fin.val)

def value (w : Numeral) : Int :=
  if w.sign? = some .minus then -(w.magnitude : Int) else w.magnitude

/-- The field that a numeral is written in. -/
def field (w : Numeral) : Field := (w.sign?.map Sign.byte).toList ++ w.digits.map digitByte

end Numeral

theorem toNat_digitByte (d : Fin 10) : (digitByte d).toNat = 48 + d := by
  rw [digitByte, UInt8.toNat_ofNat']
  omega

theorem isDigit_digitByte (d : Fin 10) : isDigit (digitByte d) = true := by
  revert d
  decide

theorem isSpace_digitByte (d : Fin 10) : isSpace (digitByte d) = false := by
  revert d
  decide

theorem Sign.ne_digitByte (s : Sign) (d : Fin 10) : digitByte d ≠ s.byte := by
  revert d
  cases s <;> decide

theorem digitsValue_map_digitByte (ds : List (Fin 10)) :
    digitsValue (ds.map digitByte) = Nat.ofDigits 10 (ds.reverse.map Fin.val) := by
  -- the last digit is the one added last and the least significant one
  induction ds using List.reverseRecOn with
  | nil => rfl
  | append_singleton ds d ih =>
      rw [digitsValue] at ih ⊢
      rw [List.map_append, List.foldl_append, ih, List.reverse_append, List.map_append]
      simp only [List.map_cons, List.map_nil, List.foldl_cons, List.foldl_nil, List.reverse_cons,
        List.reverse_nil, List.nil_append, List.singleton_append, Nat.ofDigits_cons, toNat_digitByte]
      omega

theorem isPlain_field (w : Numeral) : IsPlain w.field := by
  refine ⟨by simp [Numeral.field, w.digits_ne_nil], fun b hb => ?_⟩
  rcases List.mem_append.mp hb with hb | hb
  · cases hsign : w.sign? with
    | none => simp [hsign] at hb
    | some s =>
        obtain rfl : s.byte = b := by simpa [hsign, eq_comm] using hb
        cases s <;> rfl
  · obtain ⟨d, -, rfl⟩ := List.mem_map.mp hb
    rw [isPlainByte, isDigit_digitByte]
    rfl

/-! ### Reading a numeral -/

theorem takeWhile_digitBytes (ds : List (Fin 10)) :
    (ds.map digitByte).takeWhile isDigit = ds.map digitByte := by
  refine List.takeWhile_eq_self_iff.mpr fun b hb => ?_
  obtain ⟨d, -, rfl⟩ := List.mem_map.mp hb
  exact isDigit_digitByte d

theorem dropWhile_digitBytes (ds : List (Fin 10)) : (ds.map digitByte).dropWhile isDigit = [] := by
  refine List.dropWhile_eq_nil_iff.mpr fun b hb => ?_
  obtain ⟨d, -, rfl⟩ := List.mem_map.mp hb
  exact isDigit_digitByte d

namespace Numeral

theorem dropWhile_field (w : Numeral) : w.field.dropWhile isSpace = w.field := by
  obtain ⟨sign?, ds, hds⟩ := w
  cases sign? with
  | some s => cases s <;> rfl
  | none =>
      obtain ⟨d, ds, rfl⟩ := List.exists_cons_of_ne_nil hds
      rw [field]
      exact List.dropWhile_cons_of_neg (by simp [isSpace_digitByte])

/-- Only a numeral with a minus sign is taken for negative. -/
theorem isNegative_field (w : Numeral) : isNegative w.field = decide (w.sign? = some .minus) := by
  rw [isNegative, w.dropWhile_field]
  obtain ⟨sign?, ds, hds⟩ := w
  cases sign? with
  | some s => cases s <;> rfl
  | none =>
      obtain ⟨d, ds, rfl⟩ := List.exists_cons_of_ne_nil hds
      have hd : digitByte d ≠ 45 := Sign.minus.ne_digitByte d
      simp [field, hd]

/-- **A numeral is read** as its value, if the type has it. -/
theorem readInt_field (w : Numeral) (type : IntType) :
    readInt type w.field = if type.Holds w.value then .value w.value else .overflow := by
  unfold readInt
  rw [w.dropWhile_field]
  obtain ⟨sign?, ds, hds⟩ := w
  have hmagnitude : magnitude ⟨sign?, ds, hds⟩ = digitsValue (ds.map digitByte) :=
    (digitsValue_map_digitByte ds).symm
  cases sign? with
  | some s =>
      cases s <;>
        simp [value, hmagnitude, field, Sign.byte, takeWhile_digitBytes, dropWhile_digitBytes, hds]
  | none =>
      obtain ⟨d, rest, rfl⟩ := List.exists_cons_of_ne_nil hds
      have hvalue : value ⟨none, d :: rest, hds⟩ = digitsValue ((d :: rest).map digitByte) := by
        rw [value, if_neg (by simp), hmagnitude]
      have hfield : field ⟨none, d :: rest, hds⟩ = digitByte d :: rest.map digitByte := rfl
      rw [hfield, hvalue]
      generalize hread : (if type.Holds _ then Reading.value _ else .overflow) = r
      -- the first digit is none of the two signs
      dsimp only
      split
      · rename_i hsign
        exact absurd (List.cons.inj hsign).1 (Sign.minus.ne_digitByte d)
      · rename_i hsign
        exact absurd (List.cons.inj hsign).1 (Sign.plus.ne_digitByte d)
      · rw [← List.map_cons, ← hread, takeWhile_digitBytes, dropWhile_digitBytes]
        simp

/-- A numeral without a minus sign is read as a natural number. -/
theorem readNatural_field {w : Numeral} (hw : w.sign? ≠ some .minus) : readNatural w.field
    = if IntType.uint64.Holds w.value then .value w.value else .overflow := by
  rw [readNatural, w.isNegative_field, decide_eq_false hw, if_neg (by simp), readInt_field]

end Numeral

/-! ## Columns of numerals

The cascade of a column has three outcomes for numerals. That a column of texts is one of them, for
numbers too large or for a minus sign beside them, is what keeps the reader from wrapping: such a
column has no type, and the table is refused. -/

/-- Fields are read as integers if each of them is. -/
theorem readInts_eq_inr_iff {read : Field → Reading} {fields : List Field} {ns : List Int} :
    readInts read fields = .inr ns ↔ fields.map read = ns.map Reading.value := by
  induction fields generalizing ns with
  | nil => cases ns <;> simp [readInts]
  | cons field fields ih =>
      cases hfield : read field with
      | value n =>
          rw [readInts, hfield, List.map_cons, hfield]
          cases hfields : readInts read fields with
          | inr ms =>
              rw [ih.mp hfields]
              constructor
              · intro h
                rw [← Sum.inr.inj h, List.map_cons]
              · intro h
                cases ns with
                | nil => cases h
                | cons n' ns =>
                    obtain ⟨hn, hns⟩ := List.cons.inj h
                    rw [Reading.value.inj hn, List.map_injective_iff.mpr
                      (fun _ _ => Reading.value.inj) hns]
          | inl r =>
              constructor
              · intro h
                cases h
              · intro h
                cases ns with
                | nil => cases h
                | cons n' ns =>
                    rw [ih.mpr (List.cons.inj h).2] at hfields
                    cases hfields
      | overflow => cases ns <;> simp [readInts, hfield]
      | invalid => cases ns <;> simp [readInts, hfield]

/-- Fields none of which is invalid are read as integers, or one of them overflows. -/
theorem readInts_cases {read : Field → Reading} {fields : List Field}
    (h : ∀ field ∈ fields, read field ≠ .invalid) :
    (∃ ns, readInts read fields = .inr ns) ∨ readInts read fields = .inl .overflow := by
  induction fields with
  | nil => exact .inl ⟨[], rfl⟩
  | cons field fields ih =>
      cases hfield : read field with
      | value n =>
          rcases ih fun f hf => h f (by simp [hf]) with ⟨ns, hns⟩ | hover
          · exact .inl ⟨n :: ns, by simp [readInts, hfield, hns]⟩
          · exact .inr (by simp [readInts, hfield, hover])
      | overflow => exact .inr (by simp [readInts, hfield])
      | invalid => exact absurd hfield (h field (by simp))

/-- **What a column of numerals is**, by their values: all are `int64`, or the column keeps them as
`uint64`, or it holds texts. -/
inductive Column.Carries : Column → List Int → Prop
  | integers {ns : List Int} (hints : ∀ n ∈ ns, IntType.int64.Holds n) : Carries (.integers ns) ns
  | naturals {ns : List Int} (hmore : ∃ n ∈ ns, ¬IntType.int64.Holds n) : Carries (.naturals ns) ns
  | texts {ns : List Int} (verbatim : Bool) (hmore : ∃ n ∈ ns, ¬IntType.int64.Holds n) :
      Carries (.texts verbatim) ns

theorem any_isMissing_numerals (ws : List Numeral) :
    (ws.map Numeral.field).any isMissing = false := by
  rw [List.any_eq_false]
  intro field hfield
  obtain ⟨w, -, rfl⟩ := List.mem_map.mp hfield
  simp [(isPlain_field w).not_missing]

theorem lacks_numerals (c : Column) (ws : List Numeral) : c.lacks (ws.map Numeral.field) = false := by
  unfold Column.lacks
  split
  · rfl
  · exact any_isMissing_numerals ws

theorem present_numerals (ws : List Numeral) :
    present (ws.map Numeral.field) = ws.map Numeral.field := by
  refine List.filter_eq_self.mpr fun field hfield => ?_
  obtain ⟨w, -, rfl⟩ := List.mem_map.mp hfield
  rw [(isPlain_field w).not_missing, Bool.not_false]

/-- A column of numerals of which one is no `int64`. -/
theorem carries_unsigned {ws : List Numeral}
    (hmore : ∃ n ∈ ws.map Numeral.value, ¬IntType.int64.Holds n) :
    (unsignedColumn (ws.map Numeral.field)).Carries (ws.map Numeral.value) := by
  have hvalid : ∀ field ∈ ws.map Numeral.field, readNatural field ≠ .invalid := by
    intro field hfield
    obtain ⟨w, -, rfl⟩ := List.mem_map.mp hfield
    by_cases hw : w.sign? = some .minus
    · rw [readNatural, w.isNegative_field, decide_eq_true hw, if_pos rfl]
      simp
    · rw [Numeral.readNatural_field hw]
      split <;> simp
  unfold unsignedColumn
  rw [present_numerals]
  rcases readInts_cases hvalid with ⟨ns, hns⟩ | hover
  · rw [hns]
    dsimp only
    cases hnegative : (ws.map Numeral.field).any isNegative with
    | true =>
        split
        · exact .texts true hmore
        · rw [if_pos rfl]
          exact .texts false hmore
    | false =>
        -- without a minus sign every numeral is read as it is
        have hvalues : ns = ws.map Numeral.value := by
          have hall := readInts_eq_inr_iff.mp hns
          rw [List.map_map] at hall
          have hread : ∀ w ∈ ws, readNatural w.field = .value w.value := by
            intro w hw
            have hsign : w.sign? ≠ some .minus := by
              have := List.any_eq_false.mp hnegative w.field (List.mem_map_of_mem hw)
              simpa [w.isNegative_field] using this
            obtain ⟨n, -, hn⟩ : ∃ n ∈ ns, Reading.value n = readNatural w.field := by
              rw [← List.mem_map, ← hall]
              exact List.mem_map_of_mem (f := readNatural ∘ Numeral.field) hw
            rw [Numeral.readNatural_field hsign] at hn ⊢
            by_cases hholds : IntType.uint64.Holds w.value
            · rw [if_pos hholds]
            · rw [if_neg hholds] at hn
              cases hn
          refine (List.map_injective_iff.mpr (fun _ _ => Reading.value.inj) ?_).symm
          rw [← hall, List.map_map]
          exact List.map_congr_left fun w hw => (hread w hw).symm
        rw [any_isMissing_numerals, hvalues]
        simp only [Bool.false_eq_true, or_self, and_false, if_false]
        exact .naturals hmore
  · rw [hover]
    exact .texts false hmore

/-- **A column of numerals** carries their values. -/
theorem carries_ofFields (ws : List Numeral) :
    (Column.ofFields (ws.map Numeral.field)).Carries (ws.map Numeral.value) := by
  have hread (w : Numeral) := w.readInt_field .int64
  unfold Column.ofFields
  rw [present_numerals]
  by_cases hints : ∀ w ∈ ws, IntType.int64.Holds w.value
  · have hall : readInts (readInt .int64) (ws.map Numeral.field) = .inr (ws.map Numeral.value) := by
      rw [readInts_eq_inr_iff, List.map_map, List.map_map]
      exact List.map_congr_left fun w hw => by rw [Function.comp_apply, hread, if_pos (hints w hw)]; rfl
    rw [hall]
    exact .integers (by simpa using hints)
  · have hmore : ∃ n ∈ ws.map Numeral.value, ¬IntType.int64.Holds n := by simpa using hints
    have hvalid : ∀ field ∈ ws.map Numeral.field, readInt .int64 field ≠ .invalid := by
      intro field hfield
      obtain ⟨w, -, rfl⟩ := List.mem_map.mp hfield
      rw [hread]
      split <;> simp
    rcases readInts_cases hvalid with ⟨ns, hns⟩ | hover
    · -- then all of them would be `int64`
      refine absurd (fun w hw => ?_) hints
      have hall := readInts_eq_inr_iff.mp hns
      obtain ⟨n, -, hn⟩ : ∃ n ∈ ns, Reading.value n = readInt .int64 w.field := by
        rw [← List.mem_map, ← hall]
        exact List.mem_map_of_mem (List.mem_map_of_mem hw)
      rw [hread] at hn
      by_contra hnot
      rw [if_neg hnot] at hn
      cases hn
    · rw [hover]
      exact carries_unsigned hmore

namespace Column.Carries

variable {c : Column} {ns : List Int}

/-- A column that has a type has the values. -/
theorem values_eq (h : c.Carries ns) {t : CellType} (ht : c.type? = some t) : c.values = ns := by
  cases h with
  | integers => rfl
  | naturals => rfl
  | texts => cases ht

theorem type?_cases (h : c.Carries ns) :
    c.type? = some (.int .int64) ∨ c.type? = some (.int .uint64) ∨ c.type? = none := by
  cases h with
  | integers => exact .inl rfl
  | naturals => exact .inr (.inl rfl)
  | texts => exact .inr (.inr rfl)

/-- Values that are all `int64` make a column of them. -/
theorem type?_eq (h : c.Carries ns) (hints : ∀ n ∈ ns, IntType.int64.Holds n) :
    c.type? = some (.int .int64) := by
  cases h with
  | integers => rfl
  | naturals hmore =>
      obtain ⟨n, hn, hnot⟩ := hmore
      exact absurd (hints n hn) hnot
  | texts verbatim hmore =>
      obtain ⟨n, hn, hnot⟩ := hmore
      exact absurd (hints n hn) hnot

end Column.Carries

/-! ## Tables of numerals

The type common to the columns is an integer type only if all columns have it; `int64` beside
`uint64` makes floating point numbers, and the table is refused for that. So the integers that are
left are the values of the numerals, and they are judged by the least and the greatest one. -/

/-- **An integer type of all columns** is the type of each. -/
theorem type?_eq_of_commonType? {columns : List Column} (hcolumns : ∀ c ∈ columns,
      c.type? = some (.int .int64) ∨ c.type? = some (.int .uint64) ∨ c.type? = none) {t : CellType}
    (h : commonType? columns = some t) :
    (t = .int .int64 ∨ t = .int .uint64 ∨ t = .float .double) ∧
      (t ≠ .float .double → ∀ c ∈ columns, c.type? = some t) := by
  induction columns generalizing t with
  | nil => cases h
  | cons c cs ih =>
      have hc := hcolumns c (by simp)
      cases cs with
      | nil =>
          have hsingle : c.type? = some t := h
          refine ⟨?_, fun _ x hx => by rw [List.mem_singleton.mp hx, hsingle]⟩
          rcases hc with hc | hc | hc <;> rw [hsingle] at hc
          · exact .inl (Option.some.inj hc)
          · exact .inr (.inl (Option.some.inj hc))
          · cases hc
      | cons c' cs =>
          have h : (c.type?.bind fun s => (commonType? (c' :: cs)).bind fun u =>
              if s = u then some s
              else if s = .bool ∨ u = .bool then none
              else some (s.promote u)) = some t := h
          obtain ⟨s, hs, h⟩ := Option.bind_eq_some_iff.mp h
          obtain ⟨u, hu, h⟩ := Option.bind_eq_some_iff.mp h
          obtain ⟨hucases, hall⟩ := ih (fun x hx => hcolumns x (by simp [hx])) hu
          have hscases : s = .int .int64 ∨ s = .int .uint64 := by
            rw [hs] at hc
            rcases hc with hc | hc | hc
            · exact .inl (Option.some.inj hc)
            · exact .inr (Option.some.inj hc)
            · cases hc
          by_cases hsu : s = u
          · subst hsu
            rw [if_pos rfl] at h
            obtain rfl := Option.some.inj h
            refine ⟨hucases, fun hne x hx => ?_⟩
            rcases List.mem_cons.mp hx with rfl | hx
            · exact hs
            · exact hall hne x hx
          · -- two types that differ are covered by floating point numbers alone
            obtain rfl : t = .float .double := by
              rcases hscases with rfl | rfl <;> rcases hucases with rfl | rfl | rfl <;>
                first
                  | exact absurd rfl hsu
                  | exact (Option.some.inj h).symm
            exact ⟨.inr (.inr rfl), fun hne => absurd rfl hne⟩

theorem commonType?_eq {columns : List Column} (hne : columns ≠ []) {t : CellType}
    (h : ∀ c ∈ columns, c.type? = some t) : commonType? columns = some t := by
  induction columns with
  | nil => exact absurd rfl hne
  | cons c cs ih =>
      have hc := h c (by simp)
      cases cs with
      | nil => exact hc
      | cons c' cs =>
          have hcs := ih (by simp) fun x hx => h x (by simp [hx])
          show (c.type?.bind fun s => (commonType? (c' :: cs)).bind fun u => _) = _
          rw [hc, hcs]
          simp

/-- A plain field is text. -/
theorem IsPlain.fault?_eq {field : Field} (h : IsPlain field) : Text.Utf8.fault? field = none := by
  have hbytes : ∀ (w : List UInt8), (∀ b ∈ w, isPlainByte b = true) → ∀ position begun taken low high,
      Text.Utf8.faultFrom position begun taken 0 low high w = none := by
    intro w
    induction w with
    | nil => intros; rfl
    | cons b w ih =>
        intro hw position begun taken low high
        have hlead : Text.Utf8.lead? b = some (0, 0, 0) := by
          have hb := hw b (by simp)
          simp only [isPlainByte, isDigit, Bool.and_eq_true, Bool.or_eq_true, beq_iff_eq,
            decide_eq_true_eq, UInt8.le_iff_toNat_le, ← UInt8.toNat_inj] at hb
          simp only [UInt8.reduceToNat] at hb
          rw [Text.Utf8.lead?, if_pos]
          rw [UInt8.lt_iff_toNat_lt]
          simp only [UInt8.reduceToNat]
          omega
        simp only [Text.Utf8.faultFrom, hlead, if_true]
        exact ih (fun x hx => hw x (by simp [hx])) _ _ _ _ _
  exact hbytes field h.plain _ _ _ _ _

theorem fault?_numerals (c : Column) (ws : List Numeral) : c.fault? (ws.map Numeral.field) = none := by
  cases c with
  | texts =>
      rw [Column.fault?, List.findSome?_eq_none_iff]
      intro field hfield
      obtain ⟨w, -, rfl⟩ := List.mem_map.mp hfield
      exact (isPlain_field w).fault?_eq
  | _ => rfl

/-- The least and the greatest of integers are values of a type exactly when all of them are. -/
theorem holds_extremes_iff {type : IntType} {ns : List Int} {low high : Int}
    (h : extremes ns = some (low, high)) :
    type.Holds low ∧ type.Holds high ↔ ∀ n ∈ ns, type.Holds n := by
  cases ns with
  | nil => cases h
  | cons n ns =>
      cases h
      have hmin : (n :: ns).min? = some (ns.foldl min n) := List.min?_cons'
      have hmax : (n :: ns).max? = some (ns.foldl max n) := List.max?_cons'
      obtain ⟨hlow, hleast⟩ := List.min?_eq_some_iff.mp hmin
      obtain ⟨hhigh, hgreatest⟩ := List.max?_eq_some_iff.mp hmax
      constructor
      · rintro ⟨⟨hfrom, -⟩, -, hto⟩ x hx
        exact ⟨hfrom.trans (hleast x hx), (hgreatest x hx).trans hto⟩
      · intro hall
        exact ⟨hall _ hlow, hall _ hhigh⟩

section

variable {bytes : List UInt8} {first : List Field} {rest : List (List Field)}
  {columns : List (List Numeral)}

/-- **Records whose columns hold numerals** are judged by the least and the greatest value, if the
columns have an integer type in common, and are refused otherwise. -/
theorem read_columns (hrecords : records bytes = .ok (first :: rest))
    (hfields : (List.range first.length).map (columnFields (first :: rest))
      = columns.map (List.map Numeral.field)) (type : IntType) (path : String) {type? : Option CellType}
    (hcommon : commonType? (columns.map fun ws => Column.ofFields (ws.map Numeral.field)) = type?) :
    (∀ u values low high, type? = some (.int u) →
      (columns.map fun ws => (Column.ofFields (ws.map Numeral.field)).values) = values →
      extremes values.flatten = some (low, high) → read path type bytes =
        if type.Holds low ∧ type.Holds high then
          .ok (.matrix (.int type) (first :: rest).length first.length fun i j =>
            (values.getD j []).getD i 0)
        else .error (.outOfRange path low high type)) ∧
    ((∀ u, type? ≠ some (.int u)) → read path type bytes = .error (.notIntegers path type?)) := by
  have hcolumns : (columns.map (List.map Numeral.field)).map Column.ofFields
      = columns.map fun ws => Column.ofFields (ws.map Numeral.field) := by
    rw [List.map_map]
    rfl
  have hzip : (columns.map fun ws => Column.ofFields (ws.map Numeral.field)).zip
        (columns.map (List.map Numeral.field))
      = columns.map fun ws => (Column.ofFields (ws.map Numeral.field), ws.map Numeral.field) :=
    List.zip_map'
  unfold read
  rw [hrecords]
  simp only [Except.mapError, bind, Except.bind, hfields, hcolumns, hzip]
  rw [List.findSome?_eq_none_iff.mpr (by simp [fault?_numerals]),
    List.any_eq_false.mpr (by simp [lacks_numerals]), hcommon]
  simp only [Bool.false_eq_true, if_false, List.map_map, Function.comp_def]
  constructor
  · rintro u values low high rfl hvalues hextremes
    simp only [hvalues, hextremes, Option.getD_some]
  · intro hother
    rcases type? with _ | u | _ | _
    · rfl
    · exact absurd rfl (hother u)
    · rfl
    · rfl

end

section

variable {rows : List (List Numeral)} {width : Nat} {bytes : List UInt8} {type : IntType}

def numeralColumn (rows : List (List Numeral)) (j : Nat) : List Numeral :=
  rows.map (·.getD j default)

def columnValues (rows : List (List Numeral)) (width : Nat) : List (List Int) :=
  (List.range width).map fun j => (numeralColumn rows j).map Numeral.value

theorem columnFields_rows (hlength : ∀ row ∈ rows, row.length = width) {j : Nat} (hj : j < width) :
    columnFields (rows.map (List.map Numeral.field)) j = (numeralColumn rows j).map Numeral.field := by
  rw [columnFields, numeralColumn, List.map_map, List.map_map]
  refine List.map_congr_left fun row hrow => ?_
  have hrowj : j < row.length := by rw [hlength row hrow]; exact hj
  simp [hrowj]

/-- The values of the columns are those of the rows. -/
theorem mem_columnValues_iff (hlength : ∀ row ∈ rows, row.length = width) {n : Int} :
    n ∈ (columnValues rows width).flatten ↔ ∃ row ∈ rows, ∃ w ∈ row, w.value = n := by
  constructor
  · intro hn
    obtain ⟨_, hcolumn, hn⟩ := List.mem_flatten.mp hn
    obtain ⟨j, hj, rfl⟩ := List.mem_map.mp hcolumn
    obtain ⟨w, hw, rfl⟩ := List.mem_map.mp hn
    obtain ⟨row, hrow, rfl⟩ := List.mem_map.mp hw
    have hrowj : j < row.length := by rw [hlength row hrow]; exact List.mem_range.mp hj
    exact ⟨row, hrow, row.getD j default, by simp [hrowj], rfl⟩
  · rintro ⟨row, hrow, w, hw, rfl⟩
    obtain ⟨j, hj, rfl⟩ := List.mem_iff_getElem.mp hw
    refine List.mem_flatten_of_mem
      (List.mem_map_of_mem (List.mem_range.mpr (by rw [← hlength row hrow]; exact hj)))
      (List.mem_map_of_mem (List.mem_map.mpr ⟨row, hrow, by simp [hj]⟩))

def columnsOf (rows : List (List Numeral)) (width : Nat) : List Column :=
  ((List.range width).map (numeralColumn rows)).map fun ws => Column.ofFields (ws.map Numeral.field)

theorem mem_columnsOf {c : Column} (hc : c ∈ columnsOf rows width) :
    ∃ j < width, c.Carries ((numeralColumn rows j).map Numeral.value) := by
  obtain ⟨ws, hws, rfl⟩ := List.mem_map.mp hc
  obtain ⟨j, hj, rfl⟩ := List.mem_map.mp hws
  exact ⟨j, List.mem_range.mp hj, carries_ofFields _⟩

/-- **Values that are all `int64`** have this type in common. -/
theorem commonType?_columnsOf (hwidth : 0 < width) (hlength : ∀ row ∈ rows, row.length = width)
    (hints : ∀ row ∈ rows, ∀ w ∈ row, IntType.int64.Holds w.value) :
    commonType? (columnsOf rows width) = some (.int .int64) := by
  refine commonType?_eq (List.ne_nil_of_length_pos (by simpa [columnsOf])) fun c hc => ?_
  obtain ⟨j, hj, hcarries⟩ := mem_columnsOf hc
  refine hcarries.type?_eq fun n hn => ?_
  obtain ⟨row, hrow, w, hw, rfl⟩ := (mem_columnValues_iff hlength).mp
    (List.mem_flatten_of_mem (List.mem_map_of_mem (List.mem_range.mpr hj)) hn)
  exact hints row hrow w hw

/-- Columns that have an integer type in common have the values of the numerals. -/
theorem values_columnsOf {u : IntType} (hcommon : commonType? (columnsOf rows width) = some (.int u)) :
    ((List.range width).map (numeralColumn rows)).map
      (fun ws => (Column.ofFields (ws.map Numeral.field)).values) = columnValues rows width := by
  obtain ⟨-, htypes⟩ := type?_eq_of_commonType? (fun c hc => by
    obtain ⟨j, -, hcarries⟩ := mem_columnsOf hc
    exact hcarries.type?_cases) hcommon
  rw [columnValues, List.map_map]
  refine List.map_congr_left fun j hj => (carries_ofFields _).values_eq (t := .int u) ?_
  exact htypes (by simp) _ (List.mem_map_of_mem (List.mem_map_of_mem hj))

section

variable (hwidth : 0 < width) (hlength : ∀ row ∈ rows, row.length = width) (hne : rows ≠ [])

include hwidth hlength hne

/-- A type has the least and the greatest value of a table exactly when it has all of them. -/
theorem exists_extremes (type : IntType) :
    ∃ low high, extremes (columnValues rows width).flatten = some (low, high) ∧
      (type.Holds low ∧ type.Holds high ↔ ∀ row ∈ rows, ∀ w ∈ row, type.Holds w.value) := by
  have hsome : (columnValues rows width).flatten ≠ [] := by
    obtain ⟨row, hrow⟩ := List.exists_mem_of_ne_nil rows hne
    obtain ⟨w, hw⟩ := List.exists_mem_of_length_pos (by rw [hlength row hrow]; exact hwidth)
    exact List.ne_nil_of_mem ((mem_columnValues_iff hlength).mpr ⟨row, hrow, w, hw, rfl⟩)
  obtain ⟨low, high, hextremes⟩ : ∃ low high,
      extremes (columnValues rows width).flatten = some (low, high) := by
    obtain ⟨n, ns, hflat⟩ := List.exists_cons_of_ne_nil hsome
    rw [hflat]
    exact ⟨_, _, rfl⟩
  refine ⟨low, high, hextremes, ?_⟩
  rw [holds_extremes_iff hextremes]
  constructor
  · intro hall row hrow w hw
    exact hall _ ((mem_columnValues_iff hlength).mpr ⟨row, hrow, w, hw, rfl⟩)
  · intro hall n hn
    obtain ⟨row, hrow, w, hw, rfl⟩ := (mem_columnValues_iff hlength).mp hn
    exact hall row hrow w hw

variable (hrecords : records bytes = .ok (rows.map (List.map Numeral.field)))

include hrecords

/-- **Records of numerals** whose columns have an integer type in common are judged by the values, and
others are refused. -/
theorem read_rows_cases (type : IntType) (path : String) :
    (∀ u, commonType? (columnsOf rows width) = some (.int u) → ∃ low high, read path type bytes =
      if ∀ row ∈ rows, ∀ w ∈ row, type.Holds w.value then
        .ok (.matrix (.int type) rows.length width fun i j =>
          ((columnValues rows width).getD j []).getD i 0)
      else .error (.outOfRange path low high type)) ∧
    ((∀ u, commonType? (columnsOf rows width) ≠ some (.int u)) →
      read path type bytes = .error (.notIntegers path (commonType? (columnsOf rows width)))) := by
  obtain ⟨low, high, hextremes, hrange⟩ := exists_extremes hwidth hlength hne type
  obtain ⟨row, rest, rfl⟩ := List.exists_cons_of_ne_nil hne
  have hfirst : (row.map Numeral.field).length = width := by simpa using hlength row (by simp)
  have hfields : (List.range (row.map Numeral.field).length).map
        (columnFields ((row :: rest).map (List.map Numeral.field)))
      = ((List.range width).map (numeralColumn (row :: rest))).map (List.map Numeral.field) := by
    rw [hfirst, List.map_map]
    exact List.map_congr_left fun j hj => columnFields_rows hlength (List.mem_range.mp hj)
  obtain ⟨hintegers, hothers⟩ := read_columns hrecords hfields type path rfl
  refine ⟨fun u hcommon => ⟨low, high, ?_⟩, hothers⟩
  rw [hintegers u _ low high hcommon (values_columnsOf hcommon) hextremes, hfirst]
  simp only [hrange, List.length_map, List.length_cons]

/-- **Numerals of the type are read** as the matrix of their values. -/
theorem read_rows (hints : ∀ row ∈ rows, ∀ w ∈ row, IntType.int64.Holds w.value)
    (hholds : ∀ row ∈ rows, ∀ w ∈ row, type.Holds w.value) (path : String) :
    read path type bytes = .ok (.matrix (.int type) rows.length width fun i j =>
      ((rows.getD i []).getD j default).value) := by
  obtain ⟨low, high, hread⟩ := (read_rows_cases hwidth hlength hne hrecords type path).1 _
    (commonType?_columnsOf hwidth hlength hints)
  rw [hread, if_pos hholds]
  refine congrArg Except.ok (Tensor.eq_matrix (Tensor.isMatrix_matrix _ _ _ _) fun i hi j hj => ?_)
  rw [Tensor.entry_matrix hi hj]
  simp [columnValues, numeralColumn, hi, hj]

/-- **A numeral that is no value of the type** makes the table refused. -/
theorem exists_error_rows (hout : ∃ row ∈ rows, ∃ w ∈ row, ¬type.Holds w.value)
    (path : String) : ∃ e, read path type bytes = .error e ∧ e.kind = .value := by
  obtain ⟨hintegers, hothers⟩ := read_rows_cases hwidth hlength hne hrecords type path
  by_cases hcommon : ∃ u, commonType? (columnsOf rows width) = some (.int u)
  · obtain ⟨u, hu⟩ := hcommon
    obtain ⟨low, high, hread⟩ := hintegers u hu
    rw [hread, if_neg]
    · exact ⟨_, rfl, rfl⟩
    · intro hall
      obtain ⟨row, hrow, w, hw, hnot⟩ := hout
      exact hnot (hall row hrow w hw)
  · rw [hothers (not_exists.mp hcommon)]
    exact ⟨_, rfl, rfl⟩

end

end

/-- **A table of numerals**: lines of one width with their ends, and a last line without one, if there is
such a line. -/
structure NumeralTable where
  lines : List (List Numeral × LineEnd)
  last : Option (List Numeral)
  width : Nat
  width_pos : 0 < width
  rows_ne_nil : lines.map Prod.fst ++ last.toList ≠ []
  length_eq : ∀ row ∈ lines.map Prod.fst ++ last.toList, row.length = width

namespace NumeralTable

variable (t : NumeralTable)

def rows : List (List Numeral) := t.lines.map Prod.fst ++ t.last.toList

def height : Nat := t.rows.length

def values : List Int := t.rows.flatten.map Numeral.value

def cell (i j : Nat) : Int := ((t.rows.getD i []).getD j default).value

def bytes : List UInt8 :=
  linesText (t.lines.map fun (row, e) => (row.map Numeral.field, e)) (t.last.map (List.map Numeral.field))

/-- The records of a table of numerals are its rows. -/
theorem records_bytes : records t.bytes = .ok (t.rows.map (List.map Numeral.field)) := by
  have hrows : (t.lines.map fun (row, e) => (row.map Numeral.field, e)).map Prod.fst
        ++ (t.last.map (List.map Numeral.field)).toList = t.rows.map (List.map Numeral.field) := by
    rw [rows, List.map_append, List.map_map, List.map_map]
    cases t.last <;> rfl
  rw [bytes, records_lines t.width_pos, hrows]
  rw [hrows]
  intro row hrow
  obtain ⟨ws, hws, rfl⟩ := List.mem_map.mp hrow
  refine ⟨by rw [List.length_map, t.length_eq ws hws], fun field hfield => ?_⟩
  obtain ⟨w, -, rfl⟩ := List.mem_map.mp hfield
  exact isPlain_field w

theorem mem_values_iff {n : Int} : n ∈ t.values ↔ ∃ row ∈ t.rows, ∃ w ∈ row, w.value = n := by
  simp only [values, List.mem_map, List.mem_flatten]
  constructor
  · rintro ⟨w, ⟨row, hrow, hw⟩, hn⟩
    exact ⟨row, hrow, w, hw, hn⟩
  · rintro ⟨row, hrow, w, hw, hn⟩
    exact ⟨w, ⟨row, hrow, hw⟩, hn⟩

end NumeralTable

end RowBlock.Csv
