import RowBlock.Proofs.CoordinatorRounds
import RowBlock.Proofs.Paths

set_option autoImplicit false

/-! # Accepted replies

What a round has taken when it returns, whatever the workers have sent. Along every path of a round to
its result, three messages were taken from each worker, and they are a good reply to its assignment
(`IsReply`); the product holds the rows of their blocks, converted to its type (`Accepted`). Nothing is
relied on but that a message received from a rank comes from that rank.
-/

namespace RowBlock

/-! ## Receiving along a path

A field that was received leaves one deed in the history, and it names the sender. For a receive
from any rank the sender is part of the answer; that it is the real one is what `Admitted` says. -/

namespace Endpoint

variable {channel : Channel} {h : History}

theorem comes_receiveFrom_done {source : Source} {x : Nat × Payload}
    (hpath : (receiveFrom source channel).Comes h (.done x)) :
    h = [⟨.receive source channel, .ok x⟩] := by
  obtain ⟨answer, g, k, rfl, hg, hk⟩ := Process.comes_bind_done hpath
  obtain rfl : g = [⟨.receive source channel, answer⟩] := Process.comes_request_done hg
  rcases answer with cause | ⟨sender, payload⟩
  · exact absurd hk Process.not_comes_failed_done
  · obtain ⟨_, g, l, rfl, hnote, hdone⟩ := Process.comes_bind_done hk
    obtain rfl := Process.comes_note_done hnote
    obtain ⟨rfl, hx⟩ := Process.comes_done_iff.mp hdone
    cases hx
    rfl

/-- **A field that is received** from a rank comes from this rank and passes its check. -/
theorem comes_field_done {α : Type} {n : Nat} {check : Payload → Except TransportError α} {a : α}
    (hpath : (receive (.rank n) channel >>= fun payload =>
      Process.ofExcept .transport (check payload)).Comes h (.done a))
    (hadmitted : h.Admitted) :
    ∃ payload, h.deeds = [.taken n channel payload] ∧ check payload = .ok a := by
  obtain ⟨payload, g, k, rfl, hg, hk⟩ := Process.comes_bind_done hpath
  obtain ⟨rfl, hcheck⟩ := Process.comes_ofExcept_done hk
  obtain ⟨⟨sender, received⟩, g, l, rfl, hg, hl⟩ := Process.comes_bind_done hg
  obtain rfl := comes_receiveFrom_done hg
  obtain ⟨rfl, hdone⟩ := Process.comes_done_iff.mp hl
  cases hdone
  have hsender : sender = n := by
    have hone := hadmitted ⟨.receive (.rank n) channel, .ok (sender, payload)⟩ (by simp)
    simp only [Event.IsAdmitted, Source.admits, beq_iff_eq] at hone
    omega
  subst hsender
  exact ⟨payload, rfl, hcheck⟩

end Endpoint

namespace Field

theorem int_of_int? {payload : Payload} {n : Nat} (source : Int)
    (hn : payload.int? = some (n : Int)) : int source payload = .ok n := by
  rw [int, hn]
  exact if_neg (by omega)

theorem int?_of_int {payload : Payload} {source n : Int} (h : int source payload = .ok n) :
    payload.int? = some n := by
  unfold int at h
  split at h
  · cases h
  · rename_i m hm
    split at h
    · cases h
    · cases h
      exact hm

/-- **A payload is accepted as a block** exactly when it is an integer matrix of the shape asked
for. -/
theorem block_eq_ok_iff {payload : Payload} {t : Tensor} {source rows : Int} {cols? : Option Int} :
    block source rows cols? payload = .ok t ↔
      payload = .tensor t ∧ t.rank = 2 ∧ t.type.isInt = true ∧ (t.rows : Int) = rows ∧
        ∀ cols ∈ cols?, (t.cols : Int) = cols := by
  have hcols (u : Tensor) :
      (u.cols : Int) = cols?.getD u.cols ↔ ∀ cols ∈ cols?, (u.cols : Int) = cols := by
    cases cols? <;> simp
  constructor
  · intro hblock
    unfold block at hblock
    split at hblock
    · cases hblock
    · rename_i u hu
      obtain ⟨rfl, hrank⟩ := matrix?_eq_some hu
      cases hint : u.type.isInt with
      | false => simp [hint] at hblock
      | true =>
          simp only [hint, Bool.not_true, Bool.false_eq_true, if_false, hcols] at hblock
          split at hblock
          · rename_i hshape
            cases hblock
            exact ⟨rfl, hrank, hint, hshape⟩
          · cases hblock
  · rintro ⟨rfl, hrank, hint, hshape⟩
    have hmatrix : (Payload.tensor t).matrix? = some t := if_pos hrank
    unfold block
    simp only [hmatrix, hint, Bool.not_true, Bool.false_eq_true, if_false, hcols]
    exact if_pos hshape

end Field

namespace Coordinator

/-! ## Good replies

A good reply is described on the payloads alone: two numbers and a block, whatever form the numbers
came in. Its third field may have any number of columns if the worker was left without the right
factor, since then nobody looks at them. -/

/-- **A good reply** to an assignment: its first row, its number of rows, and an integer matrix of so
many rows, with the columns of the product unless its worker was left without the right factor. -/
def IsReply (skipEmpty : Bool) (s : Assignment) (cols : Nat) (block : Tensor)
    (fields : List Payload) : Prop :=
  ∃ p q, fields = [p, q, .tensor block] ∧ p.int? = some s.offset ∧ q.int? = some s.rowCount ∧
    block.rank = 2 ∧ block.type.isInt = true ∧ (block.rows : Int) = s.rowCount ∧
    (omits skipEmpty s.rowCount = false → block.cols = cols)

variable {h : History} {workers rows cols i : Nat} {type : IntType} {c : Coordinator}
  {skipEmpty : Bool}

/-- The block of a good reply is what is accepted as its third field. -/
theorem block_eq_ok_iff {payload : Payload} {t : Tensor} {source rowCount : Int} :
    Field.block source rowCount (if omits skipEmpty rowCount then none else some (cols : Int))
        payload = .ok t ↔
      payload = .tensor t ∧ t.rank = 2 ∧ t.type.isInt = true ∧ (t.rows : Int) = rowCount ∧
        (omits skipEmpty rowCount = false → t.cols = cols) := by
  rw [Field.block_eq_ok_iff]
  cases omits skipEmpty rowCount <;> simp

/-- The block of a good reply with rows is a matrix of these rows. -/
theorem IsReply.isMatrix {t : Tensor} {fields : List Payload}
    (hreply : IsReply skipEmpty (Partition.share rows workers i) cols t fields)
    (hsome : Partition.size rows workers i ≠ 0) :
    ∃ other, t.IsMatrix other (Partition.size rows workers i) cols := by
  obtain ⟨p, q, -, -, -, hrank, hint, hrows, hcols⟩ := hreply
  have hkept : omits skipEmpty (Partition.size rows workers i) = false := by simp [omits, hsome]
  have hblock : Field.block 0 (Partition.size rows workers i)
      (if omits skipEmpty (Partition.size rows workers i) then none else some (cols : Int))
      (.tensor t) = .ok t := block_eq_ok_iff.mpr ⟨rfl, hrank, hint, hrows, hcols⟩
  rw [hkept] at hblock
  exact (Field.block_eq_ok hblock).2

/-! ## One reply

A reply that is finished changes the rows of its worker and no others. The lemma keeps the whole
product in view, so that it can be used once for each worker. -/

theorem eq_of_known {worker value expected : Int} {name : String}
    (h : Field.known worker name value expected = .ok ()) : value = expected := by
  unfold Field.known at h
  split at h
  · assumption
  · cases h

/-- The rows of worker `i` in a matrix are those of a block, converted to its type. -/
def HoldsBlock (type : IntType) (rows workers cols : Nat) (u : Tensor) (i : Nat) (block : Tensor) :
    Prop :=
  ∀ r < Partition.size rows workers i, ∀ k < cols,
    u.entry (Partition.start rows workers i + r) k = type.wrap (block.entry r k)

/-- A path that takes the rest of a reply has taken two good fields, and the rows of their worker are
replaced. -/
theorem comes_finishReply_done {u v : Tensor} {offset : Int} {p : Payload} (hi : i < workers)
    (hp : p.int? = some offset)
    (hpath : (c.finishReply (Partition.share rows workers i) cols u (i + 1 : Nat) offset).Comes h
      (.done v))
    (hadmitted : h.Admitted) (hu : u.IsMatrix type rows cols) :
    ∃ q t, h.deeds = [.taken (i + 1) .result q, .taken (i + 1) .result (.tensor t)] ∧
      IsReply c.skipEmpty (Partition.share rows workers i) cols t [p, q, .tensor t] ∧
      v.IsMatrix type rows cols ∧ HoldsBlock type rows workers cols v i t ∧
      ∀ r < rows, ∀ k < cols, r < Partition.start rows workers i ∨
        Partition.start rows workers i + Partition.size rows workers i ≤ r →
          v.entry r k = u.entry r k := by
  unfold finishReply at hpath
  rw [ofInt_natCast] at hpath
  -- the first field was the worker's offset
  obtain ⟨_, g₀, h, rfl, hstart, hcounted⟩ := Process.comes_bind_done hpath
  obtain ⟨rfl, hoffset⟩ := Process.comes_ofExcept_done hstart
  rw [eq_of_known hoffset] at hp hcounted
  -- the second one is its number of rows
  obtain ⟨rowCount, g, h, rfl, hcount, hchecked⟩ := Process.comes_bind_done hcounted
  rw [List.nil_append, History.admitted_append] at hadmitted
  obtain ⟨q, hq, hfield⟩ := Endpoint.comes_field_done hcount hadmitted.1
  obtain ⟨_, g₁, h, rfl, hsize, hreceived⟩ := Process.comes_bind_done hchecked
  obtain ⟨rfl, hknown⟩ := Process.comes_ofExcept_done hsize
  rw [eq_of_known hknown] at hfield hreceived
  -- the third one is a block of these rows
  obtain ⟨t, g₂, h, rfl, hblock, hplaced⟩ := Process.comes_bind_done hreceived
  rw [List.nil_append, History.admitted_append] at hadmitted
  obtain ⟨payload, ht, hfits⟩ := Endpoint.comes_field_done hblock hadmitted.2.1
  obtain ⟨rfl, hgood⟩ := block_eq_ok_iff.mp hfits
  have hreply : IsReply c.skipEmpty (Partition.share rows workers i) cols t [p, q, .tensor t] :=
    ⟨p, q, rfl, hp, Field.int?_of_int hfield, hgood⟩
  obtain ⟨v', hv', hv, hothers, hrows⟩ :=
    placed_eq (Partition.start_add_size_le rows hi) hu hreply.isMatrix
  obtain ⟨v'', g₃, h, rfl, hplace, hnoted⟩ := Process.comes_bind_done hplaced
  obtain ⟨rfl, hv''⟩ := Process.comes_ofExcept_done hplace
  obtain rfl : v' = v'' := Except.ok.inj (hv'.symm.trans hv'')
  obtain ⟨_, g₄, h, rfl, hnote, hend⟩ := Process.comes_bind_done hnoted
  obtain rfl := Process.comes_note_done hnote
  obtain ⟨rfl, hdone⟩ := Process.comes_done_iff.mp hend
  cases hdone
  refine ⟨q, t, ?_, hreply, hv, hrows, hothers⟩
  simp [hq, ht]

/-- A path that takes the first field of a reply has taken it from the worker it names. -/
theorem comes_nextReply_done {n : Nat} {worker offset : Int}
    (hpath : (c.nextReply n).Comes h (.done (worker, offset))) (hadmitted : h.Admitted) :
    ∃ (s : Nat) (p : Payload), worker = s ∧ h.deeds = [.taken s .result p] ∧
      p.int? = some offset := by
  unfold nextReply at hpath
  cases horder : c.order with
  | rank =>
      simp only [horder, ofInt_natCast] at hpath
      obtain ⟨n', g, h, rfl, hfield, hend⟩ := Process.comes_bind_done hpath
      obtain ⟨rfl, hdone⟩ := Process.comes_done_iff.mp hend
      cases hdone
      rw [List.append_nil] at hadmitted ⊢
      obtain ⟨p, hp, hcheck⟩ := Endpoint.comes_field_done hfield hadmitted
      exact ⟨n, p, rfl, hp, Field.int?_of_int hcheck⟩
  | arrival =>
      simp only [horder] at hpath
      obtain ⟨⟨s, p⟩, g, h, rfl, hreceive, hchecked⟩ := Process.comes_bind_done hpath
      obtain rfl := Endpoint.comes_receiveFrom_done hreceive
      obtain ⟨n', g, h, rfl, hcheck, hend⟩ := Process.comes_bind_done hchecked
      obtain ⟨rfl, hfield⟩ := Process.comes_ofExcept_done hcheck
      obtain ⟨rfl, hdone⟩ := Process.comes_done_iff.mp hend
      cases hdone
      exact ⟨s, p, rfl, rfl, Field.int?_of_int hfield⟩

/-! ## All replies

The induction is on the assignments that are left, with the set of workers that are still waited
for. A worker leaves the set with its reply, so no reply overwrites an earlier one, and in the end
the rows of all workers are filled. -/

/-- A path that collects one reply more has taken a good reply from a worker waited for, and its rows
are replaced. -/
theorem comes_collect_cons {u v : Tensor} {waiting : List Int} {assignment : Assignment}
    {rest : List Assignment}
    (hpath : (c.collect (Partition.assignments rows workers) cols u waiting
      (assignment :: rest)).Comes h (.done v))
    (hadmitted : h.Admitted) (hu : u.IsMatrix type rows cols)
    (hworker : ∃ n : Nat, assignment.worker = n)
    (hwaiting : ∀ x ∈ waiting, ∃ i < workers, x = (i + 1 : Nat)) (hnodup : waiting.Nodup) :
    ∃ i < workers, ∃ g k fields t u', h = g ++ k ∧ k.Admitted ∧
      ((i + 1 : Nat) : Int) ∈ waiting ∧
      (∀ s, takenFrom (History.deeds g) s .result = if i + 1 = s then fields else []) ∧
      IsReply c.skipEmpty (Partition.share rows workers i) cols t fields ∧
      u'.IsMatrix type rows cols ∧ HoldsBlock type rows workers cols u' i t ∧
      (∀ r < rows, ∀ k < cols, r < Partition.start rows workers i ∨
        Partition.start rows workers i + Partition.size rows workers i ≤ r →
          u'.entry r k = u.entry r k) ∧
      (c.collect (Partition.assignments rows workers) cols u'
        (waiting.erase ((i + 1 : Nat) : Int)) rest).Comes k (.done v) := by
  obtain ⟨n, hn⟩ := hworker
  rw [collect, hn] at hpath
  obtain ⟨⟨worker, offset⟩, g, h, rfl, hnext, hchecked⟩ := Process.comes_bind_done hpath
  rw [History.admitted_append] at hadmitted
  obtain ⟨s, p, rfl, hfirst, hp⟩ := comes_nextReply_done hnext hadmitted.1
  dsimp only at hchecked
  -- a reply that is not waited for would be a failure
  have hmem : (s : Int) ∈ waiting := by
    by_contra hnot
    rw [if_pos (by simpa using hnot)] at hchecked
    exact absurd hchecked Process.not_comes_failed_done
  obtain ⟨i, hi, hs⟩ := hwaiting _ hmem
  obtain rfl : s = i + 1 := by exact_mod_cast hs
  rw [if_neg (by simpa using hmem), assignmentOf?_assignments rows hi] at hchecked
  obtain ⟨u', g', h, rfl, hreply, hlater⟩ := Process.comes_bind_done hchecked
  rw [History.admitted_append] at hadmitted
  obtain ⟨q, t, htaken, hgood, hu', hblock, hothers⟩ :=
    comes_finishReply_done hi hp hreply hadmitted.2.1 hu
  rw [← hnodup.erase_eq_filter] at hlater
  refine ⟨i, hi, g ++ g', h, [p, q, .tensor t], t, u', (List.append_assoc _ _ _).symm, hadmitted.2.2,
    hmem, fun s => ?_, hgood, hu', hblock, hothers, hlater⟩
  rw [History.deeds_append, hfirst, htaken]
  by_cases hs : i + 1 = s <;> simp [takenFrom, Deed.takenFrom?, hs]

/-- **A path that collects the replies left** has taken a good reply from each worker waited for, and
nothing from any other; their rows hold the blocks, and all other rows are unchanged. -/
theorem comes_collect_done {u v : Tensor} {waiting : List Int} {rest : List Assignment}
    (hpath : (c.collect (Partition.assignments rows workers) cols u waiting rest).Comes h (.done v))
    (hadmitted : h.Admitted) (hu : u.IsMatrix type rows cols)
    (hrest : ∀ a ∈ rest, ∃ n : Nat, a.worker = n)
    (hwaiting : ∀ x ∈ waiting, ∃ i < workers, x = (i + 1 : Nat)) (hnodup : waiting.Nodup)
    (hlength : rest.length = waiting.length) :
    v.IsMatrix type rows cols ∧
    (∀ s : Nat, (s : Int) ∉ waiting → takenFrom h.deeds s .result = []) ∧ ∀ i < workers,
      (((i + 1 : Nat) : Int) ∈ waiting → ∃ t,
        IsReply c.skipEmpty (Partition.share rows workers i) cols t
          (takenFrom h.deeds (i + 1) .result) ∧ HoldsBlock type rows workers cols v i t) ∧
      (((i + 1 : Nat) : Int) ∉ waiting → ∀ r < Partition.size rows workers i, ∀ k < cols,
        v.entry (Partition.start rows workers i + r) k
          = u.entry (Partition.start rows workers i + r) k) := by
  -- induction on the assignments left, each of which stands for one reply
  induction rest generalizing h u waiting with
  | nil =>
      obtain rfl : waiting = [] := List.length_eq_zero_iff.mp hlength.symm
      obtain ⟨rfl, hdone⟩ := Process.comes_done_iff.mp hpath
      cases hdone
      exact ⟨hu, fun _ _ => rfl, fun i _ => ⟨nofun, fun _ _ _ _ _ => rfl⟩⟩
  | cons assignment rest ih =>
      obtain ⟨i, hi, g, k, fields, t, u', rfl, hlater, hmem, htaken, hgood, hu', hblock, hothers,
        hpath⟩ := comes_collect_cons hpath hadmitted hu (hrest _ (by simp)) hwaiting hnodup
      obtain ⟨hv, hnone, hall⟩ := ih hpath hlater hu' (fun a ha => hrest a (by simp [ha]))
        (fun x hx => hwaiting x (List.mem_of_mem_erase hx)) (hnodup.erase _) (by
          rw [List.length_erase_of_mem hmem, ← hlength, List.length_cons, Nat.add_sub_cancel])
      refine ⟨hv, fun s hs => ?_, fun j hj => ?_⟩
      · have hne : i + 1 ≠ s := fun heq => hs (heq ▸ hmem)
        rw [History.deeds_append, takenFrom_append, htaken, if_neg hne,
          hnone s fun h => hs (List.mem_of_mem_erase h), List.append_nil]
      rw [History.deeds_append, takenFrom_append, htaken]
      by_cases hij : i = j
      · subst hij
        have hgone : ((i + 1 : Nat) : Int) ∉ waiting.erase ((i + 1 : Nat) : Int) :=
          fun h => (hnodup.mem_erase_iff.mp h).1 rfl
        refine ⟨fun _ => ⟨t, ?_, fun r hr k hk => ?_⟩, fun hnot => absurd hmem hnot⟩
        · rw [if_pos rfl, hnone _ hgone, List.append_nil]
          exact hgood
        · rw [(hall i hj).2 hgone r hr k hk, hblock r hr k hk]
      · have hstill : ((j + 1 : Nat) : Int) ∈ waiting.erase ((i + 1 : Nat) : Int)
            ↔ ((j + 1 : Nat) : Int) ∈ waiting := by
          rw [hnodup.mem_erase_iff]
          exact and_iff_right (by omega)
        rw [if_neg (by omega), List.nil_append, ← hstill]
        refine ⟨(hall j hj).1, fun hnot r hr k hk => ?_⟩
        have hle := Partition.start_add_size_le rows hj
        rw [(hall j hj).2 hnot r hr k hk]
        exact hothers _ (by omega) k hk (Partition.row_lt_or_le rows workers (Ne.symm hij) hr)

/-- **A path that gathers a product** has taken a good reply from each worker and nothing else, and the
product holds their blocks. -/
theorem comes_gather_done [Memory] {v : Tensor} (hworkers : 0 < workers)
    (hpath : (c.gather (Partition.assignments rows workers) cols (.int type)).Comes h (.done v))
    (hadmitted : h.Admitted) :
    v.IsMatrix type rows cols ∧
    (∀ s, takenFrom h.deeds s .result ≠ [] → ∃ i < workers, s = i + 1) ∧ ∀ i < workers, ∃ t,
      IsReply c.skipEmpty (Partition.share rows workers i) cols t
        (takenFrom h.deeds (i + 1) .result) ∧ HoldsBlock type rows workers cols v i t := by
  unfold gather at hpath
  rw [rowsCovered_assignments rows hworkers] at hpath
  obtain ⟨shape, g, h, rfl, hroom, hcollected⟩ := Process.comes_bind_done hpath
  obtain ⟨rfl, hshape⟩ := Process.comes_ofExcept_done hroom
  obtain ⟨v', g, h, rfl, hcollect, hnoted⟩ := Process.comes_bind_done hcollected
  obtain ⟨_, g', h, rfl, hnote, hend⟩ := Process.comes_bind_done hnoted
  obtain rfl := Process.comes_note_done hnote
  obtain ⟨rfl, hdone⟩ := Process.comes_done_iff.mp hend
  cases hdone
  simp only [List.nil_append, List.append_nil] at hadmitted ⊢
  have hzeros : (Tensor.zeros (.int type) shape).IsMatrix type rows cols := by
    obtain ⟨-, -, -, heq⟩ := Tensor.room_eq_ok_iff.mp hshape
    rw [heq]
    exact ⟨rfl, rfl⟩
  obtain ⟨hv, hothers, hall⟩ := comes_collect_done hcollect hadmitted hzeros
    (fun a ha => by
      obtain ⟨i, -, rfl⟩ := Partition.mem_assignments.mp ha
      exact ⟨i + 1, rfl⟩)
    (fun _ => Partition.mem_workers.mp) (Partition.nodup_workers rows workers) (by simp)
  refine ⟨hv, fun s hsome => ?_, fun i hi => (hall i hi).1 (Partition.mem_workers.mpr ⟨i, hi, rfl⟩)⟩
  obtain ⟨i, hi, hrank⟩ := Partition.mem_workers.mp (not_not.mp (mt (hothers s) hsome))
  exact ⟨i, hi, by exact_mod_cast hrank⟩

/-! ## What a round asks for

By the same walk through the code one sees which requests a round can make at all: it sends work,
receives, notes and reads the clock. It prints nothing, reads no file and publishes nothing on its
own, which later modules use without opening a round again. -/

def IsNote (r : Request) : Prop := ∃ entry, r = .record entry ∧ entry.level ≠ .error

def Receives (r : Request) : Prop := IsNote r ∨ ∃ source channel, r = .receive source channel

/-- A request that sends on a channel or receives, or notes something in the log. -/
def Communicates (channel : Channel) (r : Request) : Prop :=
  Receives r ∨ ∃ dest payload, r = .send dest channel payload

theorem IsNote.isQuiet {r : Request} (h : IsNote r) : r.isQuiet = true := by
  obtain ⟨entry, rfl, -⟩ := h
  rfl

theorem only_note {P : Request → Prop} {E : Error → Prop} (logger : String) {level : Level}
    (text : String) (hlevel : level ≠ .error) (hP : ∀ r, IsNote r → P r) :
    (Process.note logger level text).Only P E :=
  Process.only_request (hP _ ⟨_, rfl, hlevel⟩)

theorem only_receiveFrom (source : Source) (channel : Channel) :
    (Endpoint.receiveFrom source channel).Only Receives (· ≠ .wrongProduct) := by
  refine (Process.only_request (.inr ⟨source, channel, rfl⟩)).bind fun answer => ?_
  rcases answer with cause | ⟨sender, payload⟩
  · exact nofun
  · exact (only_note _ _ (by decide) fun _ => .inl).bind fun _ => trivial

theorem only_field {α : Type} (source : Source) (channel : Channel)
    (check : Payload → Except TransportError α) :
    (Endpoint.receive source channel >>= fun payload =>
      Process.ofExcept .transport (check payload)).Only Receives (· ≠ .wrongProduct) := by
  have hreceive : (Endpoint.receive source channel).Only Receives (· ≠ .wrongProduct) :=
    (only_receiveFrom source channel).bind fun _ => trivial
  exact hreceive.bind fun _ => Process.only_ofExcept _ fun _ _ => nofun

theorem only_nextReply (c : Coordinator) (worker : Int) :
    (c.nextReply worker).Only Receives (· ≠ .wrongProduct) := by
  unfold nextReply
  cases c.order with
  | rank => exact (only_field _ _ _).bind fun _ => trivial
  | arrival =>
      exact (only_receiveFrom .any .result).bind fun _ =>
        (Process.only_ofExcept _ fun _ _ => nofun).bind fun _ => trivial

theorem placed_error {u block : Tensor} {offset rowCount : Int} {e : Error}
    (h : placed u block offset rowCount = .error e) : ∃ b room, e = .blockUnfit b room := by
  unfold placed at h
  split at h
  · cases h
  · cases hplace : u.placeRows block offset (offset + rowCount) with
    | ok v =>
        rw [hplace] at h
        cases h
    | error x =>
        rw [hplace] at h
        cases h
        exact ⟨x.1, x.2, rfl⟩

theorem only_finishReply (c : Coordinator) (expected : Assignment) (cols : Int) (product : Tensor)
    (worker offset : Int) : (c.finishReply expected cols product worker offset).Only Receives
      (· ≠ .wrongProduct) := by
  unfold finishReply
  refine (Process.only_ofExcept _ fun _ _ => nofun).bind fun _ => ?_
  refine (only_field _ _ _).bind fun _ => ?_
  refine (Process.only_ofExcept _ fun _ _ => nofun).bind fun _ => ?_
  refine (only_field _ _ _).bind fun _ => ?_
  refine (Process.only_ofExcept _ fun e he => ?_).bind fun _ => ?_
  · obtain ⟨b, room, rfl⟩ := placed_error he
    exact nofun
  · exact (only_note _ _ (by decide) fun _ => .inl).bind fun _ => trivial

theorem only_collect (c : Coordinator) (assignments : List Assignment) (cols : Int) (product : Tensor)
    (waiting : List Int) (rest : List Assignment) :
    (c.collect assignments cols product waiting rest).Only Receives (· ≠ .wrongProduct) := by
  induction rest generalizing product waiting with
  | nil => trivial
  | cons assignment rest ih =>
      rw [collect]
      refine (only_nextReply c _).bind fun reply => ?_
      obtain ⟨worker, offset⟩ := reply
      dsimp only
      split
      · exact fun h => by cases h
      · split
        · exact fun h => by cases h
        · exact (only_finishReply c _ _ _ _ _).bind fun product => ih product _

/-- **Gathering only receives.** -/
theorem only_gather [Memory] (c : Coordinator) (assignments : List Assignment) (cols : Int)
    (type : CellType) : (c.gather assignments cols type).Only Receives (· ≠ .wrongProduct) := by
  unfold gather
  refine (Process.only_ofExcept _ fun _ _ => nofun).bind fun _ => ?_
  exact (only_collect c _ _ _ _ _).bind fun _ =>
    (only_note _ _ (by decide) fun _ => .inl).bind fun _ => trivial

theorem only_send (payload : Payload) (dest : Int) (channel : Channel) :
    (Endpoint.send payload dest channel).Only (Communicates channel) (· ≠ .wrongProduct) := by
  refine (Process.only_request (.inr ⟨_, _, rfl⟩)).bind fun answer => ?_
  rcases answer with cause | ⟨⟩
  · exact nofun
  · exact only_note _ _ (by decide) fun _ h => .inl (.inl h)

theorem only_assign (c : Coordinator) (a b : Tensor) (s : Assignment) :
    (c.assign a b s).Only (Communicates .work) (· ≠ .wrongProduct) := by
  unfold assign
  refine (only_send _ _ _).bind fun _ => (only_send _ _ _).bind fun _ => ?_
  refine (Process.only_ofExcept _ fun e he => ?_).bind fun _ => (only_send _ _ _).bind fun _ => ?_
  · unfold rowsOf at he
    split at he
    · cases he
      exact nofun
    · cases he
  · split
    · trivial
    · exact only_send _ _ _

/-- **Sending out the work only communicates.** -/
theorem only_scatter (c : Coordinator) (a b : Tensor) (assignments : List Assignment) :
    (c.scatter a b assignments).Only (Communicates .work) (· ≠ .wrongProduct) :=
  (Process.only_forEach fun s _ => only_assign c a b s).bind fun _ =>
    only_note _ _ (by decide) fun _ h => .inl (.inl h)

/-- A request of a round: it reads the clock, sends work or receives, or notes something. -/
def Keeps (r : Request) : Prop := r = .clock ∨ Communicates .work r

/-- **A round only sends work and receives** and keeps the time, and does not fail as a check of the
product does. -/
theorem only_round [Memory] (c : Coordinator) (a b : Tensor) :
    (c.round a b).Only Keeps (· ≠ .wrongProduct) := by
  unfold round
  split
  · exact nofun
  · refine (Process.only_request (.inl rfl)).bind fun _ => ?_
    refine (Process.only_ofExcept _ fun _ _ => nofun).bind fun assignments => ?_
    refine (Process.only_ofExcept _ fun _ _ => nofun).bind fun _ => ?_
    refine ((only_scatter c a b _).imp (fun _ => .inr) fun _ => id).bind fun _ => ?_
    split
    · exact nofun
    · refine ((only_gather c _ _ _).imp (fun _ h => .inr (.inl h)) fun _ => id).bind fun _ => ?_
      refine (Process.only_request (.inl rfl)).bind fun _ => ?_
      exact (only_note _ _ (by decide) fun _ h => .inr (.inl (.inl h))).bind fun _ => trivial

/-! ## A round

A round is a plan of sends followed by the replies. The plan is fixed by the factors, so the history
of an accepted round is known up to the order and the contents of the replies. -/

/-- **An accepted round**: the work was sent to every worker, each replied to it with a good reply, and
the product holds the rows of their blocks. -/
structure Accepted (f : Factors) (workers : Nat) (skipEmpty : Bool) (h : History)
    (result : RoundResult) : Prop where
  sends : h.deeds.filter Deed.isSent = f.coordinatorPlan workers skipEmpty
  replies : ∀ i < workers, ∃ t,
    IsReply skipEmpty (Partition.share f.rows workers i) f.cols t
      (takenFrom h.deeds (i + 1) .result) ∧
    HoldsBlock f.type f.rows workers f.cols result.product i t
  matrix : result.product.IsMatrix f.type f.rows f.cols
  assignments : .ok result.assignments = Partition.balanced f.rows workers

variable {f : Factors}

/-- A path that sends out the work has sent it all. -/
theorem comes_scatter_done {u : Unit} (hskip : c.skipEmpty = skipEmpty)
    (hpath : (c.scatter f.a f.b (Partition.assignments f.rows workers)).Comes h (.done u))
    (hadmitted : h.Admitted) : h.deeds = f.coordinatorPlan workers skipEmpty := by
  have hmeets : (c.scatter f.a f.b (Partition.assignments f.rows workers)).Meets
      (planContract (f.coordinatorPlan workers skipEmpty) (fun _ => True) fun _ => True) [] :=
    (follows_scatter hskip).meets rfl rfl
  -- nothing is taken in this plan, so there is nothing to rely on
  have hend := hmeets.comes hpath fun k hk => by
    refine ⟨fun e he => hadmitted e (hk.subset he), fun before rest source channel payload _ heq => ?_⟩
    have hmem : Deed.taken source channel payload ∈ f.coordinatorPlan workers skipEmpty := by
      rw [heq]
      exact List.mem_append_right _ List.mem_cons_self
    cases Factors.isSent_coordinatorPlan hmem
  exact hend.2.1

/-- **A round that returns** was accepted. -/
theorem comes_round_done [Memory] {result : RoundResult} (hskip : c.skipEmpty = skipEmpty)
    (hendpoint : c.endpoint.workers = workers) (hworkers : 0 < workers)
    (hpath : (c.round f.a f.b).Comes h (.done result)) (hadmitted : h.Admitted) :
    Accepted f workers skipEmpty h result := by
  have hbalanced := Partition.balanced_eq f.rows hworkers
  unfold round at hpath
  rw [if_neg (by rw [f.left.rank_eq]; omega), f.left.rows_eq, f.right.cols_eq, f.left.type_eq,
    hendpoint, hbalanced] at hpath
  obtain ⟨_, g, h, rfl, hstart, hdealt⟩ := Process.comes_bind_done hpath
  obtain rfl := Process.comes_now_done hstart
  obtain ⟨_, g, h, rfl, hdeal, hchecked⟩ := Process.comes_bind_done hdealt
  obtain ⟨rfl, hassignments⟩ := Process.comes_ofExcept_done hdeal
  cases hassignments
  obtain ⟨_, g, h, rfl, hcheck, hscattered⟩ := Process.comes_bind_done hchecked
  obtain ⟨rfl, -⟩ := Process.comes_ofExcept_done hcheck
  obtain ⟨_, g, h, rfl, hscatter, hgathered⟩ := Process.comes_bind_done hscattered
  rw [if_neg (by rw [f.right.rank_eq]; omega)] at hgathered
  obtain ⟨v, k, h, rfl, hgather, hstopped⟩ := Process.comes_bind_done hgathered
  obtain ⟨_, l, h, rfl, hstop, hnoted⟩ := Process.comes_bind_done hstopped
  obtain rfl := Process.comes_now_done hstop
  obtain ⟨_, l, h, rfl, hnote, hend⟩ := Process.comes_bind_done hnoted
  obtain rfl := Process.comes_note_done hnote
  obtain ⟨rfl, hdone⟩ := Process.comes_done_iff.mp hend
  cases hdone
  simp only [List.nil_append, List.append_nil, History.admitted_append] at hadmitted ⊢
  have hsent := comes_scatter_done hskip hscatter hadmitted.1
  obtain ⟨hv, -, hreplies⟩ := comes_gather_done hworkers hgather hadmitted.2
  -- gathering sends nothing
  have hnone : (History.deeds k).filter Deed.isSent = [] := by
    refine List.filter_eq_nil_iff.mpr fun d hd => ?_
    obtain ⟨⟨r, answer⟩, he, hdeed⟩ := List.mem_filterMap.mp hd
    rcases ((only_gather c _ _ _).comes hgather).1 _ he with hnote | ⟨source, channel, hr⟩
    · rw [Event.deed?_of_quiet hnote.isQuiet] at hdeed
      cases hdeed
    · cases hr
      rcases answer with cause | x <;> cases hdeed
      exact Bool.false_ne_true
  refine ⟨?_, fun i hi => ?_, hv, hbalanced.symm⟩
  · rw [History.deeds_append, List.filter_append, hsent, Factors.filter_coordinatorPlan, hnone,
      List.append_nil]
  · rw [takenFrom_of_plan hsent, ← hskip]
    exact hreplies i hi

end Coordinator

end RowBlock
