import RowBlock.Proofs.RoundMessages
import RowBlock.Proofs.History
import Mathlib.Logic.Function.Basic

set_option autoImplicit false

/-! # Gathering

While the coordinator collects the replies of a round it sends nothing and takes three fields from
every worker, one worker after another (`Collecting`). Some workers are *honest*: whatever is taken
from one of them is the next field of its reply. Of the others nothing is known. A field is
accepted only at its place (`meets_field`), a block is placed at the rows of the worker it comes from
(`placed_eq`), and so the rows of honest workers stay right from reply to reply
(`BetweenReplies.next`), in either order of the replies (`meets_collectAll`).
-/

namespace RowBlock.Coordinator

variable (f : Factors) (workers : Nat) (skipEmpty : Bool) (honest : Nat → Prop)

/-! ## The contract of collecting

The contract is about fields and not about replies: it counts for each worker how many have been
taken. That makes it the same before, between and within replies, and in both orders. -/

/-- **What can be relied on** while nothing is sent: results come from workers, and those of an
honest worker are the fields of its reply. -/
def RepliesFit (h : History) : Prop :=
  h.Admitted ∧ (∀ source, takenFrom h.deeds source .result ≠ [] → ∃ i < workers, source = i + 1) ∧
    (h.deeds.filter Deed.isSent = [] → ∀ i < workers, honest i →
      takenFrom h.deeds (i + 1) .result <+: f.replyFields workers skipEmpty i)

def RightRows (u : Tensor) (i : Nat) : Prop :=
  ∀ r < f.size workers i, ∀ k < f.cols,
    u.entry (f.start workers i + r) k = f.product.entry (f.start workers i + r) k

def Awaits (workers rounds : Nat) (h : History) (r : Request) : Prop :=
  ∃ i < workers, (takenFrom h.deeds (i + 1) .result).length < 3 * rounds ∧
    (r = .receive (.rank (i + 1 : Nat)) .result ∨ r = .receive .any .result)

/-- **The contract of collecting replies.** It asks for a message only when a worker still has to
send one, and unless a worker is not honest it fails only when it is refused. -/
def collectContract : Contract Tensor where
  rely := RepliesFit f workers skipEmpty honest
  holds h := h.deeds.filter Deed.isSent = [] ∧ h.published = []
  asks := Awaits workers 1
  returns h u := u.IsMatrix f.type f.rows f.cols ∧ ∀ i < workers,
    (takenFrom h.deeds (i + 1) .result).length = 3 ∧ (honest i → RightRows f workers u i)
  fails h e := (∃ x, e = .transport x) ∧ (¬h.NoneRefused ∨ ∃ i < workers, ¬honest i)

/-! ## One field -/

/-- Nothing was sent or published, and this many fields were taken from each worker. -/
structure Collecting (workers : Nat) (h : History) (taken : Nat → Nat) : Prop where
  sends : h.deeds.filter Deed.isSent = []
  published : h.published = []
  counts : ∀ i < workers, (takenFrom h.deeds (i + 1) .result).length = taken i

variable {f workers skipEmpty honest} {h : History} {taken : Nat → Nat} {i : Nat}

theorem Collecting.refused (hc : Collecting workers h taken) (source : Source) (cause : Refusal) :
    (History.deeds (h ++ [⟨.receive source .result, .error cause⟩])).filter Deed.isSent = [] ∧
      History.published (h ++ [⟨.receive source .result, .error cause⟩]) = [] := by
  simpa [Event.deed?, Event.published?] using And.intro hc.sends hc.published

theorem Collecting.take (hc : Collecting workers h taken) (source : Source) (payload : Payload) :
    Collecting workers (h ++ [⟨.receive source .result, .ok (i + 1, payload)⟩])
      (Function.update taken i (taken i + 1)) where
  sends := by simpa [Event.deed?, Deed.isSent] using hc.sends
  published := by simpa [Event.published?] using hc.published
  counts := by
    intro j hj
    by_cases hij : j = i
    · subst hij
      simp [Event.deed?, takenFrom, Deed.takenFrom?, ← hc.counts j hj]
    · have hne : ¬i = j := fun h => hij h.symm
      simpa [Event.deed?, takenFrom, Deed.takenFrom?, hij, hne] using hc.counts j hj

/-- **What is taken from an honest worker** is the field at that place in its reply. -/
theorem Collecting.field (hc : Collecting workers h taken) (hi : i < workers) {source : Source}
    {payload : Payload} (hhonest : honest i)
    (hrely : RepliesFit f workers skipEmpty honest
      (h ++ [⟨.receive source .result, .ok (i + 1, payload)⟩])) :
    (f.replyFields workers skipEmpty i)[taken i]? = some payload := by
  obtain ⟨rest, hrest⟩ := hrely.2.2 (hc.take source payload).sends i hi hhonest
  rw [← hrest, ← hc.counts i hi, History.deeds_append, takenFrom_append, List.append_assoc]
  simp [Event.deed?, takenFrom, Deed.takenFrom?]

/-- **A field of a reply** is received and checked. Of an honest worker it is the right one, and the
check has to accept that. -/
theorem meets_field {α : Type} {P : α → History → Prop} {check : Payload → Except TransportError α}
    {n : Nat} (hc : Collecting workers h taken) (hi : i < workers) (hn : taken i = n) (hfew : n < 3)
    (hcheck : honest i → ∀ payload, (f.replyFields workers skipEmpty i)[n]? = some payload →
      ∃ a, check payload = .ok a)
    (hnext : ∀ g payload a, check payload = .ok a →
      (honest i → (f.replyFields workers skipEmpty i)[n]? = some payload) →
      Collecting workers g (Function.update taken i (n + 1)) → P a g) :
    (Endpoint.receive (.rank (i + 1 : Nat)) .result >>= fun payload =>
      Process.ofExcept .transport (check payload)).Meets
        ((collectContract f workers skipEmpty honest).before P) h := by
  subst hn
  refine Process.Meets.bind (Process.Meets.bind (Endpoint.meets_receiveFrom ?_ ?_ ?_ ?_))
  · exact ⟨hc.sends, hc.published⟩
  · exact ⟨i, hi, by rw [hc.counts i hi]; exact hfew, .inl rfl⟩
  · rintro g s payload rfl hrely
    have hsender : s = i + 1 := by
      have hadmits := hrely.1.last
      simp only [Event.IsAdmitted, Source.admits, beq_iff_eq] at hadmits
      omega
    subst hsender
    have htaken := hc.take (i := i) (.rank (i + 1 : Nat)) payload
    have hholds := And.intro htaken.sends htaken.published
    refine ⟨hholds, Process.meets_done hholds (Process.meets_ofExcept hholds (fun a ha => ?_)
      fun e he => ⟨⟨e, rfl⟩, .inr ⟨i, hi, fun hhonest => ?_⟩⟩)⟩
    · exact hnext _ payload a ha (fun hhonest => hc.field hi hhonest hrely) htaken
    · obtain ⟨a, ha⟩ := hcheck hhonest payload (hc.field hi hhonest hrely)
      exact absurd (he.symm.trans ha) (by simp)
  · rintro g cause rfl -
    exact ⟨hc.refused _ _, ⟨_, rfl⟩, .inl (History.not_noneRefused _ trivial)⟩

/-- **A known field** is right when its worker is honest, and is right afterwards. -/
theorem meets_known {P : Unit → History → Prop} {worker value expected : Int} {name : String}
    (hc : Collecting workers h taken) (hi : i < workers) (hright : honest i → value = expected)
    (hnext : value = expected → P () h) :
    (Process.ofExcept .transport (Field.known worker name value expected)).Meets
      ((collectContract f workers skipEmpty honest).before P) h := by
  unfold Field.known
  split
  · rename_i heq
    exact ⟨⟨hc.sends, hc.published⟩, hnext heq⟩
  · rename_i hne
    exact ⟨⟨hc.sends, hc.published⟩, ⟨_, rfl⟩, .inr ⟨i, hi, fun hhonest => hne (hright hhonest)⟩⟩

/-! ## One reply

After the first field the worker is known. Its second field has to be the one that was assigned, and
its third one is placed at the rows it was assigned; if the worker is honest, these are the right
cells. -/

theorem ofInt_natCast (n : Nat) : Source.ofInt n = .rank n := if_neg (by simp [Source.anyNumber])

/-- **Placing a block** changes the rows it is placed at only, and leaves the block there. -/
theorem placed_eq {u block : Tensor} {type : IntType} {rows cols first count : Nat}
    (hle : first + count ≤ rows) (hu : u.IsMatrix type rows cols)
    (hblock : count ≠ 0 → ∃ other, block.IsMatrix other count cols) :
    ∃ v, placed u block first count = .ok v ∧ v.IsMatrix type rows cols ∧
      (∀ r < rows, ∀ k < cols, r < first ∨ first + count ≤ r → v.entry r k = u.entry r k) ∧
      ∀ r < count, ∀ k < cols, v.entry (first + r) k = type.wrap (block.entry r k) := by
  unfold placed
  by_cases hempty : count = 0
  · rw [if_pos (by exact_mod_cast hempty)]
    refine ⟨u, rfl, hu, fun r _ k _ _ => rfl, fun r hr => ?_⟩
    rw [hempty] at hr
    exact absurd hr (Nat.not_lt_zero r)
  · obtain ⟨other, hblock⟩ := hblock hempty
    obtain ⟨v, hv, hmatrix, hcells⟩ := Tensor.placeRows_eq_ok hu hblock hle
    rw [if_neg (by exact_mod_cast hempty), hv]
    refine ⟨v, rfl, hmatrix, fun r hr k hk hout => ?_, fun r hr k hk => ?_⟩
    · rw [hcells r hr k hk, if_neg (by omega)]
    · rw [hcells _ (by omega) k hk, if_pos (by omega), Nat.add_sub_cancel_left]

theorem block_replyBlock (hi : i < workers) (source : Int) :
    Field.block source (f.size workers i)
        (if omits skipEmpty (f.size workers i) then none else some (f.cols : Int))
        (.tensor (f.replyBlock workers skipEmpty i))
      = .ok (f.replyBlock workers skipEmpty i) := by
  refine Field.block_tensor source (Factors.isMatrix_replyBlock hi) fun cols hcols => ?_
  cases homitted : f.omitted workers skipEmpty i with
  | true =>
      rw [show omits skipEmpty (f.size workers i) = true from homitted] at hcols
      cases hcols
  | false =>
      rw [show omits skipEmpty (f.size workers i) = false from homitted] at hcols
      cases hcols
      rfl

/-- What a reply leaves of a matrix: the rows of other workers, and those of its own worker right if
that is honest. -/
def Replied (f : Factors) (workers : Nat) (honest : Nat → Prop) (i : Nat) (u v : Tensor) : Prop :=
  v.IsMatrix f.type f.rows f.cols ∧
    (∀ r < f.rows, ∀ k < f.cols,
      r < f.start workers i ∨ f.start workers i + f.size workers i ≤ r → v.entry r k = u.entry r k) ∧
    (honest i → RightRows f workers v i)

/-- **The rest of a reply** whose first field is taken. -/
theorem meets_finishReply {c : Coordinator} {u : Tensor} {offset : Int}
    {P : Tensor → History → Prop} (hskip : c.skipEmpty = skipEmpty)
    (hc : Collecting workers h taken) (hi : i < workers) (hone : taken i = 1)
    (hu : u.IsMatrix f.type f.rows f.cols) (hoffset : honest i → offset = f.start workers i)
    (hnext : ∀ g v, Collecting workers g (Function.update taken i 3) →
      Replied f workers honest i u v → P v g) :
    (c.finishReply (Partition.share f.rows workers i) f.cols u (i + 1 : Nat) offset).Meets
      ((collectContract f workers skipEmpty honest).before P) h := by
  unfold finishReply
  rw [ofInt_natCast, hskip]
  -- the first field was the worker's offset
  refine Process.Meets.bind (meets_known hc hi hoffset fun hstart => ?_)
  subst hstart
  -- the second one has to be its number of rows
  refine Process.Meets.bind (meets_field hc hi hone (by omega) ?_ ?_)
  · rintro - payload hpayload
    cases hpayload
    exact ⟨_, Field.int_natCast _ _⟩
  rintro g payload rowCount hcount hfield hc
  refine Process.Meets.bind (meets_known hc hi (fun hhonest => ?_) fun hsize => ?_)
  · have hpayload := hfield hhonest
    cases hpayload
    exact Except.ok.inj (hcount.symm.trans (Field.int_natCast _ _))
  subst hsize
  -- the third one is its block, of any type of integers
  refine Process.Meets.bind (meets_field hc hi (Function.update_self i _ _) (by omega) ?_ ?_)
  · rintro - payload hpayload
    cases hpayload
    exact ⟨_, block_replyBlock hi _⟩
  rintro g payload block hblock hfield hc
  rw [Function.update_idem] at hc
  have hholds := And.intro hc.sends hc.published
  have hshape : f.size workers i ≠ 0 → ∃ type, block.IsMatrix type (f.size workers i) f.cols := by
    intro hsome
    have hkept : omits skipEmpty (f.size workers i) = false := by simp [omits, hsome]
    rw [show (Partition.share f.rows workers i).rowCount = (f.size workers i : Int) from rfl, hkept]
      at hblock
    exact (Field.block_eq_ok hblock).2
  -- a block of the right shape can be placed
  obtain ⟨v, hv, hmatrix, hothers, hrows⟩ := placed_eq (Factors.start_add_size_le hi) hu hshape
  refine Process.Meets.bind (Process.meets_ofExcept hholds (fun v' hv' => ?_) fun e he => ?_)
  · cases hv.symm.trans hv'
    refine Process.Meets.bind (Process.meets_note hholds (Process.meets_done hholds ?_))
    refine hnext g v hc ⟨hmatrix, hothers, fun hhonest r hr k hk => ?_⟩
    have hpayload := hfield hhonest
    cases hpayload
    have hright : block = f.replyBlock workers skipEmpty i :=
      Except.ok.inj (hblock.symm.trans (block_replyBlock hi _))
    have hle := Factors.start_add_size_le (f := f) hi
    rw [hrows r hr k hk, hright, Factors.entry_replyBlock hi hr hk,
      Factors.wrap_entry_product (by omega) hk]
  · exact absurd (hv.symm.trans he) (by simp)

/-! ## All replies

Between replies every worker has had none or three of its fields taken. The next field is therefore
a first one, whoever it comes from, and this is where the two orders are treated alike. -/

theorem eq_of_int_natCast {source n : Int} {start : Nat} (h : Field.int source (.int start) = .ok n) :
    n = start := Except.ok.inj (h.symm.trans (Field.int_natCast source start))

/-- Between replies only the first field of a reply can come. -/
theorem first_field {payload : Payload} (hbetween : taken i = 0 ∨ taken i = 3)
    (hpayload : (f.replyFields workers skipEmpty i)[taken i]? = some payload) :
    taken i = 0 ∧ payload = .int (f.start workers i) := by
  rcases hbetween with hzero | hthree
  · rw [hzero] at hpayload
    cases hpayload
    exact ⟨hzero, rfl⟩
  · rw [hthree] at hpayload
    cases hpayload

/-- **The first field of the next reply**, between replies. In order of the ranks it is the given
worker's. -/
theorem meets_nextReply {c : Coordinator} {worker : Int} {P : Int × Int → History → Prop}
    (hc : Collecting workers h taken) (hbetween : ∀ i < workers, taken i = 0 ∨ taken i = 3)
    (hrank : c.order = .rank → ∃ i < workers, worker = (i + 1 : Nat) ∧ taken i = 0)
    (harrival : ∃ i < workers, taken i = 0)
    (hnext : ∀ (g : History) (i : Nat) (offset : Int), i < workers →
      (c.order = .rank → worker = (i + 1 : Nat)) →
      (honest i → taken i = 0 ∧ offset = f.start workers i) →
      Collecting workers g (Function.update taken i (taken i + 1)) →
        P ((i + 1 : Nat), offset) g) :
    (c.nextReply worker).Meets ((collectContract f workers skipEmpty honest).before P) h := by
  unfold nextReply
  cases horder : c.order with
  | rank =>
      obtain ⟨i, hi, rfl, hzero⟩ := hrank horder
      simp only [ofInt_natCast]
      refine Process.Meets.bind (meets_field hc hi hzero (by omega) ?_ ?_)
      · rintro - payload hpayload
        cases hpayload
        exact ⟨_, Field.int_natCast _ _⟩
      · intro g payload offset hcheck hfield hc
        refine Process.meets_done ⟨hc.sends, hc.published⟩ (hnext g i offset hi (fun _ => rfl)
          (fun hhonest => ?_) (by rwa [hzero]))
        rw [← hzero] at hfield
        obtain ⟨htaken, rfl⟩ := first_field (hbetween i hi) (hfield hhonest)
        exact ⟨htaken, eq_of_int_natCast hcheck⟩
  | arrival =>
      obtain ⟨j, hj, hwaits⟩ := harrival
      refine Process.Meets.bind (Endpoint.meets_receiveFrom ⟨hc.sends, hc.published⟩
        ⟨j, hj, by rw [hc.counts j hj, hwaits]; omega, .inr rfl⟩ ?_ ?_)
      · rintro g s payload rfl hrely
        -- any rank may have sent the field, but only workers send results
        obtain ⟨i, hi, rfl⟩ : ∃ i < workers, s = i + 1 := by
          refine hrely.2.1 s ?_
          simp [Event.deed?, takenFrom, Deed.takenFrom?]
        have htaken := hc.take (i := i) .any payload
        have hholds := And.intro htaken.sends htaken.published
        refine ⟨hholds, Process.Meets.bind (Process.meets_ofExcept hholds (fun offset hcheck => ?_)
          fun e he => ⟨⟨e, rfl⟩, .inr ⟨i, hi, fun hhonest => ?_⟩⟩)⟩
        · refine Process.meets_done hholds (hnext _ i offset hi
            (fun hrank => absurd (horder.symm.trans hrank) (by simp)) (fun hhonest => ?_) htaken)
          obtain ⟨hzero, rfl⟩ := first_field (hbetween i hi) (hc.field hi hhonest hrely)
          exact ⟨hzero, eq_of_int_natCast hcheck⟩
        · obtain ⟨-, rfl⟩ := first_field (hbetween i hi) (hc.field hi hhonest hrely)
          exact absurd (he.symm.trans (Field.int_natCast _ _)) (by simp)
      · rintro g cause rfl -
        exact ⟨hc.refused _ _, ⟨_, rfl⟩, .inl (History.not_noneRefused _ trivial)⟩

def takenWhile (waiting : List Int) (i : Nat) : Nat :=
  if ((i + 1 : Nat) : Int) ∈ waiting then 0 else 3

theorem takenWhile_erase {waiting : List Int} (hnodup : waiting.Nodup) (i n : Nat) :
    Function.update (Function.update (takenWhile waiting) i n) i 3
      = takenWhile (waiting.erase (i + 1 : Nat)) := by
  rw [Function.update_idem]
  funext j
  by_cases hij : j = i
  · subst hij
    simp [takenWhile, hnodup.mem_erase_iff]
  · have hne : ((j + 1 : Nat) : Int) ≠ (i + 1 : Nat) := by omega
    simp only [Function.update_of_ne hij, takenWhile, hnodup.mem_erase_iff, hne, ne_eq,
      not_false_eq_true, true_and]

theorem assignmentOf?_assignments (rows : Nat) (hi : i < workers) :
    assignmentOf? (Partition.assignments rows workers) (i + 1 : Nat)
      = some (Partition.share rows workers i) := by
  unfold assignmentOf?
  cases hfind : (Partition.assignments rows workers).reverse.find?
      (·.worker == ((i + 1 : Nat) : Int)) with
  | none =>
      have := List.find?_eq_none.mp hfind (Partition.share rows workers i)
        (List.mem_reverse.mpr (Partition.mem_assignments.mpr ⟨i, hi, rfl⟩))
      simp [Partition.share] at this
  | some s =>
      have hworker := List.find?_some hfind
      obtain ⟨j, -, rfl⟩ := Partition.mem_assignments.mp
        (List.mem_reverse.mp (List.mem_of_find?_eq_some hfind))
      simp only [Partition.share, beq_iff_eq] at hworker
      have hij : j = i := by omega
      rw [hij]

/-- A reply keeps the right rows of other workers. -/
theorem RightRows.replied {u v : Tensor} {j : Nat} (hu : RightRows f workers u j)
    (hv : Replied f workers honest i u v) (hj : j < workers) (hij : j ≠ i) :
    RightRows f workers v j := by
  intro r hr k hk
  have hle := Factors.start_add_size_le (f := f) hj
  rw [hv.2.1 _ (by omega) k hk, hu r hr k hk]
  exact Partition.row_lt_or_le f.rows workers hij hr

/-- **Between replies**: these workers have not replied yet, and the rows of all other honest ones are
right in the matrix. As many assignments are left, in order of the ranks those of these workers. -/
structure BetweenReplies (f : Factors) (workers : Nat) (honest : Nat → Prop) (order : Order)
    (h : History) (u : Tensor) (waiting : List Int) (rest : List Assignment) : Prop where
  taken : Collecting workers h (takenWhile waiting)
  nodup : waiting.Nodup
  ranks : ∀ x ∈ waiting, ∃ i < workers, x = (i + 1 : Nat)
  length : rest.length = waiting.length
  ordered : order = .rank → rest.map Assignment.worker = waiting
  matrix : u.IsMatrix f.type f.rows f.cols
  right : ∀ i < workers, honest i → ((i + 1 : Nat) : Int) ∉ waiting → RightRows f workers u i

/-- **One more reply** leaves one worker less to wait for. -/
theorem BetweenReplies.next {order : Order} {g : History} {u v : Tensor} {waiting : List Int}
    {assignment : Assignment} {rest : List Assignment} {n : Nat}
    (hb : BetweenReplies f workers honest order h u waiting (assignment :: rest))
    (hmem : ((i + 1 : Nat) : Int) ∈ waiting)
    (hworker : order = .rank → assignment.worker = (i + 1 : Nat))
    (hc : Collecting workers g (Function.update (Function.update (takenWhile waiting) i n) i 3))
    (hreplied : Replied f workers honest i u v) :
    BetweenReplies f workers honest order g v (waiting.erase (i + 1 : Nat)) rest where
  taken := by
    rw [takenWhile_erase hb.nodup] at hc
    exact hc
  nodup := hb.nodup.erase _
  ranks x hx := hb.ranks x (List.mem_of_mem_erase hx)
  length := by
    rw [List.length_erase_of_mem hmem, ← hb.length, List.length_cons, Nat.add_sub_cancel]
  ordered hrank := by
    rw [← hb.ordered hrank, List.map_cons, hworker hrank, List.erase_cons_head]
  matrix := hreplied.1
  right j hj hhonest hdone := by
    by_cases hij : j = i
    · subst hij
      exact hreplied.2.2 hhonest
    · refine (hb.right j hj hhonest fun hjmem => hdone ?_).replied hreplied hj hij
      exact hb.nodup.mem_erase_iff.mpr ⟨by omega, hjmem⟩

/-- **Collecting the replies that are left.** -/
theorem meets_collect {c : Coordinator} {u : Tensor} {waiting : List Int}
    {rest : List Assignment} (hskip : c.skipEmpty = skipEmpty)
    (hb : BetweenReplies f workers honest c.order h u waiting rest) :
    (c.collect (Partition.assignments f.rows workers) f.cols u waiting rest).Meets
      (collectContract f workers skipEmpty honest) h := by
  induction rest generalizing h u waiting with
  | nil =>
      have hnone : waiting = [] := List.length_eq_zero_iff.mp hb.length.symm
      subst hnone
      have hholds := And.intro hb.taken.sends hb.taken.published
      refine Process.meets_done hholds ⟨hb.matrix, fun i hi => ⟨?_, fun hhonest => ?_⟩⟩
      · rw [hb.taken.counts i hi]
        simp [takenWhile]
      · exact hb.right i hi hhonest (by simp)
  | cons assignment rest ih =>
      obtain ⟨x, hx⟩ : ∃ x, x ∈ waiting :=
        List.exists_mem_of_length_pos (by rw [← hb.length]; simp)
      rw [collect]
      refine Process.Meets.bind (meets_nextReply hb.taken (fun i _ => ?_) (fun hrank => ?_) ?_ ?_)
      · unfold takenWhile
        split
        · exact .inl rfl
        · exact .inr rfl
      · have hmem : assignment.worker ∈ waiting := by rw [← hb.ordered hrank]; simp
        obtain ⟨i, hi, hworker⟩ := hb.ranks _ hmem
        exact ⟨i, hi, hworker, if_pos (hworker ▸ hmem)⟩
      · obtain ⟨i, hi, rfl⟩ := hb.ranks x hx
        exact ⟨i, hi, if_pos hx⟩
      · intro g i offset hi hworker hhonest hc
        dsimp only
        by_cases hmem : ((i + 1 : Nat) : Int) ∈ waiting
        · have hzero : takenWhile waiting i = 0 := if_pos hmem
          rw [if_neg (by simpa using hmem), assignmentOf?_assignments f.rows hi]
          rw [hzero] at hc
          refine Process.Meets.bind (meets_finishReply hskip hc hi (Function.update_self i _ _)
            hb.matrix (fun hh => (hhonest hh).2) fun g v hc hreplied => ?_)
          rw [← hb.nodup.erase_eq_filter]
          exact ih (hb.next hmem hworker hc hreplied)
        · -- a second reply of a round: the worker is not honest
          rw [if_pos (by simpa using hmem)]
          refine ⟨⟨hc.sends, hc.published⟩, ⟨_, rfl⟩, .inr ⟨i, hi, fun hh => hmem ?_⟩⟩
          by_contra hnot
          have hthree : takenWhile waiting i = 3 := if_neg hnot
          rw [(hhonest hh).1] at hthree
          cases hthree

/-- **Collecting all replies**, with nothing taken before. -/
theorem meets_collectAll {c : Coordinator} (hskip : c.skipEmpty = skipEmpty) :
    (c.collect (Partition.assignments f.rows workers) f.cols
      (.zeros (.int f.type) [f.rows, f.cols])
      ((Partition.assignments f.rows workers).map Assignment.worker)
      (Partition.assignments f.rows workers)).Meets
        (collectContract f workers skipEmpty honest) [] := by
  have hwaiting : ∀ i < workers, ((i + 1 : Nat) : Int)
      ∈ (Partition.assignments f.rows workers).map Assignment.worker := fun i hi =>
    Partition.mem_workers.mpr ⟨i, hi, rfl⟩
  refine meets_collect hskip ?_
  exact {
    taken := ⟨rfl, rfl, fun i hi => (if_pos (hwaiting i hi)).symm⟩
    nodup := Partition.nodup_workers f.rows workers
    ranks := fun _ => Partition.mem_workers.mp
    length := by simp
    ordered := fun _ => rfl
    matrix := ⟨rfl, rfl⟩
    right := fun i hi _ hdone => absurd (hwaiting i hi) hdone }

end RowBlock.Coordinator
