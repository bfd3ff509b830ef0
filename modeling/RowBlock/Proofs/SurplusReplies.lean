import RowBlock.Machine
import RowBlock.Proofs.Acceptance
import RowBlock.Proofs.HostRuns

set_option autoImplicit false

/-! # Surplus replies

A worker may have replied more than once before the coordinator collects the replies of a round.
Collecting takes one reply of each worker and looks at nothing else, so a surplus reply is noticed only
when it comes up as the next reply while another worker is still waited for. That takes replies in
order of arrival, and a worker whose second reply overtakes the first one of another (`Overtaken`).
In all other cases the product is returned and the surplus replies stay behind
(`Coordinator.run_collect`).
-/

namespace RowBlock

/-! ## Overtaking

Messages of one worker arrive in the order they were sent, so its fourth message is the first one of
its second reply. A surplus reply comes first if a fourth message of some worker stands before the
first message of a worker that is still waited for. -/

/-- **A surplus reply comes first**: with these workers still to reply, some worker sends more than
its reply before one of them sends anything. A worker that has replied sends a surplus with its next
message, any other one with its fourth. -/
def Overtaken (waiting senders : List Nat) : Prop :=
  ∃ j ∈ waiting, ∃ i,
    (if i ∈ waiting then 4 else 1) ≤ (senders.takeWhile fun s => s != j).count i

theorem takeWhile_erase {i j : Nat} (h : i ≠ j) (l : List Nat) :
    ((l.erase i).takeWhile fun s => s != j) = (l.takeWhile fun s => s != j).erase i := by
  induction l with
  | nil => rfl
  | cons a l ih =>
      by_cases hi : a = i
      · subst hi
        simp [h]
      · by_cases hj : a = j
        · subst hj
          simp [hi]
        · simp [hi, hj, ih]

theorem overtaken_cons {waiting senders : List Nat} {w : Nat} (hwaiting : waiting ≠ [])
    (hw : w ∉ waiting) : Overtaken waiting (w :: senders) := by
  obtain ⟨j, hj⟩ := List.exists_mem_of_ne_nil _ hwaiting
  have hne : w ≠ j := fun h => hw (h ▸ hj)
  refine ⟨j, hj, w, ?_⟩
  simp [hw, hne]

/-- **One reply of the first sender** changes nothing about what is overtaken, if it was waited for. -/
theorem overtaken_erase {waiting senders : List Nat} {w : Nat} (hnodup : waiting.Nodup)
    (hw : w ∈ waiting) (hhead : senders.head? = some w) :
    Overtaken (waiting.erase w) (((senders.erase w).erase w).erase w)
      ↔ Overtaken waiting senders := by
  obtain ⟨rest, rfl⟩ : ∃ rest, senders = w :: rest := by
    cases senders with
    | nil => cases hhead
    | cons a rest =>
        cases hhead
        exact ⟨rest, rfl⟩
  -- before the messages of another worker there are three of the sender less
  have hcount {i j : Nat} (hne : w ≠ j) :
      (((((w :: rest).erase w).erase w).erase w).takeWhile fun s => s != j).count i
        = ((w :: rest).takeWhile fun s => s != j).count i - if i = w then 3 else 0 := by
    rw [takeWhile_erase hne, takeWhile_erase hne, takeWhile_erase hne]
    split
    · rename_i hi
      subst hi
      simp only [List.count_erase_self]
      omega
    · rename_i hi
      simp only [List.count_erase_of_ne hi, Nat.sub_zero]
  have hmem {i : Nat} : i ∈ waiting.erase w ↔ i ≠ w ∧ i ∈ waiting := hnodup.mem_erase_iff
  constructor
  · rintro ⟨j, hj, i, hi⟩
    obtain ⟨hne, hj⟩ := hmem.mp hj
    rw [hcount (Ne.symm hne)] at hi
    refine ⟨j, hj, i, ?_⟩
    by_cases hiw : i = w
    · subst hiw
      simp only [hmem, ne_eq, not_true_eq_false, false_and, if_false, if_true] at hi
      rw [if_pos hw]
      omega
    · simpa [hmem, hiw] using hi
  · rintro ⟨j, hj, i, hi⟩
    by_cases hne : w = j
    · subst hne
      have hpos : 0 < if i ∈ waiting then 4 else 1 := by split <;> omega
      simp at hi
      omega
    · refine ⟨j, hmem.mpr ⟨Ne.symm hne, hj⟩, i, ?_⟩
      rw [hcount hne]
      by_cases hiw : i = w
      · subst hiw
        rw [if_pos hw] at hi
        simp only [hmem, ne_eq, not_true_eq_false, false_and, if_false, if_true]
        omega
      · simpa [hmem, hiw] using hi

/-! ## Messages that have arrived

On a network without faults nothing but the pending messages decides. They are seen in two ways: as
a queue for each worker, which tells what a worker has said, and as a list of senders, which tells
what came first. -/

def Network.senders (net : Network) (rank : Nat) (channel : Channel) : List Nat :=
  net.pending.filterMap fun m => if m.dest = rank ∧ m.channel = channel then some m.source else none

namespace Network

def sender? (rank : Nat) (channel : Channel) (m : Message) : Option Nat :=
  if m.dest = rank ∧ m.channel = channel then some m.source else none

/-- **A message that is taken** is from the first of the senders that the receive admits. -/
theorem senders_of_takeFirst {net : Network} {rank : Nat} {channel : Channel} {source : Source}
    {m : Message} {pending : List Message}
    (htake : takeFirst (fits rank source channel) net.pending = some (m, pending)) :
    ∃ before after, net.senders rank channel = before ++ m.source :: after ∧
      pending.filterMap (sender? rank channel) = before ++ after ∧
      ∀ s ∈ before, source.admits s = false := by
  obtain ⟨hfits, before, after, hsplit, rfl, hbefore⟩ := takeFirst_eq_some htake
  obtain ⟨hdest, hchannel, -⟩ := fits_iff.mp hfits
  refine ⟨before.filterMap (sender? rank channel), after.filterMap (sender? rank channel), ?_,
    List.filterMap_append, fun s hs => ?_⟩
  · have hm : sender? rank channel m = some m.source := if_pos ⟨hdest, hchannel⟩
    change net.pending.filterMap (sender? rank channel) = _
    rw [hsplit, List.filterMap_append, List.filterMap_cons_some hm]
  · obtain ⟨x, hx, hsome⟩ := List.mem_filterMap.mp hs
    simp only [sender?, Option.ite_none_right_eq_some, Option.some.injEq] at hsome
    obtain ⟨⟨hto, hresult⟩, rfl⟩ := hsome
    by_contra hadmitted
    have hearlier := fits_iff.mpr ⟨hto, hresult, by simpa using hadmitted⟩
    rw [hbefore x hx] at hearlier
    cases hearlier

/-- Of the messages from one rank to another a receive takes the first one or none. -/
theorem between_of_takeFirst {net : Network} {rank : Nat} {channel : Channel} {source : Source}
    {m : Message} {pending : List Message}
    (htake : takeFirst (fits rank source channel) net.pending = some (m, pending)) (s : Nat) :
    net.between s rank channel = (if s = m.source then [m.payload] else [])
      ++ pending.filterMap (between? s rank channel) := by
  obtain ⟨hfits, -⟩ := takeFirst_eq_some htake
  obtain ⟨hdest, hchannel, -⟩ := fits_iff.mp hfits
  rw [between, filterMap_takeFirst htake (fits_of_between? hfits s rank channel)]
  by_cases hs : s = m.source
  · simp [between?, hs, hdest, hchannel]
  · simp [between?, hs, Ne.symm hs]

end Network

/-- **The results that have arrived** at the coordinator on a network without faults: whom they are
from in order, and what each rank has sent. -/
structure Arrivals (h : Host) (size : Nat) (senders : List Nat) (queue : Nat → List Payload) :
    Prop where
  faults : h.network.faults = []
  size_eq : h.network.size = size
  senders_eq : h.network.senders 0 .result = senders
  queue_eq : ∀ source, h.network.between source 0 .result = queue source

namespace Arrivals

variable {h : Host} {size j : Nat} {senders : List Nat} {queue : Nat → List Payload}

theorem count_eq (ha : Arrivals h size senders queue) (j : Nat) :
    senders.count j = (queue j).length := by
  rw [← ha.senders_eq, ← ha.queue_eq, Network.senders, Network.between]
  induction h.network.pending with
  | nil => rfl
  | cons m pending ih =>
      rw [List.filterMap_cons, List.filterMap_cons]
      by_cases hto : m.dest = 0 ∧ m.channel = .result
      · by_cases hfrom : m.source = j
        · simp [Network.between?, hto, hfrom, ih]
        · simp [Network.between?, hto, hfrom, ih]
      · have hnone : Network.between? j 0 .result m = none :=
          if_neg fun hall => hto ⟨hall.2.1, hall.2.2⟩
        simp only [if_neg hto, hnone, ih]

theorem onConsole (ha : Arrivals h size senders queue) (rank : Nat) (f : Console → Console) :
    Arrivals (h.onConsole rank f) size senders queue := ⟨ha.1, ha.2, ha.3, ha.4⟩

theorem noted {α : Type} (ha : Arrivals h size senders queue) (logger : String) (level : Level)
    (text : String) (a : α) : ∃ host, Arrivals host size senders queue ∧
      h.run 0 (Process.note logger level text >>= fun _ => Process.done a) = (.done a, host) :=
  ⟨_, ha.onConsole 0 (·.record ⟨logger, level, text⟩), rfl⟩

/-- **The first message from a rank** is the one that is taken: where the rank is asked for, or where
any rank is and this one is the first sender. -/
theorem takeFirst_eq (ha : Arrivals h size senders queue) {source : Source} {payload : Payload}
    {rest : List Payload} (hqueue : queue j = payload :: rest)
    (hsource : source = .rank j ∨ source = .any ∧ senders.head? = some j) :
    ∃ m pending, Network.takeFirst (Network.fits 0 source .result) h.network.pending
        = some (m, pending) ∧
      m.source = j ∧ m.payload = payload ∧
      Arrivals { h with network := { h.network with pending } } size (senders.erase j)
        (Function.update queue j rest) := by
  have hadmits : source.admits j = true := by
    rcases hsource with rfl | ⟨rfl, -⟩ <;> simp [Source.admits]
  cases htake : Network.takeFirst (Network.fits 0 source .result) h.network.pending with
  | none =>
      have hnone := Network.between_eq_nil (Network.takeFirst_eq_none.mp htake) hadmits
      rw [ha.queue_eq, hqueue] at hnone
      cases hnone
  | some found =>
      obtain ⟨m, pending⟩ := found
      obtain ⟨before, after, hsenders, hpending, hearlier⟩ := Network.senders_of_takeFirst htake
      rw [ha.senders_eq] at hsenders
      have hm : m.source = j := by
        rcases hsource with rfl | ⟨rfl, hhead⟩
        · obtain ⟨hfits, -⟩ := Network.takeFirst_eq_some htake
          obtain ⟨-, -, hadmitted⟩ := Network.fits_iff.mp hfits
          simp only [Source.admits, beq_iff_eq, Nat.cast_inj] at hadmitted
          exact hadmitted.symm
        · cases before with
          | nil =>
              rw [hsenders] at hhead
              exact Option.some.inj hhead
          | cons s l => exact absurd (hearlier s (by simp)) (by simp [Source.admits])
      have hqueues (s : Nat) : queue s = (if s = j then [m.payload] else [])
          ++ pending.filterMap (Network.between? s 0 .result) := by
        rw [← ha.queue_eq, Network.between_of_takeFirst htake, hm]
      have hpayload := hqueues j
      rw [hqueue, if_pos rfl, List.singleton_append, List.cons.injEq] at hpayload
      refine ⟨m, _, rfl, hm, hpayload.1.symm, ha.faults, ha.size_eq, ?_, fun s => ?_⟩
      · have hfresh : j ∉ before := fun hmem => by
          rw [hearlier j hmem] at hadmits
          cases hadmits
        rw [hsenders, hm, List.erase_append_right _ hfresh, List.erase_cons_head]
        exact hpending
      · by_cases hs : s = j
        · subst hs
          rw [Function.update_self, hpayload.2]
          rfl
        · rw [Function.update_of_ne hs, hqueues s, if_neg hs, List.nil_append]
          rfl

/-- A receive is served with the first message from the rank. -/
theorem serve_receive (ha : Arrivals h size senders queue) (hj : j < size) {source : Source}
    {payload : Payload} {rest : List Payload} (hqueue : queue j = payload :: rest)
    (hsource : source = .rank j ∨ source = .any ∧ senders.head? = some j) :
    ∃ host, Arrivals host size (senders.erase j) (Function.update queue j rest) ∧
      h.serve 0 (.receive source .result) = (.answered (.ok (j, payload)), host) := by
  obtain ⟨m, pending, htake, rfl, rfl, hnext⟩ := ha.takeFirst_eq hqueue hsource
  have hstrike : Network.strike 0 .receive h.network.faults = (false, h.network.faults) := by
    rw [ha.faults]
    rfl
  have hhas : h.network.hasSource source = true := by
    rcases hsource with rfl | ⟨rfl, -⟩
    · simp only [Network.hasSource, Network.hasRank, ha.size_eq, Bool.and_eq_true, decide_eq_true_eq]
      omega
    · rfl
  refine ⟨_, hnext, ?_⟩
  simp only [Host.serve, Network.receive, hstrike, Bool.false_eq_true, if_false, htake]
  rw [if_pos hhas]

/-- **Receiving** a message that has arrived. -/
theorem receiveFrom (ha : Arrivals h size senders queue) (hj : j < size) {source : Source}
    {payload : Payload} {rest : List Payload} (hqueue : queue j = payload :: rest)
    (hsource : source = .rank j ∨ source = .any ∧ senders.head? = some j) :
    ∃ host, Arrivals host size (senders.erase j) (Function.update queue j rest) ∧
      h.run 0 (Endpoint.receiveFrom source .result) = (.done (j, payload), host) := by
  obtain ⟨host, hhost, hserve⟩ := ha.serve_receive hj hqueue hsource
  show ∃ host, _ ∧ h.run 0 (.ask (.receive source .result) _) = _
  rw [Host.run, hserve]
  exact hhost.noted _ _ _ _

/-- **Receiving a field** that its check accepts. -/
theorem receiveField {β : Type} (ha : Arrivals h size senders queue) (hj : j < size)
    {payload : Payload} {rest : List Payload} (hqueue : queue j = payload :: rest)
    {check : Payload → Except TransportError β} {b : β} (hcheck : check payload = .ok b) :
    ∃ host, Arrivals host size (senders.erase j) (Function.update queue j rest) ∧
      h.run 0 (Endpoint.receive (.rank j) .result >>= fun p =>
        Process.ofExcept .transport (check p)) = (.done b, host) := by
  obtain ⟨host, hhost, hrun⟩ := ha.receiveFrom hj hqueue (.inl rfl)
  refine ⟨host, hhost, ?_⟩
  have hreceive : h.run 0 (Endpoint.receive (.rank j) .result) = (.done payload, host) :=
    Host.run_bind hrun _
  rw [Host.run_bind hreceive, hcheck]
  rfl

theorem receiveInt (ha : Arrivals h size senders queue) (hj : j < size) {payload : Payload}
    {rest : List Payload} (hqueue : queue j = payload :: rest) {n : Nat}
    (hn : payload.int? = some (n : Int)) :
    ∃ host, Arrivals host size (senders.erase j) (Function.update queue j rest) ∧
      h.run 0 (Endpoint.receiveInt (.rank j) .result) = (.done (n : Int), host) :=
  ha.receiveField hj hqueue (Field.int_of_int? j hn)

theorem receiveBlock (ha : Arrivals h size senders queue) (hj : j < size) {payload : Payload}
    {rest : List Payload} (hqueue : queue j = payload :: rest) {rows : Int} {cols? : Option Int}
    {t : Tensor} (ht : Field.block j rows cols? payload = .ok t) :
    ∃ host, Arrivals host size (senders.erase j) (Function.update queue j rest) ∧
      h.run 0 (Endpoint.receiveBlock (.rank j) .result rows cols?) = (.done t, host) :=
  ha.receiveField hj hqueue ht

end Arrivals

/-! ## One reply

Three messages are taken for a reply: the first from whoever comes first, the other two from the
same worker. A good reply passes all checks, so the host afterwards is known. -/

namespace Coordinator

variable {h : Host} {workers rows cols i : Nat} {senders : List Nat} {queue : Nat → List Payload}
  {type : IntType} {c : Coordinator}

/-- **The rest of a good reply** is received, and its block is placed. -/
theorem run_finishReply (ha : Arrivals h (workers + 1) senders queue) (hi : i < workers)
    {p q : Payload} {t u : Tensor} {rest : List Payload}
    (hreply : IsReply c.skipEmpty (Partition.share rows workers i) cols t [p, q, .tensor t])
    (hqueue : queue (i + 1) = q :: .tensor t :: rest) (hu : u.IsMatrix type rows cols) :
    ∃ v, v.IsMatrix type rows cols ∧ HoldsBlock type rows workers cols v i t ∧
      (∀ r < rows, ∀ k < cols, r < Partition.start rows workers i ∨
        Partition.start rows workers i + Partition.size rows workers i ≤ r →
          v.entry r k = u.entry r k) ∧ ∃ host,
      Arrivals host (workers + 1) ((senders.erase (i + 1)).erase (i + 1))
        (Function.update queue (i + 1) rest) ∧
      h.run 0 (c.finishReply (Partition.share rows workers i) cols u (i + 1 : Nat)
        (Partition.start rows workers i)) = (.done v, host) := by
  obtain ⟨v, hplaced, hv, hothers, hrows⟩ :=
    placed_eq (Partition.start_add_size_le rows hi) hu hreply.isMatrix
  obtain ⟨p', q', heq, -, hcount, hgood⟩ := hreply
  cases heq
  have hblock : Field.block (i + 1 : Nat) (Partition.size rows workers i)
      (if omits c.skipEmpty (Partition.size rows workers i) then none else some (cols : Int))
      (.tensor t) = .ok t := block_eq_ok_iff.mpr ⟨rfl, hgood⟩
  refine ⟨v, hv, hrows, hothers, ?_⟩
  have hrank : i + 1 < workers + 1 := Nat.succ_lt_succ hi
  obtain ⟨host, hhost, hrun⟩ := ha.receiveInt hrank hqueue hcount
  obtain ⟨host', hhost', hrun'⟩ := hhost.receiveBlock hrank (Function.update_self (i + 1) _ queue)
    hblock
  rw [Function.update_idem] at hhost'
  have hstart : Field.known (i + 1 : Nat) "offset" (Partition.start rows workers i)
      (Partition.share rows workers i).offset = .ok () := if_pos rfl
  have hsize : Field.known (i + 1 : Nat) "row_count" (Partition.size rows workers i)
      (Partition.share rows workers i).rowCount = .ok () := if_pos rfl
  unfold finishReply
  rw [ofInt_natCast, hstart]
  change ∃ host, _ ∧ h.run 0 (Endpoint.receiveInt _ _ >>= _) = _
  rw [Host.run_bind hrun, hsize]
  change ∃ host', _ ∧ host.run 0 (Endpoint.receiveBlock _ _ _ _ >>= _) = _
  rw [Host.run_bind hrun', hplaced]
  exact hhost'.noted _ _ _ v

/-- **The first field of the next reply** is received: in order of the ranks from the given worker, in
order of arrival from the first sender. -/
theorem run_nextReply (ha : Arrivals h (workers + 1) senders queue) (hi : i < workers)
    {p : Payload} {rest : List Payload} {n : Nat} {worker : Int}
    (hqueue : queue (i + 1) = p :: rest) (hp : p.int? = some (n : Int))
    (hrank : c.order = .rank → worker = (i + 1 : Nat))
    (harrival : c.order = .arrival → senders.head? = some (i + 1)) :
    ∃ host, Arrivals host (workers + 1) (senders.erase (i + 1)) (Function.update queue (i + 1) rest) ∧
      h.run 0 (c.nextReply worker) = (.done ((i + 1 : Nat), (n : Int)), host) := by
  have hsize : i + 1 < workers + 1 := Nat.succ_lt_succ hi
  unfold nextReply
  cases horder : c.order with
  | rank =>
      obtain ⟨host, hhost, hrun⟩ := ha.receiveInt hsize hqueue hp
      refine ⟨host, hhost, ?_⟩
      rw [hrank horder, ofInt_natCast]
      exact Host.run_bind hrun _
  | arrival =>
      obtain ⟨host, hhost, hrun⟩ := ha.receiveFrom hsize hqueue (.inr ⟨rfl, harrival horder⟩)
      refine ⟨host, hhost, ?_⟩
      have hfield : Field.int ((i + 1 : Nat) : Int) p = .ok (n : Int) := Field.int_of_int? _ hp
      refine (Host.run_bind hrun _).trans ?_
      show host.run 0 (Process.ofExcept .transport (Field.int ((i + 1 : Nat) : Int) p) >>= _) = _
      rw [hfield]
      rfl

/-! ## All replies

The induction is on the workers that are waited for. In each step the next sender is either one of
them, and there is one less to wait for, or one that has replied, and this one has overtaken. Good
replies are all that is asked of the messages: the product may be a wrong one. -/

/-- **Replies that have arrived**: every worker has sent good replies only, and one at least. -/
def GoodReplies (skipEmpty : Bool) (rows workers cols : Nat) (replies : Nat → List (List Payload)) :
    Prop :=
  ∀ i < workers, replies i ≠ [] ∧
    ∀ l ∈ replies i, ∃ t, IsReply skipEmpty (Partition.share rows workers i) cols t l

theorem GoodReplies.flatten_ne_nil {skipEmpty : Bool} {replies : Nat → List (List Payload)}
    (hgood : GoodReplies skipEmpty rows workers cols replies) (hi : i < workers) :
    (replies i).flatten ≠ [] := by
  obtain ⟨hsome, hall⟩ := hgood i hi
  obtain ⟨l, hl⟩ := List.exists_mem_of_ne_nil _ hsome
  obtain ⟨t, p, q, rfl, -⟩ := hall l hl
  intro hnone
  exact absurd (List.flatten_eq_nil_iff.mp hnone _ hl) (by simp)

/-- **With these workers still to reply**, the messages of each are its replies, and those of every
other worker its replies after the first one. As many assignments are left, in order of the ranks those
of these workers. -/
structure StillWaiting (order : Order) (workers : Nat) (replies : Nat → List (List Payload))
    (h : Host) (waiting senders : List Nat) (queue : Nat → List Payload) (rest : List Assignment) :
    Prop where
  arrivals : Arrivals h (workers + 1) senders queue
  nodup : waiting.Nodup
  ranks : ∀ w ∈ waiting, ∃ i < workers, w = i + 1
  length : rest.length = waiting.length
  ordered : order = .rank → rest.map Assignment.worker = waiting.map fun w : Nat => (w : Int)
  queue_eq : ∀ i < workers, queue (i + 1)
    = (if i + 1 ∈ waiting then replies i else (replies i).tail).flatten
  sources : ∀ s ∈ senders, ∃ i < workers, s = i + 1

variable {replies : Nat → List (List Payload)} {waiting : List Nat} {assignment : Assignment}
  {rest : List Assignment}

theorem worker_assignments (rows workers : Nat) :
    (Partition.assignments rows workers).map Assignment.worker
      = ((List.range workers).map (· + 1)).map fun w : Nat => (w : Int) := by
  simp [Partition.assignments, Partition.share, Function.comp_def]

/-- **At the start** every worker is waited for. -/
theorem StillWaiting.start {order : Order} (rows : Nat) (hfaults : h.network.faults = [])
    (hsize : h.network.size = workers + 1)
    (hsources : ∀ s ∈ h.network.senders 0 .result, ∃ i < workers, s = i + 1)
    (hqueue : ∀ i < workers, h.network.between (i + 1) 0 .result = (replies i).flatten) :
    StillWaiting order workers replies h ((List.range workers).map (· + 1))
      (h.network.senders 0 .result) (fun s => h.network.between s 0 .result)
      (Partition.assignments rows workers) where
  arrivals := ⟨hfaults, hsize, rfl, fun _ => rfl⟩
  nodup := List.nodup_range.map fun _ _ hij => Nat.succ.inj hij
  ranks w hw := by
    obtain ⟨i, hi, rfl⟩ := List.mem_map.mp hw
    exact ⟨i, List.mem_range.mp hi, rfl⟩
  length := by simp [Partition.length_assignments]
  ordered _ := worker_assignments rows workers
  queue_eq i hi := by
    rw [hqueue i hi, if_pos (List.mem_map.mpr ⟨i, List.mem_range.mpr hi, rfl⟩)]
  sources := hsources

/-- **One reply less to wait for.** -/
theorem StillWaiting.next {order : Order} {host : Host} {more : List (List Payload)}
    {fields : List Payload}
    (hs : StillWaiting order workers replies h waiting senders queue (assignment :: rest))
    (hmem : i + 1 ∈ waiting) (hworker : order = .rank → assignment.worker = (i + 1 : Nat))
    (hreplies : replies i = fields :: more)
    (hhost : Arrivals host (workers + 1) (((senders.erase (i + 1)).erase (i + 1)).erase (i + 1))
      (Function.update queue (i + 1) more.flatten)) :
    StillWaiting order workers replies host (waiting.erase (i + 1))
      (((senders.erase (i + 1)).erase (i + 1)).erase (i + 1))
      (Function.update queue (i + 1) more.flatten) rest where
  arrivals := hhost
  nodup := hs.nodup.erase _
  ranks w hw := hs.ranks w (List.mem_of_mem_erase hw)
  length := by
    rw [List.length_erase_of_mem hmem, ← hs.length, List.length_cons, Nat.add_sub_cancel]
  ordered hrank := by
    -- in order of the ranks the worker is the first one waited for
    have hall := hs.ordered hrank
    cases waiting with
    | nil => cases hmem
    | cons w ws =>
        rw [List.map_cons, List.map_cons, List.cons.injEq, hworker hrank] at hall
        have hw : w = i + 1 := by exact_mod_cast hall.1.symm
        rw [hw, List.erase_cons_head, hall.2]
  queue_eq j hj := by
    by_cases hij : j = i
    · subst hij
      rw [Function.update_self, if_neg fun h => (hs.nodup.mem_erase_iff.mp h).1 rfl, hreplies]
      rfl
    · have hne : j + 1 ≠ i + 1 := by omega
      rw [Function.update_of_ne hne, hs.queue_eq j hj]
      simp [hs.nodup.mem_erase_iff, hij]
  sources s hs' := hs.sources s
    (List.mem_of_mem_erase (List.mem_of_mem_erase (List.mem_of_mem_erase hs')))

/-- **The next reply** comes from a worker that has more to send: in order of the ranks the first one
waited for, in order of arrival the first sender. -/
theorem StillWaiting.exists_next (hsome : ∀ i < workers, (replies i).flatten ≠ [])
    (hs : StillWaiting c.order workers replies h waiting senders queue (assignment :: rest)) :
    ∃ i < workers, queue (i + 1) ≠ [] ∧
      (c.order = .rank → assignment.worker = (i + 1 : Nat) ∧ i + 1 ∈ waiting) ∧
      (c.order = .arrival → senders.head? = some (i + 1)) := by
  have hpos : ∃ w, w ∈ waiting := List.exists_mem_of_length_pos (by rw [← hs.length]; simp)
  have hqueue : ∀ i < workers, i + 1 ∈ waiting → queue (i + 1) ≠ [] := by
    intro i hi hmem
    rw [hs.queue_eq i hi, if_pos hmem]
    exact hsome i hi
  cases horder : c.order with
  | rank =>
      have hall := hs.ordered horder
      cases waiting with
      | nil => simp at hpos
      | cons w ws =>
          obtain ⟨i, hi, rfl⟩ := hs.ranks w (by simp)
          rw [List.map_cons, List.map_cons, List.cons.injEq] at hall
          exact ⟨i, hi, hqueue i hi (by simp), fun _ => ⟨hall.1, by simp⟩, fun h => nomatch h⟩
  | arrival =>
      obtain ⟨w, hw⟩ := hpos
      obtain ⟨i, hi, rfl⟩ := hs.ranks w hw
      have hcount := hs.arrivals.count_eq (i + 1)
      have hlength := List.length_pos_iff.mpr (hqueue i hi hw)
      cases senders with
      | nil => simp at hcount; omega
      | cons s l =>
          obtain ⟨j, hj, rfl⟩ := hs.sources s (by simp)
          have hsent := hs.arrivals.count_eq (j + 1)
          refine ⟨j, hj, fun hnone => ?_, (fun h => nomatch h), fun _ => rfl⟩
          rw [hnone, List.count_cons_self] at hsent
          cases hsent

/-- **What a worker has to send next** are the fields of a good reply. -/
theorem StillWaiting.exists_fields {order : Order} {skipEmpty : Bool} {assignments : List Assignment}
    (hgood : GoodReplies skipEmpty rows workers cols replies)
    (hs : StillWaiting order workers replies h waiting senders queue assignments) (hi : i < workers)
    (hqueue : queue (i + 1) ≠ []) :
    ∃ p q t more,
      (if i + 1 ∈ waiting then replies i else (replies i).tail) = [p, q, .tensor t] :: more ∧
      IsReply skipEmpty (Partition.share rows workers i) cols t [p, q, .tensor t] ∧
      queue (i + 1) = p :: q :: .tensor t :: more.flatten := by
  rw [hs.queue_eq i hi] at hqueue ⊢
  cases hall : (if i + 1 ∈ waiting then replies i else (replies i).tail) with
  | nil => simp [hall] at hqueue
  | cons fields more =>
      have hmem : fields ∈ if i + 1 ∈ waiting then replies i else (replies i).tail := by
        simp [hall]
      have hreply : fields ∈ replies i := by
        split at hmem
        · exact hmem
        · exact List.mem_of_mem_tail hmem
      obtain ⟨t, p, q, rfl, hp⟩ := (hgood i hi).2 fields hreply
      exact ⟨p, q, t, more, rfl, ⟨p, q, rfl, hp⟩, rfl⟩

/-- A reply that is not waited for has overtaken one that is. -/
theorem StillWaiting.overtaken {order : Order} {w : Nat}
    (hs : StillWaiting order workers replies h waiting senders queue (assignment :: rest))
    (hhead : senders.head? = some w) (hw : w ∉ waiting) : Overtaken waiting senders := by
  cases senders with
  | nil => cases hhead
  | cons s l =>
      cases hhead
      refine overtaken_cons (fun hnone => ?_) hw
      have hlength := hs.length
      simp [hnone] at hlength

theorem contains_map_cast (waiting : List Nat) (w : Nat) :
    (waiting.map fun w : Nat => (w : Int)).contains (w : Int) = decide (w ∈ waiting) := by
  rw [Bool.eq_iff_iff]
  simp

theorem filter_map_cast (hnodup : waiting.Nodup) (w : Nat) :
    ((waiting.map fun w : Nat => (w : Int)).filter fun x => x != (w : Int))
      = (waiting.erase w).map fun w : Nat => (w : Int) := by
  rw [hnodup.erase_eq_filter, List.filter_map]
  congr 1
  apply List.filter_congr
  intro x _
  simp [bne, beq_eq_decide]

/-- **Collecting the replies that are left** fails with a surplus reply if one comes first in order of
arrival, and otherwise leaves all surplus replies behind. -/
theorem run_collect {u : Tensor} (hgood : GoodReplies c.skipEmpty rows workers cols replies)
    (hs : StillWaiting c.order workers replies h waiting senders queue rest)
    (hu : u.IsMatrix type rows cols) :
    (c.order = .arrival ∧ Overtaken waiting senders → ∃ worker host,
      h.run 0 (c.collect (Partition.assignments rows workers) cols u
        (waiting.map fun w : Nat => (w : Int)) rest)
          = (.failed (.transport (.unexpected worker)), host)) ∧
    (¬(c.order = .arrival ∧ Overtaken waiting senders) → ∃ v host,
      h.run 0 (c.collect (Partition.assignments rows workers) cols u
        (waiting.map fun w : Nat => (w : Int)) rest) = (.done v, host) ∧
      ∀ i < workers, host.network.between (i + 1) 0 .result = (replies i).tail.flatten) := by
  -- induction on the assignments left, each of which stands for one reply
  induction rest generalizing h waiting senders queue u with
  | nil =>
      have hnone : waiting = [] := List.length_eq_zero_iff.mp hs.length.symm
      subst hnone
      constructor
      · rintro ⟨-, j, hj, -⟩
        cases hj
      · intro _
        refine ⟨u, h, rfl, fun i hi => ?_⟩
        rw [hs.arrivals.queue_eq, hs.queue_eq i hi]
        simp
  | cons assignment rest ih =>
      obtain ⟨i, hi, hqueue, hrank, harrival⟩ := hs.exists_next fun _ => hgood.flatten_ne_nil
      -- the next message is the first field of a good reply in either case
      obtain ⟨p, q, t, more, hmore, hreply, hfields⟩ := hs.exists_fields hgood hi hqueue
      obtain ⟨_, _, hsame, hp, -⟩ := id hreply
      cases hsame
      obtain ⟨host, hhost, hrun⟩ := run_nextReply hs.arrivals hi hfields hp
        (fun horder => (hrank horder).1) harrival
      rw [collect]
      rw [Host.run_bind hrun]
      dsimp only
      by_cases hmem : i + 1 ∈ waiting
      · rw [if_pos hmem] at hmore
        obtain ⟨v, hv, -, -, host', hhost', hrun'⟩ := run_finishReply hhost hi hreply
          (Function.update_self (i + 1) _ queue) hu
        rw [Function.update_idem] at hhost'
        rw [contains_map_cast, decide_eq_true hmem, assignmentOf?_assignments rows hi]
        simp only [Bool.not_true, Bool.false_eq_true, if_false]
        rw [Host.run_bind hrun', filter_map_cast hs.nodup]
        have hover : (c.order = .arrival ∧ Overtaken (waiting.erase (i + 1))
            (((senders.erase (i + 1)).erase (i + 1)).erase (i + 1)))
              ↔ (c.order = .arrival ∧ Overtaken waiting senders) :=
          and_congr_right fun horder => overtaken_erase hs.nodup hmem (harrival horder)
        rw [← hover]
        exact ih (hs.next hmem (fun horder => (hrank horder).1) hmore hhost') hv
      · -- a reply that is not waited for comes up in order of arrival only
        have horder : c.order = .arrival := by
          cases horder : c.order with
          | rank => exact absurd (hrank horder).2 hmem
          | arrival => rfl
        have hover := hs.overtaken (harrival horder) hmem
        rw [contains_map_cast, decide_eq_false hmem]
        exact ⟨fun _ => ⟨_, host, rfl⟩, fun hnot => absurd ⟨horder, hover⟩ hnot⟩

/-- Among workers, some worker's fourth message comes before the first one of another. -/
theorem overtaken_ranks_iff (hsources : ∀ s ∈ senders, ∃ i < workers, s = i + 1) :
    Overtaken ((List.range workers).map (· + 1)) senders ↔
      ∃ i < workers, ∃ j < workers,
        4 ≤ (senders.takeWhile fun s => s != j + 1).count (i + 1) := by
  constructor
  · rintro ⟨w, hw, s, hcount⟩
    obtain ⟨j, hj, rfl⟩ := List.mem_map.mp hw
    have hsome : 0 < (senders.takeWhile fun s => s != j + 1).count s := by
      split at hcount <;> omega
    have hs := (List.takeWhile_sublist _).subset (List.count_pos_iff.mp hsome)
    obtain ⟨i, hi, rfl⟩ := hsources s hs
    rw [if_pos (List.mem_map.mpr ⟨i, List.mem_range.mpr hi, rfl⟩)] at hcount
    exact ⟨i, hi, j, List.mem_range.mp hj, hcount⟩
  · rintro ⟨i, hi, j, hj, hcount⟩
    refine ⟨j + 1, List.mem_map.mpr ⟨j, List.mem_range.mpr hj, rfl⟩, i + 1, ?_⟩
    rw [if_pos (List.mem_map.mpr ⟨i, List.mem_range.mpr hi, rfl⟩)]
    exact hcount

/-- **When a surplus reply is noticed.** The results that have arrived are good replies of the workers,
one at least of each. Collected in order of arrival they end in a failure exactly when the second reply
of some worker begins before another one has begun its first. In all other cases, and always in order of
the ranks, the product is returned, and every reply of a worker but its first stays pending. -/
theorem gather_surplus [Memory] (type : IntType) {assignments : List Assignment}
    (hassignments : Partition.balanced rows workers = .ok assignments)
    (hfaults : h.network.faults = []) (hsize : h.network.size = workers + 1)
    (hsources : ∀ s ∈ h.network.senders 0 .result, ∃ i < workers, s = i + 1)
    (hgood : GoodReplies c.skipEmpty rows workers cols replies)
    (hqueue : ∀ i < workers, h.network.between (i + 1) 0 .result = (replies i).flatten) :
    (∀ e, Tensor.room (.int type) [rows, cols] = .error e →
      h.run 0 (c.gather assignments cols (.int type)) = (.failed (.room e), h)) ∧
    (Tensor.room (.int type) [rows, cols] = .ok [rows, cols] →
      (c.order = .arrival ∧ (∃ i < workers, ∃ j < workers,
          4 ≤ ((h.network.senders 0 .result).takeWhile fun s => s != j + 1).count (i + 1)) →
        ∃ worker host, h.run 0 (c.gather assignments cols (.int type))
          = (.failed (.transport (.unexpected worker)), host)) ∧
      (¬(c.order = .arrival ∧ (∃ i < workers, ∃ j < workers,
          4 ≤ ((h.network.senders 0 .result).takeWhile fun s => s != j + 1).count (i + 1))) →
        ∃ product host, h.run 0 (c.gather assignments cols (.int type)) = (.done product, host) ∧
          ∀ i < workers,
            host.network.between (i + 1) 0 .result = (replies i).tail.flatten)) := by
  have hworkers : 0 < workers := by
    by_contra hnone
    rw [Partition.balanced, if_pos (by omega)] at hassignments
    cases hassignments
  obtain rfl : Partition.assignments rows workers = assignments :=
    Except.ok.inj ((Partition.balanced_eq rows hworkers).symm.trans hassignments)
  unfold gather
  rw [rowsCovered_assignments rows hworkers]
  refine ⟨fun e he => by rw [he]; rfl, fun hroom => ?_⟩
  have hstart : StillWaiting c.order workers replies h ((List.range workers).map (· + 1))
      (h.network.senders 0 .result) (fun s => h.network.between s 0 .result)
      (Partition.assignments rows workers) := .start rows hfaults hsize hsources hqueue
  have hzeros : (Tensor.zeros (.int type) [rows, cols]).IsMatrix type rows cols := ⟨rfl, rfl⟩
  obtain ⟨hfails, hreturns⟩ := run_collect hgood hstart hzeros
  rw [overtaken_ranks_iff hsources, ← worker_assignments] at hfails hreturns
  rw [hroom]
  constructor
  · intro hover
    obtain ⟨worker, host, hrun⟩ := hfails hover
    exact ⟨worker, host, Host.run_bind_failed hrun _⟩
  · intro hnone
    obtain ⟨v, host, hrun, hleft⟩ := hreturns hnone
    exact ⟨v, _, Host.run_bind hrun _, hleft⟩

/-- The reply of a worker to a job of one row, which is the first worker's. -/
def replyOf (worker : Nat) : List Payload :=
  if worker = 1 then [.int 0, .int 1, .tensor (.matrix (.int .int8) 1 1 fun _ _ => 7)]
  else [.int 1, .int 0, .tensor (.zeros (.int .int8) [0, 1])]

/-- A job of one row whose workers have replied in this order. -/
def replied (size : Nat) (workers : List Nat) : Host :=
  { Host.initial size [] ⟨[]⟩ 0 with
    network := ⟨size, workers.flatMap fun w => (replyOf w).map (⟨w, 0, .result, ·⟩), [], []⟩ }

/-- In order of arrival the second reply of the first worker is noticed while the second worker is
waited for. -/
theorem gather_surplus_overtaken : ∃ worker host,
    (replied 3 [1, 1, 2]).run 0
        (Coordinator.gather ⟨⟨0, 3⟩, .arrival, false⟩ [⟨1, 0, 1⟩, ⟨2, 1, 0⟩] 1 (.int .int8))
      = (.failed (.transport (.unexpected worker)), host) := by
  let replies (i : Nat) : List (List Payload) :=
    if i = 0 then [replyOf 1, replyOf 1] else [replyOf 2]
  have hfirst : ∃ t, IsReply false (Partition.share 1 2 0) 1 t (replyOf 1) :=
    ⟨_, _, _, rfl, rfl, rfl, rfl, rfl, rfl, fun _ => rfl⟩
  have hsecond : ∃ t, IsReply false (Partition.share 1 2 1) 1 t (replyOf 2) :=
    ⟨_, _, _, rfl, rfl, rfl, rfl, rfl, rfl, fun _ => rfl⟩
  have hgood : GoodReplies false 1 2 1 replies := by
    intro i hi
    obtain rfl | rfl : i = 0 ∨ i = 1 := by omega
    · exact ⟨by simp [replies], by simpa [replies] using hfirst⟩
    · exact ⟨by simp [replies], by simpa [replies] using hsecond⟩
  have hqueue : ∀ i < 2, (replied 3 [1, 1, 2]).network.between (i + 1) 0 .result
      = (replies i).flatten := by
    intro i hi
    obtain rfl | rfl : i = 0 ∨ i = 1 := by omega
    · rfl
    · rfl
  have hassignments : Partition.balanced (1 : Nat) (2 : Nat) = .ok [⟨1, 0, 1⟩, ⟨2, 1, 0⟩] := by
    decide
  exact ((gather_surplus (c := ⟨⟨0, 3⟩, .arrival, false⟩) .int8 hassignments rfl rfl (by decide)
    hgood hqueue).2 (by decide)).1 ⟨rfl, 0, by decide, 1, by decide, by decide⟩

/-- **A surplus reply may go unnoticed**: the one worker of a job has replied twice, the product is
returned, and the second reply stays pending. -/
theorem surplus_unnoticed : ∃ product host,
    (replied 2 [1, 1]).run 0
        (Coordinator.gather ⟨⟨0, 2⟩, .rank, false⟩ [⟨1, 0, 1⟩] 1 (.int .int8))
      = (.done product, host) ∧ host.network.pending.map Message.payload = replyOf 1 :=
  ⟨_, _, rfl, rfl⟩

end Coordinator

end RowBlock
