import RowBlock.Machine
import RowBlock.Proofs.ExactReplies
import RowBlock.Proofs.HostRuns
import RowBlock.Proofs.KernelFailures

set_option autoImplicit false

/-! # The messages of a worker

Nothing is known of the messages that are pending for a worker: its work may be cut short, be out of
order, or hold anything. In a round the worker takes fields of its work one after another as long as
they are what it expects (`Worker.IsWork`), and only then sends its reply; this is its contract
(`Worker.meets_round`). So a reply is sent in full or not at all (`Worker.replies_in_full`), and its block
has the shape and the type that the work asks for (`Worker.fits_of_compute`). The kernel is called with
matrices that fit each other (`Worker.IsWork.operands`), and never fails for an index or a shape.
-/

namespace RowBlock

theorem Field.isMatrix_of_block {source : Int} {rows : Nat} {payload : Payload} {t : Tensor}
    (h : Field.block source rows none payload = .ok t) :
    payload = .tensor t ∧ ∃ type cols, t.IsMatrix type rows cols := by
  obtain ⟨hpayload, hrank, hint, hrows, -⟩ := Field.block_eq_ok_iff.mp h
  have hfixed : Field.block source rows (some (t.cols : Int)) payload = .ok t :=
    Field.block_eq_ok_iff.mpr ⟨hpayload, hrank, hint, hrows, by simp⟩
  obtain ⟨-, type, hmatrix⟩ := Field.block_eq_ok hfixed
  exact ⟨hpayload, type, t.cols, hmatrix⟩

/-! ## Work

Nothing is assumed about the fields but that they were accepted. The guards before the kernel make
sure that it is called with matrices that fit, so what it can raise is limited to what depends on
the cells and on the memory. -/

namespace Work

/-- **What a kernel is called with** for some work, if it is needed. -/
def operands? (work : Work) : Option (Tensor × Tensor) :=
  match work.right? with
  | none => none
  | some right => if work.rowCount = 0 then none else some (work.rows, right)

/-- **A block that fits** some work: an integer matrix of the type of its rows, with as many rows, and
with the columns of the right factor where that is needed. -/
def Fits (work : Work) (block : Tensor) : Prop :=
  ∃ (type : IntType) (count cols : Nat), work.rowCount = count ∧ work.rows.type = .int type ∧
    block.IsMatrix type count cols ∧ ∀ right ∈ work.right?, right.cols = cols

end Work

namespace Worker

open Coordinator (IsTransport)

variable {w : Worker} {work : Work} {fields replies : List Payload} {skipEmpty : Bool}
  {a b block : Tensor}

section

variable [Memory]

/-- **The kernel is called with the operands** of some work. -/
theorem compute_of_operands (h : work.operands? = some (a, b)) :
    w.compute work = w.kernel.multiply a b := by
  rcases work with ⟨offset, rowCount, rows, _ | right⟩
  · cases h
  · simp only [Work.operands?] at h
    split at h
    · cases h
    · rename_i hsome
      cases h
      exact if_neg hsome

theorem compute_without_operands (h : work.operands? = none) (kernel : Kernel) :
    compute { w with kernel } work = w.compute work := by
  rcases work with ⟨offset, rowCount, rows, _ | right⟩
  · rfl
  · simp only [Work.operands?] at h
    split at h
    · rename_i hzero
      simp only [compute, if_pos hzero]
    · cases h

/-- **The fields of some work**: its first row, its number of rows, an integer matrix of so many rows,
and an integer matrix that has as many rows as this one has columns. The last one is left out for work
without rows, if that is what the worker expects. -/
inductive IsWork (skipEmpty : Bool) : List Payload → Work → Prop
  | omitted {p q : Payload} {offset : Nat} {type : IntType} {inner : Nat} {rows : Tensor}
      (hp : p.int? = some (offset : Int)) (hq : q.int? = some 0) (hrows : rows.IsMatrix type 0 inner)
      (hskip : skipEmpty = true) :
      IsWork skipEmpty [p, q, .tensor rows] ⟨offset, 0, rows, none⟩
  | kept {p q : Payload} {offset count : Nat} {type other : IntType} {inner cols : Nat}
      {rows right : Tensor} (hp : p.int? = some (offset : Int)) (hq : q.int? = some (count : Int))
      (hrows : rows.IsMatrix type count inner) (hright : right.IsMatrix other inner cols)
      (hkept : ¬(count = 0 ∧ skipEmpty = true)) :
      IsWork skipEmpty [p, q, .tensor rows, .tensor right] ⟨offset, count, rows, some right⟩

omit [Memory] in
/-- **Operands** are matrices with rows that fit each other. -/
theorem IsWork.operands (hwork : IsWork skipEmpty fields work)
    (h : work.operands? = some (a, b)) :
    ∃ (type other : IntType) (count inner cols : Nat), 0 < count ∧ work.rowCount = count ∧
      a.IsMatrix type count inner ∧ b.IsMatrix other inner cols := by
  cases hwork with
  | omitted => cases h
  | @kept p q offset count type other inner cols rows right hp hq hrows hright hkept =>
      simp only [Work.operands?] at h
      split at h
      · cases h
      · rename_i hsome
        cases h
        have hcount : 0 < count := Nat.pos_of_ne_zero fun hzero => hsome (by rw [hzero]; rfl)
        exact ⟨type, other, count, inner, cols, hcount, rfl, hrows, hright⟩

/-- **The product of some work** fits it. -/
theorem fits_of_compute (hwork : IsWork skipEmpty fields work) (h : w.compute work = .ok block) :
    work.Fits block := by
  cases hwork with
  | @omitted p q offset type inner rows hp hq hrows hskip =>
      cases h
      rw [hrows.type_eq]
      exact ⟨type, 0, 0, rfl, hrows.type_eq, ⟨rfl, rfl⟩, nofun⟩
  | @kept p q offset count type other inner cols rows right hp hq hrows hright hkept =>
      refine ⟨type, count, cols, rfl, hrows.type_eq, ?_, fun t ht => ?_⟩
      · simp only [compute] at h
        split at h
        · rename_i hzero
          have hcount : count = 0 := by exact_mod_cast hzero
          subst hcount
          rw [hrows.type_eq, hright.cols_eq] at h
          rcases Tensor.room_matrix_cases (.int type) 0 cols with hroom | ⟨x, hroom⟩ <;>
            rw [Nat.cast_zero] at hroom
          · rw [hroom] at h
            cases h
            exact ⟨rfl, rfl⟩
          · rw [hroom] at h
            cases h
        · exact Kernel.isMatrix_of_multiply hrows hright h
      · cases ht
        exact hright.cols_eq

/-- **Where a product is not computed**, the right factor was needed, and either there is no room for a
product without rows, or the kernel has failed. -/
theorem compute_error {e : KernelError} (h : w.compute work = .error e) :
    ∃ right ∈ work.right?,
      (work.rowCount = 0 ∧ ∃ x, e = .room x ∧
        Tensor.room work.rows.type [0, right.cols] = .error x) ∨
      (work.operands? = some (work.rows, right) ∧ w.kernel.multiply work.rows right = .error e) := by
  rcases work with ⟨offset, rowCount, rows, _ | right⟩
  · cases h
  · refine ⟨right, rfl, ?_⟩
    simp only [compute] at h
    split at h
    · rename_i hzero
      rcases error_of_bind h with hroom | ⟨_, -, h⟩
      · obtain ⟨x, hx, rfl⟩ := error_of_mapError hroom
        exact .inl ⟨hzero, x, rfl, hx⟩
      · cases h
    · rename_i hsome
      exact .inr ⟨if_neg hsome, h⟩

/-- **A product is never refused** for an index or a misfit. -/
theorem not_isMisfit_of_compute {e : KernelError} (hwork : IsWork skipEmpty fields work)
    (h : w.compute work = .error e) : e.isMisfit = false ∧ e.kind ≠ .index := by
  obtain ⟨right, -, ⟨-, x, rfl, -⟩ | ⟨hoperands, hmultiply⟩⟩ := compute_error h
  · exact KernelError.not_isMisfit_room x
  · obtain ⟨_, _, _, _, _, -, -, ha, hb⟩ := hwork.operands hoperands
    exact Kernel.not_isMisfit_of_multiply ha hb hmultiply

/-! ## The contract of a round

The contract is a statement about the history at every point of a round. Before the first send only
fields of work are taken, and the fields that are sent are those of one reply. It follows that a
failure leaves nothing sent, unless a send itself was refused. -/

end

/-- **No more than the fields of some work**: four, or three where work without rows is cut short. -/
def WithinWork (skipEmpty : Bool) (fields : List Payload) : Prop :=
  fields.length ≤ 4 ∧
    (skipEmpty = true → (∃ q ∈ fields[1]?, q.int? = some 0) → fields.length ≤ 3)

theorem withinWork_of_length_le (h : fields.length ≤ 3) : WithinWork skipEmpty fields :=
  ⟨h.trans (by decide), fun _ _ => h⟩

/-- **Fields of the work were taken** from the coordinator, then fields of the reply sent to it. -/
def Exchanged (fields replies : List Payload) (h : History) : Prop :=
  h.deeds = fields.map (.taken 0 .work) ++ replies.map (.sent 0 .result)

/-- The fields of the reply to some work. -/
def replyFields (work : Work) (block : Tensor) : List Payload :=
  [.int work.offset, .int work.rowCount, .tensor block]

/-- **The contract of a round.** It asks for fields of the work before it sends anything, and returns
when all of its reply is sent. If no send is refused it fails before it has sent anything. -/
def roundContract [Memory] (w : Worker) : Contract Unit where
  rely := History.Admitted
  holds h := ∃ fields replies, Exchanged fields replies h ∧ WithinWork w.skipEmpty fields
  asks h r := ((∃ fields, Exchanged fields [] h ∧ WithinWork w.skipEmpty fields) ∧
      r = .receive coordinator .work) ∨ ∃ payload, r = .send 0 .result payload
  returns h _ := ∃ fields work block, Exchanged fields (replyFields work block) h ∧
    WithinWork w.skipEmpty fields ∧ IsWork w.skipEmpty fields work ∧ w.compute work = .ok block
  fails h e := (IsTransport e ∧ ∃ payload cause, ⟨.send 0 .result payload, .error cause⟩ ∈ h) ∨
    ∃ fields, Exchanged fields [] h ∧ WithinWork w.skipEmpty fields ∧ (IsTransport e ∨
      ∃ work x, IsWork w.skipEmpty fields work ∧ w.compute work = .error x ∧ e = .kernel x)

section

variable {h : History}

theorem Exchanged.refused {r : Request} {answer : r.Answer} (hx : Exchanged fields replies h)
    (hnone : Event.deed? ⟨r, answer⟩ = none) : Exchanged fields replies (h ++ [⟨r, answer⟩]) := by
  rw [Exchanged, History.deeds_append, History.deeds_singleton, hnone, hx]
  exact List.append_nil _

theorem Exchanged.take (hx : Exchanged fields [] h) (payload : Payload) :
    Exchanged (fields ++ [payload]) [] (h ++ [⟨.receive coordinator .work, .ok (0, payload)⟩]) := by
  have hdeeds : h.deeds = fields.map (.taken 0 .work) := hx.trans (List.append_nil _)
  rw [Exchanged, History.deeds_append, hdeeds]
  simp [Event.deed?]

theorem Exchanged.send (hx : Exchanged fields replies h) (payload : Payload) :
    Exchanged fields (replies ++ [payload]) (h ++ [⟨.send 0 .result payload, .ok ()⟩]) := by
  rw [Exchanged, History.deeds_append, hx]
  simp [Event.deed?]

variable [Memory]

/-- **A field of the work** is received and checked. -/
theorem meets_field {α : Type} {P : α → History → Prop} {check : Payload → Except TransportError α}
    (hx : Exchanged fields [] h) (hwithin : WithinWork w.skipEmpty fields)
    (hmore : ∀ payload, WithinWork w.skipEmpty (fields ++ [payload]))
    (hnext : ∀ g payload a, check payload = .ok a → Exchanged (fields ++ [payload]) [] g → P a g) :
    (Endpoint.receive coordinator .work >>= fun payload =>
      Process.ofExcept .transport (check payload)).Meets ((roundContract w).before P) h := by
  refine Process.Meets.bind (Process.Meets.bind (Endpoint.meets_receiveFrom ?_ ?_ ?_ ?_))
  · exact ⟨fields, [], hx, hwithin⟩
  · exact .inl ⟨⟨fields, hx, hwithin⟩, rfl⟩
  · rintro g s payload rfl hrely
    have hsender : s = 0 := by
      have hadmits := History.Admitted.last hrely
      simp only [Event.IsAdmitted, coordinator, Source.admits, beq_iff_eq, Nat.cast_inj] at hadmits
      exact hadmits.symm
    subst hsender
    have htaken := hx.take payload
    have hholds : (roundContract w).holds _ := ⟨_, _, htaken, hmore payload⟩
    refine ⟨hholds, Process.meets_done hholds (Process.meets_ofExcept hholds (fun a ha => ?_)
      fun e _ => .inr ⟨_, htaken, hmore payload, .inl ⟨e, rfl⟩⟩)⟩
    exact hnext _ payload a ha htaken
  · rintro g cause rfl -
    have hsame : Exchanged fields [] (h ++ [⟨.receive coordinator .work, .error cause⟩]) :=
      hx.refused rfl
    exact ⟨⟨fields, [], hsame, hwithin⟩, .inr ⟨fields, hsame, hwithin, .inl ⟨_, rfl⟩⟩⟩

/-- **A worker receives its work** field by field. -/
theorem meets_receive {P : Work → History → Prop}
    (hnext : ∀ g fields work, IsWork w.skipEmpty fields work → WithinWork w.skipEmpty fields →
      Exchanged fields [] g → P work g) :
    w.receive.Meets ((roundContract w).before P) [] := by
  have hshort {fields : List Payload} (hlength : fields.length ≤ 3) :
      WithinWork w.skipEmpty fields := withinWork_of_length_le hlength
  have hnothing : Exchanged [] [] [] := rfl
  unfold receive
  refine Process.Meets.bind (meets_field hnothing (hshort (by simp)) (fun _ => hshort (by simp))
    fun g p offset hfirst hx => ?_)
  obtain ⟨offset, rfl, hp⟩ := Field.int_eq_ok hfirst
  refine Process.Meets.bind (meets_field hx (hshort (by simp)) (fun _ => hshort (by simp))
    fun g q rowCount hsecond hx => ?_)
  obtain ⟨count, rfl, hq⟩ := Field.int_eq_ok hsecond
  refine Process.Meets.bind (meets_field hx (hshort (by simp)) (fun _ => hshort (by simp))
    fun g payload rows hthird hx => ?_)
  obtain ⟨rfl, type, inner, hrows⟩ := Field.isMatrix_of_block hthird
  split
  · -- there is no work to do, and `B` is not sent
    rename_i homitted
    obtain ⟨hzero, hskip⟩ := homitted
    rw [hzero] at hq ⊢
    have hcount : count = 0 := by exact_mod_cast hzero
    subst hcount
    exact Process.meets_done ⟨_, _, hx, hshort (by simp)⟩
      (hnext _ _ _ (.omitted hp hq hrows hskip) (hshort (by simp)) hx)
  · rename_i hkept
    have hkept : ¬(count = 0 ∧ w.skipEmpty = true) := by exact_mod_cast hkept
    have hall (payload : Payload) :
        WithinWork w.skipEmpty ([] ++ [p] ++ [q] ++ [.tensor rows] ++ [payload]) := by
      refine ⟨by simp, fun hskip hnone => absurd ?_ hkept⟩
      obtain ⟨_, hthis, hzero⟩ := hnone
      cases hthis
      exact ⟨by simpa [hq] using hzero, hskip⟩
    refine Process.Meets.bind (meets_field hx (hshort (by simp)) hall
      fun g payload right hfourth hx => ?_)
    obtain ⟨rfl, other, cols, hright⟩ := Field.isMatrix_of_block hfourth
    rw [hrows.cols_eq] at hright
    have hholds : (roundContract w).holds g := ⟨_, _, hx, hall _⟩
    refine Process.Meets.bind (Process.meets_note hholds (Process.meets_done hholds ?_))
    exact hnext _ _ _ (.kept hp hq hrows hright hkept) (hall _) hx

/-- **A field of the reply** is sent. -/
theorem meets_send {P : Unit → History → Prop} {payload : Payload}
    (hx : Exchanged fields replies h) (hwithin : WithinWork w.skipEmpty fields)
    (hnext : ∀ g, Exchanged fields (replies ++ [payload.contiguous]) g → P () g) :
    (Endpoint.send payload coordinatorRank .result).Meets ((roundContract w).before P) h := by
  have hholds : (roundContract w).holds h := ⟨fields, replies, hx, hwithin⟩
  refine (Process.meets_ask_loud rfl).mpr ⟨hholds, .inr ⟨_, rfl⟩, fun answer _ => ?_⟩
  rcases answer with cause | ⟨⟩
  · refine ⟨⟨fields, replies, hx.refused rfl, hwithin⟩, .inl ⟨⟨_, rfl⟩, payload.contiguous, cause, ?_⟩⟩
    exact List.mem_append_right _ (List.mem_singleton_self _)
  · have hsent := hx.send payload.contiguous
    have hafter : (roundContract w).holds _ := ⟨fields, _, hsent, hwithin⟩
    exact Process.meets_note hafter (hnext _ hsent)

/-- **A round of a worker meets its contract.** -/
theorem meets_round (w : Worker) : w.round.Meets (roundContract w) [] := by
  unfold round
  refine Process.Meets.bind (meets_receive fun g fields work hwork hwithin hx => ?_)
  have hholds : (roundContract w).holds g := ⟨fields, [], hx, hwithin⟩
  refine Process.Meets.bind (Process.meets_ofExcept hholds (fun block hblock => ?_)
    fun x hfails => .inr ⟨fields, hx, hwithin, .inr ⟨work, x, hwork, hfails, rfl⟩⟩)
  obtain ⟨type, count, cols, -, -, hmatrix, -⟩ := fits_of_compute hwork hblock
  have htravels : (Payload.tensor block).contiguous = .tensor block := by
    rw [Payload.contiguous, hmatrix.contiguous_eq]
  unfold reply
  refine Process.Meets.bind (meets_send hx hwithin fun g hx => ?_)
  refine Process.Meets.bind (meets_send hx hwithin fun g hx => ?_)
  refine meets_send hx hwithin fun g hx => ?_
  rw [htravels] at hx
  exact ⟨fields, work, block, hx, hwithin, hwork, hblock⟩

end

/-! ## A round on a host

The contract says what was taken and sent. On a host one can say more: which of the pending messages
they were, and what is pending afterwards. -/

/-- **What an exchange does to the messages**: the fields were the first ones from the coordinator, and
all other messages are left in their order; the reply is sent after them, and nothing else is. -/
structure Exchange (h : Host) (rank : Nat) (fields replies : List Payload) (host : Host) : Prop where
  taken : fields <+: h.network.between 0 rank .work
  pending_eq : host.network.pending
    = Network.withoutFirst (Network.fits rank coordinator .work) fields.length h.network.pending
      ++ replies.map (⟨rank, 0, .result, ·⟩)
  sent_eq : host.network.sent = (replies.map (⟨rank, 0, .result, ·⟩)).reverse ++ h.network.sent

section

variable {h middle host after : Host} {rank : Nat} {g : History}

theorem Exchange.refl (h : Host) (rank : Nat) : Exchange h rank [] [] h :=
  ⟨List.nil_prefix, by simp, rfl⟩

/-- The messages before an exchange are all that matters. -/
theorem Exchange.of_eq (hx : Exchange middle rank fields replies host)
    (hpending : middle.network.pending = h.network.pending)
    (hsent : middle.network.sent = h.network.sent) : Exchange h rank fields replies host := by
  obtain ⟨htaken, hpendings, hsends⟩ := hx
  refine ⟨?_, by rw [hpendings, hpending], by rw [hsends, hsent]⟩
  rwa [Network.between, hpending] at htaken

theorem Exchange.congr (hx : Exchange h rank fields replies host)
    (hpending : after.network.pending = host.network.pending)
    (hsent : after.network.sent = host.network.sent) : Exchange h rank fields replies after :=
  ⟨hx.taken, hpending.trans hx.pending_eq, hsent.trans hx.sent_eq⟩

/-- **One field more taken** before an exchange. -/
theorem Exchange.take (hx : Exchange middle rank fields replies host) {source : Source} {m : Message}
    (hsource : m.source = 0)
    (htake : Network.takeFirst (Network.fits rank source .work) h.network.pending
      = some (m, middle.network.pending))
    (hsent : middle.network.sent = h.network.sent) :
    Exchange h rank (m.payload :: fields) replies host := by
  obtain ⟨htaken, hpendings, hsends⟩ := hx
  have hleft := Network.withoutFirst_takeFirst htake fields.length
  have hqueue := Network.between_of_takeFirst htake 0
  rw [hsource] at hleft
  rw [hsource, if_pos rfl] at hqueue
  refine ⟨?_, ?_, by rw [hsends, hsent]⟩
  · rw [hqueue]
    exact (List.prefix_append_right_inj [m.payload]).mpr htaken
  · rw [hpendings, List.length_cons]
    exact congrArg (· ++ _) hleft.symm

/-- **One field more sent** before an exchange that only sends. -/
theorem Exchange.send (hx : Exchange middle rank [] replies host) {payload : Payload}
    (hpending : middle.network.pending = h.network.pending ++ [⟨rank, 0, .result, payload⟩])
    (hsent : middle.network.sent = ⟨rank, 0, .result, payload⟩ :: h.network.sent) :
    Exchange h rank [] (payload :: replies) host := by
  obtain ⟨-, hpendings, hsends⟩ := hx
  refine ⟨List.nil_prefix, ?_, ?_⟩
  · rw [hpendings, hpending]
    simp
  · rw [hsends, hsent]
    simp

/-- **Requests of an exchange** that are served do to the messages what it says. -/
theorem Exchange.of_serves (hserves : Host.Serves rank h g host) (hx : Exchanged fields replies g) :
    Exchange h rank fields replies host := by
  -- induction on the requests: each one takes the next field, sends the next one, or does neither
  induction hserves generalizing fields replies with
  | refl h =>
      have hnone : fields = [] ∧ replies = [] := by simpa [Exchanged] using hx
      obtain ⟨rfl, rfl⟩ := hnone
      exact .refl h rank
  | @answered h middle host r answer g hserve _ ih =>
      have hsent := Host.serve_sent hserve
      rw [Exchanged, History.deeds_append, History.deeds_add, History.deeds_nil,
        List.nil_append] at hx
      rcases Host.serve_cases hserve with ⟨hdeed, hpending⟩ | ⟨d, c, payload, hdeed, hpending⟩ |
        ⟨source, m, -, hdeed, htake⟩
      · rw [hdeed] at hx hsent
        exact (ih hx).of_eq hpending hsent
      · rw [hdeed, Option.toList_some, List.singleton_append] at hx
        -- the first field sent is sent after all fields are taken
        cases fields with
        | cons p fields => cases hx
        | nil =>
            cases replies with
            | nil => cases hx
            | cons q replies =>
                simp only [List.map_nil, List.nil_append, List.map_cons, List.cons.injEq,
                  Deed.sent.injEq] at hx
                obtain ⟨⟨hdest, rfl, rfl⟩, hlater⟩ := hx
                obtain rfl : d = 0 := by exact_mod_cast hdest
                rw [hdeed] at hsent
                exact Exchange.send (ih (show Exchanged [] replies g from hlater)) hpending hsent
      · rw [hdeed, Option.toList_some, List.singleton_append] at hx
        cases fields with
        | nil => cases replies <;> cases hx
        | cons p fields =>
            simp only [List.map_cons, List.cons_append, List.cons.injEq, Deed.taken.injEq] at hx
            obtain ⟨⟨hsource, hchannel, rfl⟩, hlater⟩ := hx
            rw [hdeed] at hsent
            rw [hchannel] at htake
            exact (ih hlater).take hsource htake hsent

variable [Memory]

/-- **The operands of the work** that a worker receives are matrices with rows that fit each other. -/
theorem operands_of_receive (hrun : h.run rank w.receive = (.done work, host))
    (hoperands : work.operands? = some (a, b)) :
    w.compute work = w.kernel.multiply a b ∧
      ∃ (type other : IntType) (count inner cols : Nat), 0 < count ∧ work.rowCount = count ∧
        a.IsMatrix type count inner ∧ b.IsMatrix other inner cols := by
  refine ⟨compute_of_operands hoperands, ?_⟩
  have hmeets : w.receive.Meets
      ((roundContract w).before fun work _ => ∃ fields, IsWork w.skipEmpty fields work) [] :=
    meets_receive fun _ fields _ hwork _ _ => ⟨fields, hwork⟩
  obtain ⟨g, -, fields, hwork⟩ := Host.returns_of_run hmeets (fun _ h => h) hrun
  exact hwork.operands hoperands

/-- **A round without a send that is refused** is an exchange with the whole reply to the work, or one
without any reply. -/
theorem exchange_of_round (w : Worker) (h : Host) (hrank : rank < h.network.size)
    (hspares : h.network.Spares rank .send) :
    ∃ fields host, WithinWork w.skipEmpty fields ∧
      ((∃ work block, IsWork w.skipEmpty fields work ∧ work.Fits block ∧
          w.compute work = .ok block ∧ h.run rank w.round = (.done (), host) ∧
          Exchange h rank fields (replyFields work block) host) ∨
        (((∃ e, h.run rank w.round = (.failed e, host)) ∨
            ∃ rest, h.run rank w.round = (.waiting coordinator .work rest, host)) ∧
          Exchange h rank fields [] host)) := by
  have hzero : h.network.hasRank 0 = true := by
    simpa [Network.hasRank] using Nat.zero_lt_of_lt hrank
  obtain ⟨g, host, hserves, hcases⟩ := Host.run_meets (meets_round w) (fun _ h => h) h rank
  rcases hcases with ⟨⟨⟩, ⟨fields, work, block, hx, hwithin, hwork, hblock⟩, hrun⟩ |
    ⟨e, ⟨-, payload, cause, hrefused⟩ | ⟨fields, hx, hwithin, -⟩, hrun⟩ | ⟨r, next, hasks, hrun, hnone⟩
  · exact ⟨fields, host, hwithin, .inl ⟨work, block, hwork, fits_of_compute hwork hblock, hblock, hrun,
      .of_serves hserves hx⟩⟩
  · exact absurd hrefused (hserves.not_refused hspares hzero .result payload cause)
  · exact ⟨fields, host, hwithin, .inr ⟨.inl ⟨e, hrun⟩, .of_serves hserves hx⟩⟩
  · rcases hasks with ⟨⟨fields, hx, hwithin⟩, rfl⟩ | ⟨payload, rfl⟩
    · obtain ⟨after, hwaits, hpending, hsent⟩ := Host.run_waiting next hnone
      exact ⟨fields, after, hwithin, .inr ⟨.inr ⟨_, hrun.trans hwaits⟩,
        (Exchange.of_serves hserves hx).congr hpending hsent⟩⟩
    · -- a send is always answered
      exact absurd rfl (hnone _ _)

/-- **A worker replies in full or not at all**, whatever messages are pending and whatever receives are
refused, as long as none of its sends are. Either it has taken the fields of some work from the
coordinator, in order, and has sent it three messages: the first row and the number of rows it was sent,
and a block of integers that fits the work. Or it has failed or waits, has taken no more than the fields
of some work, and has sent nothing. All other messages are left in their order. The kernel is only called
with operands that are matrices with rows and fit each other, and there is no failure of an index or of a
shape. -/
theorem replies_in_full (w : Worker) (h : Host) {rank : Nat} (hrank : rank < h.network.size)
    (hspares : h.network.Spares rank .send) :
    (∃ fields host, WithinWork w.skipEmpty fields ∧
      ((∃ work block, IsWork w.skipEmpty fields work ∧ work.Fits block ∧
          w.compute work = .ok block ∧ h.run rank w.round = (.done (), host) ∧
          Exchange h rank fields (replyFields work block) host) ∨
        (((∃ e, h.run rank w.round = (.failed e, host)) ∨
            ∃ rest, h.run rank w.round = (.waiting coordinator .work rest, host)) ∧
          Exchange h rank fields [] host))) ∧
    (∀ work host, h.run rank w.receive = (.done work, host) →
      (∀ a b, work.operands? = some (a, b) → w.compute work = w.kernel.multiply a b ∧
        ∃ (type other : IntType) (count inner cols : Nat), 0 < count ∧ work.rowCount = count ∧
          a.IsMatrix type count inner ∧ b.IsMatrix other inner cols) ∧
      (work.operands? = none → ∀ kernel, compute { w with kernel } work = w.compute work)) ∧
    ∀ e host, h.run rank w.round = (.failed e, host) →
      e.kind ≠ .index ∧ ∀ x, e = .kernel x → x.isMisfit = false := by
  refine ⟨exchange_of_round w h hrank hspares, fun work host hrun => ⟨fun a b =>
    operands_of_receive hrun, fun hnone => compute_without_operands hnone⟩, fun e host hrun => ?_⟩
  obtain ⟨g, -, hfails⟩ := Host.fails_of_run (meets_round w) (fun _ h => h) hrun
  rcases hfails with ⟨⟨x, rfl⟩, -⟩ | ⟨fields, -, -, ⟨x, rfl⟩ | ⟨work, x, hwork, hcompute, rfl⟩⟩
  · exact ⟨nofun, nofun⟩
  · exact ⟨nofun, nofun⟩
  · obtain ⟨hfits, hindex⟩ := not_isMisfit_of_compute hwork hcompute
    refine ⟨hindex, fun y hy => ?_⟩
    cases hy
    exact hfits

end

/-- A host of two ranks where work with a matrix of one row and column has been sent to rank one, and
messages from elsewhere before it and in between. The fifth receive of the rank is refused. -/
def crowded : Host :=
  { Host.initial 2 [] ⟨[]⟩ 0 with
    network := ⟨2, [⟨1, 1, .work, .int 7⟩, ⟨0, 1, .work, .int 3⟩, ⟨0, 1, .result, .none⟩,
      ⟨0, 1, .work, .scalar (.int .uint8) 1⟩,
      ⟨0, 1, .work, .tensor (.matrix (.int .int8) 1 1 fun _ _ => 5)⟩,
      ⟨0, 1, .work, .tensor (.matrix (.int .int16) 1 1 fun _ _ => -9)⟩, ⟨0, 1, .work, .none⟩], [],
      [⟨1, .receive, 4⟩]⟩ }

/-- Rank one finds its work among the other messages, and its reply is sent in full. -/
theorem replies_in_full_crowded :
    1 < crowded.network.size ∧ crowded.network.Spares 1 .send ∧
      ∃ (work : Work) (block : Tensor) (host : Host),
        crowded.run 1 (round ⟨⟨1, 2⟩, .rows, false⟩) = (.done (), host) ∧
        work.offset = 3 ∧ work.rowCount = 1 ∧ work.Fits block ∧
        host.network.sent = [⟨1, 0, .result, .tensor block⟩, ⟨1, 0, .result, .int 1⟩,
          ⟨1, 0, .result, .int 3⟩] := by
  have hspares : crowded.network.Spares 1 .send := by simp [crowded, Network.Spares]
  have hdone : ∃ host, crowded.run 1 (round ⟨⟨1, 2⟩, .rows, false⟩) = (.done (), host) := ⟨_, rfl⟩
  obtain ⟨host, hdone⟩ := hdone
  refine ⟨by decide, hspares, ?_⟩
  obtain ⟨fields, host', -, ⟨work, block, hwork, hfits, -, hrun, hx⟩ | ⟨⟨e, hrun⟩ | ⟨rest, hrun⟩, -⟩⟩ :=
    (replies_in_full ⟨⟨1, 2⟩, .rows, false⟩ crowded (by decide) hspares).1
  · cases hdone.symm.trans hrun
    have hsent := hx.sent_eq
    have htaken := hx.taken
    cases hwork with
    | omitted _ _ _ hskip => cases hskip
    | kept hp hq =>
        obtain ⟨_, hrest⟩ := htaken
        cases hrest
        cases hp
        cases hq
        exact ⟨_, block, host, hdone, rfl, rfl, hfits, hsent⟩
  · cases hdone.symm.trans hrun
  · cases hdone.symm.trans hrun

end Worker

end RowBlock
