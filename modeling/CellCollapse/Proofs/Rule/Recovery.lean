import CellCollapse.Proofs.Engine.Retry
import CellCollapse.Proofs.Rule.Local

set_option autoImplicit false

/-!
# Recovery of a table

The engine of a table may be stopped by a fault in any call, and its run taken up again. A fault
leaves the cells as they are, so what two decided neighbors agreed on is kept between the runs
(`Table.AgreedAt`). That undecided cells are queued or supported (`Table.Steady`) is lost with the
coordinate that was being worked on, and comes back with the next start, which queues all of them.
-/
namespace CellCollapse.Table

variable {α κ δ ρ : Type} [BEq α] {n : Nat} {t : Table α δ}

theorem Governs.guarded {rule : Rule (Possibilities α) δ ρ} (governs : t.Governs rule)
    (refuse : Call (Possibilities α) → ρ → Option Fault × ρ) :
    t.Governs (rule.guarded refuse) where
  offsets := governs.offsets
  collapse s ns x := by
    simp only [Rule.guarded]
    cases refuse ⟨false, s, ns⟩ x with
    | mk fault y =>
      cases fault with
      | some f => exact .inl ⟨y, f, rfl⟩
      | none => exact governs.collapse s ns y
  observe s ns x filled := by
    simp only [Rule.guarded]
    cases refuse ⟨true, s, ns⟩ x with
    | mk fault y =>
      cases fault with
      | some f => exact .inl ⟨y, f, rfl⟩
      | none => exact governs.observe s ns y filled

section Series

variable [EquivBEq α] [BEq κ] [LawfulBEq κ] {e : Engine (Possibilities α) κ δ ρ n}
  {cells : Vector (Possibilities α) n} {r : Run (Possibilities α) κ ρ n}
  (governs : t.Governs e.rule) (lawful : e.space.Lawful t.offsets)
  (readable : ∀ c ∈ e.space.coordinates, ∃ i, e.space.slot c = .ok i)

include governs lawful readable

/-- `C` is about the cells only, so it outlasts a fault. `S` may speak of the queue and has to come
back with a start, when all open coordinates are queued. -/
theorem Governs.attempt_invariant (S : Run (Possibilities α) κ ρ n → Prop)
    (C : Vector (Possibilities α) n → Prop) (first : C cells)
    (ready : ∀ q, (∀ c ∈ e.space.coordinates, e.isOpen q.cells c = true → c ∈ q.queue) → S q)
    (next : ∀ q q', t.Tracked e.space q → S q → C q.cells → e.Move q (.running q') →
      S q' ∧ C q'.cells) {o : Outcome (Possibilities α) κ ρ n} (attempt : e.Attempt cells o) :
    ∃ q, (e.Kept cells q ∧ t.Tracked e.space q ∧ S q ∧ C q.cells) ∧ e.Move q o ∧
      ∀ q', o ≠ .running q' := by
  have hsize := congrArg List.length governs.offsets
  refine Engine.Attempt.induction Possibilities.entropy_nonneg governs.shrinks
    (fun r => t.Tracked e.space r ∧ (∀ i, CellState.entropy (cells.get i) = 0 →
      r.cells.get i = cells.get i) ∧ C r.cells)
    (fun q => e.Kept cells q ∧ t.Tracked e.space q ∧ S q ∧ C q.cells) ?_ ?_ ?_ ?_ ?_ ?_ attempt
  · intro context
    refine ⟨⟨?_, ?_, by simp [Engine.fresh, Run.blank], by simp [Engine.fresh, Run.blank]⟩,
      fun _ _ => rfl, first⟩
    · exact List.length_replicate.trans hsize
    · exact List.length_replicate.trans hsize
  · rintro r context ⟨tracked, frozen, hC⟩
    exact ⟨⟨tracked.around, tracked.views, tracked.queued, tracked.listed⟩, frozen, hC⟩
  · rintro r ⟨tracked, frozen, hC⟩
    obtain ⟨pending, hpending, start⟩ :=
      Engine.start_eq Possibilities.entropy_nonneg readable r
    have inside : ∀ c ∈ pending, c ∈ e.space.coordinates := by
      intro c hc
      rw [hpending, Engine.mem_foldl_addNew] at hc
      exact hc.elim (tracked.listed c) fun h => (List.mem_filter.1 h).1
    have waiting : ∀ c ∈ e.space.coordinates, e.isOpen r.cells c = true → c ∈ pending := by
      intro c hc hopen
      rw [hpending, Engine.mem_foldl_addNew]
      exact .inr (List.mem_filter.2 ⟨hc, hopen⟩)
    refine ⟨_, start, ?_, ?_, ?_, hC⟩
    · exact ⟨frozen, waiting, inside, readable, tracked.around.trans hsize.symm⟩
    · refine ⟨tracked.around, tracked.views, ?_, inside⟩
      intro c hc
      exact (List.mem_append.1 hc).elim (tracked.queued c) (inside c)
    · apply ready
      intro c hc hopen
      exact List.mem_append_right _ (waiting c hc hopen)
  · rintro q ⟨kept, _⟩
    exact kept.room
  · rintro q q' ⟨kept, tracked, hS, hC⟩ move
    exact ⟨kept.move move, (governs.turn_of_move lawful tracked move).2,
      next q q' tracked hS hC move⟩
  · rintro q r f ⟨kept, tracked, _, hC⟩ move
    have same : r.cells = q.cells := governs.cells_of_ended move (by simp)
    refine ⟨governs.tracked_of_failed tracked move, ?_, ?_⟩
    · rw [same]
      exact kept.frozen
    · rw [same]
      exact hC

theorem Governs.attempt_ended {o : Outcome (Possibilities α) κ ρ n} (attempt : e.Attempt cells o) :
    ∀ q, o ≠ .running q := by
  obtain ⟨_, _, _, ended⟩ := governs.attempt_invariant lawful readable (fun _ => True)
    (fun _ => True) trivial (fun _ _ => trivial) (fun _ _ _ _ _ _ => ⟨trivial, trivial⟩) attempt
  exact ended

theorem Governs.attempt_finished (attempt : e.Attempt cells (.finished r)) :
    (∀ c ∈ e.space.coordinates, ∃ i, e.space.slot c = .ok i ∧ (r.cells.get i).entropy = 0) ∧
      ∀ i, (cells.get i).entropy = 0 → r.cells.get i = cells.get i := by
  obtain ⟨q, ⟨kept, _⟩, move, ended⟩ := governs.attempt_invariant lawful readable (fun _ => True)
    (fun _ => True) trivial (fun _ _ => trivial) (fun _ _ _ _ _ _ => ⟨trivial, trivial⟩) attempt
  refine ⟨?_, ?_⟩
  · intro c hc
    obtain ⟨i, hi, decided⟩ := kept.decided lawful.toListed move c hc
    exact ⟨i, hi, by simpa using decided⟩
  · intro i decided
    have same : r.cells = q.cells := governs.cells_of_ended move ended
    rw [same]
    exact kept.frozen i (by simpa using decided)

/-- Two neighbors that are decided by the end agree, unless they were decided before the first
run. -/
theorem Governs.attempt_agreed (apart : e.space.Apart) (balanced : t.Balanced e.space) {c d : κ}
    {k : Nat} {i j : Fin n} (hc : c ∈ e.space.coordinates)
    (hk : e.space.neighbor? t.offsets c k = some d) (hi : e.space.slot c = .ok i)
    (hj : e.space.slot d = .ok j) (other : c ≠ d)
    (live : ¬ ((cells.get i).entropy = 0 ∧ (cells.get j).entropy = 0))
    (attempt : e.Attempt cells (.finished r)) : t.AgreedAt k i j r.cells := by
  have first : t.AgreedAt k i j cells := by
    intro decidedC decidedD
    exact absurd ⟨decidedC, decidedD⟩ live
  have ready : ∀ q : Run (Possibilities α) κ ρ n,
      (∀ f ∈ e.space.coordinates, e.isOpen q.cells f = true → f ∈ q.queue) →
        t.Steady e.space q := by
    intro q queued f hf m hm undecided
    refine .inl (queued f hf ((e.isOpen_iff _ f).2 ⟨m, hm, ?_⟩))
    simpa using undecided
  have next : ∀ q q', t.Tracked e.space q → t.Steady e.space q → t.AgreedAt k i j q.cells →
      e.Move q (.running q') → t.Steady e.space q' ∧ t.AgreedAt k i j q'.cells := by
    intro q q' tracked steady agreed move
    obtain ⟨turn, _⟩ := governs.turn_of_move lawful tracked move
    refine ⟨?_, turn.agreedAt lawful apart balanced steady hc hk hi hj other agreed⟩
    intro f hf
    exact turn.steadyAt lawful apart hf (balanced.twoWay f hf) (steady f hf)
  obtain ⟨q, ⟨_, _, _, agreed⟩, move, ended⟩ := governs.attempt_invariant lawful readable
    (t.Steady e.space) (t.AgreedAt k i j) first ready next attempt
  have same : r.cells = q.cells := governs.cells_of_ended move ended
  rw [same]
  exact agreed

/-- Where no look-up succeeds, no cell ever changes. -/
theorem Governs.attempt_blocked
    (blocked : ∀ c, (e.space.neighbors c e.rule.offsets).fault ≠ none)
    (attempt : e.Attempt cells (.finished r)) : r.cells = cells := by
  have next : ∀ q q', t.Tracked e.space q → True → q.cells = cells →
      e.Move q (.running q') → True ∧ q'.cells = cells := by
    intro q q' _ _ unchanged move
    refine ⟨trivial, ?_⟩
    cases move with
    | skip => exact unchanged
    | react _ _ _ looked => exact absurd looked.sound (blocked _)
    | observe _ _ _ _ looked => exact absurd looked.sound (blocked _)
  obtain ⟨q, ⟨_, _, _, unchanged⟩, move, ended⟩ := governs.attempt_invariant lawful readable
    (fun _ => True) (· = cells) rfl (fun _ _ => trivial) next attempt
  exact (governs.cells_of_ended move ended).trans unchanged

end Series

end CellCollapse.Table
