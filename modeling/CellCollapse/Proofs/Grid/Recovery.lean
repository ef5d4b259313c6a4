import CellCollapse.Proofs.Grid.Failure
import CellCollapse.Proofs.Rule.Recovery

set_option autoImplicit false

/-!
# Recovery on a grid

A collapse of a grid that was stopped by faults, in whatever calls, and taken up again each time is
as good as one that went through: once a run finishes, every cell is decided and the neighbors that
were decided on the way fit each other.
-/
namespace CellCollapse.Grid

variable {α ρ : Type} [BEq α] [EquivBEq α] [AsValue α] {n : Nat} (g : Grid (Fin n))

/-- No run of the series is cut off, and what holds of the last one does not depend on how many
failed before it or where. An offset that does not fit the grid stops every run that has anything
to do. -/
theorem retry_recovers (apart : Function.Injective g.cells.get) (t : Table α Delta)
    (closed : ∀ D ∈ t.offsets, negate D ∈ t.offsets) (mirrored : t.Mirrored)
    (loopless : g.space.Loopless t.offsets) (choose : Chooser ρ) (pick : TieBreak ρ)
    (refuse : Call (Possibilities α) → ρ → Option Fault × ρ)
    (cells : Vector (Possibilities α) n) {o : Outcome (Possibilities α) Coord ρ n}
    (attempt : ((t.engine choose pick g.space).guarded refuse).Attempt cells o) :
    (∀ q, o ≠ .running q) ∧ ∀ r, o = .finished r →
      (∀ c ∈ g.coordinates, ∃ i, g.space.slot c = .ok i ∧ (r.cells.get i).entropy = 0) ∧
      (∀ i, (cells.get i).entropy = 0 → r.cells.get i = cells.get i) ∧
      ∀ c ∈ g.coordinates, ∀ k d i j, g.space.neighbor? t.offsets c k = some d →
        g.space.slot c = .ok i → g.space.slot d = .ok j →
        (r.cells.get i).isEmpty = false → (r.cells.get j).isEmpty = false →
        ¬ ((cells.get i).entropy = 0 ∧ (cells.get j).entropy = 0) →
          ∃ v w, (r.cells.get i).value? = some v ∧ (r.cells.get j).value? = some w ∧
            t.permits v k w = true := by
  have lawful := g.space_lawful t.offsets
  have readable : ∀ c ∈ g.coordinates, ∃ i, g.space.slot c = .ok i := fun _ => g.get_of_mem
  have governs : t.Governs ((t.engine choose pick g.space).guarded refuse).rule :=
    (t.governs_rule choose).guarded refuse
  refine ⟨governs.attempt_ended lawful readable attempt, ?_⟩
  rintro r rfl
  obtain ⟨decided, kept⟩ := governs.attempt_finished lawful readable attempt
  refine ⟨decided, kept, ?_⟩
  intro c hc k d i j next hi hj filledC filledD live
  have settled : ∀ f ∈ g.coordinates, ∀ m, g.space.slot f = .ok m →
      (r.cells.get m).entropy = 0 := by
    intro f hf m hm
    obtain ⟨m', hm', zero⟩ := decided f hf
    cases hm.symm.trans hm'
    exact zero
  have decidedC := settled c hc i hi
  have decidedD := settled d (lawful.closed c hc k d next) j hj
  by_cases matching : ∀ D ∈ t.offsets, D.length = g.axes
  · have other : c ≠ d := by
      rintro rfl
      exact loopless c hc k next
    exact (governs.attempt_agreed lawful readable (g.space_apart apart)
      (g.space_balanced matching closed mirrored) hc next hi hj other live attempt).permits
        decidedC decidedD filledC filledD
  · have blocked : ∀ f, (g.neighbors f t.offsets t.offsets.length).fault ≠ none := by
      intro f
      obtain ⟨D, hD⟩ := g.neighbors_fault (by simpa using matching) f
      rw [hD]
      simp
    have unchanged := governs.attempt_blocked lawful readable blocked attempt
    rw [unchanged] at decidedC decidedD
    exact absurd ⟨decidedC, decidedD⟩ live

/-- Zeros and ones around a ring, behind a guard that counts the calls and refuses two of them. -/
def interruptedRing : Engine (Possibilities Int) Coord Delta Nat 4 :=
  (Table.alternating.engine (fun _ ws x => (.ok (Fin.last ws.length), x))
    (fun m x => (Fin.last m, x)) ringGrid.space).guarded fun _ x =>
      (if x = 1 ∨ x = 8 then some (.foreign .runtime "refused") else none, x + 1)

-- The first run stops at its second call. The next one lets all cells react again and stops at its
-- first observation, and the third one finishes.
theorem retry_recovers_interruptedRing :
    ∃ r₁ r₂ r₃ f₁ f₂,
      interruptedRing.collapse (Vector.replicate 4 (.ofList [0, 1])) 0 = .failed r₁ f₁ ∧
      interruptedRing.run (r₁.resume r₁.cells r₁.context) = .failed r₂ f₂ ∧
      interruptedRing.run (r₂.resume r₂.cells r₂.context) = .finished r₃ ∧
      r₁.propagations = 1 ∧ r₂.propagations = 7 ∧ r₂.observations = 0 ∧
      ∃ v w, (r₃.cells.get 3).value? = some v ∧ (r₃.cells.get 0).value? = some w ∧
        Table.alternating.permits v 1 w = true := by
  obtain ⟨r₁, r₂, r₃, f₁, f₂, first, second, third, early, late, unobserved, last, zeroth⟩ :
      ∃ r₁ r₂ r₃ f₁ f₂,
        interruptedRing.collapse (Vector.replicate 4 (.ofList [0, 1])) 0 = .failed r₁ f₁ ∧
        interruptedRing.run (r₁.resume r₁.cells r₁.context) = .failed r₂ f₂ ∧
        interruptedRing.run (r₂.resume r₂.cells r₂.context) = .finished r₃ ∧
        r₁.propagations = 1 ∧ r₂.propagations = 7 ∧ r₂.observations = 0 ∧
        (r₃.cells.get 3).isEmpty = false ∧ (r₃.cells.get 0).isEmpty = false := by
    with_unfolding_all exact ⟨_, _, _, _, _, rfl, rfl, rfl, rfl, rfl, rfl, rfl, rfl⟩
  have one : interruptedRing.Attempt (Vector.replicate 4 (.ofList [0, 1])) (.failed r₁ f₁) :=
    first ▸ .first 0
  have two := one.again r₁.context
  rw [second] at two
  have three := two.again r₂.context
  rw [third] at three
  have loopless : ringGrid.space.Loopless Table.alternating.offsets :=
    ringGrid.space_loopless (by decide) (by decide)
  obtain ⟨_, recovered⟩ := ringGrid.retry_recovers (by unfold Function.Injective; decide)
    Table.alternating (by decide) mirrored_alternating loopless _ _ _ _ three
  obtain ⟨_, _, fits⟩ := recovered r₃ rfl
  exact ⟨r₁, r₂, r₃, f₁, f₂, first, second, third, early, late, unobserved,
    fits [3] (by decide) 1 [0] 3 0 rfl rfl rfl last zeroth (by decide)⟩

end CellCollapse.Grid
