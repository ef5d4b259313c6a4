import CellCollapse.Proofs.Engine.Record
import CellCollapse.Proofs.Possibilities

set_option autoImplicit false

/-!
# Decided cells are frozen

Whatever a rule does to the cells it is asked about, an engine asks it about undecided cells only,
and a cell that was decided once stays as it is to the end of the run, however the run ends. That
the rule shrinks its cells is not assumed here, so a run need not come to an end at all.
-/
namespace CellCollapse.Engine

variable {σ κ δ ρ : Type} {n : Nat} [CellState σ] [BEq κ] {e : Engine σ κ δ ρ n}
  {cells : Vector σ n} {context : ρ}

theorem frozen_moment {i : Fin n} {j k : Nat} (hjk : j ≤ k)
    (decided : CellState.entropy ((e.moment cells context j).run.cells.get i) = 0) :
    (e.moment cells context k).run.cells.get i = (e.moment cells context j).run.cells.get i := by
  refine moment_rel (fun r r' => CellState.entropy (r.cells.get i) = 0 →
    r'.cells.get i = r.cells.get i) (fun _ _ => rfl) ?_ (fun _ _ move => move.frozen) hjk decided
  intro p q r hpq hqr decided
  have still := hpq decided
  rw [← still] at decided
  exact (hqr decided).trans still

theorem recorded_undecided (nonneg : ∀ s : σ, 0 ≤ CellState.entropy s) (e : Engine σ κ δ ρ n)
    (cells : Vector σ n) (context : ρ) (k : Nat) :
    ∃ calls, e.recorded.moment cells (context, []) k =
        (e.moment cells context k).record calls ∧
      ∀ call ∈ calls, 0 < CellState.entropy call.cell := by
  obtain ⟨calls, hmoment, hcalls⟩ := e.recorded_moment cells context k
  refine ⟨calls, hmoment, ?_⟩
  intro call hcall
  obtain ⟨j, _, r, c, i, _, asks⟩ := hcalls call hcall
  have hle := nonneg (r.cells.get i)
  have hne := asks.undecided
  rw [asks.cell]
  omega

/-- The calls are read off the record of `Engine.recorded`. The bound on the steps of a collapse
plays no part: what is said holds after any number of steps. -/
theorem decided_cells_stay (e : Engine σ κ δ ρ n) (listed : e.space.Listed)
    (nonneg : ∀ s : σ, 0 ≤ CellState.entropy s) (cells : Vector σ n) (context : ρ) :
    (∃ k, e.collapse cells context = e.moment cells context k) ∧
      (∀ k, ∃ calls, e.recorded.moment cells (context, []) k =
          (e.moment cells context k).record calls ∧
        ∀ call ∈ calls, 0 < CellState.entropy call.cell) ∧
      (∀ j k i, j ≤ k → CellState.entropy ((e.moment cells context j).run.cells.get i) = 0 →
        (e.moment cells context k).run.cells.get i =
          (e.moment cells context j).run.cells.get i) ∧
      (∀ k i, CellState.entropy (cells.get i) = 0 →
        (e.moment cells context k).run.cells.get i = cells.get i) ∧
      ∀ k r, e.moment cells context k = .finished r → ∀ c ∈ e.space.coordinates, ∃ s,
        e.space.get r.cells c = .ok s ∧ CellState.entropy s = 0 := by
  have first : (e.moment cells context 0).run.cells = cells := by
    rw [moment, start_cells]
    rfl
  refine ⟨e.exists_collapse_eq_moment cells context, e.recorded_undecided nonneg cells context,
    ?_, ?_, ?_⟩
  · intro j k i hjk decided
    exact frozen_moment hjk decided
  · intro k i decided
    have kept : (e.moment cells context k).run.cells.get i =
        (e.moment cells context 0).run.cells.get i :=
      frozen_moment (Nat.zero_le k) (by rwa [first])
    rwa [first] at kept
  · intro k r finished c hc
    obtain ⟨decided, _⟩ := moment_finished listed nonneg finished
    obtain ⟨i, hi, hzero⟩ := decided c hc
    exact ⟨_, Space.get_eq_ok hi _, hzero⟩

/-- Two cells that are neighbors of each other. -/
def twoCells : Space Nat Nat 2 where
  coordinates := [0, 1]
  slot c := if h : c < 2 then .ok ⟨c, h⟩ else .error .noRoom
  neighbors c ds := ⟨ds.map fun d => some ((c + d) % 2), none⟩
  nowhere _ := false

/-- A rule that brings values back into a cell. -/
def restless : Rule (Possibilities Nat) Nat Unit where
  offsets := [1]
  collapse _ ns x := ⟨.ofList [0, 1, 2], ns, x, none⟩
  observe _ ns x := ⟨.only 0, ns, x, none⟩

theorem decided_cells_stay_restless :
    twoCells.Listed ∧
      CellState.entropy (restless.collapse (.ofList [0, 1]) [none] ()).cell = 2 ∧
      ∃ r, moment ⟨twoCells, restless, fun _ x => (0, x)⟩ #v[.only 5, .ofList [0, 1]] () 4 =
          .finished r ∧ r.cells.get 0 = .only 5 ∧
        ∀ c ∈ twoCells.coordinates, ∃ s, twoCells.get r.cells c = .ok s ∧
          CellState.entropy s = 0 := by
  have listed : twoCells.Listed := ⟨by decide, by decide⟩
  obtain ⟨_, _, _, before, after⟩ := decided_cells_stay ⟨twoCells, restless, fun _ x => (0, x)⟩
    listed Possibilities.entropy_nonneg #v[.only 5, .ofList [0, 1]] ()
  refine ⟨listed, rfl, _, rfl, ?_, after 4 _ rfl⟩
  exact before 4 0 rfl

end CellCollapse.Engine
