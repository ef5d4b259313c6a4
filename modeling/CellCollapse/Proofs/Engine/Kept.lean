import CellCollapse.Proofs.Engine.Move

set_option autoImplicit false

/-!
# What every engine keeps

Whatever its rule does, an engine never changes a decided cell, and every undecided cell of the
space is still among the unresolved ones. So a run that finds nothing left to choose has decided
every cell.
-/
namespace CellCollapse.Engine

variable {σ κ δ ρ : Type} {n : Nat} [CellState σ] {e : Engine σ κ δ ρ n} {cells : Vector σ n}

structure Kept (e : Engine σ κ δ ρ n) (cells : Vector σ n) (r : Run σ κ ρ n) : Prop where
  frozen : ∀ i, CellState.entropy (cells.get i) = 0 → r.cells.get i = cells.get i
  pending : ∀ c ∈ e.space.coordinates, e.isOpen r.cells c = true → c ∈ r.unresolved
  listed : ∀ c ∈ r.unresolved, c ∈ e.space.coordinates
  readable : ∀ c ∈ e.space.coordinates, ∃ i, e.space.slot c = .ok i
  room : r.neighbors.length = e.rule.offsets.length

theorem filter_isOpen_eq_undecided (nonneg : ∀ s : σ, 0 ≤ CellState.entropy s)
    (e : Engine σ κ δ ρ n) (cells : Vector σ n) :
    e.space.coordinates.filter (e.isOpen cells) = e.space.undecided cells := by
  apply List.filter_congr
  intro c _
  rw [Bool.eq_iff_iff, isOpen_iff, decide_eq_true_eq, Space.entropyAt, Space.get]
  cases e.space.slot c with
  | error f => simp [Except.map]
  | ok i =>
    have := nonneg (cells.get i)
    simp only [Except.map, Except.ok.injEq, exists_eq_left']
    omega

/-- No move opens a decided cell again. -/
theorem Move.isOpen_before {r : Run σ κ ρ n} {o : Outcome σ κ ρ n} (move : e.Move r o) {c : κ}
    (h : e.isOpen o.run.cells c = true) : e.isOpen r.cells c = true := by
  obtain ⟨i, hi, undecided⟩ := (e.isOpen_iff _ c).1 h
  refine (e.isOpen_iff _ c).2 ⟨i, hi, ?_⟩
  intro decided
  rw [move.frozen decided] at undecided
  exact undecided decided

theorem Kept.move {r r' : Run σ κ ρ n} (kept : e.Kept cells r) (move : e.Move r (.running r')) :
    e.Kept cells r' := by
  have frozen : ∀ i, CellState.entropy (cells.get i) = 0 → r'.cells.get i = cells.get i := by
    intro i decided
    have before := kept.frozen i decided
    exact (move.frozen (by rw [before]; exact decided)).trans before
  have before : ∀ c, e.isOpen r'.cells c = true → e.isOpen r.cells c = true :=
    fun c => move.isOpen_before
  cases move with
  | skip => exact ⟨frozen, kept.pending, kept.listed, kept.readable, kept.room⟩
  | react _ _ _ looked =>
    refine ⟨frozen, ?_, kept.listed, kept.readable, looked.length_around.trans kept.room⟩
    intro c hc hopen
    exact kept.pending c hc (before c hopen)
  | observe _ _ _ _ looked =>
    refine ⟨frozen, ?_, ?_, kept.readable, looked.length_around.trans kept.room⟩
    · intro c hc hopen
      exact List.mem_filter.2 ⟨kept.pending c hc (before c hopen), before c hopen⟩
    · intro c hc
      exact kept.listed c (List.mem_filter.1 hc).1

/-- A run that finishes has decided every cell. -/
theorem Kept.decided [BEq κ] {q r : Run σ κ ρ n} (kept : e.Kept cells q) (listed : e.space.Listed)
    (move : e.Move q (.finished r)) : ∀ c ∈ e.space.coordinates, ∃ i, e.space.slot c = .ok i ∧
      CellState.entropy (r.cells.get i) = 0 := by
  intro c hc
  obtain ⟨i, hi⟩ := kept.readable c hc
  refine ⟨i, hi, ?_⟩
  cases move with
  | finish idle done =>
    by_cases hopen : e.isOpen q.cells c = true
    · have pending := kept.pending c hc hopen
      rcases done with closed | ⟨d, hd, nowhere⟩
      · rw [closed c pending] at hopen
        cases hopen
      · rw [listed.named d (kept.listed d hd)] at nowhere
        cases nowhere
    · apply Decidable.byContradiction
      intro undecided
      exact hopen ((e.isOpen_iff _ c).2 ⟨i, hi, undecided⟩)

end CellCollapse.Engine
