import CellCollapse.Proofs.Grid.Neighbors
import CellCollapse.Proofs.Rule.Turn

set_option autoImplicit false

/-!
# Solutions survive propagation

A solution gives every cell one of its values, so that all neighbors may stand beside each other.
As long as cells are observed to their values in a solution, propagation never takes one of these
values away. So a cell that runs out of values before the first observation shows that there is no
solution, and a collapse that needs no observation finds the only one.
-/
namespace CellCollapse

/-- The cells still have the values that an assignment gives them. -/
def Space.Offers {α κ δ : Type} [BEq α] {n : Nat} (space : Space κ δ n)
    (cells : Vector (Possibilities α) n) (s : κ → α) : Prop :=
  ∀ c ∈ space.coordinates, ∀ i, space.slot c = .ok i → (cells.get i).contains (s c) = true

/-- If the step after moment `j` observed a cell, that cell has its value in the assignment. -/
def Engine.ObservedAs {α κ δ ρ : Type} [BEq α] [BEq κ] {n : Nat}
    (e : Engine (Possibilities α) κ δ ρ n) (cells : Vector (Possibilities α) n) (context : ρ)
    (s : κ → α) (j : Nat) : Prop :=
  ∀ c i, (e.moment cells context (j + 1)).run.events =
      (e.moment cells context j).run.events ++ [.observed c] → e.space.slot c = .ok i →
    ((e.moment cells context (j + 1)).run.cells.get i).contains (s c) = true

namespace Table

variable {α κ δ ρ : Type} [BEq α] {n : Nat}

/-- The values of all neighbors of `c` may stand beside that of `c`. -/
def Fits (t : Table α δ) (space : Space κ δ n) (s : κ → α) (c : κ) : Prop :=
  ∀ k d, space.neighbor? t.offsets c k = some d → t.permits (s c) k (s d) = true

structure Solution (t : Table α δ) (space : Space κ δ n) (cells : Vector (Possibilities α) n)
    (s : κ → α) : Prop where
  offers : space.Offers cells s
  fits : ∀ c ∈ space.coordinates, t.Fits space s c

variable {t : Table α δ} {space : Space κ δ n} {cells : Vector (Possibilities α) n} {s : κ → α}
  {r r' : Run (Possibilities α) κ ρ n}

theorem offers_set (apart : space.Apart) (offers : space.Offers cells s) {c : κ} {i : Fin n}
    {cell : Possibilities α} (mem : c ∈ space.coordinates) (slot : space.slot c = .ok i)
    (holds : cell.contains (s c) = true) : space.Offers (cells.set i.val cell i.isLt) s := by
  intro d hd j hj
  rw [get_set]
  split
  · rename_i hij
    subst hij
    rw [apart d hd c mem i hj slot]
    exact holds
  · exact offers d hd j hj

variable [EquivBEq α] [BEq κ]

theorem supported_of_fits (lawful : space.Lawful t.offsets)
    (offers : space.Offers cells s) {c : κ} (mem : c ∈ space.coordinates)
    (fits : t.Fits space s c) : t.Supported space cells c (s c) := by
  intro k d j hd hj
  have hoffered := offers d (lawful.closed c mem k d hd) j hj
  obtain ⟨b, hb, same⟩ := ((cells.get j).contains_iff (s d)).1 hoffered
  exact ⟨b, hb, (t.permits_congr_right same (s c) k).trans (fits k d hd)⟩

/-- A turn keeps an assignment that fits at the undecided cells, if it observes no cell to another
value. -/
theorem Turn.offers (lawful : space.Lawful t.offsets) (apart : space.Apart)
    (turn : t.Turn space r r') (offers : space.Offers r.cells s)
    (fits : ∀ c ∈ space.coordinates, ∀ i, space.slot c = .ok i → (r.cells.get i).entropy ≠ 0 →
      t.Fits space s c)
    (honest : ∀ c i, r'.observations = r.observations + 1 →
      r'.events = r.events ++ [.observed c] → space.slot c = .ok i →
        (r'.cells.get i).contains (s c) = true) : space.Offers r'.cells s := by
  cases turn with
  | skip _ _ _ hcells => rwa [hcells]
  | @react c i rest woken keep _ mem slot undecided kept hcells =>
    have hkept := (kept (s c)).2 (supported_of_fits lawful offers mem (fits c mem i slot undecided))
    have congr : ∀ x, (x == s c) = true → keep x = keep (s c) := by
      intro x hx
      rw [Bool.eq_iff_iff, kept, kept]
      exact ⟨Supported.congr hx, Supported.congr (BEq.symm hx)⟩
    rw [hcells]
    refine offers_set apart offers mem slot ?_
    rw [Possibilities.contains_filter _ keep _ congr, offers c mem i slot, hkept, Bool.and_self]
  | @observe c i v _ mem slot _ _ hcells _ count event =>
    have holds := honest c i count event slot
    rw [hcells, get_set, if_pos rfl] at holds
    rw [hcells]
    exact offers_set apart offers mem slot holds

variable [AsValue α] {choose : Chooser ρ} {pick : TieBreak ρ} {context : ρ}

theorem offers_moment (lawful : space.Lawful t.offsets) (apart : space.Apart)
    (solution : t.Solution space cells s) {k : Nat}
    (honest : ∀ j < k, ∀ r r', (t.engine choose pick space).moment cells context j = .running r →
      (t.engine choose pick space).moment cells context (j + 1) = .running r' →
      ∀ c i, r'.observations = r.observations + 1 → r'.events = r.events ++ [.observed c] →
        space.slot c = .ok i → (r'.cells.get i).contains (s c) = true) :
    space.Offers ((t.engine choose pick space).moment cells context k).run.cells s := by
  refine cells_moment_induction lawful (space.Offers · s) (Nat.zero_le k) ?_ ?_
  · rw [Engine.moment, Engine.start_cells]
    exact solution.offers
  · intro j hj r r' hr hr' turn offers
    exact turn.offers lawful apart offers (fun c mem _ _ _ => solution.fits c mem)
      (honest j hj r r' hr hr')

theorem offers_of_unobserved (lawful : space.Lawful t.offsets) (apart : space.Apart)
    (solution : t.Solution space cells s) {k : Nat}
    (none : ((t.engine choose pick space).moment cells context k).run.observations = 0) :
    space.Offers ((t.engine choose pick space).moment cells context k).run.cells s := by
  refine offers_moment lawful apart solution ?_
  intro j hj r r' _ hr' c i count
  have hmono : ((t.engine choose pick space).moment cells context (j + 1)).run.observations ≤
      ((t.engine choose pick space).moment cells context k).run.observations :=
    Engine.observations_moment_mono hj
  rw [hr', none] at hmono
  change r'.observations ≤ 0 at hmono
  omega

/-- Without an observation a finished collapse has come to the values of every solution. -/
theorem value_of_unobserved (lawful : space.Lawful t.offsets) (apart : space.Apart)
    (solution : t.Solution space cells s)
    (returned : (t.engine choose pick space).collapse cells context = .finished r)
    (unobserved : r.observations = 0) {c : κ} (mem : c ∈ space.coordinates) :
    ∃ i v, space.slot c = .ok i ∧ (r.cells.get i).value? = some v ∧ (v == s c) = true := by
  obtain ⟨k, hk⟩ := Engine.exists_collapse_eq_moment (t.engine choose pick space) cells context
  rw [returned] at hk
  obtain ⟨decided, _⟩ :=
    Engine.moment_finished lawful.toListed Possibilities.entropy_nonneg hk.symm
  obtain ⟨i, slot, hzero⟩ := decided c mem
  have none : ((t.engine choose pick space).moment cells context k).run.observations = 0 := by
    rw [← hk]
    exact unobserved
  have offers := offers_of_unobserved lawful apart solution none
  rw [← hk] at offers
  have holds : (r.cells.get i).contains (s c) = true := offers c mem i slot
  obtain ⟨v, hv⟩ := Possibilities.exists_value? (by simpa using hzero)
    (Possibilities.isEmpty_eq_false_of_contains holds)
  obtain ⟨x, hx, same⟩ := ((r.cells.get i).contains_iff (s c)).1 holds
  rw [((r.cells.get i).value?_eq_some_iff v).1 hv, List.mem_singleton] at hx
  exact ⟨i, v, slot, hv, hx ▸ same⟩

/-- Propagation never discards a solution. -/
theorem solutions_survive (t : Table α δ) (choose : Chooser ρ) (pick : TieBreak ρ)
    (space : Space κ δ n) (lawful : space.Lawful t.offsets) (apart : space.Apart)
    (cells : Vector (Possibilities α) n) (context : ρ) :
    (∀ s, t.Solution space cells s → ∀ k,
      (∀ j < k, (t.engine choose pick space).ObservedAs cells context s j) →
        space.Offers ((t.engine choose pick space).moment cells context k).run.cells s) ∧
    (∀ k c i, ((t.engine choose pick space).moment cells context k).run.observations = 0 →
      c ∈ space.coordinates → space.slot c = .ok i →
      (((t.engine choose pick space).moment cells context k).run.cells.get i).isEmpty = true →
        ¬ ∃ s, t.Solution space cells s) ∧
    (∀ r s, (t.engine choose pick space).collapse cells context = .finished r →
      r.observations = 0 → t.Solution space cells s → ∀ c ∈ space.coordinates,
        (∃ i v, space.slot c = .ok i ∧ (r.cells.get i).value? = some v ∧ (v == s c) = true) ∧
        ∀ s', t.Solution space cells s' → (s c == s' c) = true) := by
  refine ⟨?_, ?_, ?_⟩
  · intro s solution k observed
    refine offers_moment lawful apart solution ?_
    intro j hj r r' hr hr' c i _ event slot
    have := observed j hj c i
    rw [hr, hr'] at this
    exact this event slot
  · rintro k c i unobserved mem slot empty ⟨s, solution⟩
    have offers := offers_of_unobserved lawful apart solution unobserved c mem i slot
    rw [Possibilities.isEmpty_eq_false_of_contains offers] at empty
    cases empty
  · intro r s returned unobserved solution c mem
    obtain ⟨i, v, slot, hv, same⟩ :=
      value_of_unobserved lawful apart solution returned unobserved mem
    refine ⟨⟨i, v, slot, hv, same⟩, ?_⟩
    intro s' solution'
    obtain ⟨j, w, slot', hw, same'⟩ :=
      value_of_unobserved lawful apart solution' returned unobserved mem
    cases slot.symm.trans slot'
    cases hv.symm.trans hw
    exact BEq.trans (BEq.symm same) same'

/-- Zeros and ones in turn along a chain. -/
def alternating : Table Int Delta where
  offsets := chainSteps
  entries := [⟨0, [[1], [1]], .one⟩, ⟨1, [[0], [0]], .one⟩]
  width := by decide
  distinct := by decide
  positive := by decide

/-- A chain of two cells. -/
def pairGrid : Grid (Fin 2) := ⟨⟨[2], by decide, by decide⟩, false, #v[0, 1]⟩

theorem solution_pairGrid :
    alternating.Solution pairGrid.space #v[.only 0, .ofList [0, 1]] fun c => c.headD 0 := by
  have hcoords : ∀ c ∈ pairGrid.space.coordinates, c = [0] ∨ c = [1] := by decide
  refine ⟨?_, ?_⟩
  · intro c hc i hi
    rcases hcoords c hc with rfl | rfl
    · cases (show pairGrid.space.slot [0] = .ok 0 from rfl).symm.trans hi
      decide
    · cases (show pairGrid.space.slot [1] = .ok 1 from rfl).symm.trans hi
      decide
  · intro c hc k d hd
    rw [pairGrid.neighbor?_eq_some_iff (by decide)] at hd
    obtain ⟨D, hD, hoffset⟩ := hd
    rcases hcoords c hc with rfl | rfl
    · match k, hD with
      | 0, hD => cases hD; cases hoffset
      | 1, hD => cases hD; cases hoffset; decide
    · match k, hD with
      | 0, hD => cases hD; cases hoffset; decide
      | 1, hD => cases hD; cases hoffset

theorem solutions_survive_pairGrid :
    ∃ r, (alternating.engine (fun _ _ x => (.ok 0, x)) (fun _ x => (0, x)) pairGrid.space).collapse
        #v[.only 0, .ofList [0, 1]] () = .finished r ∧
      ∀ c ∈ pairGrid.space.coordinates, ∃ i v, pairGrid.space.slot c = .ok i ∧
        (r.cells.get i).value? = some v ∧ (v == c.headD 0) = true := by
  refine ⟨_, rfl, fun c hc => ?_⟩
  exact ((solutions_survive alternating (fun _ _ x => (.ok 0, x)) (fun _ x => (0, x)) pairGrid.space
    (pairGrid.space_lawful _) (pairGrid.space_apart (by unfold Function.Injective; decide))
    #v[.only 0, .ofList [0, 1]] ()).2.2 _ _ rfl rfl solution_pairGrid c hc).1

end Table

end CellCollapse
