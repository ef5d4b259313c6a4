import CellCollapse.Proofs.Engine.Record
import CellCollapse.Proofs.Engine.Buffers

set_option autoImplicit false

/-!
# Calls show the present

Whatever an earlier call left in the buffers is overwritten before the next one is made. So each
call shows the present states of a cell and of its neighbors (`Engine.recorded_current`), also where
coordinates share a state or a cell is its own neighbor.
-/
namespace CellCollapse

variable {σ κ δ ρ : Type} {n : Nat}

/-- The call shows the cell at a coordinate and its neighbors as they are. -/
structure Call.Current (call : Call σ) (space : Space κ δ n) (offsets : List δ)
    (cells : Vector σ n) (c : κ) : Prop where
  cell : space.get cells c = .ok call.cell
  length : call.snapshots.length = offsets.length
  present : ∀ l d, space.neighbor? offsets c l = some d → ∃ s, space.get cells d = .ok s ∧
    call.snapshots[l]? = some (some s)
  absent : ∀ l < offsets.length, space.neighbor? offsets c l = none →
    call.snapshots[l]? = some none

theorem Engine.get_of_readable {space : Space κ δ n} {cells : Vector σ n} {ns : List (Option κ)}
    (readable : (snapshotsOf space cells ns).fault = none) {d : κ} (mem : some d ∈ ns) :
    ∃ s, space.get cells d = .ok s := by
  induction ns with
  | nil => cases mem
  | cons o ns ih =>
    cases o with
    | none =>
      refine ih readable ?_
      simpa using mem
    | some c =>
      simp only [snapshotsOf] at readable
      cases hc : space.get cells c with
      | error f => simp [hc, Lookup.stop] at readable
      | ok s =>
        simp only [hc] at readable
        rcases List.mem_cons.1 mem with first | later
        · cases first
          exact ⟨s, hc⟩
        · exact ih readable later

theorem Engine.Buffered.current [CellState σ] {e : Engine σ κ δ ρ n} {r : Run σ κ ρ n}
    (buffered : e.Buffered r) {c : κ} {i : Fin n} {call : Call σ}
    (complete : (e.space.neighbors c e.rule.offsets).fault = none →
      (e.space.neighbors c e.rule.offsets).found.length = e.rule.offsets.length)
    (asks : e.Asks r c i call) : call.Current e.space e.rule.offsets r.cells c := by
  obtain ⟨around, looked⟩ := asks.looked
  have found := complete looked.sound
  obtain ⟨haround, hlength, hviews⟩ := buffered.looked found looked
  refine ⟨?_, hlength, ?_, ?_⟩
  · rw [asks.cell]
    exact Space.get_eq_ok asks.slot r.cells
  · intro l d hd
    have entry := (e.space.neighbor?_eq_some_iff e.rule.offsets c d l).1 hd
    have mem : some d ∈ around := haround ▸ List.mem_of_getElem? entry
    obtain ⟨s, hs⟩ := get_of_readable looked.readable mem
    refine ⟨s, hs, ?_⟩
    rw [hviews, Space.views, List.getElem?_map, entry]
    simp [hs, Except.toOption]
  · intro l hl hnone
    rw [Space.neighbor?, List.getElem?_eq_getElem (found.symm ▸ hl)] at hnone
    rw [hviews, Space.views, List.getElem?_map, List.getElem?_eq_getElem (found.symm ▸ hl)]
    simp only [Option.join_some] at hnone
    simp [hnone]

/-- The record grows step by step, by calls that show the states before the step. -/
theorem Engine.recorded_current [CellState σ] [BEq κ] (e : Engine σ κ δ ρ n)
    (tidy : e.rule.Tidy)
    (complete : ∀ c, (e.space.neighbors c e.rule.offsets).fault = none →
      (e.space.neighbors c e.rule.offsets).found.length = e.rule.offsets.length)
    (cells : Vector σ n) (context : ρ) :
    ∃ calls : Nat → List (Call σ), calls 0 = [] ∧
      (∀ k, e.recorded.moment cells (context, []) k =
        (e.moment cells context k).record (calls k)) ∧
      ∀ k, ∃ more, calls (k + 1) = calls k ++ more ∧ ∀ call ∈ more, ∃ r c,
        e.moment cells context k = .running r ∧ e.next? r = some c ∧
          call.Current e.space e.rule.offsets r.cells c := by
  refine ⟨fun k => (e.recorded.moment cells (context, []) k).run.context.2, ?_, ?_, ?_⟩
  · change (e.recorded.start (e.recorded.fresh cells (context, []))).run.context.2 = []
    rw [start_context]
    rfl
  · intro k
    rw [e.recorded_extends.moment cells (context, []) k, Outcome.record_mapContext]
  · intro k
    obtain ⟨more, grown, asked⟩ := e.recorded_grows cells context k
    refine ⟨more, grown, ?_⟩
    intro call hcall
    obtain ⟨r, c, i, running, asks⟩ := asked call hcall
    exact ⟨r, c, running, asks.next, (buffered_moment tidy running).current (complete c) asks⟩

end CellCollapse
