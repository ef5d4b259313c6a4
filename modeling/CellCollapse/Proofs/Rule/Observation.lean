import CellCollapse.Proofs.Engine.Record
import CellCollapse.Proofs.Grid.Consistency

set_option autoImplicit false

/-!
# Observations of a table

A table that is asked to observe a cell none of whose values is supported falls back on all of them.
An engine never makes it do so. It observes only when the queue is empty, and then every value of an
undecided cell is supported by what the neighbors are at that time, as long as every neighbor of a
cell has that cell for a neighbor too. What the table says need not be the same from both ends.
-/
namespace CellCollapse.Table

variable {α κ δ ρ : Type} [BEq α] [EquivBEq α] [AsValue α] {n : Nat}

omit [AsValue α] in
theorem admits_of_supported {t : Table α δ} {space : Space κ δ n}
    {r : Run (Possibilities α) κ ρ n} {c : κ} {v : α}
    (room : (space.views t.offsets r.cells c).length ≤ t.offsets.length)
    (supported : t.Supported space r.cells c v) :
    t.admits v (space.views t.offsets r.cells c) = .ok true := by
  obtain ⟨b, hb, hiff⟩ := t.admits_eq v room
  rw [hb, hiff.2 ((backed_iff_supported v).2 supported)]

/-- If all values of a cell are admitted, an observation has no candidate to leave out. -/
theorem filter_candidates {t : Table α δ} {cell : Possibilities α}
    {ns : List (Option (Possibilities α))}
    (admitted : ∀ v, cell.contains v = true → t.admits v ns = .ok true) :
    (t.candidates cell).filter (t.keeps ns) = t.candidates cell := by
  rw [List.filter_eq_self]
  intro v hv
  simp only [keeps, admitted v (contains_of_mem_candidates hv)]

variable [BEq κ] {t : Table α δ} {space : Space κ δ n} {choose : Chooser ρ} {pick : TieBreak ρ}
  {cells : Vector (Possibilities α) n} {context : ρ}

/-- What an observation in the step from a moment of a collapse is told. -/
theorem admits_of_asks (lawful : space.Lawful t.offsets) (apart : space.Apart)
    (twoWay : space.TwoWay t.offsets) {k : Nat} {r : Run (Possibilities α) κ ρ n}
    (h : (t.engine choose pick space).moment cells context k = .running r) {c : κ} {i : Fin n}
    {call : Call (Possibilities α)} (asks : (t.engine choose pick space).Asks r c i call)
    (observes : call.observes = true) {v : α} (held : call.cell.contains v = true) :
    t.admits v call.snapshots = .ok true := by
  have tracked := tracked_moment lawful h
  have idle := asks.idle.1 observes
  have mem : c ∈ space.coordinates := by
    refine asks.named.elim ?_ (tracked.listed c)
    rw [idle]
    exact fun absent => absurd absent List.not_mem_nil
  obtain ⟨around, looked⟩ := asks.looked
  obtain ⟨_, room, views⟩ := tracked.looked lawful mem looked
  have undecided : (r.cells.get i).entropy ≠ 0 := by simpa using asks.undecided
  -- The value may be an equal one that the cell does not hold itself.
  rw [asks.cell] at held
  obtain ⟨x, hx, same⟩ := ((r.cells.get i).contains_iff v).1 held
  have steady := steady_moment lawful apart twoWay h
  have supported := steady.supported idle mem asks.slot undecided x hx
  rw [views] at room ⊢
  exact admits_of_supported (Nat.le_of_eq room) (supported.congr same)

/-- The calls are read off the record of `Engine.recorded`. That nothing is filtered out of the
candidates, and that there are some, says that the fallback of `Table.options` is not taken. -/
theorem observes_only_admitted (t : Table α δ) (space : Space κ δ n)
    (lawful : space.Lawful t.offsets) (apart : space.Apart) (twoWay : space.TwoWay t.offsets)
    (choose : Chooser ρ) (pick : TieBreak ρ) (cells : Vector (Possibilities α) n) (context : ρ)
    (k : Nat) :
    ∃ calls, (t.engine choose pick space).recorded.moment cells (context, []) k =
        ((t.engine choose pick space).moment cells context k).record calls ∧
      ∀ call ∈ calls, call.observes = true →
        2 ≤ call.cell.size ∧
          (∀ v, call.cell.contains v = true → t.admits v call.snapshots = .ok true) ∧
          t.candidates call.cell ≠ [] ∧
          (t.candidates call.cell).filter (t.keeps call.snapshots) = t.candidates call.cell := by
  obtain ⟨calls, hmoment, hcalls⟩ :=
    (t.engine choose pick space).recorded_moment cells context k
  refine ⟨calls, hmoment, ?_⟩
  intro call hcall observes
  obtain ⟨j, _, r, c, i, hr, asks⟩ := hcalls call hcall
  have undecided : call.cell.entropy ≠ 0 := by
    rw [asks.cell]
    simpa using asks.undecided
  have admitted : ∀ v, call.cell.contains v = true → t.admits v call.snapshots = .ok true :=
    fun v held => admits_of_asks lawful apart twoWay hr asks observes held
  refine ⟨?_, admitted, ?_, filter_candidates admitted⟩
  · simp only [Possibilities.entropy] at undecided
    omega
  · exact t.candidates_ne_nil (Possibilities.nonempty_of_entropy undecided)

-- Four cells react without a change, then the first cell of the ring is observed.
theorem observes_only_admitted_ring :
    Grid.ringGrid.space.TwoWay alternating.offsets ∧
      ∃ call ∈ ((alternating.engine (fun _ _ x => (.ok 0, x)) (fun _ x => (0, x))
            Grid.ringGrid.space).recorded.moment (Vector.replicate 4 (.ofList [0, 1]))
          ((), []) 5).run.context.2,
        call.observes = true ∧ 2 ≤ call.cell.size ∧
          alternating.admits 0 call.snapshots = .ok true ∧
          alternating.admits 1 call.snapshots = .ok true := by
  have twoWay : Grid.ringGrid.space.TwoWay alternating.offsets :=
    (Grid.ringGrid.space_balanced (by decide) (by decide) Grid.mirrored_alternating).twoWay
  obtain ⟨call, hcall, observes, zero, one⟩ : ∃ call ∈
      ((alternating.engine (fun _ _ x => (.ok 0, x)) (fun _ x => (0, x))
          Grid.ringGrid.space).recorded.moment (Vector.replicate 4 (.ofList [0, 1]))
        ((), []) 5).run.context.2,
      call.observes = true ∧ call.cell.contains 0 = true ∧ call.cell.contains 1 = true := by
    with_unfolding_all
      exact ⟨_, .tail _ (.tail _ (.tail _ (.tail _ (.head _)))), rfl, rfl, rfl⟩
  have apart := Grid.ringGrid.space_apart (by unfold Function.Injective; decide)
  obtain ⟨calls, recorded, consistent⟩ := observes_only_admitted alternating Grid.ringGrid.space
    (Grid.ringGrid.space_lawful _) apart twoWay (fun _ _ x => (.ok 0, x)) (fun _ x => (0, x))
    (Vector.replicate 4 (.ofList [0, 1])) () 5
  have listed : call ∈ calls := by
    rwa [recorded, Outcome.calls_record] at hcall
  obtain ⟨size, admitted, _⟩ := consistent call listed observes
  exact ⟨twoWay, call, hcall, observes, size, admitted 0 zero, admitted 1 one⟩

end CellCollapse.Table
