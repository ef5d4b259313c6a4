import CellCollapse.Proofs.Engine.Record
import CellCollapse.Proofs.Grid.Consistency
import CellCollapse.Proofs.Rule.Failure

set_option autoImplicit false

/-!
# Failures on a grid

A look-up on a grid fails only for a delta that does not have one entry per axis, and then it fails
at every cell. So if all offsets of a table fit the grid, nothing but a weighted choice can raise a
fault. If one of them does not fit, the first cell that has to react raises it, before any call and
before anything is drawn; where no cell is undecided, nothing is looked up at all.
-/
namespace CellCollapse

theorem Space.exists_undecided_iff {σ κ δ : Type} {n : Nat} [CellState σ] (space : Space κ δ n)
    (cells : Vector σ n) :
    (∃ c ∈ space.coordinates, 0 < space.entropyAt cells c) ↔ space.undecided cells ≠ [] := by
  rw [Space.undecided, Ne, List.filter_eq_nil_iff]
  simp

namespace Engine

variable {σ κ δ ρ : Type} {n : Nat} [CellState σ] [BEq κ] {e : Engine σ κ δ ρ n}

omit [BEq κ] in
theorem advance_of_ended {r : Run σ κ ρ n} (ended : ∀ q, e.step r ≠ .running q) (m : Nat) :
    e.advance (m + 1) r = e.step r := by
  rw [advance]
  split
  · rename_i q hq
    exact absurd hq (ended q)
  · rfl

omit [BEq κ] in
theorem step_of_idle (e : Engine σ κ δ ρ n) {r : Run σ κ ρ n} (idle : r.queue = [])
    (done : r.unresolved = []) :
    ∃ r', e.step r = .finished r' ∧ r'.cells = r.cells ∧ r'.context = r.context := by
  simp only [step, idle, select, done]
  exact ⟨_, rfl, rfl, rfl⟩

omit [BEq κ] in
theorem step_of_blocked (e : Engine σ κ δ ρ n) {r : Run σ κ ρ n} {c : κ} {rest : List κ}
    {i : Fin n} {f : Fault} (queued : r.queue = c :: rest) (slot : e.space.slot c = .ok i)
    (undecided : CellState.entropy (r.cells.get i) ≠ 0)
    (blocked : (e.space.neighbors c e.rule.offsets).fault = some f) :
    ∃ r', e.step r = .failed r' (.raised f) ∧ r'.cells = r.cells ∧ r'.context = r.context := by
  simp only [step, queued, propagateAt, slot, undecided, if_false, lookAround, blocked]
  exact ⟨_, rfl, rfl, rfl⟩

/-- Where no look-up succeeds, a collapse is over after one step. -/
theorem collapse_of_blocked (listed : e.space.Listed) (nonneg : ∀ s : σ, 0 ≤ CellState.entropy s)
    (readable : ∀ c ∈ e.space.coordinates, ∃ i, e.space.slot c = .ok i)
    (blocked : ∀ c ∈ e.space.coordinates, ∃ f,
      (e.space.neighbors c e.rule.offsets).fault = some f) (cells : Vector σ n) (context : ρ) :
    (e.space.undecided cells = [] ∧ ∃ r, e.collapse cells context = .finished r ∧
        r.cells = cells ∧ r.context = context) ∨
      ∃ c ∈ e.space.undecided cells, ∃ r f, e.collapse cells context = .failed r (.raised f) ∧
        (e.space.neighbors c e.rule.offsets).fault = some f ∧
        r.cells = cells ∧ r.context = context := by
  obtain ⟨r, start⟩ := start_of_readable readable cells context
  have collapsed : e.collapse cells context = e.advance (e.potential r) r := by
    simp only [collapse, run, start]
  obtain ⟨_, hr⟩ := start_running listed nonneg start
  rw [filter_isOpen_eq_undecided nonneg] at hr
  have cellsEq : r.cells = cells := congrArg Run.cells hr
  have contextEq : r.context = context := congrArg Run.context hr
  have queueEq : r.queue = e.space.undecided cells := congrArg Run.queue hr
  have unresolvedEq : r.unresolved = e.space.undecided cells := congrArg Run.unresolved hr
  cases hq : e.space.undecided cells with
  | nil =>
    obtain ⟨r', finished, kept, drawn⟩ :=
      e.step_of_idle (queueEq.trans hq) (unresolvedEq.trans hq)
    refine .inl ⟨rfl, r', ?_, kept.trans cellsEq, drawn.trans contextEq⟩
    rw [collapsed, potential, advance_of_ended (by simp [finished]), finished]
  | cons c rest =>
    have mem : c ∈ e.space.undecided cells := by simp [hq]
    obtain ⟨listed, positive⟩ := List.mem_filter.1 mem
    obtain ⟨i, slot⟩ := readable c listed
    obtain ⟨f, fault⟩ := blocked c listed
    have undecided : CellState.entropy (r.cells.get i) ≠ 0 := by
      rw [Space.entropyAt_eq slot, decide_eq_true_eq] at positive
      rw [cellsEq]
      omega
    obtain ⟨r', failed, kept, drawn⟩ :=
      e.step_of_blocked (queueEq.trans hq) slot undecided fault
    refine .inr ⟨c, by simp, r', f, ?_, fault, kept.trans cellsEq, drawn.trans contextEq⟩
    rw [collapsed, potential, advance_of_ended (by simp [failed]), failed]

/-- Where no look-up succeeds, no call is made. -/
theorem recorded_of_blocked (listed : e.space.Listed) (nonneg : ∀ s : σ, 0 ≤ CellState.entropy s)
    (readable : ∀ c ∈ e.space.coordinates, ∃ i, e.space.slot c = .ok i)
    (blocked : ∀ c ∈ e.space.coordinates, ∃ f,
      (e.space.neighbors c e.rule.offsets).fault = some f) (cells : Vector σ n) (context : ρ) :
    e.recorded.collapse cells (context, []) = (e.collapse cells context).record [] := by
  have none : (e.recorded.collapse cells (context, [])).run.context.2 = [] := by
    rcases collapse_of_blocked (e := e.recorded) listed nonneg readable blocked cells
      (context, []) with ⟨_, r, finished, _, drawn⟩ | ⟨_, _, r, f, failed, _, _, drawn⟩
    · rw [finished]
      exact congrArg Prod.snd drawn
    · rw [failed]
      exact congrArg Prod.snd drawn
  have same := Outcome.record_mapContext (e.recorded.collapse cells (context, []))
  rw [← e.recorded_extends.collapse_eq cells (context, []), none] at same
  exact same.symm

end Engine

namespace Grid

variable {n : Nat} (g : Grid (Fin n))

/-- A delta that does not fit stops the look-up, whatever the coordinate. -/
theorem neighbors_fault {ds : List Delta} (misfit : ∃ D ∈ ds, D.length ≠ g.axes) (c : Coord) :
    ∃ D : Delta, (g.neighbors c ds ds.length).fault = some (.deltaLength (asValue D) g.axes) := by
  induction ds with
  | nil =>
    obtain ⟨D, hD, _⟩ := misfit
    cases hD
  | cons E ds ih =>
    simp only [neighbors, List.length_cons]
    split
    · exact ⟨E, rfl⟩
    · rename_i fits
      obtain ⟨D, hD, hlength⟩ := misfit
      rcases List.mem_cons.1 hD with rfl | later
      · exact absurd hlength fits
      · exact ih ⟨D, later, hlength⟩

variable {α ρ : Type} [BEq α] [EquivBEq α] [AsValue α]

/-- A fault of a choice is the only one, so its kinds are the only ones. -/
theorem kind_of_failed (t : Table α Delta) {choose : Chooser ρ} {pick : TieBreak ρ}
    {cells : Vector (Possibilities α) n} {context : ρ}
    (matching : ∀ D ∈ t.offsets, D.length = g.axes) {general : Kind}
    (never : ∀ w ws x f y, choose w ws x = (.error f, y) → f.kind.isCaseOf general = false)
    {r : Run (Possibilities α) Coord ρ n} {failure : Failure Coord}
    (failed : (t.engine choose pick g.space).collapse cells context = .failed r failure) :
    failure.kind.isCaseOf general = false := by
  rcases Table.collapse_finished_or_refused (g.space_lawful t.offsets) (g.space_sound matching)
    choose pick cells context with ⟨q, finished⟩ | ⟨q, f, stopped, _, _, _, _, _, _, _, _, refused⟩
  · cases finished.symm.trans failed
  · cases stopped.symm.trans failed
    exact never _ _ _ _ _ refused

/-- With offsets that fit, the only faults are those of the weighted choice in an observation, among
values that the cell had at the start. With one that does not fit, a collapse fails if and only if a
cell is undecided; it changes nothing, draws nothing and makes no call. Cells may share their
state. -/
theorem collapse_failures (t : Table α Delta) (choose : Chooser ρ) (pick : TieBreak ρ)
    (cells : Vector (Possibilities α) n) (context : ρ) :
    let e := t.engine choose pick g.space
    ((∀ D ∈ t.offsets, D.length = g.axes) →
      ((∃ r, e.collapse cells context = .finished r) ∨
        ∃ r f, e.collapse cells context = .failed r (.raised f) ∧ ∃ m q,
          e.moment cells context m = .running q ∧ e.step q = e.collapse cells context ∧
          t.RefusedAt g.space choose pick cells q f) ∧
      ∀ general, (∀ w ws x f y, choose w ws x = (.error f, y) → f.kind.isCaseOf general = false) →
        ∀ r failure, e.collapse cells context = .failed r failure →
          failure.kind.isCaseOf general = false) ∧
    ((∃ D ∈ t.offsets, D.length ≠ g.axes) →
      ((∃ r failure, e.collapse cells context = .failed r failure ∧
          failure.kind = .coordinate) ↔ ∃ c ∈ g.coordinates, 0 < g.space.entropyAt cells c) ∧
      ((∃ r, e.collapse cells context = .finished r) ↔
        ¬ ∃ c ∈ g.coordinates, 0 < g.space.entropyAt cells c) ∧
      (e.collapse cells context).run.cells = cells ∧
      (e.collapse cells context).run.context = context ∧
      e.recorded.collapse cells (context, []) = (e.collapse cells context).record []) := by
  intro e
  have lawful := g.space_lawful t.offsets
  refine ⟨?_, ?_⟩
  · intro matching
    exact ⟨Table.collapse_finished_or_refused lawful (g.space_sound matching) choose pick cells
      context, fun _ never _ _ => g.kind_of_failed t matching never⟩
  · intro misfit
    have blocked : ∀ c ∈ e.space.coordinates, ∃ f,
        (e.space.neighbors c e.rule.offsets).fault = some f := by
      intro c _
      obtain ⟨D, hD⟩ := g.neighbors_fault misfit c
      exact ⟨_, hD⟩
    have uncalled := Engine.recorded_of_blocked (e := e) lawful.toListed
      Possibilities.entropy_nonneg (fun _ => g.get_of_mem) blocked cells context
    have undecided : (∃ c ∈ g.coordinates, 0 < g.space.entropyAt cells c) ↔
        e.space.undecided cells ≠ [] := g.space.exists_undecided_iff cells
    rw [undecided]
    rcases Engine.collapse_of_blocked (e := e) lawful.toListed Possibilities.entropy_nonneg
      (fun _ => g.get_of_mem) blocked cells context with
      ⟨none, r, finished, kept, drawn⟩ | ⟨c, mem, r, f, failed, fault, kept, drawn⟩
    · rw [finished] at uncalled ⊢
      simp [none, uncalled, kept, drawn, Outcome.run]
    · obtain ⟨D, hD⟩ := g.neighbors_fault misfit c
      cases hD.symm.trans fault
      rw [failed] at uncalled ⊢
      simp [List.ne_nil_of_mem mem, uncalled, kept, drawn, Outcome.run, Failure.kind, Fault.kind]

/-- Two cells on two axes that share their state. -/
def sharedSheet : Grid (Fin 1) :=
  ⟨⟨[2, 1], by decide, by decide⟩, false, .ofFn fun _ => ⟨0, Nat.one_pos⟩⟩

/-- A choice that is always refused. -/
def refusing : Chooser Unit := fun _ _ x => (.error .totalNotFinite, x)

def takeFirst : TieBreak Unit := fun _ x => (⟨0, Nat.succ_pos _⟩, x)

-- On the ring all offsets fit, and the first observation is refused its choice. On the sheet they
-- do not fit.
theorem collapse_failures_sharedSheet :
    (∃ r f, (Table.alternating.engine refusing takeFirst ringGrid.space).collapse
        (Vector.replicate 4 (.ofList [0, 1])) () = .failed r (.raised f) ∧
      (∀ general ∈ [Kind.coordinate, .index, .key, .observation],
        f.kind.isCaseOf general = false) ∧
      ∃ q, Table.alternating.RefusedAt ringGrid.space refusing takeFirst
        (Vector.replicate 4 (.ofList [0, 1])) q f) ∧
    ∃ r failure, (Table.alternating.engine refusing takeFirst sharedSheet.space).collapse
      #v[.ofList [0, 1]] () = .failed r failure ∧ failure.kind = .coordinate ∧
        r.cells = #v[.ofList [0, 1]] := by
  refine ⟨?_, ?_⟩
  · obtain ⟨ends, others⟩ := (ringGrid.collapse_failures Table.alternating refusing takeFirst
      (Vector.replicate 4 (.ofList [0, 1])) ()).1 (by decide)
    have stopped : (match (Table.alternating.engine refusing takeFirst ringGrid.space).collapse
        (Vector.replicate 4 (.ofList [0, 1])) () with
      | .failed _ _ => true
      | _ => false) = true := by decide +kernel
    rcases ends with ⟨r, finished⟩ | ⟨r, f, failed, m, q, _, _, refused⟩
    · rw [finished] at stopped
      cases stopped
    · refine ⟨r, f, failed, ?_, q, refused⟩
      intro general hgeneral
      refine others general ?_ r _ failed
      intro w ws x g y raised
      cases raised
      revert general
      decide
  · obtain ⟨fails, _, kept, _⟩ := (sharedSheet.collapse_failures Table.alternating
      refusing takeFirst #v[.ofList [0, 1]] ()).2 (by decide)
    obtain ⟨r, failure, failed, kind⟩ := fails.2 ⟨[0, 0], by decide, by decide⟩
    rw [failed] at kept
    exact ⟨r, failure, failed, kind, kept⟩

end Grid

end CellCollapse
