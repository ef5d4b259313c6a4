import CellCollapse.Proofs.Engine.Simulation
import CellCollapse.Proofs.Memory.Basic

set_option autoImplicit false

/-!
# Runs on references and runs on values

`RefRun.view` reads a run on references: the values of the cells, and those behind the references in
the buffer. A rule on references answers a rule on values if it leaves the cells as the latter
would, whatever it does to the clones that it was handed (`RefRule.Answers`). Its engine then goes
through the moments of the engine on values: `RefEngine.moment_view`.
-/
namespace CellCollapse

variable {σ κ δ ρ : Type} {n : Nat}

def RefRun.view (r : RefRun σ κ ρ n) : Run σ κ ρ n where
  cells := r.memory.cells
  context := r.context
  queue := r.queue
  unresolved := r.unresolved
  candidates := r.candidates
  neighbors := r.neighbors
  snapshots := r.memory.values r.snapshots
  observations := r.observations
  propagations := r.propagations
  events := r.events

namespace RefOutcome

def run : RefOutcome σ κ ρ n → RefRun σ κ ρ n
  | .running r => r
  | .finished r => r
  | .failed r _ => r

def view : RefOutcome σ κ ρ n → Outcome σ κ ρ n
  | .running r => .running r.view
  | .finished r => .finished r.view
  | .failed r failure => .failed r.view failure

theorem run_view (o : RefOutcome σ κ ρ n) : o.view.run = o.run.view := by
  cases o <;> rfl

end RefOutcome

/-- The call leaves the cells, the context and a fault as the reply of a rule on values says. -/
structure Effect.Agrees (effect : Effect σ ρ n) (m : Memory σ n) (i : Fin n) (reply : Reply σ ρ) :
    Prop where
  cells : effect.memory.cells = m.cells.set i.val reply.cell i.isLt
  context : effect.context = reply.context
  fault : effect.fault = reply.fault

theorem Effect.Agrees.cell {effect : Effect σ ρ n} {m : Memory σ n} {i : Fin n}
    {reply : Reply σ ρ} (agrees : effect.Agrees m i reply) : effect.memory.cell i = reply.cell := by
  rw [← Memory.get_cells, agrees.cells, get_set, if_pos rfl]

/-- Handed clones, the rule on references changes no cell but its own, and that one as the rule on
values does. -/
structure RefRule.Answers (rule : RefRule σ δ ρ n) (plain : Rule σ δ ρ) : Prop where
  offsets : rule.offsets = plain.offsets
  collapse : ∀ (m : Memory σ n) (i : Fin n) refs x, m.Copies refs →
    (rule.collapse i.val refs m x).Agrees m i (plain.collapse (m.cell i) (m.values refs) x)
  observe : ∀ (m : Memory σ n) (i : Fin n) refs x, m.Copies refs →
    (rule.observe i.val refs m x).Agrees m i (plain.observe (m.cell i) (m.values refs) x)

namespace RefEngine

def plain (e : RefEngine σ κ δ ρ n) (rule : Rule σ δ ρ) : Engine σ κ δ ρ n :=
  ⟨e.space, rule, e.pick⟩

structure Buffered (e : RefEngine σ κ δ ρ n) (r : RefRun σ κ ρ n) : Prop where
  around : r.neighbors.length = e.rule.offsets.length
  views : r.snapshots.length = e.rule.offsets.length

variable {e : RefEngine σ κ δ ρ n} {rule : Rule σ δ ρ} {r : RefRun σ κ ρ n}

theorem Buffered.lookAround (buffered : e.Buffered r) (c : κ) :
    e.Buffered (e.lookAround c r).1 := by
  simp only [RefEngine.lookAround]
  split
  · exact ⟨(Lookup.length_overwrite _ _).trans buffered.around, buffered.views⟩
  · exact ⟨(Lookup.length_overwrite _ _).trans buffered.around,
      (Lookup.length_overwrite _ _).trans buffered.views⟩

/-- A look around that meets no fault fills the buffer with clones, and they have the values that
the engine on values would show. -/
theorem lookAround_view (offsets : e.rule.offsets = rule.offsets) (buffered : e.Buffered r)
    (c : κ) :
    ∃ r' q fault, e.lookAround c r = (r', fault) ∧
      (e.plain rule).lookAround c r.view = (q, fault) ∧ r'.view.Resembles Eq q ∧
      (fault = none → r'.memory.Copies r'.snapshots ∧
        r'.memory.values r'.snapshots = q.snapshots) := by
  have neighbors : r.view.neighbors = r.neighbors := rfl
  have cells : r.view.cells = r.memory.cells := rfl
  simp only [RefEngine.lookAround, Engine.lookAround, plain, offsets, neighbors, cells]
  cases (e.space.neighbors c rule.offsets).fault with
  | some f =>
    refine ⟨_, _, some f, rfl, rfl, ⟨fun _ => rfl, rfl, rfl, rfl, rfl, rfl, rfl, rfl, rfl⟩, ?_⟩
    intro contradictory
    cases contradictory
  | none =>
    have length : ((e.space.neighbors c rule.offsets).overwrite r.neighbors).length =
        r.snapshots.length := by
      rw [Lookup.length_overwrite, buffered.around, buffered.views]
    generalize (e.space.neighbors c rule.offsets).overwrite r.neighbors = around at length ⊢
    have cloned := Memory.clones_spec e.space r.memory around
    refine ⟨_, _, _, rfl, Prod.ext rfl cloned.fault.symm, ?_, ?_⟩
    · refine ⟨fun i => ?_, rfl, rfl, rfl, rfl, rfl, rfl, rfl, rfl⟩
      exact congrArg (Vector.get · i) cloned.grows.cells
    · intro readable
      have views := Engine.length_snapshotsOf (cloned.fault.symm.trans readable)
      have refs : (r.memory.clones e.space around).2.found.length = around.length := by
        rw [← views, ← cloned.values, Memory.values, List.length_map]
      have width : r.view.snapshots.length = r.snapshots.length := List.length_map _
      dsimp only
      -- The clones take up the whole buffer, so nothing of an earlier call is left in it.
      rw [Lookup.overwrite_eq_found (refs.trans length),
        Lookup.overwrite_eq_found (views.trans (length.trans width.symm))]
      refine ⟨?_, cloned.values⟩
      intro ref mem
      obtain ⟨above, below⟩ := cloned.fresh ref mem
      exact ⟨Nat.le_trans r.memory.room above, below⟩

theorem cells_view {q : Run σ κ ρ n} (like : r.view.Resembles Eq q) :
    r.memory.cells = q.cells := by
  apply Vector.ext
  intro i hi
  exact like.cells ⟨i, hi⟩

/-- The engine on values asks what the references stand for. -/
theorem asked_view {τ : Type} {q : Run σ κ ρ n} (like : r.view.Resembles Eq q)
    (snapshots : r.memory.values r.snapshots = q.snapshots) (i : Fin n)
    (ask : σ → List (Option σ) → ρ → τ) : ask (q.cells.get i) q.snapshots q.context =
      ask (r.memory.cell i) (r.memory.values r.snapshots) r.context := by
  rw [← like.cells, ← like.context, snapshots, ← r.memory.get_cells]
  rfl

/-- A call on references and the call on the values that they have. -/
theorem adopt_view {q : Run σ κ ρ n} (like : r.view.Resembles Eq q) (i : Fin n)
    {effect : Effect σ ρ n} {reply : Reply σ ρ} (agrees : effect.Agrees r.memory i reply) :
    (adopt r effect).view.Resembles Eq (Engine.adopt q i reply) := by
  refine { like with cells := fun j => ?_, context := agrees.context }
  change effect.memory.cells.get j = (q.cells.set i.val reply.cell i.isLt).get j
  rw [agrees.cells, cells_view like]

variable [CellState σ]

theorem isOpen_view (e : RefEngine σ κ δ ρ n) (rule : Rule σ δ ρ) (m : Memory σ n) :
    e.isOpen m = (e.plain rule).isOpen m.cells := by
  funext c
  simp only [RefEngine.isOpen, Engine.isOpen, plain, Space.get]
  cases e.space.slot c with
  | error f => rfl
  | ok i => simp only [Except.map, Memory.get_cells]

theorem propagateAt_view (answers : e.rule.Answers rule) (buffered : e.Buffered r) (c : κ) :
    (e.propagateAt c r).view.Resembles Eq ((e.plain rule).propagateAt c r.view) := by
  obtain ⟨r', q, fault, hr, hq, like, views⟩ := lookAround_view answers.offsets buffered c
  have space : (e.plain rule).space = e.space := rfl
  have same : (e.plain rule).rule = rule := rfl
  have cell : ∀ i, r.view.cells.get i = r.memory.cell i := r.memory.get_cells
  simp only [RefEngine.propagateAt, Engine.propagateAt, space, same, cell, hr, hq]
  cases e.space.slot c with
  | error f => exact .failed _ (.refl _)
  | ok i =>
    by_cases decided : CellState.entropy (r.memory.cell i) = 0
    · simp only [decided, if_true]
      exact .running (.refl _)
    · simp only [decided, if_false]
      cases fault with
      | some f => exact .failed _ like
      | none =>
        obtain ⟨copies, snapshots⟩ := views rfl
        have agrees := answers.collapse r'.memory i r'.snapshots r'.context copies
        have call := asked_view like snapshots i rule.collapse
        have adopted := adopt_view like i agrees
        have counted := congrArg (· + 1) adopted.propagations
        have left : (adopt r' (e.rule.collapse i.val r'.snapshots r'.memory r'.context)).memory.cell
            i = _ := agrees.cell
        simp only [call, left, agrees.fault]
        cases (rule.collapse (r'.memory.cell i) _ r'.context).fault with
        | some f => exact .failed _ adopted
        | none =>
          dsimp only
          split
          · refine .running { adopted with queue := ?_, propagations := counted }
            simp only [RefRun.view, isOpen_view e rule, cells_view adopted,
              ← adopted.queue, ← adopted.neighbors]
          · exact .running { adopted with propagations := counted }

theorem observeAt_view (answers : e.rule.Answers rule) (buffered : e.Buffered r) (c : κ) :
    (e.observeAt c r).view.Resembles Eq ((e.plain rule).observeAt c r.view) := by
  obtain ⟨r', q, fault, hr, hq, like, views⟩ := lookAround_view answers.offsets
    (r := { r with queue := [] }) ⟨buffered.around, buffered.views⟩ c
  have space : (e.plain rule).space = e.space := rfl
  have same : (e.plain rule).rule = rule := rfl
  have emptied : { r.view with queue := [] } = RefRun.view { r with queue := [] } := rfl
  simp only [RefEngine.observeAt, Engine.observeAt, space, same, hr, emptied, hq]
  cases fault with
  | some f => exact .failed _ like
  | none =>
    cases e.space.slot c with
    | error f => exact .failed _ like
    | ok i =>
      obtain ⟨copies, snapshots⟩ := views rfl
      have agrees := answers.observe r'.memory i r'.snapshots r'.context copies
      have call := asked_view like snapshots i rule.observe
      have adopted := adopt_view like i agrees
      have counted := congrArg (· + 1) adopted.observations
      have left : (adopt r' (e.rule.observe i.val r'.snapshots r'.memory r'.context)).memory.cell
          i = _ := agrees.cell
      simp only [call, left, agrees.fault]
      cases (rule.observe (r'.memory.cell i) (r'.memory.values r'.snapshots) r'.context).fault with
      | some f => exact .failed _ adopted
      | none =>
        dsimp only
        split
        · refine .running { adopted with queue := ?_, observations := counted, events := ?_ }
          · exact congrArg (List.filterMap id) adopted.neighbors
          · exact congrArg (· ++ [.observed c]) adopted.events
        · exact .failed _ { adopted with observations := counted }

theorem step_view (answers : e.rule.Answers rule) (buffered : e.Buffered r) :
    (e.step r).view.Resembles Eq ((e.plain rule).step r.view) := by
  have queue : r.view.queue = r.queue := rfl
  have chosen : (e.plain rule).select r.view = ((e.select r).1.view, (e.select r).2) := rfl
  simp only [RefEngine.step, Engine.step, queue, chosen]
  cases r.queue with
  | cons c rest =>
    exact propagateAt_view (r := { r with queue := rest }) answers
      ⟨buffered.around, buffered.views⟩ c
  | nil =>
    have kept : e.Buffered (e.select r).1 := ⟨buffered.around, buffered.views⟩
    generalize e.select r = selected at kept ⊢
    match selected with
    | (q, .error f) => exact .failed f (.refl _)
    | (q, .ok none) => exact .finished (.refl _)
    | (q, .ok (some c)) => exact observeAt_view answers kept c

theorem Buffered.propagateAt (buffered : e.Buffered r) (c : κ) :
    e.Buffered (e.propagateAt c r).run := by
  have looked := buffered.lookAround c
  simp only [RefEngine.propagateAt]
  cases e.space.slot c with
  | error f => exact buffered
  | ok i =>
    dsimp only
    split
    · exact buffered
    · generalize e.lookAround c r = around at looked ⊢
      obtain ⟨q, fault⟩ := around
      have adopted : ∀ effect, e.Buffered (adopt q effect) :=
        fun _ => ⟨looked.around, looked.views⟩
      cases fault with
      | some f => exact looked
      | none =>
        dsimp only
        split
        · exact adopted _
        · split
          · exact ⟨looked.around, looked.views⟩
          · exact ⟨looked.around, looked.views⟩

theorem Buffered.observeAt (buffered : e.Buffered r) (c : κ) :
    e.Buffered (e.observeAt c r).run := by
  have looked := Buffered.lookAround (r := { r with queue := [] })
    ⟨buffered.around, buffered.views⟩ c
  simp only [RefEngine.observeAt]
  generalize e.lookAround c { r with queue := [] } = around at looked ⊢
  obtain ⟨q, fault⟩ := around
  cases fault with
  | some f => exact looked
  | none =>
    cases e.space.slot c with
    | error f => exact looked
    | ok i =>
      dsimp only
      split
      · exact ⟨looked.around, looked.views⟩
      · split
        · exact ⟨looked.around, looked.views⟩
        · exact ⟨looked.around, looked.views⟩

theorem Buffered.step (buffered : e.Buffered r) : e.Buffered (e.step r).run := by
  simp only [RefEngine.step]
  cases r.queue with
  | cons c rest =>
    exact Buffered.propagateAt (r := { r with queue := rest }) ⟨buffered.around, buffered.views⟩ c
  | nil =>
    have kept : e.Buffered (e.select r).1 := ⟨buffered.around, buffered.views⟩
    generalize e.select r = selected at kept ⊢
    match selected with
    | (q, .error f) => exact kept
    | (q, .ok none) => exact ⟨kept.around, kept.views⟩
    | (q, .ok (some c)) => exact kept.observeAt c

omit [CellState σ] in
theorem Buffered.view (buffered : e.Buffered r) (offsets : e.rule.offsets = rule.offsets) :
    (e.plain rule).Buffered r.view :=
  ⟨buffered.around.trans (congrArg List.length offsets),
    (List.length_map _).trans (buffered.views.trans (congrArg List.length offsets))⟩

theorem step_like (answers : e.rule.Answers rule) (buffered : e.Buffered r) {q : Run σ κ ρ n}
    (filled : (e.plain rule).Buffered q) (like : r.view.Resembles Eq q) :
    (e.step r).view.Resembles Eq ((e.plain rule).step q) :=
  (step_view answers buffered).trans
    ((Engine.Resembles.refl _).step like (buffered.view answers.offsets) filled)

theorem advance_like (answers : e.rule.Answers rule) (tidy : rule.Tidy) (steps : Nat)
    (buffered : e.Buffered r) {q : Run σ κ ρ n} (filled : (e.plain rule).Buffered q)
    (like : r.view.Resembles Eq q) :
    (e.advance steps r).view.Resembles Eq ((e.plain rule).advance steps q) := by
  induction steps generalizing r q with
  | zero => exact .running like
  | succ steps ih =>
    have stepped := step_like answers buffered filled like
    have kept := buffered.step
    have moved := (e.plain rule).step_move q
    rw [RefEngine.advance, Engine.advance]
    generalize e.step r = o at stepped kept ⊢
    generalize (e.plain rule).step q = o' at stepped moved ⊢
    cases o with
    | running r =>
      cases stepped with
      | running alike => exact ih kept (filled.move tidy moved) alike
    | finished r =>
      cases stepped with
      | finished alike => exact .finished alike
    | failed r f =>
      cases stepped with
      | failed _ alike => exact .failed f alike

variable [BEq κ]

theorem start_view (offsets : e.rule.offsets = rule.offsets) (r : RefRun σ κ ρ n) :
    (e.start r).view = (e.plain rule).start r.view := by
  have space : (e.plain rule).space = e.space := rfl
  have same : (e.plain rule).rule = rule := rfl
  have cells : r.view.cells = r.memory.cells := rfl
  simp only [RefEngine.start, Engine.start, space, same, cells, ← offsets]
  cases (Engine.readings e.space r.memory.cells e.space.coordinates).2 <;> rfl

theorem Buffered.start (buffered : e.Buffered r) : e.Buffered (e.start r).run := by
  simp only [RefEngine.start]
  split
  · exact ⟨buffered.around, buffered.views⟩
  · exact ⟨buffered.around, buffered.views⟩

/-- A collapse that has ended stays as it is. -/
def moment (e : RefEngine σ κ δ ρ n) (cells : Vector σ n) (context : ρ) :
    Nat → RefOutcome σ κ ρ n
  | 0 => e.start (e.fresh cells context)
  | k + 1 =>
    match e.moment cells context k with
    | .running r => e.step r
    | outcome => outcome

variable {cells : Vector σ n} {context : ρ}

theorem buffered_moment (e : RefEngine σ κ δ ρ n) (cells : Vector σ n) (context : ρ) (k : Nat) :
    e.Buffered (e.moment cells context k).run := by
  induction k with
  | zero =>
    apply Buffered.start
    exact ⟨List.length_replicate, List.length_replicate⟩
  | succ k ih =>
    rw [RefEngine.moment]
    cases ho : e.moment cells context k with
    | running r =>
      rw [ho] at ih
      exact ih.step
    | finished r =>
      rw [ho] at ih
      exact ih
    | failed r f =>
      rw [ho] at ih
      exact ih

omit [CellState σ] [BEq κ] in
theorem fresh_view (offsets : e.rule.offsets = rule.offsets) :
    (e.fresh cells context).view.Resembles Eq ((e.plain rule).fresh cells context) := by
  refine ⟨fun i => ?_, rfl, rfl, rfl, rfl, ?_, rfl, rfl, rfl⟩
  · exact congrArg (Vector.get · i) (Memory.cells_ofCells cells)
  · exact congrArg (List.replicate · none) (congrArg List.length offsets)

/-- Moment by moment, the engine on references does what the engine on values does. -/
theorem moment_view (answers : e.rule.Answers rule) (tidy : rule.Tidy) (cells : Vector σ n)
    (context : ρ) (k : Nat) : (e.moment cells context k).view.Resembles Eq
      ((e.plain rule).moment cells context k) := by
  induction k with
  | zero =>
    rw [RefEngine.moment, start_view answers.offsets]
    exact (Engine.Resembles.refl _).start (fresh_view answers.offsets)
  | succ k ih =>
    rw [RefEngine.moment, Engine.moment]
    have buffered := e.buffered_moment cells context k
    generalize e.moment cells context k = o at ih buffered
    generalize ho : (e.plain rule).moment cells context k = o' at ih
    cases o with
    | running r =>
      cases ih with
      | running like => exact step_like answers buffered (Engine.buffered_moment tidy ho) like
    | finished r =>
      cases ih with
      | finished like => exact .finished like
    | failed r f =>
      cases ih with
      | failed _ like => exact .failed f like

theorem collapse_view (answers : e.rule.Answers rule) (tidy : rule.Tidy) (cells : Vector σ n)
    (context : ρ) : (e.collapse cells context).view.Resembles Eq
      ((e.plain rule).collapse cells context) := by
  have first := moment_view answers tidy cells context 0
  have buffered := e.buffered_moment cells context 0
  rw [RefEngine.moment] at first buffered
  rw [RefEngine.collapse, Engine.collapse, Engine.run]
  generalize ho : (e.plain rule).moment cells context 0 = o' at first
  generalize e.start (e.fresh cells context) = o at first buffered ⊢
  have started : (e.plain rule).start ((e.plain rule).fresh cells context) = o' := ho
  rw [started]
  cases o with
  | running r =>
    cases first with
    | running like =>
      have bound : (e.plain rule).potential r.view = e.potential r := by
        rw [RefEngine.potential, answers.offsets]
        rfl
      dsimp only
      rw [(Engine.Resembles.refl _).potential like, bound]
      exact advance_like answers tidy _ buffered (Engine.buffered_moment tidy ho) like
  | finished r =>
    cases first with
    | finished like => exact .finished like
  | failed r f =>
    cases first with
    | failed _ like => exact .failed f like

end RefEngine

end CellCollapse
