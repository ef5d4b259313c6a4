import CellCollapse.Proofs.Engine.Current
import CellCollapse.Proofs.Memory.Simulation
import CellCollapse.Proofs.Rule.Turn

set_option autoImplicit false

/-!
# Snapshots are isolated

The neighbors that a rule is handed are clones. A rule may empty every one of them, and its engine
still takes the same steps (`RefEngine.snapshots_isolated`): no reference to a state of the space is
ever in the buffer, and what an earlier call left in the clones is not handed out again. So each
call shows the present states of the neighbors, also where coordinates share a state or a cell is
its own neighbor.
-/
namespace CellCollapse

variable {σ κ δ ρ : Type} {n : Nat}

def Reply.write (reply : Reply σ ρ) (m : Memory σ n) (i : Fin n) : Effect σ ρ n :=
  ⟨m.write i.val reply.cell, reply.context, reply.fault⟩

/-- The rule on references writes nothing but its cell, and what it does depends on values alone:
those of the cell, of the snapshots that it is handed, and its context. -/
structure RefRule.Realizes (rule : RefRule σ δ ρ n) (plain : Rule σ δ ρ) : Prop where
  offsets : rule.offsets = plain.offsets
  only : plain.CellOnly
  collapse : ∀ (m : Memory σ n) (i : Fin n) refs x, m.Copies refs →
    rule.collapse i.val refs m x = (plain.collapse (m.cell i) (m.values refs) x).write m i
  observe : ∀ (m : Memory σ n) (i : Fin n) refs x, m.Copies refs →
    rule.observe i.val refs m x = (plain.observe (m.cell i) (m.values refs) x).write m i

theorem Reply.agrees_write (reply : Reply σ ρ) (m : Memory σ n) (i : Fin n) :
    (reply.write m i).Agrees m i reply :=
  ⟨m.cells_write i reply.cell, rfl, rfl⟩

theorem RefRule.Realizes.answers {rule : RefRule σ δ ρ n} {plain : Rule σ δ ρ}
    (realizes : rule.Realizes plain) : rule.Answers plain := by
  refine ⟨realizes.offsets, ?_, ?_⟩
  · intro m i refs x copies
    rw [realizes.collapse m i refs x copies]
    exact Reply.agrees_write _ m i
  · intro m i refs x copies
    rw [realizes.observe m i refs x copies]
    exact Reply.agrees_write _ m i

theorem Memory.write_cell (m : Memory σ n) (i : Fin n) : m.write i.val (m.cell i) = m := by
  have same : m.states.set i.val (m.cell i) = m.states :=
    List.set_getElem_self (Nat.lt_of_lt_of_le i.isLt m.room)
  simp only [write, same]

/-- Retaining values and collapsing to one of them, a table does what its rule on values says. -/
theorem Table.realizes_refRule {α : Type} [BEq α] [AsValue α] (t : Table α δ)
    (choose : Chooser ρ) : (t.refRule choose : RefRule _ δ ρ n).Realizes (t.rule choose) := by
  have held : ∀ (m : Memory (Possibilities α) n) (i : Fin n),
      m.possibilities i.val = m.cell i := by
    intro m i
    rw [Memory.possibilities, m.read?_cell, Option.getD_some]
  refine ⟨rfl, t.cellOnly_rule choose, ?_, ?_⟩
  · intro m i refs x _
    simp only [refRule, collapseRef, rule, collapse, held]
    cases t.firstFault? (m.values refs) (m.cell i).toList with
    | some f => simp only [Reply.write, m.write_cell]
    | none => simp only [Reply.write, Memory.retain, held]
  · intro m i refs x _
    simp only [refRule, observeRef, rule, observe, held]
    cases t.firstFault? (m.values refs) (t.candidates (m.cell i)) with
    | some f => simp only [Reply.write, m.write_cell]
    | none =>
      cases t.options (m.cell i) (m.values refs) with
      | nil => simp only [Reply.write, m.write_cell]
      | cons v vs =>
        dsimp only
        rcases choose (t.weightOr v) (vs.map t.weightOr) x with ⟨_ | _, _⟩
        · simp only [Reply.write, m.write_cell]
        · rfl

section Wiping

variable {α : Type} [BEq α]

def Memory.wipe (m : Memory (Possibilities α) n) (refs : List (Option Ref)) :
    Memory (Possibilities α) n :=
  refs.foldl (fun m o => o.elim m fun ref => m.retain ref fun _ => false) m

/-- The effect after every neighbor that was handed out has lost its values. A call that met a
fault does not get that far. -/
def Effect.wiped (effect : Effect (Possibilities α) ρ n) (refs : List (Option Ref)) :
    Effect (Possibilities α) ρ n :=
  match effect.fault with
  | none => { effect with memory := effect.memory.wipe refs }
  | some _ => effect

def RefRule.wiping (rule : RefRule (Possibilities α) δ ρ n) :
    RefRule (Possibilities α) δ ρ n where
  offsets := rule.offsets
  collapse cell refs m x := (rule.collapse cell refs m x).wiped refs
  observe cell refs m x := (rule.observe cell refs m x).wiped refs

def RefEngine.wiping (e : RefEngine (Possibilities α) κ δ ρ n) :
    RefEngine (Possibilities α) κ δ ρ n :=
  { e with rule := e.rule.wiping }

/-- Emptied clones are no cells. -/
theorem Memory.cells_wipe (m : Memory (Possibilities α) n) {refs : List (Option Ref)}
    (copies : ∀ ref, some ref ∈ refs → n ≤ ref) : (m.wipe refs).cells = m.cells := by
  induction refs generalizing m with
  | nil => rfl
  | cons o refs ih =>
    have rest := fun m => ih m fun ref mem => copies ref (List.mem_cons_of_mem o mem)
    cases o with
    | none => exact rest m
    | some ref => exact (rest _).trans (m.cells_write_copy (copies ref List.mem_cons_self) _)

theorem Effect.Agrees.wiped {effect : Effect (Possibilities α) ρ n}
    {m : Memory (Possibilities α) n} {i : Fin n} {reply : Reply (Possibilities α) ρ}
    (agrees : effect.Agrees m i reply) {refs : List (Option Ref)} (copies : m.Copies refs) :
    (effect.wiped refs).Agrees m i reply := by
  have kept := effect.memory.cells_wipe fun ref mem => (copies ref mem).1
  unfold Effect.wiped
  split
  · exact ⟨kept.trans agrees.cells, agrees.context, agrees.fault⟩
  · exact agrees

theorem RefRule.Answers.wiping {rule : RefRule (Possibilities α) δ ρ n}
    {plain : Rule (Possibilities α) δ ρ} (answers : rule.Answers plain) :
    rule.wiping.Answers plain :=
  ⟨answers.offsets,
    fun m i refs x copies => (answers.collapse m i refs x copies).wiped copies,
    fun m i refs x copies => (answers.observe m i refs x copies).wiped copies⟩

end Wiping

section Recording

/-- The values that a call is about; a reference to nothing makes no call. -/
def Memory.calls (m : Memory σ n) (observes : Bool) (cell : Ref) (refs : List (Option Ref)) :
    List (Call σ) :=
  (m.read? cell).toList.map fun s => ⟨observes, s, m.values refs⟩

def Effect.record (effect : Effect σ ρ n) (calls : List (Call σ)) :
    Effect σ (ρ × List (Call σ)) n :=
  ⟨effect.memory, (effect.context, calls), effect.fault⟩

/-- The rule that does the same and enters the values of every call into its record. -/
def RefRule.recorded (rule : RefRule σ δ ρ n) : RefRule σ δ (ρ × List (Call σ)) n where
  offsets := rule.offsets
  collapse cell refs m x :=
    (rule.collapse cell refs m x.1).record (x.2 ++ m.calls false cell refs)
  observe cell refs m x :=
    (rule.observe cell refs m x.1).record (x.2 ++ m.calls true cell refs)

def RefEngine.recorded (e : RefEngine σ κ δ ρ n) : RefEngine σ κ δ (ρ × List (Call σ)) n where
  space := e.space
  rule := e.rule.recorded
  pick m x := ((e.pick m x.1).1, (e.pick m x.1).2, x.2)

theorem Memory.calls_cell (m : Memory σ n) (observes : Bool) (i : Fin n)
    (refs : List (Option Ref)) :
    m.calls observes i.val refs = [⟨observes, m.cell i, m.values refs⟩] := by
  rw [calls, read?_cell]
  rfl

theorem RefRule.Answers.recorded {rule : RefRule σ δ ρ n} {plain : Rule σ δ ρ}
    (answers : rule.Answers plain) : rule.recorded.Answers plain.recorded := by
  have noted : ∀ {effect : Effect σ ρ n} {m : Memory σ n} {i : Fin n} {reply : Reply σ ρ}
      (calls : List (Call σ)), effect.Agrees m i reply →
        (effect.record calls).Agrees m i (reply.record calls) := by
    intro effect m i reply calls agrees
    exact ⟨agrees.cells, congrArg (·, calls) agrees.context, agrees.fault⟩
  refine ⟨answers.offsets, ?_, ?_⟩
  · intro m i refs x copies
    simp only [RefRule.recorded, Rule.recorded, m.calls_cell]
    exact noted _ (answers.collapse m i refs x.1 copies)
  · intro m i refs x copies
    simp only [RefRule.recorded, Rule.recorded, m.calls_cell]
    exact noted _ (answers.observe m i refs x.1 copies)

end Recording

theorem Rule.Tidy.recorded {rule : Rule σ δ ρ} (tidy : rule.Tidy) : rule.recorded.Tidy :=
  ⟨fun s ns x => tidy.collapse s ns x.1, fun s ns x => tidy.observe s ns x.1⟩

theorem Outcome.Resembles.record {o o' : Outcome σ κ ρ n} (h : o.Resembles Eq o')
    (calls : List (Call σ)) : (o.record calls).Resembles Eq (o'.record calls) := by
  have noted : ∀ {r r' : Run σ κ ρ n}, r.Resembles Eq r' →
      (r.record calls).Resembles Eq (r'.record calls) := by
    intro r r' h
    exact ⟨h.cells, congrArg (·, calls) h.context, h.queue, h.unresolved, h.candidates, h.neighbors,
      h.observations, h.propagations, h.events⟩
  cases h with
  | running h => exact .running (noted h)
  | finished h => exact .finished (noted h)
  | failed f h => exact .failed f (noted h)

namespace RefEngine

section Current

variable [CellState σ]

/-- The coordinate that the step after `r` turns to. -/
def next? (e : RefEngine σ κ δ ρ n) (r : RefRun σ κ ρ n) : Option κ :=
  match r.queue with
  | c :: _ => some c
  | [] => (e.select r).2.toOption.join

variable {e : RefEngine σ κ δ ρ n} {rule : Rule σ δ ρ}

theorem next?_view {r : RefRun σ κ ρ n} {q : Run σ κ ρ n} (like : r.view.Resembles Eq q) :
    (e.plain rule).next? q = e.next? r := by
  obtain ⟨_, _, choice, hr, hq, _⟩ := (Engine.Resembles.refl (e.plain rule)).select like
  have chosen : (e.plain rule).select r.view = ((e.select r).1.view, (e.select r).2) := rfl
  have same : (e.select r).2 = choice := congrArg Prod.snd (chosen.symm.trans hr)
  rw [Engine.next?, RefEngine.next?, ← like.queue, hq, same]
  rfl

/-- Every call of a run on references shows the states that the cells have before the step. -/
theorem recorded_current [BEq κ] (answers : e.rule.Answers rule) (tidy : rule.Tidy)
    (complete : ∀ c, (e.space.neighbors c e.rule.offsets).fault = none →
      (e.space.neighbors c e.rule.offsets).found.length = e.rule.offsets.length)
    (cells : Vector σ n) (context : ρ) :
    ∃ calls : Nat → List (Call σ), calls 0 = [] ∧
      (∀ k, (e.recorded.moment cells (context, []) k).view.Resembles Eq
        ((e.moment cells context k).view.record (calls k))) ∧
      ∀ k, ∃ more, calls (k + 1) = calls k ++ more ∧ ∀ call ∈ more, ∃ r c,
        e.moment cells context k = .running r ∧ e.next? r = some c ∧
          call.Current e.space e.rule.offsets r.memory.cells c := by
  -- The calls are those of the engine on values; both recorders read the same values.
  have alike := moment_view answers tidy cells context
  rw [answers.offsets] at complete ⊢
  obtain ⟨calls, none, recorded, grows⟩ :=
    (e.plain rule).recorded_current tidy complete cells context
  refine ⟨calls, none, ?_, ?_⟩
  · intro k
    have noted : (e.recorded.moment cells (context, []) k).view.Resembles Eq
        ((e.plain rule).recorded.moment cells (context, []) k) :=
      moment_view answers.recorded tidy.recorded cells (context, []) k
    rw [recorded k] at noted
    exact noted.trans ((alike k).record (calls k)).symm
  · intro k
    obtain ⟨more, grown, asked⟩ := grows k
    refine ⟨more, grown, ?_⟩
    intro call hcall
    obtain ⟨q, c, running, next, current⟩ := asked call hcall
    have like := alike k
    rw [running] at like
    cases ho : e.moment cells context k with
    | running r =>
      rw [ho] at like
      cases like with
      | running like =>
        rw [next?_view like] at next
        rw [← cells_view like] at current
        exact ⟨r, c, rfl, next, current⟩
    | finished r =>
      rw [ho] at like
      cases like
    | failed r f =>
      rw [ho] at like
      cases like

end Current

variable {α : Type} [BEq α] [BEq κ]

/-- The engine and the one whose rule empties what it is handed agree in every moment and in how
they end. In both, the call of a step is about the coordinate that the step turns to and shows the
states from before the step, if the look-ups of the space fill the buffer. -/
theorem snapshots_isolated (e : RefEngine (Possibilities α) κ δ ρ n)
    {rule : Rule (Possibilities α) δ ρ} (realizes : e.rule.Realizes rule)
    (cells : Vector (Possibilities α) n) (context : ρ) :
    (∀ k, (e.moment cells context k).view.Resembles Eq (e.wiping.moment cells context k).view) ∧
      (e.collapse cells context).view.Resembles Eq (e.wiping.collapse cells context).view ∧
      ((∀ c, (e.space.neighbors c e.rule.offsets).fault = none →
          (e.space.neighbors c e.rule.offsets).found.length = e.rule.offsets.length) →
        ∀ e', e' = e ∨ e' = e.wiping → ∃ calls : Nat → List (Call (Possibilities α)),
          calls 0 = [] ∧
          (∀ k, (e'.recorded.moment cells (context, []) k).view.Resembles Eq
            ((e'.moment cells context k).view.record (calls k))) ∧
          ∀ k, ∃ more, calls (k + 1) = calls k ++ more ∧ ∀ call ∈ more, ∃ r c,
            e'.moment cells context k = .running r ∧ e'.next? r = some c ∧
              call.Current e.space e.rule.offsets r.memory.cells c) := by
  have tidy := realizes.only.tidy
  have answers := realizes.answers
  refine ⟨?_, ?_, ?_⟩
  · intro k
    exact (moment_view answers tidy cells context k).trans
      (moment_view (e := e.wiping) answers.wiping tidy cells context k).symm
  · exact (collapse_view answers tidy cells context).trans
      (collapse_view (e := e.wiping) answers.wiping tidy cells context).symm
  · rintro complete e' (rfl | rfl)
    · exact recorded_current answers tidy complete cells context
    · exact recorded_current (e := e.wiping) answers.wiping tidy complete cells context

/-- Three coordinates in a ring, of which two share a state. Each is a neighbor of itself. -/
def sharedRing : Space Nat Nat 2 where
  coordinates := [0, 1, 2]
  slot c :=
    if c < 2 then .ok ⟨0, Nat.two_pos⟩
    else if c = 2 then .ok ⟨1, Nat.one_lt_two⟩
    else .error .noRoom
  neighbors c ds := ⟨ds.map fun d => some ((c + d) % 3), none⟩
  nowhere _ := false

/-- Values that stand only next to themselves. -/
def uniform : Table Nat Nat where
  offsets := [0, 1]
  entries := [⟨1, [[1], [1]], .one⟩, ⟨2, [[2], [2]], .one⟩, ⟨3, [[3], [3]], .one⟩]
  width := by decide
  distinct := by decide
  positive := by decide

def joined : RefEngine (Possibilities Nat) Nat Nat Unit 2 :=
  ⟨sharedRing, uniform.refRule fun _ _ x => (.ok 0, x), fun m x => (Fin.last m, x)⟩

def overlapping : Vector (Possibilities Nat) 2 := #v[.ofList [1, 2], .ofList [2, 3]]

/-- The clones in the buffer are empty when the run is over, and none of the three calls of the
first three steps was shown them. -/
theorem snapshots_isolated_sharedRing :
    joined.rule.Realizes (uniform.rule fun _ _ x => (.ok 0, x)) ∧
      (∃ r, joined.wiping.collapse overlapping () = .finished r ∧
        r.memory.cells = #v[.only 2, .only 2] ∧
        r.memory.values r.snapshots = [some .empty, some .empty] ∧
        (joined.collapse overlapping ()).view.Resembles Eq (.finished r.view)) ∧
      ∃ calls : Nat → List (Call (Possibilities Nat)), (calls 3).length = 3 ∧
        ∀ k, ∃ more, calls (k + 1) = calls k ++ more ∧ ∀ call ∈ more, ∃ r c,
          joined.wiping.moment overlapping () k = .running r ∧ joined.wiping.next? r = some c ∧
            call.Current sharedRing [0, 1] r.memory.cells c := by
  have realizes : joined.rule.Realizes (uniform.rule fun _ _ x => (.ok 0, x)) :=
    uniform.realizes_refRule _
  obtain ⟨_, alike, current⟩ := snapshots_isolated joined realizes overlapping ()
  obtain ⟨calls, _, recorded, grows⟩ := current (fun _ _ => List.length_map _) _ (.inr rfl)
  have third : (joined.wiping.recorded.moment overlapping ((), []) 3).run.context.2 = calls 3 := by
    have noted := congrArg Prod.snd (recorded 3).run.context
    rwa [RefOutcome.run_view, Outcome.calls_record] at noted
  refine ⟨realizes, ⟨_, rfl, rfl, rfl, alike⟩, calls, ?_, grows⟩
  rw [← third]
  rfl

-- Were the states of the cells handed to it and not clones of them, the rule would empty them.
example : (joined.wiping.rule.collapse 0 [some 0, some 1] (.ofCells overlapping) ()).memory.cells =
    #v[.empty, .empty] := rfl

end RefEngine

end CellCollapse
