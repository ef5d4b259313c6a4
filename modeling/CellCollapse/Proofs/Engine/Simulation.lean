import CellCollapse.Proofs.Engine.Buffers
import Mathlib.Data.List.Forall2

set_option autoImplicit false

/-!
# Engines side by side

Two engines on the same space whose rules answer alike to alike questions go through alike moments.
What alike means of two cells is a relation `R` that keeps the entropy; everything else in the two
runs is equal, up to the snapshots that the last call left behind. The snapshots are not compared
between two steps, because every call gets new ones: `Engine.Resembles.lookAround`.
-/
namespace CellCollapse

variable {σ κ δ ρ : Type} {n : Nat}

structure Reply.Resembles (R : σ → σ → Prop) (reply reply' : Reply σ ρ) : Prop where
  cell : R reply.cell reply'.cell
  context : reply.context = reply'.context
  fault : reply.fault = reply'.fault

structure Run.Resembles (R : σ → σ → Prop) (r r' : Run σ κ ρ n) : Prop where
  cells : ∀ i, R (r.cells.get i) (r'.cells.get i)
  context : r.context = r'.context
  queue : r.queue = r'.queue
  unresolved : r.unresolved = r'.unresolved
  candidates : r.candidates = r'.candidates
  neighbors : r.neighbors = r'.neighbors
  observations : r.observations = r'.observations
  propagations : r.propagations = r'.propagations
  events : r.events = r'.events

/-- Both go on, both have finished, or both have failed for the same reason. -/
inductive Outcome.Resembles (R : σ → σ → Prop) : Outcome σ κ ρ n → Outcome σ κ ρ n → Prop where
  | running {r r' : Run σ κ ρ n} (h : r.Resembles R r') : Resembles R (.running r) (.running r')
  | finished {r r' : Run σ κ ρ n} (h : r.Resembles R r') : Resembles R (.finished r) (.finished r')
  | failed {r r' : Run σ κ ρ n} (failure : Failure κ) (h : r.Resembles R r') :
      Resembles R (.failed r failure) (.failed r' failure)

theorem Run.Resembles.exists_eq {R : σ → σ → Prop} {r r' : Run σ κ ρ n} (h : r.Resembles R r') :
    ∃ cells views, r' = { r with cells := cells, snapshots := views } ∧
      ∀ i, R (r.cells.get i) (cells.get i) := by
  refine ⟨r'.cells, r'.snapshots, ?_, h.cells⟩
  rw [h.context, h.queue, h.unresolved, h.candidates, h.neighbors, h.observations, h.propagations,
    h.events]

theorem Outcome.Resembles.run {R : σ → σ → Prop} {o o' : Outcome σ κ ρ n} (h : o.Resembles R o') :
    o.run.Resembles R o'.run := by
  cases h with
  | running h => exact h
  | finished h => exact h
  | failed _ h => exact h

theorem Run.Resembles.mono {R S : σ → σ → Prop} (implies : ∀ s s', R s s' → S s s')
    {r r' : Run σ κ ρ n} (h : r.Resembles R r') : r.Resembles S r' :=
  { h with cells := fun i => implies _ _ (h.cells i) }

theorem Outcome.Resembles.mono {R S : σ → σ → Prop} (implies : ∀ s s', R s s' → S s s')
    {o o' : Outcome σ κ ρ n} (h : o.Resembles R o') : o.Resembles S o' := by
  cases h with
  | running h => exact .running (h.mono implies)
  | finished h => exact .finished (h.mono implies)
  | failed f h => exact .failed f (h.mono implies)

theorem Run.Resembles.refl (r : Run σ κ ρ n) : r.Resembles Eq r :=
  ⟨fun _ => rfl, rfl, rfl, rfl, rfl, rfl, rfl, rfl, rfl⟩

theorem Run.Resembles.symm {r r' : Run σ κ ρ n} (h : r.Resembles Eq r') : r'.Resembles Eq r :=
  ⟨fun i => (h.cells i).symm, h.context.symm, h.queue.symm, h.unresolved.symm, h.candidates.symm,
    h.neighbors.symm, h.observations.symm, h.propagations.symm, h.events.symm⟩

theorem Run.Resembles.trans {r r' r'' : Run σ κ ρ n} (h : r.Resembles Eq r')
    (h' : r'.Resembles Eq r'') : r.Resembles Eq r'' :=
  ⟨fun i => (h.cells i).trans (h'.cells i), h.context.trans h'.context, h.queue.trans h'.queue,
    h.unresolved.trans h'.unresolved, h.candidates.trans h'.candidates,
    h.neighbors.trans h'.neighbors, h.observations.trans h'.observations,
    h.propagations.trans h'.propagations, h.events.trans h'.events⟩

theorem Outcome.Resembles.symm {o o' : Outcome σ κ ρ n} (h : o.Resembles Eq o') :
    o'.Resembles Eq o := by
  cases h with
  | running h => exact .running h.symm
  | finished h => exact .finished h.symm
  | failed f h => exact .failed f h.symm

theorem Outcome.Resembles.trans {o o' o'' : Outcome σ κ ρ n} (h : o.Resembles Eq o')
    (h' : o'.Resembles Eq o'') : o.Resembles Eq o'' := by
  cases h with
  | running h =>
    cases h' with
    | running h' => exact .running (h.trans h')
  | finished h =>
    cases h' with
    | finished h' => exact .finished (h.trans h')
  | failed f h =>
    cases h' with
    | failed _ h' => exact .failed f (h.trans h')

namespace Engine

variable {R : σ → σ → Prop} {cells cells' : Vector σ n}

theorem related_set (related : ∀ i, R (cells.get i) (cells'.get i)) (i : Fin n) {s s' : σ}
    (h : R s s') (j : Fin n) :
    R ((cells.set i.val s i.isLt).get j) ((cells'.set i.val s' i.isLt).get j) := by
  rw [get_set, get_set]
  split
  · exact h
  · exact related j

theorem adopt_resembles {q q' : Run σ κ ρ n} (like : q.Resembles R q') (i : Fin n)
    {reply reply' : Reply σ ρ} (h : reply.Resembles R reply') :
    (adopt q i reply).Resembles R (adopt q' i reply') :=
  { like with cells := related_set like.cells i h.cell, context := h.context }

theorem snapshotsOf_related (space : Space κ δ n)
    (related : ∀ i, R (cells.get i) (cells'.get i)) (ns : List (Option κ)) :
    (snapshotsOf space cells ns).fault = (snapshotsOf space cells' ns).fault ∧
      List.Forall₂ (Option.Rel R) (snapshotsOf space cells ns).found
        (snapshotsOf space cells' ns).found := by
  induction ns with
  | nil => exact ⟨rfl, .nil⟩
  | cons o ns ih =>
    cases o with
    | none => exact ⟨ih.1, .cons .none ih.2⟩
    | some c =>
      simp only [snapshotsOf, Space.get]
      cases space.slot c with
      | error f => exact ⟨rfl, .nil⟩
      | ok i => exact ⟨ih.1, .cons (.some (related i)) ih.2⟩

/-- The rules of two engines on one space give alike replies. They are only ever given one snapshot
per offset. -/
structure Resembles [CellState σ] (R : σ → σ → Prop) (e e' : Engine σ κ δ ρ n) : Prop where
  space : e'.space = e.space
  offsets : e'.rule.offsets = e.rule.offsets
  pick : e'.pick = e.pick
  entropy : ∀ s s', R s s' → CellState.entropy s' = CellState.entropy s
  collapse : ∀ s s' ns ns' x, R s s' → List.Forall₂ (Option.Rel R) ns ns' →
    ns.length = e.rule.offsets.length →
      (e.rule.collapse s ns x).Resembles R (e'.rule.collapse s' ns' x)
  observe : ∀ s s' ns ns' x, R s s' → List.Forall₂ (Option.Rel R) ns ns' →
    ns.length = e.rule.offsets.length →
      (e.rule.observe s ns x).Resembles R (e'.rule.observe s' ns' x)

variable [CellState σ] {e e' : Engine σ κ δ ρ n} {r r' : Run σ κ ρ n}

theorem Resembles.refl (e : Engine σ κ δ ρ n) : e.Resembles Eq e := by
  have same : ∀ {ns ns' : List (Option σ)}, List.Forall₂ (Option.Rel Eq) ns ns' → ns = ns' := by
    intro ns ns' related
    induction related with
    | nil => rfl
    | cons first _ ih =>
      cases first with
      | none => rw [ih]
      | some equal => rw [ih, equal]
  refine ⟨rfl, rfl, rfl, fun _ _ h => h ▸ rfl, ?_, ?_⟩
  · rintro s _ ns ns' x rfl related _
    rw [same related]
    exact ⟨rfl, rfl, rfl⟩
  · rintro s _ ns ns' x rfl related _
    rw [same related]
    exact ⟨rfl, rfl, rfl⟩

theorem Resembles.lookAround (h : e.Resembles R e') (like : r.Resembles R r')
    (buffered : e.Buffered r) (buffered' : e'.Buffered r') (c : κ) :
    ∃ q q' fault, e.lookAround c r = (q, fault) ∧ e'.lookAround c r' = (q', fault) ∧
      q.Resembles R q' ∧ (fault = none → List.Forall₂ (Option.Rel R) q.snapshots q'.snapshots ∧
        q.snapshots.length = e.rule.offsets.length) := by
  obtain ⟨cells, views, rfl, related⟩ := like.exists_eq
  simp only [Engine.lookAround, h.space, h.offsets]
  cases hf : (e.space.neighbors c e.rule.offsets).fault with
  | some f =>
    refine ⟨_, _, some f, rfl, rfl, ⟨related, rfl, rfl, rfl, rfl, rfl, rfl, rfl, rfl⟩, ?_⟩
    intro contradictory
    cases contradictory
  | none =>
    generalize haround : (e.space.neighbors c e.rule.offsets).overwrite r.neighbors = around
    have hlength : around.length = e.rule.offsets.length := by
      rw [← haround, Lookup.length_overwrite, buffered.around]
    obtain ⟨same, views⟩ := snapshotsOf_related e.space related around
    refine ⟨_, _, _, rfl, Prod.ext rfl same.symm,
      ⟨related, rfl, rfl, rfl, rfl, rfl, rfl, rfl, rfl⟩, ?_⟩
    intro readable
    have found := length_snapshotsOf readable
    have found' := length_snapshotsOf (same.symm.trans readable)
    dsimp only
    rw [Lookup.overwrite_eq_found (found.trans (hlength.trans buffered.views.symm)),
      Lookup.overwrite_eq_found
        (found'.trans (hlength.trans (buffered'.views.trans (congrArg _ h.offsets)).symm))]
    exact ⟨views, found.trans hlength⟩

theorem Resembles.isOpen (h : e.Resembles R e') (related : ∀ i, R (cells.get i) (cells'.get i)) :
    e'.isOpen cells' = e.isOpen cells := by
  funext c
  simp only [Engine.isOpen, Space.get, h.space]
  cases e.space.slot c with
  | error f => rfl
  | ok i => simp only [Except.map, h.entropy _ _ (related i)]

theorem Resembles.propagateAt (h : e.Resembles R e') (like : r.Resembles R r')
    (buffered : e.Buffered r) (buffered' : e'.Buffered r') (c : κ) :
    (e.propagateAt c r).Resembles R (e'.propagateAt c r') := by
  obtain ⟨q, q', fault, hq, hq', around, views⟩ := h.lookAround like buffered buffered' c
  simp only [Engine.propagateAt, h.space, hq, hq']
  cases e.space.slot c with
  | error f => exact .failed _ like
  | ok i =>
    simp only [h.entropy _ _ (like.cells i)]
    by_cases decided : CellState.entropy (r.cells.get i) = 0
    · simp only [decided, if_true]
      exact .running like
    · simp only [decided, if_false]
      cases fault with
      | some f => exact .failed _ around
      | none =>
        obtain ⟨alike, length⟩ := views rfl
        have reply := h.collapse _ _ _ _ q.context (around.cells i) alike length
        have adopted := adopt_resembles around i reply
        have counted := congrArg (· + 1) adopted.propagations
        simp only [← around.context, ← reply.fault, h.entropy _ _ reply.cell]
        cases (e.rule.collapse (q.cells.get i) q.snapshots q.context).fault with
        | some f => exact .failed _ adopted
        | none =>
          dsimp only
          split
          · refine .running { adopted with queue := ?_, propagations := counted }
            simp only [adopted.queue, adopted.neighbors, h.isOpen adopted.cells]
          · exact .running { adopted with propagations := counted }

theorem Resembles.observeAt (h : e.Resembles R e') (like : r.Resembles R r')
    (buffered : e.Buffered r) (buffered' : e'.Buffered r') (c : κ) :
    (e.observeAt c r).Resembles R (e'.observeAt c r') := by
  have emptied : Run.Resembles R { r with queue := [] } { r' with queue := [] } :=
    { like with queue := rfl }
  obtain ⟨q, q', fault, hq, hq', around, views⟩ := h.lookAround emptied
    ⟨buffered.around, buffered.views⟩ ⟨buffered'.around, buffered'.views⟩ c
  simp only [Engine.observeAt, h.space, hq, hq']
  cases fault with
  | some f => exact .failed _ around
  | none =>
    cases e.space.slot c with
    | error f => exact .failed _ around
    | ok i =>
      obtain ⟨alike, length⟩ := views rfl
      have reply := h.observe _ _ _ _ q.context (around.cells i) alike length
      have adopted := adopt_resembles around i reply
      have counted := congrArg (· + 1) adopted.observations
      simp only [← around.context, ← reply.fault, h.entropy _ _ reply.cell]
      cases (e.rule.observe (q.cells.get i) q.snapshots q.context).fault with
      | some f => exact .failed _ adopted
      | none =>
        dsimp only
        split
        · refine .running { adopted with queue := ?_, observations := counted, events := ?_ }
          · exact congrArg (List.filterMap id) adopted.neighbors
          · exact congrArg (· ++ [.observed c]) adopted.events
        · exact .failed _ { adopted with observations := counted }

theorem Resembles.readings (h : e.Resembles R e')
    (related : ∀ i, R (cells.get i) (cells'.get i)) (cs : List κ) :
    Engine.readings e.space cells' cs = Engine.readings e.space cells cs := by
  induction cs with
  | nil => rfl
  | cons c cs ih =>
    simp only [Engine.readings, Space.get]
    cases e.space.slot c with
    | error f => rfl
    | ok i => simp only [Except.map, ih, h.entropy _ _ (related i)]

theorem Resembles.scan (h : e.Resembles R e')
    (related : ∀ i, R (cells.get i) (cells'.get i)) (place : Nat) (cs : List κ) (scan : Scan κ) :
    Scan.along e.space cells' place cs scan = Scan.along e.space cells place cs scan := by
  induction cs generalizing place scan with
  | nil => rfl
  | cons c cs ih =>
    simp only [Scan.along, Space.get]
    cases e.space.slot c with
    | error f => rfl
    | ok i => simp only [Except.map, ih, h.entropy _ _ (related i)]

theorem Resembles.select (h : e.Resembles R e') (like : r.Resembles R r') :
    ∃ q q' choice, e.select r = (q, choice) ∧ e'.select r' = (q', choice) ∧
      q.Resembles R q' := by
  obtain ⟨cells, views, rfl, related⟩ := like.exists_eq
  have same : e'.space.select e'.pick cells r.unresolved r.context =
      e.space.select e.pick r.cells r.unresolved r.context := by
    simp only [Space.select, h.space, h.pick, h.scan related]
  simp only [Engine.select, same]
  exact ⟨_, _, _, rfl, rfl, related, rfl, rfl, rfl, rfl, rfl, rfl, rfl, rfl⟩

theorem Resembles.step (h : e.Resembles R e') (like : r.Resembles R r')
    (buffered : e.Buffered r) (buffered' : e'.Buffered r') :
    (e.step r).Resembles R (e'.step r') := by
  unfold Engine.step
  rw [← like.queue]
  cases r.queue with
  | cons c rest =>
    have shortened : Run.Resembles R { r with queue := rest } { r' with queue := rest } :=
      { like with queue := rfl }
    exact h.propagateAt shortened ⟨buffered.around, buffered.views⟩
      ⟨buffered'.around, buffered'.views⟩ c
  | nil =>
    obtain ⟨q, q', choice, hq, hq', selected⟩ := h.select like
    have kept := buffered.select
    have kept' := buffered'.select
    rw [hq] at kept
    rw [hq'] at kept'
    simp only [hq, hq']
    match choice with
    | .error f => exact .failed _ selected
    | .ok none =>
      refine .finished { selected with events := ?_ }
      simp only [selected.events, selected.observations, selected.propagations]
    | .ok (some c) => exact h.observeAt selected kept kept' c

variable [BEq κ]

theorem Resembles.start (h : e.Resembles R e') (like : r.Resembles R r') :
    (e.start r).Resembles R (e'.start r') := by
  obtain ⟨cells, views, rfl, related⟩ := like.exists_eq
  simp only [Engine.start, h.space, h.offsets, h.readings related]
  split
  · exact .failed _ ⟨related, rfl, rfl, rfl, rfl, rfl, rfl, rfl, rfl⟩
  · exact .running ⟨related, rfl, rfl, rfl, rfl, rfl, rfl, rfl, rfl⟩

theorem Resembles.moment (h : e.Resembles R e') (tidy : e.rule.Tidy) (tidy' : e'.rule.Tidy)
    (related : ∀ i, R (cells.get i) (cells'.get i)) (context : ρ) (k : Nat) :
    (e.moment cells context k).Resembles R (e'.moment cells' context k) := by
  induction k with
  | zero =>
    refine h.start ⟨related, rfl, rfl, rfl, rfl, ?_, rfl, rfl, rfl⟩
    simp only [fresh, Run.blank, h.offsets]
  | succ k ih =>
    rw [Engine.moment, Engine.moment]
    generalize ho : e.moment cells context k = o at ih
    generalize ho' : e'.moment cells' context k = o' at ih
    cases ih with
    | running like => exact h.step like (buffered_moment tidy ho) (buffered_moment tidy' ho')
    | finished like => exact .finished like
    | failed f like => exact .failed f like

omit [BEq κ] in
theorem Resembles.potential (h : e.Resembles R e') (like : r.Resembles R r') :
    e'.potential r' = e.potential r := by
  have same : r'.cells.toList.map CellState.entropy = r.cells.toList.map CellState.entropy := by
    apply List.ext_getElem
    · simp
    · intro i hi _
      have hn : i < n := by simpa using hi
      simpa [Vector.get] using h.entropy _ _ (like.cells ⟨i, hn⟩)
  have total : totalEntropy r'.cells = totalEntropy r.cells := by
    have folded := congrArg (List.foldr (fun k sum => k.toNat + sum) 0) same
    rwa [List.foldr_map, List.foldr_map] at folded
  simp only [Engine.potential, h.offsets, ← like.queue, total]

/-- The bound on the steps is read off the queue and the entropies, so it is the same for both. -/
theorem Resembles.collapse_like (h : e.Resembles R e') (tidy : e.rule.Tidy)
    (tidy' : e'.rule.Tidy) (related : ∀ i, R (cells.get i) (cells'.get i)) (context : ρ) :
    (Engine.collapse e cells context).Resembles R (Engine.collapse e' cells' context) := by
  have moments := h.moment tidy tidy' related context
  have first := moments 0
  generalize ho : e.moment cells context 0 = o at first
  generalize ho' : e'.moment cells' context 0 = o' at first
  cases first with
  | running like =>
    rw [collapse_eq_moment ho, collapse_eq_moment ho', h.potential like]
    exact moments _
  | finished like =>
    rw [collapse_eq_start (by simp [ho]), collapse_eq_start (by simp [ho'])]
    exact moments 0
  | failed f like =>
    rw [collapse_eq_start (by simp [ho]), collapse_eq_start (by simp [ho'])]
    exact moments 0

end Engine

end CellCollapse
