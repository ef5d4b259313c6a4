import CellCollapse.Proofs.Engine.Moment

set_option autoImplicit false

/-!
# Contexts of an engine

An engine hands its context to the rule and to the tie-break and never looks into it. So an engine
that does the same and only knows more in its context goes through the same moments:
`Engine.Extends.moment`. What one step does with the context is said by `Engine.Consults`: it asks
the rule about a queued cell, or it breaks a tie and then, perhaps, asks the rule about the chosen
cell, or it does nothing of the kind.
-/
namespace CellCollapse

variable {σ κ δ ρ τ : Type} {n : Nat}

def Reply.mapContext (f : τ → ρ) (reply : Reply σ τ) : Reply σ ρ :=
  ⟨reply.cell, reply.snapshots, f reply.context, reply.fault⟩

/-- The reply with a note beside its context. -/
def Reply.note (reply : Reply σ ρ) (t : τ) : Reply σ (ρ × τ) :=
  ⟨reply.cell, reply.snapshots, (reply.context, t), reply.fault⟩

def Run.mapContext (f : τ → ρ) (r : Run σ κ τ n) : Run σ κ ρ n where
  cells := r.cells
  context := f r.context
  queue := r.queue
  unresolved := r.unresolved
  candidates := r.candidates
  neighbors := r.neighbors
  snapshots := r.snapshots
  observations := r.observations
  propagations := r.propagations
  events := r.events

def Outcome.mapContext (f : τ → ρ) : Outcome σ κ τ n → Outcome σ κ ρ n
  | .running r => .running (r.mapContext f)
  | .finished r => .finished (r.mapContext f)
  | .failed r failure => .failed (r.mapContext f) failure

theorem Outcome.run_mapContext (f : τ → ρ) (o : Outcome σ κ τ n) :
    (o.mapContext f).run = o.run.mapContext f := by
  cases o <;> rfl

namespace Engine

/-- The engine `e'` does what `e` does, on contexts that `f` reads. -/
structure Extends (e' : Engine σ κ δ τ n) (f : τ → ρ) (e : Engine σ κ δ ρ n) : Prop where
  space : e.space = e'.space
  offsets : e.rule.offsets = e'.rule.offsets
  collapse : ∀ s ns x, e.rule.collapse s ns (f x) = (e'.rule.collapse s ns x).mapContext f
  observe : ∀ s ns x, e.rule.observe s ns (f x) = (e'.rule.observe s ns x).mapContext f
  pick : ∀ m x, e.pick m (f x) = ((e'.pick m x).1, f (e'.pick m x).2)

variable {e' : Engine σ κ δ τ n} {f : τ → ρ} {e : Engine σ κ δ ρ n}

theorem Extends.lookAround (h : e'.Extends f e) (c : κ) (r : Run σ κ τ n) :
    e.lookAround c (r.mapContext f) =
      ((e'.lookAround c r).1.mapContext f, (e'.lookAround c r).2) := by
  simp only [Engine.lookAround, Run.mapContext, h.space, h.offsets]
  split <;> rfl

variable [CellState σ]

theorem Extends.propagateAt (h : e'.Extends f e) (c : κ) (r : Run σ κ τ n) :
    e.propagateAt c (r.mapContext f) = (e'.propagateAt c r).mapContext f := by
  have same : (r.mapContext f).cells = r.cells := rfl
  simp only [Engine.propagateAt, h.space, h.lookAround, same]
  cases e'.space.slot c with
  | error g => rfl
  | ok i =>
    by_cases decided : CellState.entropy (r.cells.get i) = 0
    · simp only [decided, if_true, Outcome.mapContext]
    · cases e'.lookAround c r with
      | mk q fault =>
        cases fault with
        | some g => simp only [decided, if_false, Outcome.mapContext]
        | none =>
          simp only [decided, if_false, Run.mapContext, h.collapse, Reply.mapContext]
          cases (e'.rule.collapse (q.cells.get i) q.snapshots q.context).fault with
          | some g => rfl
          | none =>
            have opened : ∀ cells, e.isOpen cells = e'.isOpen (σ := σ) cells := by
              intro cells
              funext d
              simp only [isOpen, h.space]
            dsimp only
            split
            · rw [opened]
              rfl
            · rfl

theorem Extends.observeAt (h : e'.Extends f e) (c : κ) (r : Run σ κ τ n) :
    e.observeAt c (r.mapContext f) = (e'.observeAt c r).mapContext f := by
  have emptied : { r.mapContext f with queue := [] } =
      Run.mapContext f { r with queue := [] } := rfl
  simp only [Engine.observeAt, emptied, h.lookAround]
  cases e'.lookAround c { r with queue := [] } with
  | mk q fault =>
    cases fault with
    | some g => rfl
    | none =>
      simp only [h.space]
      cases e'.space.slot c with
      | error g => rfl
      | ok i =>
        simp only [Run.mapContext, h.observe, Reply.mapContext]
        cases (e'.rule.observe (q.cells.get i) q.snapshots q.context).fault with
        | some g => rfl
        | none =>
          dsimp only
          split <;> rfl

theorem Extends.select (h : e'.Extends f e) (r : Run σ κ τ n) :
    e.select (r.mapContext f) = ((e'.select r).1.mapContext f, (e'.select r).2) := by
  simp only [Engine.select, Space.select, Run.mapContext, h.space, h.pick]
  split
  · rfl
  · split
    · rfl
    · split <;> rfl

theorem Extends.next? (h : e'.Extends f e) (r : Run σ κ τ n) :
    e.next? (r.mapContext f) = e'.next? r := by
  have same : (r.mapContext f).queue = r.queue := rfl
  simp only [Engine.next?, same, h.select]

theorem Extends.step (h : e'.Extends f e) (r : Run σ κ τ n) :
    e.step (r.mapContext f) = (e'.step r).mapContext f := by
  have same : (r.mapContext f).queue = r.queue := rfl
  unfold Engine.step
  rw [same]
  cases r.queue with
  | cons c rest => exact h.propagateAt c { r with queue := rest }
  | nil =>
    simp only [h.select]
    cases e'.select r with
    | mk q choice =>
      match choice with
      | .error g => rfl
      | .ok none => rfl
      | .ok (some c) => exact h.observeAt c q

variable [BEq κ]

theorem Extends.start (h : e'.Extends f e) (cells : Vector σ n) (x : τ) :
    e.start (e.fresh cells (f x)) = (e'.start (e'.fresh cells x)).mapContext f := by
  simp only [Engine.start, fresh, Run.blank, h.space, h.offsets]
  split <;> rfl

theorem Extends.moment (h : e'.Extends f e) (cells : Vector σ n) (x : τ) (k : Nat) :
    e.moment cells (f x) k = (e'.moment cells x k).mapContext f := by
  induction k with
  | zero => exact h.start cells x
  | succ k ih =>
    rw [Engine.moment, Engine.moment, ih]
    cases e'.moment cells x k with
    | running q => exact h.step q
    | finished q => rfl
    | failed q g => rfl

omit [BEq κ] in
theorem Extends.advance (h : e'.Extends f e) (m : Nat) (r : Run σ κ τ n) :
    e.advance m (r.mapContext f) = (e'.advance m r).mapContext f := by
  induction m generalizing r with
  | zero => rfl
  | succ m ih =>
    rw [Engine.advance, Engine.advance, h.step]
    cases e'.step r with
    | running q => exact ih q
    | finished q => rfl
    | failed q g => rfl

theorem Extends.collapse_eq (h : e'.Extends f e) (cells : Vector σ n) (x : τ) :
    Engine.collapse e cells (f x) = (Engine.collapse e' cells x).mapContext f := by
  -- The bound on the steps is read off the queue and the cells only.
  have bound : ∀ q : Run σ κ τ n, e.potential (q.mapContext f) = e'.potential q := by
    intro q
    simp only [potential, h.offsets]
    rfl
  unfold Engine.collapse Engine.run
  rw [h.start]
  cases e'.start (e'.fresh cells x) with
  | running q =>
    change e.advance (e.potential (q.mapContext f)) (q.mapContext f) =
      (e'.advance (e'.potential q) q).mapContext f
    rw [bound, h.advance]
  | finished q => rfl
  | failed q g => rfl

end Engine

end CellCollapse
