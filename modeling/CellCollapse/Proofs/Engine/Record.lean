import CellCollapse.Proofs.Engine.Context

set_option autoImplicit false

/-!
# Records of calls

A rule can keep a record of the calls that are made to it, as a part of its context. An engine never
looks into the context of its rule, so with the record it takes the same steps as without:
`Engine.recorded_moment`. Each step makes at most one call, about the present state of an undecided
cell and with the snapshots of a look around it.
-/
namespace CellCollapse

section Recording

variable {σ κ δ ρ : Type} {n : Nat}

def Reply.record (reply : Reply σ ρ) (calls : List (Call σ)) : Reply σ (ρ × List (Call σ)) :=
  ⟨reply.cell, reply.snapshots, (reply.context, calls), reply.fault⟩

/-- The rule that does the same and enters every call into its record. -/
def Rule.recorded (rule : Rule σ δ ρ) : Rule σ δ (ρ × List (Call σ)) where
  offsets := rule.offsets
  collapse s ns x := (rule.collapse s ns x.1).record (x.2 ++ [⟨false, s, ns⟩])
  observe s ns x := (rule.observe s ns x.1).record (x.2 ++ [⟨true, s, ns⟩])

def Engine.recorded (e : Engine σ κ δ ρ n) : Engine σ κ δ (ρ × List (Call σ)) n where
  space := e.space
  rule := e.rule.recorded
  pick m x := ((e.pick m x.1).1, (e.pick m x.1).2, x.2)

def Run.record (r : Run σ κ ρ n) (calls : List (Call σ)) : Run σ κ (ρ × List (Call σ)) n where
  cells := r.cells
  context := (r.context, calls)
  queue := r.queue
  unresolved := r.unresolved
  candidates := r.candidates
  neighbors := r.neighbors
  snapshots := r.snapshots
  observations := r.observations
  propagations := r.propagations
  events := r.events

def Outcome.record (o : Outcome σ κ ρ n) (calls : List (Call σ)) :
    Outcome σ κ (ρ × List (Call σ)) n :=
  match o with
  | .running r => .running (r.record calls)
  | .finished r => .finished (r.record calls)
  | .failed r f => .failed (r.record calls) f

theorem Outcome.calls_record (o : Outcome σ κ ρ n) (calls : List (Call σ)) :
    (o.record calls).run.context.2 = calls := by
  cases o <;> rfl

theorem Outcome.record_mapContext (o : Outcome σ κ (ρ × List (Call σ)) n) :
    (o.mapContext Prod.fst).record o.run.context.2 = o := by
  cases o <;> rfl

theorem Engine.recorded_extends (e : Engine σ κ δ ρ n) : e.recorded.Extends Prod.fst e :=
  ⟨rfl, rfl, fun _ _ _ => rfl, fun _ _ _ => rfl, fun _ _ => rfl⟩

end Recording

namespace Engine

variable {σ κ δ ρ : Type} {n : Nat} [CellState σ]

theorem recorded_asks {e : Engine σ κ δ ρ n} {r : Run σ κ (ρ × List (Call σ)) n} {c : κ}
    {i : Fin n} {call : Call σ} (asks : e.recorded.Asks r c i call) :
    e.Asks (r.mapContext Prod.fst) c i call := by
  obtain ⟨around, looked⟩ := asks.looked
  have next := asks.next
  rw [← e.recorded_extends.next?] at next
  exact ⟨asks.slot, asks.undecided, asks.cell,
    ⟨around, looked.sound, looked.around_eq, looked.readable, looked.views_eq⟩, asks.idle,
    asks.named, next⟩

/-- A step enters one call into the record or none. -/
theorem recorded_step (e : Engine σ κ δ ρ n) (r : Run σ κ (ρ × List (Call σ)) n) :
    ∃ more, (e.recorded.step r).run.context.2 = r.context.2 ++ more ∧
      ∀ call ∈ more, ∃ c i, e.Asks (r.mapContext Prod.fst) c i call := by
  have consults := (e.recorded.step_move r).consults
  generalize (e.recorded.step r).run.context = x at consults
  cases consults with
  | nothing | pick => exact ⟨[], by simp [recorded], by simp⟩
  | @collapse c i call _ asks kind =>
    refine ⟨[call], ?_, ?_⟩
    · simp [recorded, Rule.recorded, Reply.record, ← kind]
    · intro other hother
      obtain rfl := List.mem_singleton.1 hother
      exact ⟨c, i, recorded_asks asks⟩
  | @observe _ c i call asks kind =>
    refine ⟨[call], ?_, ?_⟩
    · simp [recorded, Rule.recorded, Reply.record, ← kind]
    · intro other hother
      obtain rfl := List.mem_singleton.1 hother
      exact ⟨c, i, recorded_asks asks⟩

variable [BEq κ]

/-- From one moment to the next, the record grows by the calls of the step between them. -/
theorem recorded_grows (e : Engine σ κ δ ρ n) (cells : Vector σ n) (context : ρ) (k : Nat) :
    ∃ more, (e.recorded.moment cells (context, []) (k + 1)).run.context.2 =
        (e.recorded.moment cells (context, []) k).run.context.2 ++ more ∧
      ∀ call ∈ more, ∃ r c i, e.moment cells context k = .running r ∧ e.Asks r c i call := by
  have same := e.recorded_extends.moment cells (context, []) k
  rw [moment]
  cases ho : e.recorded.moment cells (context, []) k with
  | running r =>
    rw [ho] at same
    obtain ⟨more, hstep, hmore⟩ := e.recorded_step r
    refine ⟨more, hstep, ?_⟩
    intro call hcall
    obtain ⟨c, i, asks⟩ := hmore call hcall
    exact ⟨_, c, i, same, asks⟩
  | finished r => exact ⟨[], (List.append_nil _).symm, by simp⟩
  | failed r f => exact ⟨[], (List.append_nil _).symm, by simp⟩

/-- Every call in the record was made in a step from an earlier moment. -/
theorem recorded_calls (e : Engine σ κ δ ρ n) (cells : Vector σ n) (context : ρ) (k : Nat) :
    ∀ call ∈ (e.recorded.moment cells (context, []) k).run.context.2, ∃ j < k, ∃ r c i,
      e.moment cells context j = .running r ∧ e.Asks r c i call := by
  induction k with
  | zero =>
    intro call hcall
    rw [moment, start_context] at hcall
    cases hcall
  | succ k ih =>
    obtain ⟨more, grown, hmore⟩ := e.recorded_grows cells context k
    intro call hcall
    rw [grown] at hcall
    rcases List.mem_append.1 hcall with earlier | latest
    · obtain ⟨j, hj, rest⟩ := ih call earlier
      exact ⟨j, by omega, rest⟩
    · exact ⟨k, by omega, hmore call latest⟩

/-- With the record a collapse goes through the same moments, and every call in the record was made
in a step from one of them. -/
theorem recorded_moment (e : Engine σ κ δ ρ n) (cells : Vector σ n) (context : ρ) (k : Nat) :
    ∃ calls, e.recorded.moment cells (context, []) k =
        (e.moment cells context k).record calls ∧
      ∀ call ∈ calls, ∃ j < k, ∃ r c i, e.moment cells context j = .running r ∧
        e.Asks r c i call := by
  refine ⟨_, ?_, e.recorded_calls cells context k⟩
  rw [e.recorded_extends.moment cells (context, []) k, Outcome.record_mapContext]

end Engine

end CellCollapse
