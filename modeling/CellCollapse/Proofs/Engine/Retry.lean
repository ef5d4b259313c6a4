import CellCollapse.Proofs.Engine.Termination

set_option autoImplicit false

/-!
# Runs taken up again

A run that failed can be taken up again on the same engine. The coordinate that was being worked on
is no longer queued, others may still be, and some cells have shrunk without their neighbors having
reacted. A new start queues every undecided coordinate, so it needs none of what was lost
(`Engine.start_eq`). `Engine.Attempt.induction` carries an invariant through a whole series of runs:
one between the runs, and one within each of them.
-/
namespace CellCollapse

variable {σ κ δ ρ : Type} {n : Nat}

/-- The rule behind a guard, which may refuse a call before the cell is touched. -/
def Rule.guarded (rule : Rule σ δ ρ) (refuse : Call σ → ρ → Option Fault × ρ) : Rule σ δ ρ where
  offsets := rule.offsets
  collapse s ns x :=
    match refuse ⟨false, s, ns⟩ x with
    | (some f, y) => ⟨s, ns, y, some f⟩
    | (none, y) => rule.collapse s ns y
  observe s ns x :=
    match refuse ⟨true, s, ns⟩ x with
    | (some f, y) => ⟨s, ns, y, some f⟩
    | (none, y) => rule.observe s ns y

namespace Engine

def guarded (e : Engine σ κ δ ρ n) (refuse : Call σ → ρ → Option Fault × ρ) :
    Engine σ κ δ ρ n :=
  { e with rule := e.rule.guarded refuse }

variable [CellState σ] [BEq κ]

/-- What a series of runs on one engine comes to, each after the failure of the one before. The
context may have changed in between. -/
inductive Attempt (e : Engine σ κ δ ρ n) (cells : Vector σ n) : Outcome σ κ ρ n → Prop where
  | first (context : ρ) : Attempt e cells (e.collapse cells context)
  | again {r : Run σ κ ρ n} {f : Failure κ} (failed : Attempt e cells (.failed r f))
      (context : ρ) : Attempt e cells (e.run (r.resume r.cells context))

variable {e : Engine σ κ δ ρ n} {cells : Vector σ n}

/-- A start on readable cells adds the open coordinates to the unresolved ones and queues them all
behind what is still queued. -/
theorem start_eq (nonneg : ∀ s : σ, 0 ≤ CellState.entropy s)
    (readable : ∀ c ∈ e.space.coordinates, ∃ i, e.space.slot c = .ok i) (r : Run σ κ ρ n) :
    ∃ pending, pending = (e.space.coordinates.filter (e.isOpen r.cells)).foldl addNew r.unresolved ∧
      e.start r = .running { r with
        unresolved := pending
        queue := r.queue ++ pending
        events := r.events ++ [.started pending.length e.rule.offsets.length] } := by
  have sound := readings_of_readable readable r.cells
  refine ⟨_, rfl, ?_⟩
  simp only [start, sound, positive_readings nonneg sound]

theorem mem_foldl_addNew [LawfulBEq κ] {seen cs : List κ} {c : κ} :
    c ∈ cs.foldl addNew seen ↔ c ∈ seen ∨ c ∈ cs := by
  induction cs generalizing seen with
  | nil => simp
  | cons d cs ih =>
    rw [List.foldl_cons, ih, addNew]
    split
    · rename_i present
      have present : d ∈ seen := by simpa using present
      constructor
      · rintro (h | h)
        · exact .inl h
        · exact .inr (List.mem_cons_of_mem _ h)
      · rintro (h | h)
        · exact .inl h
        · rcases List.mem_cons.1 h with rfl | h
          · exact .inl present
          · exact .inr h
    · simp [or_assoc]

omit [BEq κ] in
/-- Steps that keep an invariant lead to the end of the run, if the potential allows for them. -/
theorem advance_ended (nonneg : ∀ s : σ, 0 ≤ CellState.entropy s) (shrinks : Shrinks e.rule)
    (I : Run σ κ ρ n → Prop) (room : ∀ q, I q → q.neighbors.length = e.rule.offsets.length)
    (next : ∀ q q', I q → e.Move q (.running q') → I q') {m : Nat} {r : Run σ κ ρ n} (h : I r)
    (enough : e.potential r ≤ m) :
    ∃ q, I q ∧ e.Move q (e.advance m r) ∧ ∀ q', e.advance m r ≠ .running q' := by
  induction m generalizing r with
  | zero =>
    unfold potential at enough
    omega
  | succ m ih =>
    have move := e.step_move r
    rw [advance]
    generalize e.step r = o at move
    cases o with
    | running r' =>
      have drop := move.potential_lt nonneg shrinks (room r h)
      exact ih (next r r' h move) (by omega)
    | finished r' => exact ⟨r, h, move, by simp⟩
    | failed r' f => exact ⟨r, h, move, by simp⟩

/-- `B` holds between the runs of a series and `I` within each of them. -/
theorem Attempt.induction (nonneg : ∀ s : σ, 0 ≤ CellState.entropy s) (shrinks : Shrinks e.rule)
    (B I : Run σ κ ρ n → Prop) (fresh : ∀ context, B (e.fresh cells context))
    (resumed : ∀ r context, B r → B (r.resume r.cells context))
    (started : ∀ r, B r → ∃ q, e.start r = .running q ∧ I q)
    (room : ∀ q, I q → q.neighbors.length = e.rule.offsets.length)
    (next : ∀ q q', I q → e.Move q (.running q') → I q')
    (failed : ∀ q r f, I q → e.Move q (.failed r f) → B r) {o : Outcome σ κ ρ n}
    (attempt : e.Attempt cells o) : ∃ q, I q ∧ e.Move q o ∧ ∀ q', o ≠ .running q' := by
  have run_ended : ∀ r, B r → ∃ q, I q ∧ e.Move q (e.run r) ∧ ∀ q', e.run r ≠ .running q' := by
    intro r hr
    obtain ⟨q, hstart, hq⟩ := started r hr
    simp only [run, hstart]
    exact advance_ended nonneg shrinks I room next hq (Nat.le_refl _)
  induction attempt with
  | first context => exact run_ended _ (fresh context)
  | @again r f _ context ih =>
    obtain ⟨q, hq, move, _⟩ := ih
    exact run_ended _ (resumed r context (failed q r f hq move))

end Engine

end CellCollapse
