import CellCollapse.Proofs.Engine.Kept

set_option autoImplicit false

/-!
# Moments of a collapse

`Engine.moment` is the state of a collapse after a number of steps, and `Engine.settle` its state
when the propagation before the first observation is over. A collapse ends in one of its moments,
so what holds at the start and is kept by every move holds of the whole collapse.
-/
namespace CellCollapse.Engine

variable {σ κ δ ρ : Type} {n : Nat} [CellState σ] [BEq κ]

/-- A collapse that has ended stays as it is. -/
def moment (e : Engine σ κ δ ρ n) (cells : Vector σ n) (context : ρ) : Nat → Outcome σ κ ρ n
  | 0 => e.start (e.fresh cells context)
  | k + 1 =>
    match e.moment cells context k with
    | .running r => e.step r
    | outcome => outcome

def settle (e : Engine σ κ δ ρ n) (cells : Vector σ n) (context : ρ) : Outcome σ κ ρ n :=
  match e.start (e.fresh cells context) with
  | .running r => e.propagate r
  | outcome => outcome

variable {e : Engine σ κ δ ρ n} {cells : Vector σ n} {context : ρ}

theorem moment_succ {k : Nat} {r : Run σ κ ρ n} (h : e.moment cells context k = .running r) :
    e.moment cells context (k + 1) = e.step r := by
  simp only [moment, h]

theorem moment_ended {k : Nat} (h : ∀ r, e.moment cells context k ≠ .running r) (m : Nat) :
    e.moment cells context (k + m) = e.moment cells context k := by
  induction m with
  | zero => rfl
  | succ m ih =>
    rw [← Nat.add_assoc, moment, ih]
    split
    · rename_i r hr
      exact absurd hr (h r)
    · rfl

/-- A collapse has only one end. -/
theorem moment_eq_of_ended {j k : Nat} (hj : ∀ r, e.moment cells context j ≠ .running r)
    (hk : ∀ r, e.moment cells context k ≠ .running r) :
    e.moment cells context j = e.moment cells context k := by
  rcases Nat.le_total j k with h | h
  · obtain ⟨m, rfl⟩ := Nat.exists_eq_add_of_le h
    exact (moment_ended hj m).symm
  · obtain ⟨m, rfl⟩ := Nat.exists_eq_add_of_le h
    exact moment_ended hk m

theorem moment_running_le {j k : Nat} {r : Run σ κ ρ n}
    (hj : e.moment cells context j = .running r)
    (hk : ∀ q, e.moment cells context k ≠ .running q) : j ≤ k := by
  apply Decidable.byContradiction
  intro late
  obtain ⟨m, rfl⟩ := Nat.exists_eq_add_of_le (Nat.le_of_not_le late)
  rw [moment_ended hk] at hj
  exact hk r hj

theorem moment_advance {k : Nat} {r : Run σ κ ρ n} (h : e.moment cells context k = .running r)
    (m : Nat) : e.moment cells context (k + m) = e.advance m r := by
  induction m generalizing k r with
  | zero => exact h
  | succ m ih =>
    have hstep := moment_succ h
    have hk : k + (m + 1) = k + 1 + m := by omega
    rw [hk]
    cases ho : e.step r with
    | running r' =>
      simp only [advance, ho]
      exact ih (hstep.trans ho)
    | finished r' =>
      rw [moment_ended (by simp [hstep, ho]) m, hstep]
      simp only [advance, ho]
    | failed r' f =>
      rw [moment_ended (by simp [hstep, ho]) m, hstep]
      simp only [advance, ho]

/-- Draining the queue passes through the moments of the collapse, until the queue is empty, the
steps are used up or the collapse has come to its end. -/
theorem drain_moment {k : Nat} {r : Run σ κ ρ n} (h : e.moment cells context k = .running r)
    (steps : Nat) :
    (∃ m q, e.drain steps r = .finished q ∧ e.moment cells context m = .running q ∧
        q.queue = []) ∨
      (∃ q, e.moment cells context (k + steps) = .running q) ∨
      ∃ m, e.drain steps r = e.moment cells context m ∧
        ∀ q, e.moment cells context m ≠ .running q := by
  induction steps generalizing k r with
  | zero => exact .inr (.inl ⟨r, h⟩)
  | succ steps ih =>
    have hstep := moment_succ h
    cases hqueue : r.queue with
    | nil => exact .inl ⟨k, r, by simp only [drain, hqueue], h, hqueue⟩
    | cons c rest =>
      simp only [step, hqueue] at hstep
      cases ho : e.propagateAt c { r with queue := rest } with
      | running r' =>
        have hk : k + (steps + 1) = k + 1 + steps := by omega
        simp only [drain, hqueue, ho, hk]
        exact ih (hstep.trans ho)
      | finished r' =>
        rw [ho] at hstep
        exact .inr (.inr ⟨k + 1, by simp only [drain, hqueue, ho, hstep], by simp [hstep]⟩)
      | failed r' f =>
        rw [ho] at hstep
        exact .inr (.inr ⟨k + 1, by simp only [drain, hqueue, ho, hstep], by simp [hstep]⟩)

/-- A queue that was drained to the end leaves the collapse in a moment of its own, and no cell has
been observed on the way. -/
theorem drain_finished {k steps : Nat} {r q : Run σ κ ρ n}
    (h : e.moment cells context k = .running r) (done : e.drain steps r = .finished q) :
    ∃ m, e.moment cells context m = .running q ∧ q.queue = [] ∧
      q.observations = r.observations := by
  induction steps generalizing k r with
  | zero => cases done
  | succ steps ih =>
    have hstep := moment_succ h
    cases hqueue : r.queue with
    | nil =>
      simp only [drain, hqueue, Outcome.finished.injEq] at done
      subst done
      exact ⟨k, h, hqueue, rfl⟩
    | cons c rest =>
      simp only [step, hqueue] at hstep
      have move := e.propagateAt_move hqueue
      simp only [drain, hqueue] at done
      cases ho : e.propagateAt c { r with queue := rest } with
      | running r' =>
        rw [ho] at move hstep done
        obtain ⟨m, hm, idle, count⟩ := ih hstep done
        exact ⟨m, hm, idle, count.trans (move.observations_eq hqueue)⟩
      | finished r' =>
        rw [ho] at move
        cases move with
        | finish idle => cases idle.symm.trans hqueue
      | failed r' f =>
        rw [ho] at done
        cases done

theorem collapse_eq_moment {r : Run σ κ ρ n} (first : e.moment cells context 0 = .running r) :
    e.collapse cells context = e.moment cells context (e.potential r) := by
  have start : e.start (e.fresh cells context) = .running r := first
  have later := moment_advance first (e.potential r)
  rw [Nat.zero_add] at later
  simp only [later, collapse, run, start]

theorem collapse_eq_start (ended : ∀ r, e.moment cells context 0 ≠ .running r) :
    e.collapse cells context = e.moment cells context 0 := by
  have ended : ∀ r, e.start (e.fresh cells context) ≠ .running r := ended
  rw [collapse, run, moment]
  split
  · rename_i r start
    exact absurd start (ended r)
  · rfl

theorem exists_collapse_eq_moment (e : Engine σ κ δ ρ n) (cells : Vector σ n) (context : ρ) :
    ∃ k, e.collapse cells context = e.moment cells context k := by
  by_cases running : ∃ r, e.moment cells context 0 = .running r
  · obtain ⟨r, first⟩ := running
    exact ⟨_, collapse_eq_moment first⟩
  · exact ⟨0, collapse_eq_start fun r first => running ⟨r, first⟩⟩

/-- A property of runs that holds at the start and that every move of the collapse keeps. -/
theorem moment_induction (I : Run σ κ ρ n → Prop)
    (first : ∀ r, e.start (e.fresh cells context) = .running r → I r)
    (next : ∀ k r r', e.moment cells context k = .running r → I r → e.Move r (.running r') → I r')
    {k : Nat} {r : Run σ κ ρ n} (h : e.moment cells context k = .running r) : I r := by
  induction k generalizing r with
  | zero => exact first r h
  | succ k ih =>
    rw [moment] at h
    split at h
    · rename_i q hq
      exact next k q r hq (ih hq) (h ▸ e.step_move q)
    · rename_i hq
      exact absurd h (hq r)

/-- From one moment to the next there is a move, unless the collapse has ended. -/
theorem moment_next (e : Engine σ κ δ ρ n) (cells : Vector σ n) (context : ρ) (k : Nat) :
    e.moment cells context (k + 1) = e.moment cells context k ∨
      ∃ r, e.moment cells context k = .running r ∧ e.Move r (e.moment cells context (k + 1)) := by
  rw [moment]
  split
  · rename_i r hr
    exact .inr ⟨r, hr, e.step_move r⟩
  · exact .inl rfl

/-- A collapse that has ended came to its end by a step, unless it did not even start. -/
theorem moment_last_step {k : Nat} (h : ∀ r, e.moment cells context k ≠ .running r) :
    e.moment cells context k = e.start (e.fresh cells context) ∨
      ∃ m q, e.moment cells context m = .running q ∧ e.moment cells context k = e.step q := by
  induction k with
  | zero => exact .inl rfl
  | succ k ih =>
    by_cases running : ∃ q, e.moment cells context k = .running q
    · obtain ⟨q, hq⟩ := running
      exact .inr ⟨k, q, hq, moment_succ hq⟩
    · have ended : ∀ q, e.moment cells context k ≠ .running q := fun q hq => running ⟨q, hq⟩
      rw [moment_ended ended 1]
      exact ih ended

theorem moment_last {k : Nat} (h : ∀ r, e.moment cells context k ≠ .running r) :
    e.moment cells context k = e.start (e.fresh cells context) ∨
      ∃ m q, e.moment cells context m = .running q ∧ e.Move q (e.moment cells context k) := by
  refine (moment_last_step h).imp_right ?_
  rintro ⟨m, q, hq, last⟩
  exact ⟨m, q, hq, last ▸ e.step_move q⟩

/-- A relation between runs that every move keeps, from one moment of a collapse to a later one. -/
theorem moment_rel (R : Run σ κ ρ n → Run σ κ ρ n → Prop) (refl : ∀ r, R r r)
    (trans : ∀ p q r, R p q → R q r → R p r) (next : ∀ r o, e.Move r o → R r o.run) {j k : Nat}
    (h : j ≤ k) : R (e.moment cells context j).run (e.moment cells context k).run := by
  induction k with
  | zero =>
    obtain rfl : j = 0 := by omega
    exact refl _
  | succ k ih =>
    by_cases hj : j = k + 1
    · subst hj
      exact refl _
    · have earlier := ih (by omega)
      rcases e.moment_next cells context k with same | ⟨r, hr, move⟩
      · rwa [same]
      · rw [hr] at earlier
        exact trans _ r _ earlier (next r _ move)

theorem observations_moment_mono {j k : Nat} (h : j ≤ k) :
    (e.moment cells context j).run.observations ≤ (e.moment cells context k).run.observations :=
  moment_rel (fun r r' => r.observations ≤ r'.observations) (fun _ => Nat.le_refl _)
    (fun _ _ _ => Nat.le_trans) (fun _ _ move => move.observations_le) h

theorem start_cells (e : Engine σ κ δ ρ n) (r : Run σ κ ρ n) : (e.start r).run.cells = r.cells := by
  simp only [start]
  split <;> rfl

theorem start_context (e : Engine σ κ δ ρ n) (r : Run σ κ ρ n) :
    (e.start r).run.context = r.context := by
  simp only [start]
  split <;> rfl

theorem start_running_cells {r : Run σ κ ρ n}
    (h : e.start (e.fresh cells context) = .running r) : r.cells = cells := by
  have := e.start_cells (e.fresh cells context)
  rwa [h] at this

theorem foldl_addNew {seen cs : List κ} (once : (seen ++ cs).Pairwise fun c d => (d == c) = false) :
    cs.foldl addNew seen = seen ++ cs := by
  induction cs generalizing seen with
  | nil => simp
  | cons c cs ih =>
    have fresh : seen.contains c = false := by
      rw [List.contains_eq_any_beq, List.any_eq_false]
      intro d hd
      have := (List.pairwise_append.1 once).2.2 d hd c List.mem_cons_self
      simp [this]
    simp only [List.foldl_cons, addNew, fresh, Bool.false_eq_true, if_false]
    rw [ih (by simpa using once), List.append_assoc, List.singleton_append]

omit [BEq κ] in
theorem readings_of_readable (readable : ∀ c ∈ e.space.coordinates, ∃ i, e.space.slot c = .ok i)
    (cells : Vector σ n) : (readings e.space cells e.space.coordinates).2 = none := by
  cases hf : (readings e.space cells e.space.coordinates).2 with
  | none => rfl
  | some f =>
    obtain ⟨c, hc, missing⟩ := (readings_error hf).exists_missing
    obtain ⟨i, hi⟩ := readable c hc
    cases hi.symm.trans missing

omit [BEq κ] in
/-- The coordinates of positive entropy are the open ones. -/
theorem positive_readings (nonneg : ∀ s : σ, 0 ≤ CellState.entropy s)
    (sound : (readings e.space cells e.space.coordinates).2 = none) :
    ((readings e.space cells e.space.coordinates).1.filter fun q => decide (0 < q.2)).map Prod.fst =
      e.space.coordinates.filter (e.isOpen cells) := by
  apply map_filter_readings sound (fun k => decide (0 < k))
  intro c i hi
  have := nonneg (cells.get i)
  rw [Bool.eq_iff_iff, decide_eq_true_eq, isOpen_iff]
  constructor
  · intro positive
    exact ⟨i, hi, by omega⟩
  · rintro ⟨j, hj, hne⟩
    cases hi.symm.trans hj
    omega

/-- A start that meets no fault queues the undecided coordinates in the order of the space. -/
theorem start_running (listed : e.space.Listed) (nonneg : ∀ s : σ, 0 ≤ CellState.entropy s)
    {r : Run σ κ ρ n} (h : e.start (e.fresh cells context) = .running r) :
    (∀ c ∈ e.space.coordinates, ∃ i, e.space.slot c = .ok i) ∧ r = { e.fresh cells context with
      unresolved := e.space.coordinates.filter (e.isOpen cells)
      queue := e.space.coordinates.filter (e.isOpen cells)
      events := [.started (e.space.coordinates.filter (e.isOpen cells)).length
        e.rule.offsets.length] } := by
  simp only [start, fresh, Run.blank] at h
  cases hf : (readings e.space cells e.space.coordinates).2 with
  | some f => simp [hf] at h
  | none =>
    obtain ⟨hmap, hall⟩ := readings_ok hf
    have once : ([] ++ e.space.coordinates.filter (e.isOpen cells)).Pairwise
        fun c d => (d == c) = false := listed.once.filter _
    simp only [hf, positive_readings nonneg hf, foldl_addNew once, List.nil_append,
      Outcome.running.injEq] at h
    refine ⟨?_, h.symm⟩
    intro c hc
    rw [← hmap] at hc
    obtain ⟨q, hq, rfl⟩ := List.mem_map.1 hc
    obtain ⟨i, hi, _⟩ := hall q hq
    exact ⟨i, hi⟩

theorem start_ended {o : Outcome σ κ ρ n} (h : e.start (e.fresh cells context) = o)
    (ended : ∀ r, o ≠ .running r) : ∃ r f, o = .failed r (.raised f) ∧
      e.space.Unreadable f e.space.coordinates ∧ r.cells = cells ∧ r.observations = 0 := by
  simp only [start, fresh, Run.blank] at h
  cases hf : (readings e.space cells e.space.coordinates).2 with
  | some f =>
    simp only [hf] at h
    exact ⟨_, f, h.symm, readings_error hf, rfl, rfl⟩
  | none =>
    simp only [hf] at h
    exact absurd h.symm (ended _)

theorem settle_finished {q : Run σ κ ρ n} (done : e.settle cells context = .finished q) :
    ∃ m, e.moment cells context m = .running q ∧ q.queue = [] ∧ q.observations = 0 := by
  cases hs : e.start (e.fresh cells context) with
  | running r =>
    have first : e.moment cells context 0 = .running r := hs
    have count : r.observations = 0 := by
      simp only [start, fresh, Run.blank] at hs
      split at hs
      · cases hs
      · cases hs
        rfl
    simp only [settle, hs, propagate] at done
    obtain ⟨m, hm, idle, same⟩ := drain_finished first done
    exact ⟨m, hm, idle, same.trans count⟩
  | finished r =>
    obtain ⟨_, _, hfailed, _⟩ := start_ended hs (by simp)
    cases hfailed
  | failed r f =>
    simp only [settle, hs] at done
    cases done

theorem kept_start (listed : e.space.Listed) (nonneg : ∀ s : σ, 0 ≤ CellState.entropy s)
    {r : Run σ κ ρ n} (h : e.start (e.fresh cells context) = .running r) : e.Kept cells r := by
  obtain ⟨readable, rfl⟩ := start_running listed nonneg h
  refine ⟨fun i _ => rfl, ?_, ?_, readable, ?_⟩
  · intro c hc hopen
    exact List.mem_filter.2 ⟨hc, hopen⟩
  · intro c hc
    exact (List.mem_filter.1 hc).1
  · simp [fresh, Run.blank]

theorem kept_moment (listed : e.space.Listed) (nonneg : ∀ s : σ, 0 ≤ CellState.entropy s) {k : Nat}
    {r : Run σ κ ρ n} (h : e.moment cells context k = .running r) : e.Kept cells r :=
  moment_induction (e.Kept cells) (fun _ => kept_start listed nonneg)
    (fun _ _ _ _ => Kept.move) h

/-- A collapse finishes by a move. -/
theorem moment_finished_move {k : Nat} {r : Run σ κ ρ n}
    (h : e.moment cells context k = .finished r) :
    ∃ m q, e.moment cells context m = .running q ∧ e.Move q (.finished r) := by
  have ended : ∀ q, e.moment cells context k ≠ .running q := by simp [h]
  rcases moment_last ended with hstart | ⟨m, q, hq, move⟩
  · obtain ⟨_, _, hfailed, _⟩ := start_ended (hstart.symm.trans h) (by simp)
    cases hfailed
  · exact ⟨m, q, hq, h ▸ move⟩

/-- A finished collapse has decided every cell, and its last move changed none. -/
theorem moment_finished (listed : e.space.Listed) (nonneg : ∀ s : σ, 0 ≤ CellState.entropy s)
    {k : Nat} {r : Run σ κ ρ n} (h : e.moment cells context k = .finished r) :
    (∀ c ∈ e.space.coordinates, ∃ i, e.space.slot c = .ok i ∧
        CellState.entropy (r.cells.get i) = 0) ∧
      ∃ m q, e.moment cells context m = .running q ∧ q.queue = [] ∧ q.cells = r.cells ∧
        q.observations = r.observations := by
  obtain ⟨m, q, hq, move⟩ := moment_finished_move h
  refine ⟨(kept_moment listed nonneg hq).decided listed move, m, q, hq, ?_⟩
  cases move with
  | finish idle => exact ⟨idle, rfl, rfl⟩

end CellCollapse.Engine
