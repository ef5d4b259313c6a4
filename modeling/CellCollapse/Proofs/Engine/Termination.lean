import CellCollapse.Proofs.Engine.Moment

set_option autoImplicit false

/-!
# Termination

Every move of a run lowers `Engine.potential`, as long as the rule never raises the entropy of a
cell that it collapses. So a collapse ends after as many steps as the potential allows at its start,
and the bound that `Engine.run` and `Engine.propagate` put on their steps cuts nothing off.
-/
namespace CellCollapse.Engine

variable {σ κ δ ρ : Type} {n : Nat} [CellState σ]

/-- A collapse that meets no fault never raises the entropy of the undecided cell it is given. -/
def Shrinks (rule : Rule σ δ ρ) : Prop :=
  ∀ s ns x, 0 < CellState.entropy s → (rule.collapse s ns x).fault = none →
    CellState.entropy (rule.collapse s ns x).cell ≤ CellState.entropy s

theorem foldr_entropy_set (l : List σ) (i : Nat) (hi : i < l.length) (s : σ) :
    (l.set i s).foldr (fun x total => (CellState.entropy x).toNat + total) 0 +
        (CellState.entropy l[i]).toNat =
      l.foldr (fun x total => (CellState.entropy x).toNat + total) 0 +
        (CellState.entropy s).toNat := by
  induction l generalizing i with
  | nil => cases hi
  | cons x l ih =>
    cases i with
    | zero =>
      simp only [List.set_cons_zero, List.foldr_cons, List.getElem_cons_zero]
      omega
    | succ i =>
      have hrest := ih i (Nat.lt_of_succ_lt_succ hi)
      simp only [List.set_cons_succ, List.foldr_cons, List.getElem_cons_succ]
      omega

theorem totalEntropy_set (cells : Vector σ n) (i : Fin n) (s : σ) :
    totalEntropy (cells.set i.val s i.isLt) + (CellState.entropy (cells.get i)).toNat =
      totalEntropy cells + (CellState.entropy s).toNat := by
  have hi : i.val < cells.toList.length := by simp
  have hget : cells.toList[i.val] = cells.get i := by simp [Vector.get]
  have hset := foldr_entropy_set cells.toList i.val hi s
  rw [hget, ← Vector.toList_set] at hset
  exact hset

/-- What a cell loses in entropy pays for the places that its neighbors take in the queue. -/
theorem potential_lt_of_drop {e : Engine σ κ δ ρ n} {r r' : Run σ κ ρ n} {i : Fin n} {s : σ}
    (nonneg : ∀ s : σ, 0 ≤ CellState.entropy s)
    (changed : r'.cells = r.cells.set i.val s i.isLt)
    (drop : CellState.entropy s < CellState.entropy (r.cells.get i))
    (queue : r'.queue.length ≤ r.queue.length + e.rule.offsets.length) :
    e.potential r' < e.potential r := by
  have htotal := totalEntropy_set r.cells i s
  have hs := nonneg s
  rw [← changed] at htotal
  have hdrop : totalEntropy r'.cells + 1 ≤ totalEntropy r.cells := by omega
  have hscaled := Nat.mul_le_mul_left (e.rule.offsets.length + 1) hdrop
  rw [Nat.mul_add] at hscaled
  unfold potential
  omega

theorem length_queued_le (around : List (Option κ)) (p : κ → Bool) :
    ((around.filterMap id).filter p).length ≤ around.length :=
  Nat.le_trans (List.length_filter_le _ _) (List.length_filterMap_le _ _)

theorem Move.potential_lt {e : Engine σ κ δ ρ n} {r r' : Run σ κ ρ n}
    (nonneg : ∀ s : σ, 0 ≤ CellState.entropy s) (shrinks : Shrinks e.rule)
    (room : r.neighbors.length = e.rule.offsets.length) (move : e.Move r (.running r')) :
    e.potential r' < e.potential r := by
  cases move with
  | skip queued =>
    simp only [potential, queued, List.length_cons]
    omega
  | @react c rest i around views reply queued slot undecided looked asked calm =>
    have hbefore := nonneg (r.cells.get i)
    have hlength := looked.length_around
    by_cases drop : CellState.entropy reply.cell < CellState.entropy (r.cells.get i)
    · refine potential_lt_of_drop nonneg rfl drop ?_
      have hqueued := length_queued_le around (e.isOpen (r.cells.set i.val reply.cell i.isLt))
      simp only [reacted, drop, if_true, queued, List.length_append, List.length_cons]
      omega
    · subst asked
      have hle := shrinks (r.cells.get i) views r.context (by omega) calm
      have htotal := totalEntropy_set r.cells i
        (e.rule.collapse (r.cells.get i) views r.context).cell
      have hsame : CellState.entropy (e.rule.collapse (r.cells.get i) views r.context).cell =
          CellState.entropy (r.cells.get i) := by omega
      rw [hsame] at htotal
      have hcells := Nat.add_right_cancel htotal
      simp only [potential, reacted, drop, if_false, queued, List.append_nil, List.length_cons,
        hcells]
      omega
  | @observe c i around views reply candidates x idle listed slot undecided looked asked calm
      settled =>
    have hbefore := nonneg (r.cells.get i)
    have hlength := looked.length_around
    refine potential_lt_of_drop nonneg rfl (by omega) ?_
    have hqueued := List.length_filterMap_le id around
    simp only [observed]
    omega

variable [BEq κ] {e : Engine σ κ δ ρ n} {cells : Vector σ n} {context : ρ}

/-- Every step of a collapse uses up some of the potential that it had at its start. -/
theorem moment_potential (listed : e.space.Listed) (nonneg : ∀ s : σ, 0 ≤ CellState.entropy s)
    (shrinks : Shrinks e.rule) {r₀ : Run σ κ ρ n}
    (start : e.start (e.fresh cells context) = .running r₀) {k : Nat} {r : Run σ κ ρ n}
    (h : e.moment cells context k = .running r) : k + e.potential r ≤ e.potential r₀ := by
  induction k generalizing r with
  | zero =>
    cases start.symm.trans h
    omega
  | succ k ih =>
    rw [moment] at h
    split at h
    · rename_i q hq
      have hbefore := ih hq
      have hdrop := Move.potential_lt nonneg shrinks (kept_moment listed nonneg hq).room
        (h ▸ e.step_move q)
      omega
    · rename_i hq
      exact absurd h (hq r)

/-- A collapse comes to an end, and its result is the moment in which it ended. -/
theorem collapse_ended (listed : e.space.Listed) (nonneg : ∀ s : σ, 0 ≤ CellState.entropy s)
    (shrinks : Shrinks e.rule) (cells : Vector σ n) (context : ρ) :
    ∃ k, e.collapse cells context = e.moment cells context k ∧
      ∀ r, e.moment cells context k ≠ .running r := by
  cases hs : e.start (e.fresh cells context) with
  | running r₀ =>
    have first : e.moment cells context 0 = .running r₀ := hs
    refine ⟨0 + e.potential r₀, ?_, ?_⟩
    · rw [moment_advance first]
      simp only [collapse, run, hs]
    · intro r hr
      have := moment_potential listed nonneg shrinks hs hr
      simp only [potential] at this
      omega
  | finished r => exact ⟨0, by simp only [collapse, run, moment, hs], by simp [moment, hs]⟩
  | failed r f => exact ⟨0, by simp only [collapse, run, moment, hs], by simp [moment, hs]⟩

/-- The propagation before the first observation empties the queue, or the collapse ends in it. -/
theorem settle_moment (listed : e.space.Listed) (nonneg : ∀ s : σ, 0 ≤ CellState.entropy s)
    (shrinks : Shrinks e.rule) (cells : Vector σ n) (context : ρ) :
    (∃ m q, e.settle cells context = .finished q ∧ e.moment cells context m = .running q ∧
        q.queue = []) ∨
      ∃ m, e.settle cells context = e.moment cells context m ∧
        ∀ q, e.moment cells context m ≠ .running q := by
  cases hs : e.start (e.fresh cells context) with
  | running r₀ =>
    have first : e.moment cells context 0 = .running r₀ := hs
    simp only [settle, hs, propagate]
    rcases drain_moment first (e.potential r₀) with idle | ⟨q, hq⟩ | ended
    · exact .inl idle
    · have := moment_potential listed nonneg shrinks hs hq
      simp only [potential] at this
      omega
    · exact .inr ended
  | finished r => exact .inr ⟨0, by simp only [settle, moment, hs], by simp [moment, hs]⟩
  | failed r f => exact .inr ⟨0, by simp only [settle, moment, hs], by simp [moment, hs]⟩

/-- The three ways in which a collapse can end: every cell is decided, an observation left its cell
undecided, or the rule or the space raised a fault, at the start or in the last step. Cells may
share their state, and a cell may be its own neighbor. -/
theorem collapse_terminates (e : Engine σ κ δ ρ n) (listed : e.space.Listed)
    (nonneg : ∀ s : σ, 0 ≤ CellState.entropy s) (shrinks : Shrinks e.rule) (cells : Vector σ n)
    (context : ρ) :
    (∃ N, ∀ m, N ≤ m → e.moment cells context m = e.collapse cells context) ∧
      ((∃ r, e.collapse cells context = .finished r ∧ ∀ c ∈ e.space.coordinates, ∃ s,
          e.space.get r.cells c = .ok s ∧ CellState.entropy s = 0) ∨
        (∃ r c k, e.collapse cells context = .failed r (.unsettled c k) ∧
          c ∈ e.space.coordinates ∧ 0 < k ∧ ∃ m q i call,
            e.moment cells context m = .running q ∧ e.step q = e.collapse cells context ∧
            e.Asks q c i call ∧ call.observes = true ∧ (e.answer q call).fault = none ∧
            e.space.get r.cells c = .ok (e.answer q call).cell ∧
            CellState.entropy (e.answer q call).cell = k) ∨
        ∃ r f, e.collapse cells context = .failed r (.raised f) ∧
          (e.space.Unreadable f e.space.coordinates ∨ ∃ m q,
            e.moment cells context m = .running q ∧ e.step q = e.collapse cells context ∧
            e.Meets q f)) := by
  obtain ⟨k, hk, ended⟩ := collapse_ended listed nonneg shrinks cells context
  refine ⟨⟨k, ?_⟩, ?_⟩
  · intro m hm
    obtain ⟨j, rfl⟩ := Nat.exists_eq_add_of_le hm
    rw [moment_ended ended, hk]
  · rw [hk]
    rcases moment_last_step ended with hstart | ⟨m, q, hq, last⟩
    · obtain ⟨r, f, hfailed, missing, _⟩ := start_ended hstart.symm ended
      exact .inr (.inr ⟨r, f, hfailed, .inl missing⟩)
    · have kept := kept_moment listed nonneg hq
      have move := e.step_move q
      rw [← last] at move
      generalize ho : e.moment cells context k = o at move ended last
      cases move with
      | skip | react | observe => exact absurd rfl (ended _)
      | finish idle done =>
        obtain ⟨decided, _⟩ := moment_finished listed nonneg ho
        refine .inl ⟨_, rfl, ?_⟩
        intro c hc
        obtain ⟨i, hi, hzero⟩ := decided c hc
        exact ⟨_, Space.get_eq_ok hi _, hzero⟩
      | raise stuck => exact .inr (.inr ⟨_, _, rfl, .inr ⟨m, q, hq, last.symm, .stuck stuck⟩⟩)
      | refuse asks fault =>
        exact .inr (.inr ⟨_, _, rfl, .inr ⟨m, q, hq, last.symm, .call asks fault⟩⟩)
      | @balk r c i call asks kind calm unsettled changed =>
        have hpositive := nonneg (e.answer q call).cell
        have pending := asks.named.resolve_left (by simp [asks.idle.1 kind])
        refine .inr (.inl ⟨_, _, _, rfl, kept.listed _ pending, ?_, m, q, i, call, hq, last.symm,
          asks, kind, calm, ?_, rfl⟩)
        · omega
        · rw [Space.get_eq_ok asks.slot, changed, get_set, if_pos rfl]

/-- Two coordinates that share one state and are neighbors of themselves and each other. -/
def sharedPair : Space Nat Nat 1 where
  coordinates := [0, 1]
  slot c := if c < 2 then .ok 0 else .error .noRoom
  neighbors c ds := ⟨ds.map fun d => some ((c + d) % 2), none⟩
  nowhere _ := false

/-- A rule that shrinks nothing and observes `true`. -/
def indifferent : Rule (Possibilities Bool) Nat Unit where
  offsets := [0, 1]
  collapse s ns x := ⟨s, ns, x, none⟩
  observe _ ns x := ⟨.only true, ns, x, none⟩

/-- A rule that shrinks nothing and cannot observe. -/
def broken : Rule (Possibilities Bool) Nat Unit where
  offsets := [0, 1]
  collapse s ns x := ⟨s, ns, x, none⟩
  observe s ns x := ⟨s, ns, x, some (.foreign .runtime "broken rule")⟩

/-- The rule `rule` on the shared pair. A tie goes to the first candidate. -/
def onPair (rule : Rule (Possibilities Bool) Nat Unit) :
    Engine (Possibilities Bool) Nat Nat Unit 1 :=
  ⟨sharedPair, rule, fun _ x => (⟨0, Nat.succ_pos _⟩, x)⟩

-- The one rule decides both coordinates at once; the fault of the other one was raised in the last
-- step, and not by the space.
theorem collapse_terminates_sharedPair :
    sharedPair.Listed ∧ Shrinks indifferent ∧ Shrinks broken ∧
      (∃ N r, (∀ m, N ≤ m →
          (onPair indifferent).moment #v[.ofList [true, false]] () m = .finished r) ∧
        ∀ c ∈ sharedPair.coordinates, ∃ s, sharedPair.get r.cells c = .ok s ∧
          CellState.entropy s = 0) ∧
      ∃ r f, (onPair broken).collapse #v[.ofList [true, false]] () = .failed r (.raised f) ∧
        ∃ m q, (onPair broken).moment #v[.ofList [true, false]] () m = .running q ∧
          (onPair broken).Meets q f := by
  have listed : sharedPair.Listed := ⟨by decide, by decide⟩
  have same : ∀ s : Possibilities Bool, CellState.entropy s ≤ CellState.entropy s :=
    fun _ => Int.le_refl _
  have nonneg : ∀ s : Possibilities Bool, 0 ≤ CellState.entropy s :=
    fun s => Int.natCast_nonneg s.entropy
  refine ⟨listed, fun s _ _ _ _ => same s, fun s _ _ _ _ => same s, ?_, ?_⟩
  · obtain ⟨⟨N, stays⟩, outcome⟩ := collapse_terminates (onPair indifferent) listed nonneg
      (fun s _ _ _ _ => same s) #v[.ofList [true, false]] ()
    obtain ⟨r, done⟩ : ∃ r, (onPair indifferent).collapse #v[.ofList [true, false]] () =
        .finished r := ⟨_, rfl⟩
    rw [done] at stays
    rcases outcome with ⟨q, finished, decided⟩ | ⟨_, _, _, failed, _⟩ | ⟨_, _, failed, _⟩
    · cases done.symm.trans finished
      exact ⟨N, r, stays, decided⟩
    · cases done.symm.trans failed
    · cases done.symm.trans failed
  · have below : ∀ c ∈ sharedPair.coordinates, c < 2 := by decide
    obtain ⟨_, outcome⟩ := collapse_terminates (onPair broken) listed nonneg
      (fun s _ _ _ _ => same s) #v[.ofList [true, false]] ()
    obtain ⟨r, done⟩ : ∃ r, (onPair broken).collapse #v[.ofList [true, false]] () =
        .failed r (.raised (.foreign .runtime "broken rule")) := ⟨_, rfl⟩
    rcases outcome with ⟨_, finished, _⟩ | ⟨_, _, _, failed, _⟩ | ⟨q, f, failed, cause⟩
    · cases done.symm.trans finished
    · cases done.symm.trans failed
    · refine ⟨q, f, failed, ?_⟩
      rcases cause with missing | ⟨m, p, running, _, meets⟩
      · obtain ⟨c, hc, missing⟩ := missing.exists_missing
        have readable : sharedPair.slot c = .ok 0 := if_pos (below c hc)
        cases readable.symm.trans missing
      · exact ⟨m, p, running, meets⟩

end CellCollapse.Engine
