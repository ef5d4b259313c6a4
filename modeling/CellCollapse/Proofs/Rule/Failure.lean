import CellCollapse.Proofs.Rule.Confluence

set_option autoImplicit false

/-!
# Failures of a table

On a space whose cells can all be read, together with what is around them, the engine of a table has
one way to fail: a weighted choice among values that the observed cell had from the beginning raises
a fault. So a collapse finishes wherever the choices do (`Table.collapse_finished_or_refused`), and
the propagation before the first observation always does (`Table.settle_finishes`).
-/
namespace CellCollapse

/-- Every cell can be read, and so can its neighbors along the offsets. -/
structure Space.Sound {κ δ : Type} {n : Nat} (space : Space κ δ n) (offsets : List δ) : Prop where
  readable : ∀ c ∈ space.coordinates, ∃ i, space.slot c = .ok i
  around : ∀ c ∈ space.coordinates, (space.neighbors c offsets).fault = none

theorem Engine.start_of_readable {σ κ δ ρ : Type} {n : Nat} [CellState σ] [BEq κ]
    {e : Engine σ κ δ ρ n} (readable : ∀ c ∈ e.space.coordinates, ∃ i, e.space.slot c = .ok i)
    (cells : Vector σ n) (context : ρ) : ∃ r, e.start (e.fresh cells context) = .running r := by
  simp only [start, fresh, Run.blank, readings_of_readable readable cells]
  exact ⟨_, rfl⟩

namespace Table

variable {α κ δ ρ : Type} [BEq α] [EquivBEq α] [AsValue α] {n : Nat} {t : Table α δ}
  {space : Space κ δ n} {choose : Chooser ρ} {pick : TieBreak ρ}

/-- With no more neighbors than offsets, an observation can fail only in its choice. -/
theorem observe_fault {cell : Possibilities α} {ns : List (Option (Possibilities α))} {x : ρ}
    {f : Fault} (room : ns.length ≤ t.offsets.length)
    (h : (t.observe choose cell ns x).fault = some f) :
    ∃ v vs y, t.options cell ns = v :: vs ∧
      choose (t.weightOr v) (vs.map t.weightOr) x = (.error f, y) := by
  unfold observe at h
  rw [t.firstFault?_eq_none room] at h
  cases hoptions : t.options cell ns with
  | nil => simp [hoptions] at h
  | cons v vs =>
    rw [hoptions] at h
    dsimp only at h
    split at h
    · rename_i g y hchoose
      cases h
      exact ⟨v, vs, y, rfl, hchoose⟩
    · cases h

variable [BEq κ] {r : Run (Possibilities α) κ ρ n}

omit [EquivBEq α] in
theorem Tracked.not_blocked (lawful : space.Lawful t.offsets) (sound : space.Sound t.offsets)
    (tracked : t.Tracked space r) {c : κ} (mem : c ∈ space.coordinates) {f : Fault} :
    ¬ (t.engine choose pick space).Blocked r.neighbors c f := by
  intro blocked
  have readable : ∀ d ∈ space.coordinates, space.slot d ≠ .error f := by
    intro d hd missing
    obtain ⟨i, hi⟩ := sound.readable d hd
    cases hi.symm.trans missing
  cases blocked with
  | slot h => exact readable c mem h
  | neighbors h => cases (sound.around c mem).symm.trans h
  | view fault h =>
    -- The buffer is filled to its end, so what it shows are neighbors of `c`.
    have full := (lawful.complete c mem fault).trans tracked.around.symm
    obtain ⟨d, seen, missing⟩ := h.exists_missing
    change d ∈ ((space.neighbors c t.offsets).overwrite r.neighbors).filterMap id at seen
    rw [Lookup.overwrite_eq_found full] at seen
    exact readable d (lawful.mem_of_found mem seen) missing

variable (t space choose pick) in
/-- The step after `r` observes a cell, and the choice among its options is refused. All of them are
values that the cell has in `cells`. -/
inductive RefusedAt (cells : Vector (Possibilities α) n) (r : Run (Possibilities α) κ ρ n)
    (f : Fault) : Prop where
  | intro {c : κ} {i : Fin n} {call : Call (Possibilities α)} {v : α} {vs : List α} {y : ρ}
      (asks : (t.engine choose pick space).Asks r c i call) (observes : call.observes = true)
      (options : t.options call.cell call.snapshots = v :: vs)
      (held : ∀ u ∈ v :: vs, (cells.get i).contains u = true)
      (refused : choose (t.weightOr v) (vs.map t.weightOr)
        ((t.engine choose pick space).select r).1.context = (.error f, y))

/-- The last move of a run finishes it, or a choice among values of a cell has failed. -/
theorem Tracked.finished_or_refused (lawful : space.Lawful t.offsets)
    (sound : space.Sound t.offsets) (tracked : t.Tracked space r)
    {o : Outcome (Possibilities α) κ ρ n} (move : (t.engine choose pick space).Move r o)
    (ended : ∀ q, o ≠ .running q) :
    (∃ q, o = .finished q) ∨ ∃ q f, o = .failed q (.raised f) ∧
      t.RefusedAt space choose pick r.cells r f := by
  have named : ∀ c, c ∈ r.queue ∨ c ∈ r.unresolved → c ∈ space.coordinates := by
    intro c hc
    exact hc.elim (tracked.queued c) (tracked.listed c)
  cases move with
  | skip | react | observe => exact absurd rfl (ended _)
  | finish => exact .inl ⟨_, rfl⟩
  | raise stuck =>
    obtain ⟨c, hc, blocked⟩ := stuck.site
    exact absurd blocked (tracked.not_blocked lawful sound (named c hc))
  | @refuse q f c i call asks fault =>
    obtain ⟨around, looked⟩ := asks.looked
    obtain ⟨_, room, _⟩ := tracked.looked lawful (named c asks.named) looked
    have room : call.snapshots.length ≤ t.offsets.length := Nat.le_of_eq room
    by_cases kind : call.observes = true
    · rw [asks.answer_observe kind] at fault
      obtain ⟨v, vs, y, hoptions, hchoose⟩ := observe_fault room fault
      refine .inr ⟨q, f, rfl, asks, kind, ?_, ?_, hchoose⟩
      · rw [asks.cell, hoptions]
      · intro u hu
        exact contains_of_mem_options (hoptions ▸ hu)
    · rw [asks.answer_collapse kind] at fault
      change (t.collapse (r.cells.get i) call.snapshots r.context).fault = some f at fault
      rw [t.collapse_eq _ room] at fault
      cases fault
  | balk asks kind calm unsettled =>
    rw [asks.answer_observe kind] at calm unsettled
    exact absurd (Governs.settles (e := t.engine choose pick space) (t.governs_rule choose)
      asks.undecided calm) unsettled

/-- A collapse ends by finishing, or its last step was refused a choice among values that the cell
had at the start. -/
theorem moment_finished_or_refused (lawful : space.Lawful t.offsets)
    (sound : space.Sound t.offsets) {cells : Vector (Possibilities α) n} {context : ρ} {k : Nat}
    (ended : ∀ r, (t.engine choose pick space).moment cells context k ≠ .running r) :
    (∃ q, (t.engine choose pick space).moment cells context k = .finished q) ∨
      ∃ q f, (t.engine choose pick space).moment cells context k = .failed q (.raised f) ∧
        ∃ m r, (t.engine choose pick space).moment cells context m = .running r ∧
          (t.engine choose pick space).step r =
            (t.engine choose pick space).moment cells context k ∧
          t.RefusedAt space choose pick cells r f := by
  rcases Engine.moment_last_step ended with hstart | ⟨m, r, hr, last⟩
  · obtain ⟨r, hr⟩ := Engine.start_of_readable (e := t.engine choose pick space) sound.readable
      cells context
    exact absurd (hstart.trans hr) (ended r)
  · have tracked := tracked_moment lawful hr
    have move := (t.engine choose pick space).step_move r
    rw [← last] at move
    refine (tracked.finished_or_refused lawful sound move ended).imp_right ?_
    rintro ⟨q, f, failed, asks, observes, options, held, refused⟩
    exact ⟨q, f, failed, m, r, hr, last.symm, asks, observes, options,
      fun u hu => contains_before hr _ u (held u hu), refused⟩

theorem collapse_finished_or_refused (lawful : space.Lawful t.offsets)
    (sound : space.Sound t.offsets) (choose : Chooser ρ) (pick : TieBreak ρ)
    (cells : Vector (Possibilities α) n) (context : ρ) :
    (∃ q, (t.engine choose pick space).collapse cells context = .finished q) ∨
      ∃ q f, (t.engine choose pick space).collapse cells context = .failed q (.raised f) ∧
        ∃ m r, (t.engine choose pick space).moment cells context m = .running r ∧
          (t.engine choose pick space).step r =
            (t.engine choose pick space).collapse cells context ∧
          t.RefusedAt space choose pick cells r f := by
  obtain ⟨k, hk, ended⟩ := Engine.collapse_ended (e := t.engine choose pick space) lawful.toListed
    Possibilities.entropy_nonneg (t.shrinks_engine choose pick space) cells context
  rw [hk]
  exact moment_finished_or_refused lawful sound ended

section Settling

omit [EquivBEq α] [BEq κ] in
/-- Propagation makes no choices. -/
theorem drain_eq_of_chooser (choose choose' : Chooser ρ) (steps : Nat)
    (r : Run (Possibilities α) κ ρ n) :
    (t.engine choose pick space).drain steps r = (t.engine choose' pick space).drain steps r := by
  induction steps generalizing r with
  | zero => rfl
  | succ steps ih =>
    have same : ∀ c (r : Run (Possibilities α) κ ρ n),
        (t.engine choose pick space).propagateAt c r =
          (t.engine choose' pick space).propagateAt c r := fun _ _ => rfl
    simp only [Engine.drain, same, ih]

omit [EquivBEq α] in
theorem settle_eq_of_chooser (choose choose' : Chooser ρ) (cells : Vector (Possibilities α) n)
    (context : ρ) :
    (t.engine choose pick space).settle cells context =
      (t.engine choose' pick space).settle cells context := by
  have started : (t.engine choose pick space).start
      ((t.engine choose pick space).fresh cells context) = (t.engine choose' pick space).start
        ((t.engine choose' pick space).fresh cells context) := rfl
  simp only [Engine.settle, started]
  split
  · exact drain_eq_of_chooser choose choose' _ _
  · rfl

/-- The propagation before the first observation comes to its end. -/
theorem settle_finishes (lawful : space.Lawful t.offsets) (sound : space.Sound t.offsets)
    (choose : Chooser ρ) (pick : TieBreak ρ) (cells : Vector (Possibilities α) n) (context : ρ) :
    ∃ q, (t.engine choose pick space).settle cells context = .finished q := by
  -- With choices that never fail, no moment of the collapse is a failure.
  rw [settle_eq_of_chooser choose fun _ _ x => (.ok 0, x)]
  rcases Engine.settle_moment (e := t.engine (fun _ _ x => (.ok 0, x)) pick space) lawful.toListed
    Possibilities.entropy_nonneg (t.shrinks_engine _ pick space) cells context with
    ⟨_, q, settled, _⟩ | ⟨m, settled, ended⟩
  · exact ⟨q, settled⟩
  · rw [settled]
    refine (moment_finished_or_refused lawful sound ended).resolve_right ?_
    rintro ⟨_, _, _, _, _, _, _, _, _, _, _, refused⟩
    cases refused

end Settling

end Table

theorem Grid.space_sound {n : Nat} (g : Grid (Fin n)) {offsets : List Delta}
    (matching : ∀ D ∈ offsets, D.length = g.axes) : g.space.Sound offsets where
  readable _ := g.get_of_mem
  around c _ := congrArg Lookup.fault (g.neighbors_eq matching (c := c))

end CellCollapse
