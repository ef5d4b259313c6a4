import CellCollapse.Proofs.Engine.Context
import CellCollapse.Proofs.Engine.Frozen
import CellCollapse.Proofs.Engine.Termination

set_option autoImplicit false

/-!
# The work of a collapse

A propagation takes one place from the queue, and it brings new places into the queue only if its
cell shrinks, at most one per offset. So the propagations made so far, the places in the queue and
the entropy that is left, times the number of offsets, never exceed what they came to at the start.
An undecided cell becomes decided once: by its observation or by a call that lets it react.
`Engine.counted` counts the calls of the second kind.
-/
namespace CellCollapse

namespace Space

variable {σ κ δ : Type} {n : Nat}

/-- The sum of a weight over all coordinates. -/
def total (space : Space κ δ n) (w : κ → Int) : Int :=
  (space.coordinates.map w).foldr (· + ·) 0

theorem foldr_add_change {cs : List κ} (nodup : cs.Nodup) {c : κ} (mem : c ∈ cs) {f g : κ → Int}
    (others : ∀ d ∈ cs, d ≠ c → g d = f d) :
    (cs.map g).foldr (· + ·) 0 + f c = (cs.map f).foldr (· + ·) 0 + g c := by
  induction cs with
  | nil => cases mem
  | cons d cs ih =>
    obtain ⟨absent, nodup⟩ := List.nodup_cons.1 nodup
    simp only [List.map_cons, List.foldr_cons]
    rcases List.mem_cons.1 mem with rfl | mem
    · have same : cs.map g = cs.map f := by
        apply List.map_congr_left
        intro d hd
        exact others d (List.mem_cons_of_mem _ hd) (ne_of_mem_of_not_mem hd absent)
      rw [same]
      omega
    · have rest := ih nodup mem fun e he => others e (List.mem_cons_of_mem _ he)
      have head := others d List.mem_cons_self (ne_of_mem_of_not_mem mem absent).symm
      omega

variable [CellState σ]

/-- The sum of the entropies of all cells. -/
def entropySum (space : Space κ δ n) (cells : Vector σ n) : Int :=
  space.total (space.entropyAt cells)

theorem entropyAt_set_of_ne {space : Space κ δ n} (apart : space.Apart) {c d : κ} {i : Fin n}
    (mem : c ∈ space.coordinates) (slot : space.slot c = .ok i) (hd : d ∈ space.coordinates)
    (hne : d ≠ c) {cells : Vector σ n} {s : σ} :
    space.entropyAt (cells.set i.val s i.isLt) d = space.entropyAt cells d := by
  cases hj : space.slot d with
  | error f => simp only [entropyAt, get, hj, Except.map]
  | ok j =>
    rw [entropyAt_eq hj, entropyAt_eq hj, get_set, if_neg]
    rintro rfl
    exact hne (apart d hd c mem i hj slot)

/-- A sum over the entropies of all cells follows the one cell that changes. -/
theorem total_entropyAt_set {space : Space κ δ n} (nodup : space.coordinates.Nodup)
    (apart : space.Apart) {c : κ} {i : Fin n} (mem : c ∈ space.coordinates)
    (slot : space.slot c = .ok i) (w : Int → Int) (cells : Vector σ n) (s : σ) :
    space.total (fun d => w (space.entropyAt (cells.set i.val s i.isLt) d)) +
        w (CellState.entropy (cells.get i)) =
      space.total (fun d => w (space.entropyAt cells d)) + w (CellState.entropy s) := by
  have others : ∀ d ∈ space.coordinates, d ≠ c →
      w (space.entropyAt (cells.set i.val s i.isLt) d) = w (space.entropyAt cells d) := by
    intro d hd hne
    rw [entropyAt_set_of_ne apart mem slot hd hne]
  have change := foldr_add_change nodup mem others
  rwa [entropyAt_eq slot, entropyAt_eq slot, get_set, if_pos rfl] at change

theorem entropySum_set {space : Space κ δ n} (nodup : space.coordinates.Nodup) (apart : space.Apart)
    {c : κ} {i : Fin n} (mem : c ∈ space.coordinates) (slot : space.slot c = .ok i)
    (cells : Vector σ n) (s : σ) :
    space.entropySum (cells.set i.val s i.isLt) + CellState.entropy (cells.get i) =
      space.entropySum cells + CellState.entropy s :=
  total_entropyAt_set nodup apart mem slot id cells s

theorem entropySum_nonneg (nonneg : ∀ s : σ, 0 ≤ CellState.entropy s) (space : Space κ δ n)
    (cells : Vector σ n) : 0 ≤ space.entropySum cells := by
  unfold entropySum total
  induction space.coordinates with
  | nil => exact Int.le_refl 0
  | cons c cs ih =>
    have head : 0 ≤ space.entropyAt cells c := by
      unfold entropyAt
      split
      · exact nonneg _
      · exact Int.le_refl 0
    simp only [List.map_cons, List.foldr_cons]
    omega

theorem undecided_eq_nil {space : Space κ δ n} {cells : Vector σ n}
    (decided : ∀ c ∈ space.coordinates, ∃ i, space.slot c = .ok i ∧
      CellState.entropy (cells.get i) = 0) : space.undecided cells = [] := by
  rw [undecided, List.filter_eq_nil_iff]
  intro c hc
  obtain ⟨i, hi, zero⟩ := decided c hc
  rw [entropyAt_eq hi, zero]
  simp

theorem length_undecided (space : Space κ δ n) (cells : Vector σ n) :
    ((space.undecided cells).length : Int) =
      space.total fun c => if 0 < space.entropyAt cells c then 1 else 0 := by
  unfold undecided total
  induction space.coordinates with
  | nil => rfl
  | cons c cs ih =>
    rw [List.map_cons, List.foldr_cons, ← ih]
    by_cases positive : 0 < space.entropyAt cells c
    · simp only [List.filter_cons, positive, decide_true, if_true, List.length_cons]
      omega
    · simp only [List.filter_cons, positive, decide_false, if_false, Bool.false_eq_true]
      omega

theorem length_undecided_set {space : Space κ δ n} (nodup : space.coordinates.Nodup)
    (apart : space.Apart) {c : κ} {i : Fin n} (mem : c ∈ space.coordinates)
    (slot : space.slot c = .ok i) (cells : Vector σ n) (s : σ)
    (undecided : 0 < CellState.entropy (cells.get i)) :
    (space.undecided (cells.set i.val s i.isLt)).length +
        (if 0 < CellState.entropy s then 0 else 1) = (space.undecided cells).length := by
  have change := total_entropyAt_set nodup apart mem slot (fun k => if 0 < k then 1 else 0) cells s
  rw [← length_undecided, ← length_undecided, if_pos undecided] at change
  split at change <;> simp only [*, if_true, if_false] <;> omega

end Space

/-- The coordinates that a run has observed, in order. -/
def Run.observedCells {σ κ ρ : Type} {n : Nat} (r : Run σ κ ρ n) : List κ :=
  r.events.filterMap fun
    | .observed c => some c
    | _ => none

namespace Engine

variable {σ κ δ ρ : Type} {n : Nat} [CellState σ]

/-- The engine that counts the calls by which a reaction decides its cell. -/
def counted (e : Engine σ κ δ ρ n) : Engine σ κ δ (ρ × Nat) n where
  space := e.space
  rule :=
    { offsets := e.rule.offsets
      collapse := fun s ns x =>
        let reply := e.rule.collapse s ns x.1
        reply.note <|
          if 0 < CellState.entropy s ∧ CellState.entropy reply.cell = 0 then x.2 + 1 else x.2
      observe := fun s ns x => (e.rule.observe s ns x.1).note x.2 }
  pick m x := ((e.pick m x.1).1, (e.pick m x.1).2, x.2)

theorem counted_extends (e : Engine σ κ δ ρ n) : e.counted.Extends Prod.fst e :=
  ⟨rfl, rfl, fun _ _ _ => rfl, fun _ _ _ => rfl, fun _ _ => rfl⟩

theorem Consults.counted_idle {e : Engine σ κ δ ρ n} {r : Run σ κ (ρ × Nat) n} {x : ρ × Nat}
    (consults : e.counted.Consults r x) (idle : r.queue = []) : x.2 = r.context.2 := by
  cases consults with
  | nothing | pick | observe => rfl
  | collapse busy => exact absurd idle busy

/-- What a run has spent and may still have to spend on propagations. -/
def charge (e : Engine σ κ δ ρ n) (r : Run σ κ ρ n) : Int :=
  (r.propagations + r.queue.length : Int) + e.rule.offsets.length * e.space.entropySum r.cells

/-- What a cell loses in entropy pays for the places that its neighbors take in the queue. -/
theorem charge_le_of_drop {e : Engine σ κ δ ρ n} (nodup : e.space.coordinates.Nodup)
    (apart : e.space.Apart) {r r' : Run σ κ ρ n} {c : κ} {i : Fin n} {s : σ}
    (mem : c ∈ e.space.coordinates) (slot : e.space.slot c = .ok i)
    (changed : r'.cells = r.cells.set i.val s i.isLt)
    (drop : CellState.entropy s < CellState.entropy (r.cells.get i))
    (spent : r'.propagations + r'.queue.length ≤
      r.propagations + r.queue.length + e.rule.offsets.length) : e.charge r' ≤ e.charge r := by
  have total := Space.entropySum_set nodup apart mem slot r.cells s
  rw [← changed] at total
  have scaled : (e.rule.offsets.length : Int) * (e.space.entropySum r'.cells + 1) ≤
      e.rule.offsets.length * e.space.entropySum r.cells :=
    Int.mul_le_mul_of_nonneg_left (by omega) (Int.natCast_nonneg _)
  rw [Int.mul_add, Int.mul_one] at scaled
  unfold charge
  omega

variable {e : Engine σ κ δ ρ n} {cells : Vector σ n} {context : ρ}

theorem Move.queued [BEq κ] (lawful : e.space.Lawful e.rule.offsets) {r r' : Run σ κ ρ n}
    (kept : e.Kept cells r) (inside : ∀ c ∈ r.queue, c ∈ e.space.coordinates)
    (move : e.Move r (.running r')) : ∀ c ∈ r'.queue, c ∈ e.space.coordinates := by
  -- The buffer has one place per offset, so a look around leaves nothing old in it.
  have found : ∀ {c around views}, c ∈ e.space.coordinates → e.Looked r c around views →
      ∀ d ∈ around.filterMap id, d ∈ e.space.coordinates := by
    intro c around views mem looked d hd
    have full := lawful.complete c mem looked.sound
    rw [looked.around_eq, Lookup.overwrite_eq_found (full.trans kept.room.symm)] at hd
    exact lawful.mem_of_found mem hd
  cases move with
  | skip queued =>
    intro d hd
    exact inside d (queued ▸ List.mem_cons_of_mem _ hd)
  | react queued _ _ looked =>
    intro d hd
    rcases List.mem_append.1 hd with hd | hd
    · exact inside d (queued ▸ List.mem_cons_of_mem _ hd)
    · split at hd
      · exact found (inside _ (queued ▸ List.mem_cons_self)) looked d (List.mem_filter.1 hd).1
      · cases hd
  | observe _ listed _ _ looked => exact found (kept.listed _ listed) looked

theorem Move.charge_le (nodup : e.space.coordinates.Nodup) (apart : e.space.Apart)
    (nonneg : ∀ s : σ, 0 ≤ CellState.entropy s) (shrinks : Shrinks e.rule) {r r' : Run σ κ ρ n}
    (kept : e.Kept cells r) (inside : ∀ c ∈ r.queue, c ∈ e.space.coordinates)
    (move : e.Move r (.running r')) : e.charge r' ≤ e.charge r := by
  cases move with
  | skip queued =>
    simp only [charge, queued, List.length_cons]
    omega
  | @react c rest i around views reply queued slot undecided looked asked calm =>
    have mem : c ∈ e.space.coordinates := inside c (queued ▸ List.mem_cons_self)
    have before := nonneg (r.cells.get i)
    have room := looked.length_around.trans kept.room
    by_cases drop : CellState.entropy reply.cell < CellState.entropy (r.cells.get i)
    · refine charge_le_of_drop nodup apart mem slot rfl drop ?_
      have woken := length_queued_le around (e.isOpen (r.cells.set i.val reply.cell i.isLt))
      simp only [reacted, drop, if_true, queued, List.length_append, List.length_cons]
      omega
    · -- Nothing is woken, and the entropy is what it was: the place in the queue pays.
      subst asked
      have hle := shrinks (r.cells.get i) views r.context (by omega) calm
      have total := Space.entropySum_set nodup apart mem slot r.cells
        (e.rule.collapse (r.cells.get i) views r.context).cell
      have same : e.space.entropySum (r.cells.set i.val
          (e.rule.collapse (r.cells.get i) views r.context).cell i.isLt) =
          e.space.entropySum r.cells := by omega
      simp only [charge, reacted, drop, if_false, queued, List.append_nil, List.length_cons, same]
      omega
  | @observe c i around views reply candidates x idle listed slot undecided looked asked calm
      settled =>
    have before := nonneg (r.cells.get i)
    have room := looked.length_around.trans kept.room
    have woken := List.length_filterMap_le id around
    refine charge_le_of_drop nodup apart (kept.listed c listed) slot rfl (by omega) ?_
    simp only [observed]
    omega

/-- A cell that becomes decided has been observed, or its reaction was counted. -/
theorem Move.counted_eq (nodup : e.space.coordinates.Nodup) (apart : e.space.Apart)
    (nonneg : ∀ s : σ, 0 ≤ CellState.entropy s) {r r' : Run σ κ (ρ × Nat) n}
    (kept : e.counted.Kept cells r) (inside : ∀ c ∈ r.queue, c ∈ e.space.coordinates)
    (move : e.counted.Move r (.running r')) :
    (e.space.undecided r'.cells).length + r'.observations + r'.context.2 =
      (e.space.undecided r.cells).length + r.observations + r.context.2 := by
  cases move with
  | skip => rfl
  | @react c rest i around views reply queued slot undecided looked asked =>
    have mem : c ∈ e.space.coordinates := inside c (queued ▸ List.mem_cons_self)
    have before := nonneg (r.cells.get i)
    have after := nonneg reply.cell
    have change := Space.length_undecided_set nodup apart mem slot r.cells reply.cell (by omega)
    have noted : reply.context.2 =
        if CellState.entropy reply.cell = 0 then r.context.2 + 1 else r.context.2 := by
      subst asked
      have positive : 0 < CellState.entropy (r.cells.get i) := by omega
      simp only [Engine.counted, Reply.note, positive, true_and]
    simp only [reacted, noted]
    split at change <;> split <;> omega
  | @observe c i around views reply candidates x idle listed slot undecided looked asked calm
      settled consults =>
    have before := nonneg (r.cells.get i)
    have change := Space.length_undecided_set nodup apart (kept.listed c listed) slot r.cells
      reply.cell (by omega)
    have noted := consults.counted_idle idle
    rw [if_neg (by omega)] at change
    simp only [observed]
    omega

/-- Every observation is on record, and the observed cells are decided; so none of them is observed
again. -/
structure ObservedOnce (e : Engine σ κ δ ρ n) (r : Run σ κ ρ n) : Prop where
  nodup : r.observedCells.Nodup
  count : r.observedCells.length = r.observations
  closed : ∀ c ∈ r.observedCells, e.isOpen r.cells c = false

theorem Move.observedOnce {r r' : Run σ κ ρ n} (once : e.ObservedOnce r)
    (move : e.Move r (.running r')) : e.ObservedOnce r' := by
  have still : ∀ c ∈ r.observedCells, e.isOpen r'.cells c = false := by
    intro c hc
    rw [Bool.eq_false_iff]
    intro reopened
    have before : e.isOpen r.cells c = true := move.isOpen_before reopened
    rw [once.closed c hc] at before
    cases before
  cases move with
  | skip | react => exact ⟨once.nodup, once.count, still⟩
  | @observe c i around views reply candidates x idle pending slot undecided looked asked calm
      settled =>
    have opened : e.isOpen r.cells c = true := (e.isOpen_iff _ c).2 ⟨i, slot, undecided⟩
    have fresh : c ∉ r.observedCells := by
      intro hc
      rw [once.closed c hc] at opened
      cases opened
    have more : (e.observed r candidates c i around reply).observedCells =
        r.observedCells ++ [c] := by
      simp [Run.observedCells, observed, List.filterMap_append]
    refine ⟨?_, ?_, ?_⟩
    · rw [more, List.nodup_append]
      refine ⟨once.nodup, List.nodup_cons.2 ⟨List.not_mem_nil, List.nodup_nil⟩, ?_⟩
      intro d hd b hb
      rw [List.mem_singleton.1 hb]
      exact ne_of_mem_of_not_mem hd fresh
    · rw [more, List.length_append, once.count]
      rfl
    · intro d hd
      rw [more] at hd
      rcases List.mem_append.1 hd with hd | hd
      · exact still d hd
      · obtain rfl := List.mem_singleton.1 hd
        rw [Bool.eq_false_iff]
        intro reopened
        obtain ⟨l, hl, hne⟩ := (e.isOpen_iff _ d).1 reopened
        cases slot.symm.trans hl
        rw [observed, get_set, if_pos rfl] at hne
        exact hne settled

variable [BEq κ]

theorem queued_moment (lawful : e.space.Lawful e.rule.offsets)
    (nonneg : ∀ s : σ, 0 ≤ CellState.entropy s) {k : Nat} {r : Run σ κ ρ n}
    (h : e.moment cells context k = .running r) : ∀ c ∈ r.queue, c ∈ e.space.coordinates := by
  refine moment_induction (fun q => ∀ c ∈ q.queue, c ∈ e.space.coordinates) ?_ ?_ h
  · intro r₀ start c hc
    obtain ⟨_, rfl⟩ := start_running lawful.toListed nonneg start
    exact (List.mem_filter.1 hc).1
  · intro j q q' hq inside move
    exact move.queued lawful (kept_moment lawful.toListed nonneg hq) inside

theorem charge_moment [ReflBEq κ] (apart : e.space.Apart)
    (lawful : e.space.Lawful e.rule.offsets) (nonneg : ∀ s : σ, 0 ≤ CellState.entropy s)
    (shrinks : Shrinks e.rule) {k : Nat} {r : Run σ κ ρ n}
    (h : e.moment cells context k = .running r) :
    e.charge r ≤
      (e.space.undecided cells).length + e.rule.offsets.length * e.space.entropySum cells := by
  refine moment_induction (fun q => e.charge q ≤ _) ?_ ?_ h
  · intro r₀ start
    obtain ⟨_, rfl⟩ := start_running lawful.toListed nonneg start
    rw [filter_isOpen_eq_undecided nonneg]
    simp [charge, fresh, Run.blank]
  · intro j q q' hq bound move
    have kept := kept_moment lawful.toListed nonneg hq
    have inside := queued_moment lawful nonneg hq
    exact Int.le_trans (move.charge_le lawful.nodup apart nonneg shrinks kept inside) bound

theorem counted_moment [ReflBEq κ] (apart : e.space.Apart)
    (lawful : e.space.Lawful e.rule.offsets) (nonneg : ∀ s : σ, 0 ≤ CellState.entropy s) {k : Nat}
    {r : Run σ κ (ρ × Nat) n} (h : e.counted.moment cells (context, 0) k = .running r) :
    (e.space.undecided r.cells).length + r.observations + r.context.2 =
      (e.space.undecided cells).length := by
  refine moment_induction (e := e.counted) (fun q => (e.space.undecided q.cells).length +
    q.observations + q.context.2 = (e.space.undecided cells).length) ?_ ?_ h
  · intro r₀ start
    obtain ⟨_, rfl⟩ := start_running (e := e.counted) lawful.toListed nonneg start
    rfl
  · intro j q q' hq count move
    have kept := kept_moment (e := e.counted) lawful.toListed nonneg hq
    have inside := queued_moment (e := e.counted) lawful nonneg hq
    exact (move.counted_eq lawful.nodup apart nonneg kept inside).trans count

theorem observedOnce_moment (listed : e.space.Listed) (nonneg : ∀ s : σ, 0 ≤ CellState.entropy s)
    {k : Nat} {r : Run σ κ ρ n} (h : e.moment cells context k = .running r) : e.ObservedOnce r := by
  refine moment_induction e.ObservedOnce ?_ ?_ h
  · intro r₀ start
    obtain ⟨_, rfl⟩ := start_running listed nonneg start
    exact ⟨List.nodup_nil, rfl, by simp [Run.observedCells]⟩
  · intro j q q' _ once move
    exact move.observedOnce once

theorem finished_charge [ReflBEq κ] (apart : e.space.Apart)
    (lawful : e.space.Lawful e.rule.offsets) (nonneg : ∀ s : σ, 0 ≤ CellState.entropy s)
    (shrinks : Shrinks e.rule) {k : Nat} {r : Run σ κ ρ n}
    (h : e.moment cells context k = .finished r) : (r.propagations : Int) ≤
      (e.space.undecided cells).length + e.rule.offsets.length * e.space.entropySum cells := by
  obtain ⟨m, q, hq, move⟩ := moment_finished_move h
  have bound := charge_moment apart lawful nonneg shrinks hq
  have left : 0 ≤ (e.rule.offsets.length : Int) * e.space.entropySum q.cells :=
    Int.mul_nonneg (Int.natCast_nonneg _) (e.space.entropySum_nonneg nonneg q.cells)
  cases move with
  | finish =>
    unfold charge at bound
    dsimp only
    omega

theorem finished_observedCells (listed : e.space.Listed)
    (nonneg : ∀ s : σ, 0 ≤ CellState.entropy s) {k : Nat} {r : Run σ κ ρ n}
    (h : e.moment cells context k = .finished r) :
    r.observedCells.Nodup ∧ r.observedCells.length = r.observations := by
  obtain ⟨m, q, hq, move⟩ := moment_finished_move h
  obtain ⟨nodup, count, _⟩ := observedOnce_moment listed nonneg hq
  cases move with
  | finish => simpa [Run.observedCells, List.filterMap_append] using And.intro nodup count

theorem finished_counted [ReflBEq κ] (apart : e.space.Apart)
    (lawful : e.space.Lawful e.rule.offsets) (nonneg : ∀ s : σ, 0 ≤ CellState.entropy s) {k : Nat}
    {r : Run σ κ (ρ × Nat) n} (h : e.counted.moment cells (context, 0) k = .finished r) :
    (e.space.undecided cells).length = r.observations + r.context.2 := by
  obtain ⟨decided, _⟩ := moment_finished (e := e.counted) lawful.toListed nonneg h
  have none_left : e.space.undecided r.cells = [] := Space.undecided_eq_nil decided
  obtain ⟨m, q, hq, move⟩ := moment_finished_move h
  have count := counted_moment apart lawful nonneg hq
  cases move with
  | finish idle _ consults =>
    change e.space.undecided q.cells = [] at none_left
    have noted := consults.counted_idle idle
    rw [none_left, List.length_nil] at count
    dsimp only
    omega

/-- The bound on the work holds whatever an observation does; one that leaves its cell undecided
ends the run. -/
theorem work_bounded [ReflBEq κ] (e : Engine σ κ δ ρ n) (lawful : e.space.Lawful e.rule.offsets)
    (apart : e.space.Apart) (nonneg : ∀ s : σ, 0 ≤ CellState.entropy s)
    (shrinks : Shrinks e.rule) (cells : Vector σ n) (context : ρ) :
    (∀ k r, e.moment cells context k = .running r →
      (r.propagations + r.queue.length : Int) +
          e.rule.offsets.length * e.space.entropySum r.cells ≤
        (e.space.undecided cells).length + e.rule.offsets.length * e.space.entropySum cells) ∧
      ∀ r, e.collapse cells context = .finished r →
        (r.propagations : Int) ≤
            (e.space.undecided cells).length + e.rule.offsets.length * e.space.entropySum cells ∧
          r.observedCells.Nodup ∧ r.observedCells.length = r.observations ∧
          (e.counted.collapse cells (context, 0)).mapContext Prod.fst = .finished r ∧
          (e.space.undecided cells).length =
            r.observations + (e.counted.collapse cells (context, 0)).run.context.2 := by
  refine ⟨fun k r h => charge_moment apart lawful nonneg shrinks h, ?_⟩
  intro r returned
  have same := e.counted_extends.collapse_eq cells (context, 0)
  obtain ⟨k, hk⟩ := e.exists_collapse_eq_moment cells context
  obtain ⟨l, hl⟩ := e.counted.exists_collapse_eq_moment cells (context, 0)
  have finished := hk.symm.trans returned
  obtain ⟨once, count⟩ := finished_observedCells lawful.toListed nonneg finished
  refine ⟨finished_charge apart lawful nonneg shrinks finished, once, count,
    same.symm.trans returned, ?_⟩
  cases ho : e.counted.collapse cells (context, 0) with
  | finished q =>
    rw [ho] at hl same
    obtain rfl := Outcome.finished.inj (returned.symm.trans same)
    exact finished_counted apart lawful nonneg hl.symm
  | running q =>
    rw [ho] at same
    cases returned.symm.trans same
  | failed q f =>
    rw [ho] at same
    cases returned.symm.trans same

/-- A rule that keeps what all present neighbors still have, and observes the first value. -/
def agreeing : Rule (Possibilities Nat) Nat Unit where
  offsets := [1]
  collapse s ns x := ⟨s.filter fun v => ns.all fun o => o.all (·.contains v), ns, x, none⟩
  observe s ns x := ⟨(s.toList.head?).elim s .only, ns, x, none⟩

-- One cell is observed, the other is decided by its reaction: three propagations, at most four.
theorem work_bounded_agreeing :
    twoCells.Lawful agreeing.offsets ∧ twoCells.Apart ∧ Shrinks agreeing ∧
      ∃ r, collapse ⟨twoCells, agreeing, fun _ x => (0, x)⟩ #v[.ofList [1, 2], .ofList [1, 2]] () =
          .finished r ∧ r.propagations = 3 ∧
        (r.propagations : Int) ≤ 2 + 1 * 2 ∧ r.observedCells.Nodup ∧ r.observations = 1 ∧
        2 = r.observations + (collapse (counted ⟨twoCells, agreeing, fun _ x => (0, x)⟩)
          #v[.ofList [1, 2], .ofList [1, 2]] ((), 0)).run.context.2 := by
  have lawful : twoCells.Lawful agreeing.offsets := by
    refine ⟨⟨by decide, by decide⟩, ?_, fun _ _ _ => rfl⟩
    intro c hc k d hd
    have found := List.mem_of_getElem? ((Space.neighbor?_eq_some_iff _ _ c d k).1 hd)
    obtain rfl : d = (c + 1) % 2 := by simpa [twoCells, agreeing] using found
    simp [twoCells]
    omega
  have apart : twoCells.Apart := by
    intro c _ d _ i hi hj
    have numbered : ∀ a, twoCells.slot a = .ok i → a = i.val := by
      intro a ha
      simp only [twoCells] at ha
      split at ha
      · cases ha
        rfl
      · cases ha
    rw [numbered c hi, numbered d hj]
  have shrinks : Shrinks agreeing :=
    fun s _ _ _ _ => Int.ofNat_le.2 (s.entropy_filter_le _)
  obtain ⟨r, returned, made, seen⟩ : ∃ r, collapse ⟨twoCells, agreeing, fun _ x => (0, x)⟩
      #v[.ofList [1, 2], .ofList [1, 2]] () = .finished r ∧ r.propagations = 3 ∧
        r.observations = 1 := ⟨_, rfl, rfl, rfl⟩
  obtain ⟨bound, once, _, _, settled⟩ := (work_bounded ⟨twoCells, agreeing, fun _ x => (0, x)⟩
    lawful apart Possibilities.entropy_nonneg shrinks #v[.ofList [1, 2], .ofList [1, 2]] ()).2 r
    returned
  exact ⟨lawful, apart, shrinks, r, returned, made, bound, once, seen, settled⟩

end Engine

end CellCollapse
