import CellCollapse.Proofs.Engine.Selection
import CellCollapse.Proofs.Engine.Work
import CellCollapse.Proofs.Rule.Failure

set_option autoImplicit false

/-!
# Tables without offsets

Where a table has no offsets, no cell looks at another. The propagation goes through the undecided
cells once and changes none of them, and the queue stays empty from then on. Each observation takes
a cell of lowest entropy among those that are left, and the others keep the entropies that they had
at the start. So a collapse observes every undecided cell once, in the order of these entropies.
-/
namespace CellCollapse

namespace Space

variable {σ κ δ : Type} [CellState σ] {n : Nat} {space : Space κ δ n} {cells : Vector σ n}

theorem slot_of_undecided {c : κ} (h : c ∈ space.undecided cells) :
    ∃ i, space.slot c = .ok i ∧ 0 < CellState.entropy (cells.get i) := by
  have positive := of_decide_eq_true (List.mem_filter.1 h).2
  cases hs : space.slot c with
  | error f =>
    simp only [entropyAt, get, hs, Except.map] at positive
    omega
  | ok i =>
    rw [entropyAt_eq hs] at positive
    exact ⟨i, rfl, positive⟩

/-- Deciding a cell takes its coordinate from the undecided ones. -/
theorem perm_undecided_set (nodup : space.coordinates.Nodup) (apart : space.Apart) {c : κ}
    {i : Fin n} (h : c ∈ space.undecided cells) (slot : space.slot c = .ok i) {s : σ}
    (settled : CellState.entropy s = 0) :
    (c :: space.undecided (cells.set i.val s i.isLt)).Perm (space.undecided cells) := by
  have mem : c ∈ space.coordinates := (List.mem_filter.1 h).1
  have decided : space.entropyAt (cells.set i.val s i.isLt) c = 0 := by
    rw [entropyAt_eq slot, get_set, if_pos rfl, settled]
  have gone : c ∉ space.undecided (cells.set i.val s i.isLt) := by
    intro left
    have positive := of_decide_eq_true (List.mem_filter.1 left).2
    omega
  refine (List.perm_ext_iff_of_nodup (List.nodup_cons.2 ⟨gone, nodup.filter _⟩)
    (nodup.filter _)).2 ?_
  intro d
  by_cases same : d = c
  · subst same
    exact iff_of_true List.mem_cons_self h
  · rw [List.mem_cons, or_iff_right same, List.mem_filter, undecided, List.mem_filter]
    refine and_congr_right fun hd => ?_
    rw [entropyAt_set_of_ne apart mem slot hd same]

end Space

theorem Lookup.overwrite_nil {τ : Type} (l : Lookup τ) : l.overwrite [] = [] := by
  simp [overwrite]

namespace Engine

variable {σ κ δ ρ : Type} [CellState σ] {n : Nat} {e : Engine σ κ δ ρ n} {c : κ} {i : Fin n}
  {r : Run σ κ ρ n} (around : r.neighbors = []) (views : r.snapshots = [])
  (sound : (e.space.neighbors c e.rule.offsets).fault = none)

include around views sound

omit [CellState σ] in
/-- Buffers without places take up nothing. -/
theorem lookAround_nil : e.lookAround c r = (r, none) := by
  obtain ⟨⟩ := r
  cases around
  cases views
  simp [lookAround, sound, Lookup.overwrite_nil, snapshotsOf, Lookup.done]

theorem propagateAt_nil (slot : e.space.slot c = .ok i)
    (undecided : CellState.entropy (r.cells.get i) ≠ 0)
    (asked : e.rule.collapse (r.cells.get i) [] r.context =
      ⟨r.cells.get i, [], r.context, none⟩) :
    e.propagateAt c r = .running { r with propagations := r.propagations + 1 } := by
  have same : r.cells.set i.val (r.cells.get i) i.isLt = r.cells := Vector.set_getElem_self _
  simp only [propagateAt, slot, undecided, if_false, lookAround_nil around views sound, views,
    asked, adopt, Int.lt_irrefl, same]

theorem observeAt_nil (slot : e.space.slot c = .ok i) {s : σ} {x : ρ}
    (asked : e.rule.observe (r.cells.get i) [] r.context = ⟨s, [], x, none⟩)
    (settled : CellState.entropy s = 0) :
    e.observeAt c r = .running { r with
      cells := r.cells.set i.val s i.isLt
      context := x
      queue := []
      observations := r.observations + 1
      events := r.events ++ [.observed c] } := by
  have looked := lookAround_nil (e := e) (c := c) (r := { r with queue := [] }) around views sound
  simp only [observeAt, looked]
  simp only [slot, views, asked, adopt, settled, if_true, around, List.filterMap_nil]

omit around views sound in
/-- A selection finds nothing that is left, or it finds something of lowest entropy. -/
theorem select_cases [BEq κ] {cells : Vector σ n} {context : ρ} (listed : e.space.Listed)
    (nonneg : ∀ s : σ, 0 ≤ CellState.entropy s) {k : Nat}
    (h : e.moment cells context k = .running r) :
    e.select r =
        ({ r with candidates := [], unresolved := e.space.undecided r.cells }, .ok none) ∨
      ∃ r' c, c ∈ e.space.lowest r.cells ∧ e.select r = (r', .ok (some c)) := by
  rw [select_moment listed nonneg h]
  cases hlow : e.space.lowest r.cells with
  | nil => exact .inl rfl
  | cons c cs => exact .inr ⟨_, _, List.get_mem (c :: cs) _, rfl⟩

end Engine

namespace Table

variable {α κ δ ρ : Type} [BEq α] [AsValue α] {n : Nat} {t : Table α δ}
  {space : Space κ δ n} {choose : Chooser ρ} {pick : TieBreak ρ}

/-- No weighted choice of a collapse without neighbors raises a fault. -/
def Answered [BEq κ] (t : Table α δ) (choose : Chooser ρ) (pick : TieBreak ρ) (space : Space κ δ n)
    (cells : Vector (Possibilities α) n) (context : ρ) : Prop :=
  ∀ k r r' c s v vs f x, (t.engine choose pick space).moment cells context k = .running r →
    r.queue = [] → (t.engine choose pick space).select r = (r', .ok (some c)) →
    space.get r.cells c = .ok s → t.options s [] = v :: vs →
    choose (t.weightOr v) (vs.map t.weightOr) r'.context ≠ (.error f, x)

/-- How far a run without neighbors has come: the observed coordinates are in order, they come
before all that are left, and only their cells have changed. -/
structure Orderly (space : Space κ δ n) (cells : Vector (Possibilities α) n)
    (r : Run (Possibilities α) κ ρ n) : Prop where
  around : r.neighbors = []
  views : r.snapshots = []
  queued : ∀ c ∈ r.queue, c ∈ space.undecided r.cells
  spent : r.propagations + r.queue.length = (space.undecided cells).length
  count : r.observations = r.observedCells.length
  perm : (r.observedCells ++ space.undecided r.cells).Perm (space.undecided cells)
  sorted : r.observedCells.Pairwise fun c d => space.entropyAt cells c ≤ space.entropyAt cells d
  least : ∀ c ∈ r.observedCells, ∀ d ∈ space.undecided r.cells,
    space.entropyAt cells c ≤ space.entropyAt cells d
  settled : ∀ c ∈ r.observedCells, ∀ i, space.slot c = .ok i →
    ∃ v, (cells.get i).contains v = true ∧ r.cells.get i = .only v
  others : ∀ i, (∀ c ∈ r.observedCells, space.slot c ≠ .ok i) → r.cells.get i = cells.get i

section Order

omit [AsValue α]

variable {cells : Vector (Possibilities α) n} {r : Run (Possibilities α) κ ρ n}

theorem Orderly.slot_ne (orderly : Orderly space cells r) {i : Fin n}
    (undecided : 0 < CellState.entropy (r.cells.get i)) :
    ∀ c ∈ r.observedCells, space.slot c ≠ .ok i := by
  intro c hc slot
  obtain ⟨v, _, only⟩ := orderly.settled c hc i slot
  rw [only] at undecided
  exact Int.lt_irrefl 0 undecided

/-- What is left is as it was at the start. -/
theorem Orderly.entropyAt_eq (orderly : Orderly space cells r) {d : κ}
    (left : d ∈ space.undecided r.cells) :
    space.entropyAt r.cells d = space.entropyAt cells d := by
  obtain ⟨i, slot, undecided⟩ := Space.slot_of_undecided left
  rw [Space.entropyAt_eq slot, Space.entropyAt_eq slot,
    orderly.others i (orderly.slot_ne undecided)]

theorem Orderly.react (orderly : Orderly space cells r) {c : κ} {rest : List κ}
    (queued : r.queue = c :: rest) :
    Orderly space cells { r with queue := rest, propagations := r.propagations + 1 } := by
  refine ⟨orderly.around, orderly.views, ?_, ?_, orderly.count, orderly.perm, orderly.sorted,
    orderly.least, orderly.settled, orderly.others⟩
  · intro d hd
    exact orderly.queued d (queued ▸ List.mem_cons_of_mem _ hd)
  · have spent := orderly.spent
    rw [queued, List.length_cons] at spent
    dsimp only
    omega

theorem Orderly.observe (orderly : Orderly space cells r) (nodup : space.coordinates.Nodup)
    (apart : space.Apart) (idle : r.queue = []) {c : κ} (lowest : c ∈ space.lowest r.cells)
    {i : Fin n} (slot : space.slot c = .ok i) {v : α} (held : (r.cells.get i).contains v = true)
    {r' : Run (Possibilities α) κ ρ n} (around : r'.neighbors = r.neighbors)
    (views : r'.snapshots = r.snapshots) (queue : r'.queue = [])
    (changed : r'.cells = r.cells.set i.val (.only v) i.isLt)
    (spent : r'.propagations = r.propagations) (count : r'.observations = r.observations + 1)
    (noted : r'.observedCells = r.observedCells ++ [c]) : Orderly space cells r' := by
  obtain ⟨left, minimal⟩ := List.mem_filter.1 lowest
  have taken := Space.perm_undecided_set nodup apart left slot (s := .only v) rfl
  rw [← changed] at taken
  have before : ∀ d ∈ space.undecided r'.cells, d ∈ space.undecided r.cells :=
    fun d hd => taken.subset (List.mem_cons_of_mem _ hd)
  obtain ⟨j, hj, undecided⟩ := Space.slot_of_undecided left
  cases slot.symm.trans hj
  have untouched := orderly.others i (orderly.slot_ne undecided)
  refine ⟨around.trans orderly.around, views.trans orderly.views, ?_, ?_, ?_, ?_, ?_, ?_, ?_, ?_⟩
  · rw [queue]
    simp
  · rw [spent, queue, ← orderly.spent, idle]
  · rw [count, noted, orderly.count, List.length_append]
    rfl
  · rw [noted, List.append_assoc, List.singleton_append]
    exact (taken.append_left _).trans orderly.perm
  · rw [noted, List.pairwise_append]
    refine ⟨orderly.sorted, List.pairwise_singleton _ _, ?_⟩
    intro d hd b hb
    rw [List.mem_singleton.1 hb]
    exact orderly.least d hd c left
  · intro d hd b hb
    rw [noted] at hd
    obtain hd | hd := List.mem_append.1 hd
    · exact orderly.least d hd b (before b hb)
    · rw [List.mem_singleton.1 hd, ← orderly.entropyAt_eq left,
        ← orderly.entropyAt_eq (before b hb)]
      exact of_decide_eq_true (List.all_eq_true.1 minimal b (before b hb))
  · intro d hd k hk
    rw [noted] at hd
    rw [changed, get_set]
    obtain hd | hd := List.mem_append.1 hd
    · rw [if_neg]
      · exact orderly.settled d hd k hk
      · rintro rfl
        exact orderly.slot_ne undecided d hd hk
    · rw [List.mem_singleton.1 hd] at hk
      cases slot.symm.trans hk
      rw [if_pos rfl]
      exact ⟨v, untouched ▸ held, rfl⟩
  · intro k apart'
    rw [noted] at apart'
    rw [changed, get_set, if_neg]
    · exact orderly.others k fun d hd => apart' d (List.mem_append_left _ hd)
    · rintro rfl
      exact apart' c (List.mem_append_right _ List.mem_cons_self) slot

theorem Orderly.finish (orderly : Orderly space cells r) (candidates unresolved : List κ) :
    Orderly space cells { r with
      candidates := candidates
      unresolved := unresolved
      events := r.events ++ [.finished r.observations r.propagations] } := by
  have noted : Run.observedCells { r with
      candidates := candidates
      unresolved := unresolved
      events := r.events ++ [.finished r.observations r.propagations] } = r.observedCells := by
    simp [Run.observedCells, List.filterMap_append]
  obtain ⟨around, views, queued, spent, count, perm, sorted, least, settled, others⟩ := orderly
  exact ⟨around, views, queued, spent, by rwa [noted], by rwa [noted], by rwa [noted],
    by rwa [noted], by rwa [noted], by rwa [noted]⟩

end Order

section Steps

variable [EquivBEq α]

omit [AsValue α] in
theorem collapse_nil (t : Table α δ) (cell : Possibilities α) (x : ρ) :
    t.collapse cell [] x = ⟨cell, [], x, none⟩ := by
  have kept : ∀ v ∈ cell.toList, t.keeps [] v = true := by
    intro v _
    rw [t.keeps_iff v (Nat.zero_le _)]
    intro k s hs
    cases hs
  rw [t.collapse_eq cell (Nat.zero_le _), Possibilities.filter_eq_self kept]

theorem observe_nil {cell : Possibilities α} (filled : cell.toList ≠ []) {x : ρ}
    (answered : ∀ v vs f y, t.options cell [] = v :: vs →
      choose (t.weightOr v) (vs.map t.weightOr) x ≠ (.error f, y)) :
    ∃ v y, cell.contains v = true ∧ t.observe choose cell [] x = ⟨.only v, [], y, none⟩ := by
  refine (t.observe_cases choose filled [] x).resolve_left ?_
  rintro ⟨f, y, refused⟩
  obtain ⟨v, vs, z, options, raised⟩ := observe_fault (Nat.zero_le _) (congrArg Reply.fault refused)
  exact answered v vs f z options raised

variable {cells : Vector (Possibilities α) n} {r : Run (Possibilities α) κ ρ n}

/-- A queued cell reacts to nothing. -/
theorem Orderly.step_busy (orderly : Orderly space cells r) (sound : space.Sound t.offsets) {c : κ}
    {rest : List κ} (queued : r.queue = c :: rest) : (t.engine choose pick space).step r =
      .running { r with queue := rest, propagations := r.propagations + 1 } := by
  have left := orderly.queued c (queued ▸ List.mem_cons_self)
  obtain ⟨i, slot, undecided⟩ := Space.slot_of_undecided left
  rw [Engine.step, queued]
  exact Engine.propagateAt_nil (e := t.engine choose pick space) (r := { r with queue := rest })
    orderly.around orderly.views (sound.around c (List.mem_filter.1 left).1) slot
    (Int.ne_of_gt undecided) (t.collapse_nil _ _)

omit [EquivBEq α] in
/-- An observation settles one cell, and nothing is queued after it. -/
theorem Orderly.step_idle (orderly : Orderly space cells r) (sound : space.Sound t.offsets)
    (idle : r.queue = []) {r' : Run (Possibilities α) κ ρ n} {c : κ} {i : Fin n} {v : α} {x : ρ}
    (selected : (t.engine choose pick space).select r = (r', .ok (some c)))
    (mem : c ∈ space.coordinates) (slot : space.slot c = .ok i)
    (observed : t.observe choose (r.cells.get i) [] r'.context = ⟨.only v, [], x, none⟩) :
    (t.engine choose pick space).step r = .running { r' with
      cells := r.cells.set i.val (.only v) i.isLt
      context := x
      queue := []
      observations := r'.observations + 1
      events := r'.events ++ [.observed c] } := by
  obtain ⟨⟨candidates, y, left, _⟩, _⟩ := Engine.select_ok selected
  have cells : r'.cells = r.cells := by rw [left]
  have around : r'.neighbors = [] := by rw [left, orderly.around]
  have views : r'.snapshots = [] := by rw [left, orderly.views]
  rw [← cells] at observed ⊢
  rw [Engine.step, idle]
  dsimp only
  rw [selected]
  exact Engine.observeAt_nil (e := t.engine choose pick space) around views (sound.around c mem)
    slot observed rfl

end Steps

section Collapse

variable [EquivBEq α] [BEq κ] [ReflBEq κ] {cells : Vector (Possibilities α) n} {context : ρ}
  {r : Run (Possibilities α) κ ρ n}

omit [EquivBEq α] [ReflBEq κ] in
theorem orderly_start (unconstrained : t.offsets = []) (listed : space.Listed)
    (start : (t.engine choose pick space).start
      ((t.engine choose pick space).fresh cells context) = .running r) :
    Orderly space cells r := by
  obtain ⟨_, rfl⟩ := Engine.start_running (e := t.engine choose pick space) listed
    Possibilities.entropy_nonneg start
  have places : (t.engine choose pick space).rule.offsets.length = 0 := congrArg _ unconstrained
  rw [Engine.filter_isOpen_eq_undecided Possibilities.entropy_nonneg]
  refine ⟨?_, ?_, fun _ => id, ?_, rfl, .refl _, .nil, ?_, ?_, fun _ _ => rfl⟩
  · simp only [Engine.fresh, Run.blank, places, List.replicate_zero]
  · simp only [Engine.fresh, Run.blank, places, List.replicate_zero]
  · exact Nat.zero_add _
  · intro c hc
    cases hc
  · intro c hc
    cases hc

/-- A run goes on in order, or it has come to its end. -/
theorem Orderly.next (orderly : Orderly space cells r) (listed : space.Listed)
    (apart : space.Apart) (sound : space.Sound t.offsets)
    (answered : t.Answered choose pick space cells context) {k : Nat}
    (h : (t.engine choose pick space).moment cells context k = .running r) :
    ∃ r', Orderly space cells r' ∧ ((t.engine choose pick space).step r = .running r' ∨
      (t.engine choose pick space).step r = .finished r' ∧ r'.queue = []) := by
  cases hqueue : r.queue with
  | cons c rest => exact ⟨_, orderly.react hqueue, .inl (orderly.step_busy sound hqueue)⟩
  | nil =>
    obtain finished | ⟨r', c, low, selected⟩ := Engine.select_cases
      (e := t.engine choose pick space) listed Possibilities.entropy_nonneg h
    · refine ⟨_, orderly.finish [] (space.undecided r.cells), .inr ⟨?_, hqueue⟩⟩
      simp only [Engine.step, hqueue, finished]
      rfl
    · have left : c ∈ space.undecided r.cells := (List.mem_filter.1 low).1
      obtain ⟨i, slot, undecided⟩ := Space.slot_of_undecided left
      have filled : (r.cells.get i).toList ≠ [] := by
        refine Possibilities.nonempty_of_entropy ?_
        simp only [Possibilities.cellState_entropy] at undecided
        omega
      obtain ⟨v, x, held, observed⟩ := observe_nil filled fun v vs f x =>
        answered k r r' c _ v vs f x h hqueue selected (Space.get_eq_ok slot r.cells)
      have step := orderly.step_idle sound hqueue selected (List.mem_filter.1 left).1 slot observed
      obtain ⟨⟨candidates, y, rfl, _⟩, _⟩ := Engine.select_ok selected
      refine ⟨_, ?_, .inl step⟩
      refine orderly.observe listed.nodup apart hqueue low slot held rfl rfl rfl rfl rfl rfl ?_
      simp [Run.observedCells, List.filterMap_append]

theorem orderly_moment (unconstrained : t.offsets = []) (listed : space.Listed)
    (apart : space.Apart) (sound : space.Sound t.offsets)
    (answered : t.Answered choose pick space cells context) (k : Nat) :
    ∃ r, Orderly space cells r ∧ ((t.engine choose pick space).moment cells context k = .running r ∨
      (t.engine choose pick space).moment cells context k = .finished r ∧ r.queue = []) := by
  induction k with
  | zero =>
    obtain ⟨r, start⟩ := Engine.start_of_readable (e := t.engine choose pick space)
      sound.readable cells context
    exact ⟨r, orderly_start unconstrained listed start, .inl start⟩
  | succ k ih =>
    obtain ⟨r, orderly, running | ⟨finished, idle⟩⟩ := ih
    · rw [Engine.moment_succ running]
      exact orderly.next listed apart sound answered running
    · have still : (t.engine choose pick space).moment cells context (k + 1) =
          (t.engine choose pick space).moment cells context k :=
        Engine.moment_ended (by simp [finished]) 1
      exact ⟨r, orderly, .inr ⟨still.trans finished, idle⟩⟩

end Collapse

/-- Without constraints every undecided cell is observed once, those of lower entropy first. -/
theorem observes_in_order [EquivBEq α] [BEq κ] [ReflBEq κ] (t : Table α δ)
    (unconstrained : t.offsets = []) (space : Space κ δ n) (listed : space.Listed)
    (apart : space.Apart) (sound : space.Sound t.offsets) (choose : Chooser ρ) (pick : TieBreak ρ)
    (cells : Vector (Possibilities α) n) (context : ρ)
    (answered : t.Answered choose pick space cells context) :
    ∃ r, (t.engine choose pick space).collapse cells context = .finished r ∧
      r.observations = (space.undecided cells).length ∧
      r.propagations = (space.undecided cells).length ∧
      r.observedCells.Perm (space.undecided cells) ∧
      (r.observedCells.Pairwise fun c d => space.entropyAt cells c ≤ space.entropyAt cells d) ∧
      (∀ c ∈ space.undecided cells, ∀ i, space.slot c = .ok i →
        ∃ v, (cells.get i).contains v = true ∧ r.cells.get i = .only v) ∧
      ∀ i, (∀ c ∈ space.undecided cells, space.slot c ≠ .ok i) → r.cells.get i = cells.get i := by
  obtain ⟨k, same, ended⟩ := Engine.collapse_ended (e := t.engine choose pick space) listed
    Possibilities.entropy_nonneg (t.shrinks_engine choose pick space) cells context
  obtain ⟨r, orderly, running | ⟨finished, idle⟩⟩ :=
    orderly_moment unconstrained listed apart sound answered k
  · exact absurd running (ended r)
  have decided := (Engine.moment_finished (e := t.engine choose pick space) listed
    Possibilities.entropy_nonneg finished).1
  have none_left : space.undecided r.cells = [] := Space.undecided_eq_nil decided
  have perm := orderly.perm
  rw [none_left, List.append_nil] at perm
  have spent := orderly.spent
  rw [idle] at spent
  refine ⟨r, same.trans finished, orderly.count.trans perm.length_eq, spent, perm, orderly.sorted,
    ?_, ?_⟩
  · intro c hc
    exact orderly.settled c (perm.mem_iff.2 hc)
  · intro i unseen
    exact orderly.others i fun c hc => unseen c (perm.mem_iff.1 hc)

/-- A table without offsets, which knows two values. -/
def detached : Table Nat Nat where
  offsets := []
  entries := [⟨1, [], .one⟩, ⟨2, [], .one⟩]
  width := by decide
  distinct := by decide
  positive := by decide

def threeSets : Vector (Possibilities Nat) 3 := #v[.ofList [1, 2, 3], .ofList [4], .ofList [2, 5]]

/-- Takes the last candidate, whatever the weights are. -/
def takeLast : Chooser Unit := fun _ ws x => (.ok (Fin.last ws.length), x)

-- Cell 1 is decided. Cell 2 has two values and is observed before cell 0, which has three.
theorem observes_in_order_scattered :
    detached.offsets = [] ∧ Engine.scattered.Listed ∧ Engine.scattered.Apart ∧
      Engine.scattered.Sound detached.offsets ∧
      detached.Answered takeLast (fun _ x => (0, x)) Engine.scattered threeSets () ∧
      ∃ r, (detached.engine takeLast (fun _ x => (0, x)) Engine.scattered).collapse threeSets () =
          .finished r ∧ r.observations = 2 ∧ r.propagations = 2 ∧ r.observedCells.Perm [2, 0] ∧
        (r.observedCells.Pairwise fun c d =>
          Engine.scattered.entropyAt threeSets c ≤ Engine.scattered.entropyAt threeSets d) ∧
        (∃ v, (threeSets.get 2).contains v = true ∧ r.cells.get 2 = .only v) ∧
        r.cells.get 1 = threeSets.get 1 := by
  have listed : Engine.scattered.Listed := ⟨by decide, by decide⟩
  have slot : ∀ c ∈ Engine.scattered.coordinates, ∃ h : c < 3,
      Engine.scattered.slot c = .ok ⟨c, h⟩ := by
    intro c hc
    have bound : c < 3 := by
      simp only [Engine.scattered, List.mem_cons, List.not_mem_nil, or_false] at hc
      omega
    exact ⟨bound, dif_pos bound⟩
  have apart : Engine.scattered.Apart := by
    intro c hc d hd i hi hj
    obtain ⟨_, hc⟩ := slot c hc
    obtain ⟨_, hd⟩ := slot d hd
    cases hc.symm.trans hi
    cases hd.symm.trans hj
    rfl
  have sound : Engine.scattered.Sound detached.offsets := by
    refine ⟨?_, fun _ _ => rfl⟩
    intro c hc
    obtain ⟨_, hs⟩ := slot c hc
    exact ⟨_, hs⟩
  have answered : detached.Answered takeLast (fun _ x => (0, x)) Engine.scattered threeSets () := by
    intro _ _ _ _ _ _ _ _ _ _ _ _ _ _ raised
    cases raised
  obtain ⟨r, returned, observations, propagations, perm, sorted, settled, others⟩ :=
    detached.observes_in_order rfl Engine.scattered listed apart sound takeLast (fun _ x => (0, x))
      threeSets () answered
  refine ⟨rfl, listed, apart, sound, answered, r, returned, observations, propagations, perm,
    sorted, settled 2 (by decide) 2 rfl, others 1 ?_⟩
  intro c hc named
  obtain ⟨_, hs⟩ := slot c (List.mem_filter.1 hc).1
  obtain rfl : c = 1 := congrArg Fin.val (Except.ok.inj (hs.symm.trans named))
  exact absurd hc (by decide)

end Table

end CellCollapse
