import CellCollapse.Proofs.Engine.Buffers
import CellCollapse.Proofs.Engine.Termination
import CellCollapse.Proofs.Rule.Support

set_option autoImplicit false

/-!
# Turns of a table

The moves of an engine whose rule is a table, told by what they do to the cells and the queue. A
cell that reacts keeps exactly the values that its neighbors support at that time, and an observed
cell keeps one of its values. When a cell shrinks, its undecided neighbors are queued. The rule may
also raise a fault of its own accord, as long as it leaves the cell as it was (`Table.Governs`).
-/
namespace CellCollapse.Table

variable {α κ δ ρ : Type} [BEq α] {n : Nat}

/-- Every neighbor of `c` has a value that may stand beside `v`. -/
def Supported (t : Table α δ) (space : Space κ δ n) (cells : Vector (Possibilities α) n) (c : κ)
    (v : α) : Prop :=
  ∀ k d j, space.neighbor? t.offsets c k = some d → space.slot d = .ok j →
    ∃ b ∈ (cells.get j).toList, t.permits v k b = true

theorem Supported.congr [EquivBEq α] {t : Table α δ} {space : Space κ δ n}
    {cells : Vector (Possibilities α) n} {c : κ} {v w : α} (same : (v == w) = true)
    (h : t.Supported space cells c v) : t.Supported space cells c w := by
  intro k d j hd hj
  obtain ⟨b, hb, hpermits⟩ := h k d j hd hj
  exact ⟨b, hb, (t.permits_congr_left same k b).symm.trans hpermits⟩

/-- The buffers have one place per offset, and only coordinates are queued. -/
structure Tracked (t : Table α δ) (space : Space κ δ n)
    (r : Run (Possibilities α) κ ρ n) : Prop where
  around : r.neighbors.length = t.offsets.length
  views : r.snapshots.length = t.offsets.length
  queued : ∀ c ∈ r.queue, c ∈ space.coordinates
  listed : ∀ c ∈ r.unresolved, c ∈ space.coordinates

inductive Turn (t : Table α δ) (space : Space κ δ n) (r r' : Run (Possibilities α) κ ρ n) :
    Prop where
  | skip {c : κ} {i : Fin n} (queue : r.queue = c :: r'.queue) (slot : space.slot c = .ok i)
      (decided : (r.cells.get i).entropy = 0) (cells : r'.cells = r.cells)
      (count : r'.observations = r.observations)
  | react {c : κ} {i : Fin n} {rest woken : List κ} {keep : α → Bool} (queue : r.queue = c :: rest)
      (listed : c ∈ space.coordinates) (slot : space.slot c = .ok i)
      (undecided : (r.cells.get i).entropy ≠ 0)
      (kept : ∀ v, keep v = true ↔ t.Supported space r.cells c v)
      (cells : r'.cells = r.cells.set i.val ((r.cells.get i).filter keep) i.isLt)
      (queue' : r'.queue = rest ++ woken)
      (wakes : ((r.cells.get i).filter keep).entropy < (r.cells.get i).entropy →
        ∀ k d j, space.neighbor? t.offsets c k = some d → space.slot d = .ok j →
          (r'.cells.get j).entropy ≠ 0 → d ∈ woken)
      (count : r'.observations = r.observations)
  | observe {c : κ} {i : Fin n} {v : α} (idle : r.queue = []) (listed : c ∈ space.coordinates)
      (slot : space.slot c = .ok i) (undecided : (r.cells.get i).entropy ≠ 0)
      (held : (r.cells.get i).contains v = true)
      (cells : r'.cells = r.cells.set i.val (.only v) i.isLt)
      (wakes : ∀ k d, space.neighbor? t.offsets c k = some d → d ∈ r'.queue)
      (count : r'.observations = r.observations + 1) (event : r'.events = r.events ++ [.observed c])

variable {t : Table α δ} {space : Space κ δ n} {r r' : Run (Possibilities α) κ ρ n} {c : κ}
  {around : List (Option κ)} {views : List (Option (Possibilities α))}

theorem backed_iff_supported (v : α) :
    t.Backed v (space.views t.offsets r.cells c) ↔ t.Supported space r.cells c v := by
  constructor
  · intro h k d j hd hj
    apply h k (r.cells.get j)
    rw [Space.views, List.getElem?_map, (space.neighbor?_eq_some_iff _ c d k).1 hd]
    simp [Space.get_eq_ok hj, Except.toOption]
  · intro h k s hs
    rw [Space.views, List.getElem?_map, Option.map_eq_some_iff] at hs
    obtain ⟨o, ho, hs⟩ := hs
    obtain ⟨d, rfl, hstate⟩ := Option.bind_eq_some_iff.1 hs
    cases hget : space.get r.cells d with
    | error f => simp [hget, Except.toOption] at hstate
    | ok s' =>
      obtain ⟨j, hj, rfl⟩ := (space.get_eq_ok_iff _ d s').1 hget
      simp only [hget, Except.toOption, Option.some.injEq] at hstate
      subst hstate
      exact h k d j ((space.neighbor?_eq_some_iff _ c d k).2 ho) hj

/-- A rule that answers as the table does, or raises a fault and leaves the cell as it is. -/
structure Governs (t : Table α δ) (rule : Rule (Possibilities α) δ ρ) : Prop where
  offsets : rule.offsets = t.offsets
  collapse : ∀ s ns x, (∃ y f, rule.collapse s ns x = ⟨s, ns, y, some f⟩) ∨
    ∃ y, rule.collapse s ns x = ⟨s.filter (t.keeps ns), ns, y, none⟩
  observe : ∀ s ns x, s.toList ≠ [] → (∃ y f, rule.observe s ns x = ⟨s, ns, y, some f⟩) ∨
    ∃ v y, s.contains v = true ∧ rule.observe s ns x = ⟨.only v, ns, y, none⟩

section Governed

variable {e : Engine (Possibilities α) κ δ ρ n} (governs : t.Governs e.rule)

include governs

theorem Governs.shrinks : Engine.Shrinks e.rule := by
  intro s ns x _ calm
  rcases governs.collapse s ns x with ⟨y, f, hreply⟩ | ⟨y, hreply⟩
  · rw [hreply] at calm
    cases calm
  · rw [hreply]
    exact Int.ofNat_le.2 (s.entropy_filter_le _)

/-- A call that raises a fault changes nothing. -/
theorem Governs.refused {s : Possibilities α} {ns : List (Option (Possibilities α))} {x : ρ}
    {reply : Reply (Possibilities α) ρ} {f : Fault} (undecided : CellState.entropy s ≠ 0)
    (asked : e.rule.collapse s ns x = reply ∨ e.rule.observe s ns x = reply)
    (fault : reply.fault = some f) : reply.cell = s ∧ reply.snapshots = ns := by
  have filled := Possibilities.nonempty_of_entropy (s := s) (by simpa using undecided)
  rcases asked with rfl | rfl
  · rcases governs.collapse s ns x with ⟨y, g, hreply⟩ | ⟨y, hreply⟩
    · exact ⟨congrArg Reply.cell hreply, congrArg Reply.snapshots hreply⟩
    · cases fault.symm.trans (congrArg Reply.fault hreply)
  · rcases governs.observe s ns x filled with ⟨y, g, hreply⟩ | ⟨v, y, _, hreply⟩
    · exact ⟨congrArg Reply.cell hreply, congrArg Reply.snapshots hreply⟩
    · cases fault.symm.trans (congrArg Reply.fault hreply)

/-- An observation that raises no fault decides its cell. -/
theorem Governs.settles {s : Possibilities α} {ns : List (Option (Possibilities α))} {x : ρ}
    (undecided : CellState.entropy s ≠ 0) (calm : (e.rule.observe s ns x).fault = none) :
    CellState.entropy (e.rule.observe s ns x).cell = 0 := by
  have filled := Possibilities.nonempty_of_entropy (s := s) (by simpa using undecided)
  rcases governs.observe s ns x filled with ⟨y, g, hreply⟩ | ⟨v, y, _, hreply⟩
  · cases calm.symm.trans (congrArg Reply.fault hreply)
  · rw [hreply]
    rfl

/-- A table's engine ends its run without changing a cell. -/
theorem Governs.cells_of_ended {o : Outcome (Possibilities α) κ ρ n} (move : e.Move r o)
    (ended : ∀ r', o ≠ .running r') : o.run.cells = r.cells := by
  cases move with
  | skip | react | observe => exact absurd rfl (ended _)
  | finish => rfl
  | raise _ kept _ => exact kept
  | refuse asks fault changed =>
    obtain ⟨x, asked⟩ := asks.answer_cases
    rw [Outcome.run, changed, (governs.refused asks.undecided asked fault).1]
    exact Vector.set_getElem_self _
  | balk asks kind calm unsettled =>
    rw [asks.answer_observe kind] at calm unsettled
    exact absurd (governs.settles asks.undecided calm) unsettled

/-- A failure leaves the buffers and the lists of coordinates in order. -/
theorem Governs.tracked_of_failed {f : Failure κ} (tracked : t.Tracked e.space r)
    (move : e.Move r (.failed r' f)) : t.Tracked e.space r' := by
  have left : Engine.Leaves r r' → r'.snapshots.length = r.snapshots.length →
      t.Tracked e.space r' := by
    intro leaves views
    refine ⟨leaves.neighbors.trans tracked.around, views.trans tracked.views, ?_, ?_⟩
    · intro c hc
      exact tracked.queued c (leaves.queue c hc)
    · intro c hc
      exact tracked.listed c (leaves.unresolved c hc)
  cases move with
  | raise _ _ _ _ leaves views => exact left leaves views
  | refuse asks fault _ _ _ leaves handed =>
    obtain ⟨x, asked⟩ := asks.answer_cases
    obtain ⟨around, looked⟩ := asks.looked
    apply left leaves
    rw [handed, (governs.refused asks.undecided asked fault).2]
    exact looked.length_views
  | balk asks kind calm unsettled =>
    rw [asks.answer_observe kind] at calm unsettled
    exact absurd (governs.settles asks.undecided calm) unsettled

variable [BEq κ]

/-- A look around fills both buffers to the end: nothing of an earlier look is left in them. -/
theorem Governs.looked (lawful : e.space.Lawful t.offsets) (tracked : t.Tracked e.space r)
    (mem : c ∈ e.space.coordinates) (looked : e.Looked r c around views) :
    around = (e.space.neighbors c t.offsets).found ∧ views.length = t.offsets.length ∧
      views = e.space.views t.offsets r.cells c := by
  have complete := lawful.complete c mem
  have hsize := congrArg List.length governs.offsets
  rw [← governs.offsets] at complete ⊢
  exact Engine.Buffered.looked ⟨tracked.around.trans hsize.symm, tracked.views.trans hsize.symm⟩
    (complete looked.sound) looked

theorem Governs.turn_of_move [EquivBEq α] (lawful : e.space.Lawful t.offsets)
    (tracked : t.Tracked e.space r) (move : e.Move r (.running r')) :
    t.Turn e.space r r' ∧ t.Tracked e.space r' := by
  cases move with
  | @skip c rest i queued slot decided =>
    refine ⟨.skip queued slot (by simpa using decided) rfl rfl,
      tracked.around, tracked.views, ?_, tracked.listed⟩
    intro d hd
    exact tracked.queued d (by simp [queued, hd])
  | @react c rest i around views reply queued slot undecided looked asked calm =>
    have mem : c ∈ e.space.coordinates := tracked.queued c (by simp [queued])
    obtain ⟨haround, hroom, hviews⟩ := governs.looked lawful tracked mem looked
    rcases governs.collapse (r.cells.get i) views r.context with ⟨y, f, hreply⟩ | ⟨y, hreply⟩
    · cases calm.symm.trans (congrArg Reply.fault (asked.symm.trans hreply))
    · have hreply : reply = ⟨(r.cells.get i).filter (t.keeps views), views, y, none⟩ :=
        asked.symm.trans hreply
      subst hreply
      refine ⟨.react queued mem slot (by simpa using undecided) ?_ rfl rfl ?_ rfl,
        looked.length_around.trans tracked.around, hroom, ?_, tracked.listed⟩
      · intro v
        rw [t.keeps_iff v (by omega), hviews, backed_iff_supported]
      · intro drop k d j hd hj hopen
        simp only [Possibilities.cellState_entropy, Int.ofNat_lt, drop, if_true]
        refine List.mem_filter.2 ⟨?_, (Engine.isOpen_iff _ _ d).2 ⟨j, hj, ?_⟩⟩
        · rw [haround]
          exact (e.space.mem_filterMap_found_iff _ c d).2 ⟨k, hd⟩
        · simpa [Engine.reacted] using hopen
      · intro d hd
        rcases List.mem_append.1 hd with hd | hd
        · exact tracked.queued d (by simp [queued, hd])
        · split at hd
          · rw [haround] at hd
            exact lawful.mem_of_found mem (List.mem_filter.1 hd).1
          · cases hd
  | @observe c i around views reply candidates x idle pending slot undecided looked asked calm =>
    have mem : c ∈ e.space.coordinates := tracked.listed c pending
    obtain ⟨haround, hroom, _⟩ := governs.looked lawful tracked mem looked
    have hopen : (r.cells.get i).entropy ≠ 0 := by simpa using undecided
    have hfilled := Possibilities.nonempty_of_entropy hopen
    rcases governs.observe (r.cells.get i) views x hfilled with
      ⟨y, f, hreply⟩ | ⟨v, y, held, hreply⟩
    · cases calm.symm.trans (congrArg Reply.fault (asked.symm.trans hreply))
    · have hreply : reply = ⟨.only v, views, y, none⟩ := asked.symm.trans hreply
      subst hreply
      refine ⟨.observe idle mem slot hopen held rfl ?_ rfl rfl,
        looked.length_around.trans tracked.around, hroom, ?_, ?_⟩
      · intro k d hd
        change d ∈ around.filterMap id
        rw [haround]
        exact (e.space.mem_filterMap_found_iff _ c d).2 ⟨k, hd⟩
      · intro d hd
        change d ∈ around.filterMap id at hd
        rw [haround] at hd
        exact lawful.mem_of_found mem hd
      · intro d hd
        exact tracked.listed d (List.mem_filter.1 hd).1

end Governed

variable [AsValue α] {choose : Chooser ρ} {pick : TieBreak ρ}

theorem governs_rule [EquivBEq α] (t : Table α δ) (choose : Chooser ρ) :
    t.Governs (t.rule choose) where
  offsets := rfl
  collapse s ns x := by
    change (∃ y f, t.collapse s ns x = _) ∨ ∃ y, t.collapse s ns x = _
    unfold collapse
    split
    · exact .inl ⟨_, _, rfl⟩
    · exact .inr ⟨_, rfl⟩
  observe s ns x filled := by
    rcases t.observe_cases choose filled ns x with ⟨f, y, hreply⟩ | ⟨v, y, held, hreply⟩
    · exact .inl ⟨y, f, hreply⟩
    · exact .inr ⟨v, y, held, hreply⟩

theorem cellOnly_rule (t : Table α δ) (choose : Chooser ρ) : (t.rule choose).CellOnly := by
  constructor
  · intro s ns x
    change (t.collapse s ns x).snapshots = ns
    unfold collapse
    split <;> rfl
  · intro s ns x
    change (t.observe choose s ns x).snapshots = ns
    unfold observe
    split
    · rfl
    · split
      · rfl
      · split <;> rfl

def engine (t : Table α δ) (choose : Chooser ρ) (pick : TieBreak ρ) (space : Space κ δ n) :
    Engine (Possibilities α) κ δ ρ n :=
  ⟨space, t.rule choose, pick⟩

theorem shrinks_engine [EquivBEq α] (t : Table α δ) (choose : Chooser ρ) (pick : TieBreak ρ)
    (space : Space κ δ n) : Engine.Shrinks (t.engine choose pick space).rule :=
  Governs.shrinks (e := t.engine choose pick space) (t.governs_rule choose)

variable [BEq κ]

theorem Tracked.looked (lawful : space.Lawful t.offsets) (tracked : t.Tracked space r)
    (mem : c ∈ space.coordinates) (looked : (t.engine choose pick space).Looked r c around views) :
    around = (space.neighbors c t.offsets).found ∧ views.length = t.offsets.length ∧
      views = space.views t.offsets r.cells c :=
  Engine.Buffered.looked (e := t.engine choose pick space) ⟨tracked.around, tracked.views⟩
    (lawful.complete c mem looked.sound) looked

theorem turn_of_move [EquivBEq α] (lawful : space.Lawful t.offsets) (tracked : t.Tracked space r)
    (move : (t.engine choose pick space).Move r (.running r')) :
    t.Turn space r r' ∧ t.Tracked space r' :=
  Governs.turn_of_move (e := t.engine choose pick space) (t.governs_rule choose) lawful tracked move

theorem tracked_moment [EquivBEq α] (lawful : space.Lawful t.offsets)
    {cells : Vector (Possibilities α) n} {context : ρ} {k : Nat}
    (h : (t.engine choose pick space).moment cells context k = .running r) :
    t.Tracked space r := by
  refine Engine.moment_induction (t.Tracked space) ?_ (fun _ _ _ _ => ?_) h
  · intro r₀ start
    obtain ⟨_, rfl⟩ := Engine.start_running lawful.toListed Possibilities.entropy_nonneg start
    refine ⟨?_, ?_, ?_, ?_⟩
    · simp [Engine.fresh, Run.blank, engine, rule]
    · simp [Engine.fresh, Run.blank, engine, rule]
    · intro c hc
      exact (List.mem_filter.1 hc).1
    · intro c hc
      exact (List.mem_filter.1 hc).1
  · intro tracked move
    exact (turn_of_move lawful tracked move).2

omit [BEq κ] in
theorem cells_of_ended [EquivBEq α] {o : Outcome (Possibilities α) κ ρ n}
    (move : (t.engine choose pick space).Move r o) (ended : ∀ r', o ≠ .running r') :
    o.run.cells = r.cells :=
  Governs.cells_of_ended (e := t.engine choose pick space) (t.governs_rule choose) move ended

/-- A property of the cells that every turn keeps, from one moment of a collapse to a later one. -/
theorem cells_moment_induction [EquivBEq α] (lawful : space.Lawful t.offsets)
    {cells : Vector (Possibilities α) n} {context : ρ} (I : Vector (Possibilities α) n → Prop)
    {j k : Nat} (hjk : j ≤ k)
    (first : I ((t.engine choose pick space).moment cells context j).run.cells)
    (next : ∀ m, m < k → ∀ q q', (t.engine choose pick space).moment cells context m = .running q →
      (t.engine choose pick space).moment cells context (m + 1) = .running q' →
        t.Turn space q q' → I q.cells → I q'.cells) :
    I ((t.engine choose pick space).moment cells context k).run.cells := by
  obtain ⟨m, rfl⟩ := Nat.exists_eq_add_of_le hjk
  clear hjk
  induction m with
  | zero => exact first
  | succ m ih =>
    have before := ih fun l hl => next l (by omega)
    rw [← Nat.add_assoc]
    rcases (t.engine choose pick space).moment_next cells context (j + m) with same | ⟨q, hq, move⟩
    · rwa [same]
    · rw [hq] at before
      by_cases more : ∃ q', (t.engine choose pick space).moment cells context (j + m + 1) =
          .running q'
      · obtain ⟨q', hq'⟩ := more
        rw [hq'] at move ⊢
        exact next (j + m) (by omega) q q' hq hq'
          (turn_of_move lawful (tracked_moment lawful hq) move).1 before
      · rw [cells_of_ended move fun q' hq' => more ⟨q', hq'⟩]
        exact before

end CellCollapse.Table
