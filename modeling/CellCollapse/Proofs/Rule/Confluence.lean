import CellCollapse.Proofs.Grid.Consistency
import CellCollapse.Proofs.Rule.Shrinking

set_option autoImplicit false

/-!
# The first propagation is confluent

What the propagation before the first observation leaves behind, if no cell is empty, can be said
without any order of the queue: it is the largest family of values within the cells in which every
value of a cell that had a choice is supported. Such a family survives every propagation
(`Table.covers_of_unobserved`), and the cells that a propagation leaves are one
(`Table.selfSupported_of_settled`). So two spaces that list their coordinates in different orders
come to the same cells, or both come to an empty one. With an empty cell the results can differ,
because decided cells are not looked at again.
-/
namespace CellCollapse

namespace Space

variable {α κ δ : Type} [BEq α] {m n : Nat}

/-- The same coordinates in any order and the same neighbors; the states may be kept elsewhere. -/
structure Alike (space : Space κ δ m) (space' : Space κ δ n) : Prop where
  coordinates : space.coordinates.Perm space'.coordinates
  neighbors : space.neighbors = space'.neighbors

def SameCells (space : Space κ δ m) (cells : Vector (Possibilities α) m) (space' : Space κ δ n)
    (cells' : Vector (Possibilities α) n) : Prop :=
  ∀ c ∈ space.coordinates, ∀ i j, space.slot c = .ok i → space'.slot c = .ok j →
    (cells.get i).same (cells'.get j) = true

/-- The cell at `c` has the value `v`. -/
def Holds (space : Space κ δ n) (cells : Vector (Possibilities α) n) (c : κ) (v : α) : Prop :=
  ∃ i, space.slot c = .ok i ∧ (cells.get i).contains v = true

/-- All values of a family are in the cells. -/
def Covers (space : Space κ δ n) (cells : Vector (Possibilities α) n) (family : κ → α → Prop) :
    Prop :=
  ∀ c ∈ space.coordinates, ∀ i, space.slot c = .ok i → ∀ v, family c v →
    (cells.get i).contains v = true

def HasEmpty (space : Space κ δ n) (cells : Vector (Possibilities α) n) : Prop :=
  ∃ c ∈ space.coordinates, ∃ i, space.slot c = .ok i ∧ (cells.get i).isEmpty = true

variable {space : Space κ δ m} {space' : Space κ δ n} {cells : Vector (Possibilities α) m}
  {cells' : Vector (Possibilities α) n}

theorem Alike.symm (alike : space.Alike space') : space'.Alike space :=
  ⟨alike.coordinates.symm, alike.neighbors.symm⟩

theorem Alike.neighbor? (alike : space.Alike space') (offsets : List δ) (c : κ) (k : Nat) :
    space'.neighbor? offsets c k = space.neighbor? offsets c k := by
  rw [Space.neighbor?, Space.neighbor?, alike.neighbors]

theorem Alike.loopless (alike : space.Alike space') {offsets : List δ}
    (loopless : space.Loopless offsets) : space'.Loopless offsets := by
  intro c hc k
  rw [alike.neighbor?]
  exact loopless c (alike.coordinates.mem_iff.2 hc) k

theorem SameCells.symm [EquivBEq α] (alike : space.Alike space')
    (same : space.SameCells cells space' cells') : space'.SameCells cells' space cells := by
  intro c hc j i hj hi
  have h := same c (alike.coordinates.mem_iff.2 hc) i j hi hj
  rw [Possibilities.same_iff] at h ⊢
  exact fun v => (h v).symm

theorem filled_or_hasEmpty (space : Space κ δ n) (cells : Vector (Possibilities α) n) :
    space.Filled cells ∨ space.HasEmpty cells := by
  by_cases empty : space.HasEmpty cells
  · exact .inr empty
  · refine .inl fun c hc i hi => ?_
    cases h : (cells.get i).isEmpty with
    | false => rfl
    | true => exact absurd ⟨c, hc, i, hi, h⟩ empty

end Space

namespace Table

variable {α κ δ ρ : Type} [BEq α] {m n : Nat}

/-- A family of values within the cells in which every cell with a choice finds its support. -/
structure SelfSupported (t : Table α δ) (space : Space κ δ n) (cells : Vector (Possibilities α) n)
    (family : κ → α → Prop) : Prop where
  within : space.Covers cells family
  backed : ∀ c ∈ space.coordinates, ∀ i, space.slot c = .ok i → (cells.get i).entropy ≠ 0 →
    ∀ v, family c v → ∀ k d, space.neighbor? t.offsets c k = some d →
      ∃ w, family d w ∧ t.permits v k w = true

variable {t : Table α δ} {space : Space κ δ n} {cells : Vector (Possibilities α) n}
  {family : κ → α → Prop} {r r' : Run (Possibilities α) κ ρ n}

theorem Balanced.alike {space' : Space κ δ m} (alike : space.Alike space')
    (balanced : t.Balanced space) : t.Balanced space' := by
  intro c hc k d hd
  rw [alike.neighbor?] at hd
  obtain ⟨l, hl, mirror⟩ := balanced c (alike.coordinates.mem_iff.2 hc) k d hd
  exact ⟨l, (alike.neighbor? _ d l).trans hl, mirror⟩

theorem covers_set (apart : space.Apart) (covers : space.Covers cells family) {c : κ} {i : Fin n}
    {cell : Possibilities α} (mem : c ∈ space.coordinates) (slot : space.slot c = .ok i)
    (holds : ∀ v, family c v → cell.contains v = true) :
    space.Covers (cells.set i.val cell i.isLt) family := by
  intro d hd j hj v hv
  rw [get_set]
  split
  · rename_i hij
    subst hij
    rw [apart d hd c mem i hj slot] at hv
    exact holds v hv
  · exact covers d hd j hj v hv

variable [EquivBEq α] [BEq κ]

/-- A cell that reacts keeps its part of the family, because its neighbors still have theirs. -/
theorem Turn.covers (lawful : space.Lawful t.offsets) (apart : space.Apart)
    (supported : t.SelfSupported space cells family)
    (frozen : ∀ i, (cells.get i).entropy = 0 → r.cells.get i = cells.get i)
    (turn : t.Turn space r r') (unobserved : r'.observations = r.observations)
    (covers : space.Covers r.cells family) : space.Covers r'.cells family := by
  cases turn with
  | skip _ _ _ hcells => rwa [hcells]
  | @react c i rest woken keep _ mem slot undecided kept hcells =>
    have choice : (cells.get i).entropy ≠ 0 := by
      intro decided
      rw [frozen i decided] at undecided
      exact undecided decided
    rw [hcells]
    refine covers_set apart covers mem slot ?_
    intro v hv
    have hkept : keep v = true := by
      rw [kept]
      intro k d j hd hj
      obtain ⟨w, hw, hpermits⟩ := supported.backed c mem i slot choice v hv k d hd
      have hheld := covers d (lawful.closed c mem k d hd) j hj w hw
      obtain ⟨b, hb, same⟩ := ((r.cells.get j).contains_iff w).1 hheld
      exact ⟨b, hb, (t.permits_congr_right same v k).trans hpermits⟩
    have congr : ∀ x, (x == v) = true → keep x = keep v := by
      intro x hx
      rw [Bool.eq_iff_iff, kept, kept]
      exact ⟨Supported.congr hx, Supported.congr (BEq.symm hx)⟩
    rw [Possibilities.contains_filter _ keep _ congr, covers c mem i slot v hv, hkept,
      Bool.and_self]
  | observe _ _ _ _ _ _ _ count => omega

variable [AsValue α] {choose : Chooser ρ} {pick : TieBreak ρ} {context : ρ}

theorem covers_of_unobserved (lawful : space.Lawful t.offsets) (apart : space.Apart)
    (supported : t.SelfSupported space cells family) {k : Nat}
    (none : ((t.engine choose pick space).moment cells context k).run.observations = 0) :
    space.Covers ((t.engine choose pick space).moment cells context k).run.cells family := by
  refine cells_moment_induction lawful (space.Covers · family) (Nat.zero_le k) ?_ ?_
  · rw [Engine.moment, Engine.start_cells]
    exact supported.within
  · intro j hj q q' hq hq' turn covers
    have kept := Engine.kept_moment lawful.toListed Possibilities.entropy_nonneg hq
    have later : ((t.engine choose pick space).moment cells context (j + 1)).run.observations ≤ 0 :=
      none ▸ Engine.observations_moment_mono hj
    have earlier : ((t.engine choose pick space).moment cells context j).run.observations ≤ 0 :=
      none ▸ Engine.observations_moment_mono (Nat.le_of_lt hj)
    rw [hq'] at later
    rw [hq] at earlier
    refine turn.covers lawful apart supported ?_ ?_ covers
    · intro i decided
      exact kept.frozen i (by simpa using decided)
    · exact (Nat.le_zero.1 later).trans (Nat.le_zero.1 earlier).symm

/-- The cells that the first propagation leaves support themselves, unless one of them is empty. -/
theorem selfSupported_of_settled (lawful : space.Lawful t.offsets) (apart : space.Apart)
    (balanced : t.Balanced space) (loopless : space.Loopless t.offsets)
    (settled : (t.engine choose pick space).settle cells context = .finished r)
    (filled : space.Filled r.cells) : t.SelfSupported space cells (space.Holds r.cells) := by
  obtain ⟨k, hk, idle, _⟩ := Engine.settle_finished settled
  have kept := Engine.kept_moment lawful.toListed Possibilities.entropy_nonneg hk
  have linked := linked_of_idle lawful balanced idle
    (steady_moment lawful apart balanced.twoWay hk)
    (agreed_moment lawful apart balanced loopless hk) filled
  refine ⟨?_, ?_⟩
  · rintro c hc i hi v ⟨j, hj, hv⟩
    cases hi.symm.trans hj
    exact contains_before hk i v hv
  · rintro c hc i hi undecided v ⟨i', hi', hv⟩ k d hd
    cases hi.symm.trans hi'
    obtain ⟨j, hj⟩ := kept.readable d (lawful.closed c hc k d hd)
    obtain ⟨w, hw, hpermits⟩ := linked c hc k d i j hd hi hj v hv
    exact ⟨w, ⟨j, hj, hw⟩, hpermits fun both => undecided both.1⟩

omit [AsValue α] [BEq κ] in
theorem SelfSupported.alike {space' : Space κ δ m} {cells' : Vector (Possibilities α) m}
    (alike : space.Alike space') (same : space.SameCells cells space' cells')
    (readable : ∀ c ∈ space.coordinates, ∃ i, space.slot c = .ok i)
    (supported : t.SelfSupported space cells family) :
    t.SelfSupported space' cells' family := by
  refine ⟨?_, ?_⟩
  · intro c hc j hj v hv
    have hc' := alike.coordinates.mem_iff.2 hc
    obtain ⟨i, hi⟩ := readable c hc'
    rw [← (Possibilities.same_iff _ _).1 (same c hc' i j hi hj) v]
    exact supported.within c hc' i hi v hv
  · intro c hc j hj undecided v hv k d hd
    have hc' := alike.coordinates.mem_iff.2 hc
    obtain ⟨i, hi⟩ := readable c hc'
    rw [← Possibilities.entropy_eq_of_same (same c hc' i j hi hj)] at undecided
    rw [alike.neighbor?] at hd
    exact supported.backed c hc' i hi undecided v hv k d hd

variable {τ : Type} {space' : Space κ δ m} {cells' : Vector (Possibilities α) m}
  {choose' : Chooser τ} {pick' : TieBreak τ} {context' : τ} {q : Run (Possibilities α) κ τ m}

/-- What one order leaves behind without an empty cell, every other order leaves as well. -/
theorem covers_of_settled (alike : space.Alike space') (lawful : space.Lawful t.offsets)
    (lawful' : space'.Lawful t.offsets) (apart : space.Apart) (apart' : space'.Apart)
    (balanced : t.Balanced space) (loopless : space.Loopless t.offsets)
    (same : space.SameCells cells space' cells')
    (settled : (t.engine choose pick space).settle cells context = .finished r)
    (settled' : (t.engine choose' pick' space').settle cells' context' = .finished q)
    (filled : space.Filled r.cells) : space'.Covers q.cells (space.Holds r.cells) := by
  obtain ⟨k, hk, _, _⟩ := Engine.settle_finished settled
  obtain ⟨k', hk', _, unobserved⟩ := Engine.settle_finished settled'
  have kept := Engine.kept_moment lawful.toListed Possibilities.entropy_nonneg hk
  have supported := (selfSupported_of_settled lawful apart balanced loopless settled filled).alike
    alike same kept.readable
  have none : ((t.engine choose' pick' space').moment cells' context' k').run.observations = 0 := by
    rw [hk']
    exact unobserved
  have covers := covers_of_unobserved lawful' apart' supported none
  rwa [hk'] at covers

omit [AsValue α] [BEq κ] in
theorem filled_of_covers (alike : space.Alike space')
    (readable : ∀ c ∈ space.coordinates, ∃ i, space.slot c = .ok i) (filled : space.Filled cells)
    (covers : space'.Covers cells' (space.Holds cells)) : space'.Filled cells' := by
  intro c hc j hj
  have hc' := alike.coordinates.mem_iff.2 hc
  obtain ⟨i, hi⟩ := readable c hc'
  obtain ⟨v, hv⟩ := (cells.get i).isEmpty_eq_false_iff.1 (filled c hc' i hi)
  have held := covers c hc j hj v ⟨i, hi, Possibilities.contains_of_mem hv⟩
  exact Possibilities.isEmpty_eq_false_of_contains held

/-- The propagation before the first observation comes to the same cells whatever the order of the
coordinates, or to an empty cell in every order. -/
theorem settle_confluent (t : Table α δ) (alike : space.Alike space')
    (lawful : space.Lawful t.offsets) (lawful' : space'.Lawful t.offsets) (apart : space.Apart)
    (apart' : space'.Apart) (balanced : t.Balanced space) (loopless : space.Loopless t.offsets)
    (same : space.SameCells cells space' cells') (choose : Chooser ρ) (pick : TieBreak ρ)
    (context : ρ) (choose' : Chooser τ) (pick' : TieBreak τ) (context' : τ)
    (settled : (t.engine choose pick space).settle cells context = .finished r)
    (settled' : (t.engine choose' pick' space').settle cells' context' = .finished q) :
    space.HasEmpty r.cells ∧ space'.HasEmpty q.cells ∨
      space.SameCells r.cells space' q.cells := by
  have forth := covers_of_settled alike lawful lawful' apart apart' balanced loopless same settled
    settled'
  have back := covers_of_settled alike.symm lawful' lawful apart' apart (balanced.alike alike)
    (alike.loopless loopless) (same.symm alike) settled' settled
  obtain ⟨k, hk, _, _⟩ := Engine.settle_finished settled
  obtain ⟨k', hk', _, _⟩ := Engine.settle_finished settled'
  have kept := Engine.kept_moment lawful.toListed Possibilities.entropy_nonneg hk
  have kept' := Engine.kept_moment lawful'.toListed Possibilities.entropy_nonneg hk'
  rcases space.filled_or_hasEmpty r.cells with filled | empty
  · have filled' := filled_of_covers alike kept.readable filled (forth filled)
    right
    intro c hc i j hi hj
    rw [Possibilities.same_iff]
    intro v
    rw [Bool.eq_iff_iff]
    constructor
    · intro hv
      exact forth filled c (alike.coordinates.mem_iff.1 hc) j hj v ⟨i, hi, hv⟩
    · intro hv
      exact back filled' c hc i hi v ⟨j, hj, hv⟩
  · left
    refine ⟨empty, ?_⟩
    rcases space'.filled_or_hasEmpty q.cells with filled' | empty'
    · -- The other order would have left nothing empty here either.
      obtain ⟨c, hc, i, hi, hempty⟩ := empty
      have filled := filled_of_covers alike.symm kept'.readable filled' (back filled')
      rw [filled c hc i hi] at hempty
      cases hempty
    · exact empty'

/-- The ring of four cells, listed backwards. -/
def reversedRing : Space Coord Delta 4 :=
  { Grid.ringGrid.space with coordinates := Grid.ringGrid.coordinates.reverse }

theorem reversedRing_lawful (offsets : List Delta) : reversedRing.Lawful offsets where
  once := by decide
  named _ _ := rfl
  closed := by
    intro c hc k d hd
    have hc' : c ∈ Grid.ringGrid.coordinates := List.mem_reverse.1 hc
    exact List.mem_reverse.2 ((Grid.ringGrid.space_lawful offsets).closed c hc' k d hd)
  complete := by
    intro c hc
    have hc' : c ∈ Grid.ringGrid.coordinates := List.mem_reverse.1 hc
    exact (Grid.ringGrid.space_lawful offsets).complete c hc'

/-- One decided cell and three undecided ones with some values. -/
def seeded (values : List Int) : Vector (Possibilities Int) 4 :=
  #v[.only 0, .ofList values, .ofList values, .ofList values]

theorem settle_confluent_ring :
    ∃ r q, (alternating.engine (fun _ _ x => (.ok 0, x)) (fun _ x => (0, x))
          Grid.ringGrid.space).settle (seeded [0, 1]) () = .finished r ∧
      (alternating.engine (fun _ _ x => (.ok 0, x)) (fun _ x => (0, x)) reversedRing).settle
        (seeded [1, 0]) () = .finished q ∧
      Grid.ringGrid.space.SameCells r.cells reversedRing q.cells := by
  obtain ⟨r, settled, filled⟩ : ∃ r, (alternating.engine (fun _ _ x => (.ok 0, x))
      (fun _ x => (0, x)) Grid.ringGrid.space).settle (seeded [0, 1]) () = .finished r ∧
        ∀ i, (r.cells.get i).isEmpty = false := by
    with_unfolding_all exact ⟨_, rfl, by decide⟩
  obtain ⟨q, settled'⟩ : ∃ q, (alternating.engine (fun _ _ x => (.ok 0, x))
      (fun _ x => (0, x)) reversedRing).settle (seeded [1, 0]) () = .finished q := by
    with_unfolding_all exact ⟨_, rfl⟩
  have apart : Grid.ringGrid.space.Apart :=
    Grid.ringGrid.space_apart (by unfold Function.Injective; decide)
  have apart' : reversedRing.Apart := by
    intro c hc d hd
    exact apart c (List.mem_reverse.1 hc) d (List.mem_reverse.1 hd)
  have same : Grid.ringGrid.space.SameCells (seeded [0, 1]) reversedRing (seeded [1, 0]) := by
    have alike : ∀ i, ((seeded [0, 1]).get i).same ((seeded [1, 0]).get i) = true := by decide
    intro c _ i j hi hj
    cases hi.symm.trans hj
    exact alike i
  have confluent := settle_confluent alternating
    (⟨(List.reverse_perm _).symm, rfl⟩ : Grid.ringGrid.space.Alike reversedRing)
    (Grid.ringGrid.space_lawful _) (reversedRing_lawful _) apart apart'
    (Grid.ringGrid.space_balanced (by decide) (by decide) Grid.mirrored_alternating)
    (Grid.ringGrid.space_loopless (by decide) (by decide)) same _ _ _ _ _ _ settled settled'
  refine ⟨r, q, settled, settled', confluent.resolve_left ?_⟩
  rintro ⟨⟨c, _, i, _, empty⟩, _⟩
  rw [filled i] at empty
  cases empty

end Table

end CellCollapse
