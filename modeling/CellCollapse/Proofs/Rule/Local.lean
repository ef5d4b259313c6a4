import CellCollapse.Proofs.Rule.Solution

set_option autoImplicit false

/-!
# Local consistency

Two invariants of a run. `Table.Steady`: every undecided cell is queued, or all of its values are
supported by its neighbors. `Table.Agreed`: two decided neighbors that were not both decided before
the run may stand beside each other, because the one that was decided later was supported by the
other. A cell that is its own neighbor is no such pair: it has only ever been supported by what it
was before (`Table.AgreedAt`, `Turn.agreedAt`). Both rest on a way back from every neighbor: a cell
that shrinks wakes the cells that it looks at, and these have to be the cells that look at it
(`Space.Answered`). Whenever the queue is empty, the two make the cells `Table.Linked`, as long as
none of them is empty.
-/
namespace CellCollapse

/-- Every neighbor of a cell has it for a neighbor. -/
def Space.Answered {κ δ : Type} {n : Nat} (space : Space κ δ n) (offsets : List δ) (c : κ) : Prop :=
  ∀ k d, space.neighbor? offsets c k = some d → ∃ l, space.neighbor? offsets d l = some c

/-- The same of all cells. -/
def Space.TwoWay {κ δ : Type} {n : Nat} (space : Space κ δ n) (offsets : List δ) : Prop :=
  ∀ c ∈ space.coordinates, ∀ k d, space.neighbor? offsets c k = some d →
    ∃ l, space.neighbor? offsets d l = some c

/-- No cell is its own neighbor. -/
def Space.Loopless {κ δ : Type} {n : Nat} (space : Space κ δ n) (offsets : List δ) : Prop :=
  ∀ c ∈ space.coordinates, ∀ k, space.neighbor? offsets c k ≠ some c

/-- No cell has run out of values. -/
def Space.Filled {α κ δ : Type} [BEq α] {n : Nat} (space : Space κ δ n)
    (cells : Vector (Possibilities α) n) : Prop :=
  ∀ c ∈ space.coordinates, ∀ i, space.slot c = .ok i → (cells.get i).isEmpty = false

theorem Space.Offers.filled {α κ δ : Type} [BEq α] {n : Nat} {space : Space κ δ n}
    {cells : Vector (Possibilities α) n} {s : κ → α} (offers : space.Offers cells s) :
    space.Filled cells := by
  intro c hc i hi
  exact Possibilities.isEmpty_eq_false_of_contains (offers c hc i hi)

namespace Table

variable {α κ δ ρ : Type} [BEq α] {n : Nat}

/-- From every neighbor there is a way back along which the table says the same. -/
def Balanced (t : Table α δ) (space : Space κ δ n) : Prop :=
  ∀ c ∈ space.coordinates, ∀ k d, space.neighbor? t.offsets c k = some d →
    ∃ l, space.neighbor? t.offsets d l = some c ∧ ∀ a b, t.permits a k b = t.permits b l a

theorem Balanced.twoWay {t : Table α δ} {space : Space κ δ n} (balanced : t.Balanced space) :
    space.TwoWay t.offsets := by
  intro c hc k d hd
  obtain ⟨l, hl, _⟩ := balanced c hc k d hd
  exact ⟨l, hl⟩

def Steady (t : Table α δ) (space : Space κ δ n) (r : Run (Possibilities α) κ ρ n) : Prop :=
  ∀ c ∈ space.coordinates, ∀ i, space.slot c = .ok i → (r.cells.get i).entropy ≠ 0 →
    c ∈ r.queue ∨ ∀ v ∈ (r.cells.get i).toList, t.Supported space r.cells c v

/-- The same of one cell. -/
def SteadyAt (t : Table α δ) (space : Space κ δ n) (c : κ) (r : Run (Possibilities α) κ ρ n) :
    Prop :=
  ∀ i, space.slot c = .ok i → (r.cells.get i).entropy ≠ 0 →
    c ∈ r.queue ∨ ∀ v ∈ (r.cells.get i).toList, t.Supported space r.cells c v

def Agreed (t : Table α δ) (space : Space κ δ n) (cells : Vector (Possibilities α) n)
    (r : Run (Possibilities α) κ ρ n) : Prop :=
  ∀ c ∈ space.coordinates, ∀ k d i j, space.neighbor? t.offsets c k = some d →
    space.slot c = .ok i → space.slot d = .ok j →
    (r.cells.get i).entropy = 0 → (r.cells.get j).entropy = 0 →
    ¬ ((cells.get i).entropy = 0 ∧ (cells.get j).entropy = 0) →
      ∀ v ∈ (r.cells.get i).toList, ∀ w ∈ (r.cells.get j).toList, t.permits v k w = true

/-- The same of one pair of cells, the second along the offset with number `k` from the first. -/
def AgreedAt (t : Table α δ) (k : Nat) (i j : Fin n) (cells : Vector (Possibilities α) n) : Prop :=
  (cells.get i).entropy = 0 → (cells.get j).entropy = 0 →
    ∀ v ∈ (cells.get i).toList, ∀ w ∈ (cells.get j).toList, t.permits v k w = true

/-- Every value of a cell has a partner in each neighbor, one that it permits unless both cells were
decided before. -/
def Linked (t : Table α δ) (space : Space κ δ n) (before cells : Vector (Possibilities α) n) :
    Prop :=
  ∀ c ∈ space.coordinates, ∀ k d i j, space.neighbor? t.offsets c k = some d →
    space.slot c = .ok i → space.slot d = .ok j → ∀ v, (cells.get i).contains v = true →
      ∃ w, (cells.get j).contains w = true ∧
        (¬ ((before.get i).entropy = 0 ∧ (before.get j).entropy = 0) → t.permits v k w = true)

variable {t : Table α δ} {space : Space κ δ n} {cells : Vector (Possibilities α) n}
  {r r' : Run (Possibilities α) κ ρ n}

/-- Two decided cells that agree and are not empty have values that may stand beside each other. -/
theorem AgreedAt.permits {k : Nat} {i j : Fin n} (agreed : t.AgreedAt k i j cells)
    (decidedC : (cells.get i).entropy = 0) (decidedD : (cells.get j).entropy = 0)
    (filledC : (cells.get i).isEmpty = false) (filledD : (cells.get j).isEmpty = false) :
    ∃ v w, (cells.get i).value? = some v ∧ (cells.get j).value? = some w ∧
      t.permits v k w = true := by
  obtain ⟨v, hv⟩ := Possibilities.exists_value? decidedC filledC
  obtain ⟨w, hw⟩ := Possibilities.exists_value? decidedD filledD
  refine ⟨v, w, hv, hw, agreed decidedC decidedD v ?_ w ?_⟩
  · rw [((cells.get i).value?_eq_some_iff v).1 hv]
    exact List.mem_singleton_self v
  · rw [((cells.get j).value?_eq_some_iff w).1 hw]
    exact List.mem_singleton_self w

theorem Supported.frame {cells' : Vector (Possibilities α) n} {c : κ} {v : α}
    (h : t.Supported space cells c v)
    (same : ∀ k d j, space.neighbor? t.offsets c k = some d → space.slot d = .ok j →
      cells'.get j = cells.get j) : t.Supported space cells' c v := by
  intro k d j hd hj
  rw [same k d j hd hj]
  exact h k d j hd hj

theorem SteadyAt.supported {c : κ} (steady : t.SteadyAt space c r) (idle : r.queue = []) {i : Fin n}
    (slot : space.slot c = .ok i) (undecided : (r.cells.get i).entropy ≠ 0) :
    ∀ v ∈ (r.cells.get i).toList, t.Supported space r.cells c v := by
  refine (steady i slot undecided).resolve_left ?_
  rw [idle]
  exact List.not_mem_nil

theorem Steady.supported (steady : t.Steady space r) (idle : r.queue = []) {c : κ} {i : Fin n}
    (mem : c ∈ space.coordinates) (slot : space.slot c = .ok i)
    (undecided : (r.cells.get i).entropy ≠ 0) :
    ∀ v ∈ (r.cells.get i).toList, t.Supported space r.cells c v :=
  SteadyAt.supported (steady c mem) idle slot undecided

/-- Whatever a turn leaves in a cell was supported by the neighbors of that cell. -/
theorem Turn.fresh [EquivBEq α] (turn : t.Turn space r r') (steady : t.Steady space r) :
    r'.cells = r.cells ∨ ∃ c i cell, c ∈ space.coordinates ∧ space.slot c = .ok i ∧
      (r.cells.get i).entropy ≠ 0 ∧ r'.cells = r.cells.set i.val cell i.isLt ∧
      ∀ v ∈ cell.toList, t.Supported space r.cells c v := by
  cases turn with
  | skip _ _ _ hcells => exact .inl hcells
  | @react c i rest woken keep _ mem slot undecided kept hcells =>
    refine .inr ⟨c, i, _, mem, slot, undecided, hcells, ?_⟩
    intro v hv
    exact (kept v).1 (List.mem_filter.1 hv).2
  | @observe c i v idle mem slot undecided held hcells =>
    refine .inr ⟨c, i, _, mem, slot, undecided, hcells, ?_⟩
    intro w hw
    obtain rfl : w = v := List.mem_singleton.1 hw
    obtain ⟨x, hx, same⟩ := ((r.cells.get i).contains_iff w).1 held
    exact (steady.supported idle mem slot undecided x hx).congr same

/-- A cell that reacts is supported afterwards; the other cells are where they were. -/
theorem steady_react (apart : space.Apart) {c d : κ} (steady : t.SteadyAt space d r) {i j : Fin n}
    {rest woken : List κ} {keep : α → Bool} (queue : r.queue = c :: rest)
    (mem : c ∈ space.coordinates) (slot : space.slot c = .ok i)
    (kept : ∀ v, keep v = true ↔ t.Supported space r.cells c v)
    (hcells : r'.cells = r.cells.set i.val ((r.cells.get i).filter keep) i.isLt)
    (queue' : r'.queue = rest ++ woken) (hd : d ∈ space.coordinates) (hj : space.slot d = .ok j)
    (undecided : (r'.cells.get j).entropy ≠ 0) :
    d ∈ r'.queue ∨ ∀ v ∈ (r'.cells.get j).toList, t.Supported space r.cells d v := by
  by_cases hij : i = j
  · subst hij
    obtain rfl : d = c := apart d hd c mem i hj slot
    right
    intro v hv
    rw [hcells, get_set, if_pos rfl] at hv
    exact (kept v).1 (List.mem_filter.1 hv).2
  · have hne : d ≠ c := by
      rintro rfl
      exact hij (Except.ok.inj (slot.symm.trans hj))
    rw [hcells, get_set, if_neg hij] at undecided ⊢
    refine (steady j hj undecided).imp_left ?_
    intro hqueued
    rw [queue] at hqueued
    rw [queue']
    exact List.mem_append_left _ ((List.mem_cons.1 hqueued).resolve_left hne)

variable [BEq κ]

/-- A change in one cell reaches only the cells that have it for a neighbor. -/
theorem neighbors_unchanged (lawful : space.Lawful t.offsets) (apart : space.Apart) {c d : κ}
    {i : Fin n} {cell : Possibilities α} (hc : c ∈ space.coordinates) (slot : space.slot c = .ok i)
    (hd : d ∈ space.coordinates) (unseen : ¬ ∃ k, space.neighbor? t.offsets d k = some c) :
    ∀ k e j, space.neighbor? t.offsets d k = some e → space.slot e = .ok j →
      (cells.set i.val cell i.isLt).get j = cells.get j := by
  intro k e j he hj
  rw [get_set, if_neg]
  rintro rfl
  have hce := apart e (lawful.closed d hd k e he) c hc i hj slot
  exact unseen ⟨k, hce ▸ he⟩

/-- If the cells that look at a changed cell are queued, the support of the others still counts. -/
theorem steady_of_set (lawful : space.Lawful t.offsets) (apart : space.Apart) {c d : κ}
    {i j : Fin n} {cell : Possibilities α} (mem : c ∈ space.coordinates)
    (slot : space.slot c = .ok i) (hd : d ∈ space.coordinates)
    (answered : space.Answered t.offsets d)
    (hcells : r'.cells = r.cells.set i.val cell i.isLt)
    (wakes : ∀ k, space.neighbor? t.offsets c k = some d → d ∈ r'.queue)
    (now : d ∈ r'.queue ∨ ∀ v ∈ (r'.cells.get j).toList, t.Supported space r.cells d v) :
    d ∈ r'.queue ∨ ∀ v ∈ (r'.cells.get j).toList, t.Supported space r'.cells d v := by
  by_cases seen : ∃ k, space.neighbor? t.offsets d k = some c
  · obtain ⟨k, hk⟩ := seen
    obtain ⟨l, hl⟩ := answered k c hk
    exact .inl (wakes l hl)
  · refine now.imp_right ?_
    intro supported v hv
    refine (supported v hv).frame ?_
    rw [hcells]
    exact neighbors_unchanged lawful apart mem slot hd seen

theorem Turn.steadyAt (lawful : space.Lawful t.offsets) (apart : space.Apart) {d : κ}
    (hd : d ∈ space.coordinates) (answered : space.Answered t.offsets d)
    (turn : t.Turn space r r') (steady : t.SteadyAt space d r) : t.SteadyAt space d r' := by
  intro j hj hopen
  cases turn with
  | @skip c i queue slot decided hcells =>
    rw [hcells] at hopen ⊢
    refine (steady j hj hopen).imp_left ?_
    intro hqueued
    rw [queue] at hqueued
    rcases List.mem_cons.1 hqueued with rfl | hqueued
    · cases slot.symm.trans hj
      exact absurd decided hopen
    · exact hqueued
  | @react c i rest woken keep queue mem slot undecided kept hcells queue' wakes =>
    have now := steady_react apart steady queue mem slot kept hcells queue' hd hj hopen
    by_cases drop : ((r.cells.get i).filter keep).entropy < (r.cells.get i).entropy
    · refine steady_of_set lawful apart mem slot hd answered hcells ?_ now
      intro k hk
      rw [queue']
      exact List.mem_append_right _ (wakes drop k d j hk hj hopen)
    · -- Nothing is woken, but then no value was lost either.
      have hsame : r'.cells = r.cells := by
        rw [hcells, Possibilities.filter_eq_of_entropy undecided drop]
        exact Vector.set_getElem_self _
      rwa [← hsame] at now
  | @observe c i v idle mem slot undecided held hcells wakes =>
    refine steady_of_set lawful apart mem slot hd answered hcells (fun k => wakes k d) ?_
    have hij : i ≠ j := by
      rintro rfl
      rw [hcells, get_set, if_pos rfl] at hopen
      exact hopen rfl
    rw [hcells, get_set, if_neg hij] at hopen ⊢
    exact .inr (steady.supported idle hj hopen)

theorem Turn.agreedAt [EquivBEq α] (lawful : space.Lawful t.offsets) (apart : space.Apart)
    (balanced : t.Balanced space) (turn : t.Turn space r r') (steady : t.Steady space r) {c d : κ}
    {k : Nat} {i j : Fin n} (hc : c ∈ space.coordinates)
    (hk : space.neighbor? t.offsets c k = some d) (hi : space.slot c = .ok i)
    (hj : space.slot d = .ok j) (other : c ≠ d) (agreed : t.AgreedAt k i j r.cells) :
    t.AgreedAt k i j r'.cells := by
  intro decidedC decidedD v hv w hw
  have hd := lawful.closed c hc k d hk
  have hne : i ≠ j := by
    rintro rfl
    exact other (apart c hc d hd i hi hj)
  rcases turn.fresh steady with hcells | ⟨e, m, cell, he, hm, undecided, hcells, hfresh⟩
  · rw [hcells] at decidedC decidedD hv hw
    exact agreed decidedC decidedD v hv w hw
  · rw [hcells, get_set] at decidedC decidedD hv hw
    by_cases hmi : m = i
    · -- The cell at `c` is decided now, by what the decided cell at `d` supports.
      subst hmi
      rw [if_neg hne] at decidedD hw
      rw [if_pos rfl] at hv
      rw [apart e he c hc m hm hi] at hfresh
      obtain ⟨b, hb, hpermits⟩ := hfresh v hv k d j hk hj
      rwa [Possibilities.eq_of_mem_of_decided decidedD hw hb]
    · rw [if_neg hmi] at decidedC hv
      by_cases hmj : m = j
      · -- The other way round, along the way back.
        subst hmj
        rw [if_pos rfl] at hw
        rw [apart e he d hd m hm hj] at hfresh
        obtain ⟨l, hl, hmirror⟩ := balanced c hc k d hk
        obtain ⟨b, hb, hpermits⟩ := hfresh w hw l c i hl hi
        rwa [hmirror, Possibilities.eq_of_mem_of_decided decidedC hv hb]
      · rw [if_neg hmj] at decidedD hw
        exact agreed decidedC decidedD v hv w hw

variable [EquivBEq α]

/-- When the queue is empty, an undecided cell is supported by its neighbors and two decided ones
agree, so only the side of a decided cell towards an undecided one is left: the way back. -/
theorem linked_of_idle (lawful : space.Lawful t.offsets) (balanced : t.Balanced space)
    (idle : r.queue = []) (steady : t.Steady space r) (agreed : t.Agreed space cells r)
    (filled : space.Filled r.cells) : t.Linked space cells r.cells := by
  intro c hc k d i j hk hi hj v hv
  have hd := lawful.closed c hc k d hk
  obtain ⟨x, hx, same⟩ := ((r.cells.get i).contains_iff v).1 hv
  simp only [← t.permits_congr_left same k]
  suffices h : ∃ w ∈ (r.cells.get j).toList,
      (¬ ((cells.get i).entropy = 0 ∧ (cells.get j).entropy = 0) → t.permits x k w = true) by
    obtain ⟨w, hw, hpermits⟩ := h
    exact ⟨w, Possibilities.contains_of_mem hw, hpermits⟩
  by_cases decidedC : (r.cells.get i).entropy = 0
  · obtain ⟨w, hw⟩ := (r.cells.get j).isEmpty_eq_false_iff.1 (filled d hd j hj)
    refine ⟨w, hw, ?_⟩
    intro live
    by_cases decidedD : (r.cells.get j).entropy = 0
    · exact agreed c hc k d i j hk hi hj decidedC decidedD live x hx w hw
    · obtain ⟨l, hl, mirror⟩ := balanced c hc k d hk
      obtain ⟨y, hy, hpermits⟩ := steady.supported idle hd hj decidedD w hw l c i hl hi
      rw [mirror, Possibilities.eq_of_mem_of_decided decidedC hx hy]
      exact hpermits
  · obtain ⟨w, hw, hpermits⟩ := steady.supported idle hc hi decidedC x hx k d j hk hj
    exact ⟨w, hw, fun _ => hpermits⟩

variable [AsValue α] {choose : Chooser ρ} {pick : TieBreak ρ} {context : ρ}

theorem steadyAt_moment (lawful : space.Lawful t.offsets) (apart : space.Apart) {c : κ}
    (hc : c ∈ space.coordinates) (answered : space.Answered t.offsets c) {k : Nat}
    (h : (t.engine choose pick space).moment cells context k = .running r) :
    t.SteadyAt space c r := by
  refine Engine.moment_induction (t.SteadyAt space c) ?_ ?_ h
  · intro r₀ start i hi undecided
    rw [Engine.start_running_cells start] at undecided
    obtain ⟨_, rfl⟩ := Engine.start_running lawful.toListed Possibilities.entropy_nonneg start
    refine .inl (List.mem_filter.2 ⟨hc, (Engine.isOpen_iff _ _ c).2 ⟨i, hi, ?_⟩⟩)
    simpa using undecided
  · intro k q q' hq steady move
    exact (turn_of_move lawful (tracked_moment lawful hq) move).1.steadyAt lawful apart hc answered
      steady

theorem steady_moment (lawful : space.Lawful t.offsets) (apart : space.Apart)
    (twoWay : space.TwoWay t.offsets) {k : Nat}
    (h : (t.engine choose pick space).moment cells context k = .running r) : t.Steady space r := by
  intro c hc
  exact steadyAt_moment lawful apart hc (twoWay c hc) h

theorem agreedAt_moment (lawful : space.Lawful t.offsets) (apart : space.Apart)
    (balanced : t.Balanced space) {m : Nat}
    (h : (t.engine choose pick space).moment cells context m = .running r) {c d : κ} {k : Nat}
    {i j : Fin n} (hc : c ∈ space.coordinates) (hk : space.neighbor? t.offsets c k = some d)
    (hi : space.slot c = .ok i) (hj : space.slot d = .ok j) (other : c ≠ d)
    (live : ¬ ((cells.get i).entropy = 0 ∧ (cells.get j).entropy = 0)) :
    t.AgreedAt k i j r.cells := by
  refine Engine.moment_induction (fun q => t.AgreedAt k i j q.cells) ?_ ?_ h
  · intro r₀ start decidedC decidedD
    rw [Engine.start_running_cells start] at decidedC decidedD
    exact absurd ⟨decidedC, decidedD⟩ live
  · intro m q q' hq agreed move
    exact (turn_of_move lawful (tracked_moment lawful hq) move).1.agreedAt lawful apart balanced
      (steady_moment lawful apart balanced.twoWay hq) hc hk hi hj other agreed

theorem agreed_moment (lawful : space.Lawful t.offsets) (apart : space.Apart)
    (balanced : t.Balanced space) (loopless : space.Loopless t.offsets) {k : Nat}
    (h : (t.engine choose pick space).moment cells context k = .running r) :
    t.Agreed space cells r := by
  intro c hc k d i j hk hi hj decidedC decidedD live
  have other : c ≠ d := by
    rintro rfl
    exact loopless c hc k hk
  exact agreedAt_moment lawful apart balanced h hc hk hi hj other live decidedC decidedD

/-- In a finished collapse two filled neighbors may stand beside each other, unless both of them
were decided before or they are one cell. -/
theorem permits_of_finished_of_ne (lawful : space.Lawful t.offsets) (apart : space.Apart)
    (balanced : t.Balanced space)
    (returned : (t.engine choose pick space).collapse cells context = .finished r) {c d : κ}
    {k : Nat} {i j : Fin n} (mem : c ∈ space.coordinates)
    (next : space.neighbor? t.offsets c k = some d) (other : c ≠ d) (hi : space.slot c = .ok i)
    (hj : space.slot d = .ok j) (filledC : (r.cells.get i).isEmpty = false)
    (filledD : (r.cells.get j).isEmpty = false)
    (live : ¬ ((cells.get i).entropy = 0 ∧ (cells.get j).entropy = 0)) :
    ∃ v w, (r.cells.get i).value? = some v ∧ (r.cells.get j).value? = some w ∧
      t.permits v k w = true := by
  obtain ⟨m, hm⟩ := Engine.exists_collapse_eq_moment (t.engine choose pick space) cells context
  rw [returned] at hm
  obtain ⟨decided, l, q, hq, _, hcells, _⟩ :=
    Engine.moment_finished lawful.toListed Possibilities.entropy_nonneg hm.symm
  have settled : ∀ e ∈ space.coordinates, ∀ x, space.slot e = .ok x →
      (r.cells.get x).entropy = 0 := by
    intro e he x hx
    obtain ⟨y, hy, hzero⟩ := decided e he
    cases hx.symm.trans hy
    simpa using hzero
  have agreed := agreedAt_moment lawful apart balanced hq mem next hi hj other live
  rw [hcells] at agreed
  exact agreed.permits (settled c mem i hi) (settled d (lawful.closed c mem k d next) j hj) filledC
    filledD

theorem permits_of_finished (lawful : space.Lawful t.offsets) (apart : space.Apart)
    (balanced : t.Balanced space) (loopless : space.Loopless t.offsets)
    (returned : (t.engine choose pick space).collapse cells context = .finished r) {c d : κ}
    {k : Nat} {i j : Fin n} (mem : c ∈ space.coordinates)
    (next : space.neighbor? t.offsets c k = some d) (hi : space.slot c = .ok i)
    (hj : space.slot d = .ok j) (filledC : (r.cells.get i).isEmpty = false)
    (filledD : (r.cells.get j).isEmpty = false)
    (live : ¬ ((cells.get i).entropy = 0 ∧ (cells.get j).entropy = 0)) :
    ∃ v w, (r.cells.get i).value? = some v ∧ (r.cells.get j).value? = some w ∧
      t.permits v k w = true := by
  have other : c ≠ d := by
    rintro rfl
    exact loopless c mem k next
  exact permits_of_finished_of_ne lawful apart balanced returned mem next other hi hj filledC
    filledD live

end Table

end CellCollapse
