import CellCollapse.Proofs.Grid.Consistency

set_option autoImplicit false

/-!
# Chains

Along a chain any value of a settled cell can be continued to both ends, each cell taking a value
that its neighbors allow. So once the propagation before the first observation has emptied no cell,
no later observation can lead into a contradiction: there is always an assignment through the value
that was observed, and propagation keeps it.
-/
namespace CellCollapse

/-- An assignment that the cells still offer, and that fits wherever there was a choice before. -/
structure Table.Guide {α κ δ : Type} [BEq α] {n : Nat} (t : Table α δ) (space : Space κ δ n)
    (before cells : Vector (Possibilities α) n) (s : κ → α) : Prop where
  offers : space.Offers cells s
  fits : ∀ c ∈ space.coordinates, ∀ i, space.slot c = .ok i → (before.get i).entropy ≠ 0 →
    t.Fits space s c

/-- Values at the positions from `a` to `b`, one of them given, each joined to the next. -/
structure Thread {α : Type} (P : Nat → α → Prop) (R : Nat → α → α → Prop) (p : Nat) (v : α)
    (a b : Nat) (s : Nat → α) : Prop where
  through : s p = v
  holds : ∀ q, a ≤ q → q ≤ b → P q (s q)
  joined : ∀ q, a ≤ q → q < b → R q (s q) (s (q + 1))

namespace Thread

variable {α : Type} {P : Nat → α → Prop} {R : Nat → α → α → Prop} {p a b : Nat} {v w : α}
  {s : Nat → α}

theorem right (thread : Thread P R p v a b s) (hp : p ≤ b) (hw : P (b + 1) w)
    (join : R b (s b) w) : Thread P R p v a (b + 1) (Function.update s (b + 1) w) := by
  have old : ∀ q, q ≤ b → Function.update s (b + 1) w q = s q := by
    intro q hq
    have hne : q ≠ b + 1 := by omega
    exact Function.update_of_ne hne w s
  refine ⟨(old p hp).trans thread.through, ?_, ?_⟩
  · intro q ha hb
    by_cases hq : q = b + 1
    · rw [hq, Function.update_self]
      exact hw
    · rw [old q (by omega)]
      exact thread.holds q ha (by omega)
  · intro q ha hb
    rw [old q (by omega)]
    by_cases hq : q = b
    · rw [hq, Function.update_self]
      exact join
    · rw [old (q + 1) (by omega)]
      exact thread.joined q ha (by omega)

theorem left (thread : Thread P R p v (a + 1) b s) (hp : a < p) (hw : P a w)
    (join : R a w (s (a + 1))) : Thread P R p v a b (Function.update s a w) := by
  have old : ∀ q, a < q → Function.update s a w q = s q := by
    intro q hq
    have hne : q ≠ a := by omega
    exact Function.update_of_ne hne w s
  refine ⟨(old p hp).trans thread.through, ?_, ?_⟩
  · intro q ha hb
    by_cases hq : q = a
    · rw [hq, Function.update_self]
      exact hw
    · rw [old q (by omega)]
      exact thread.holds q (by omega) hb
  · intro q ha hb
    rw [old (q + 1) (by omega)]
    by_cases hq : q = a
    · rw [hq, Function.update_self]
      exact join
    · rw [old q (by omega)]
      exact thread.joined q (by omega) hb

theorem exists_rightward (hv : P p v) (m : Nat)
    (forth : ∀ q < p + m, ∀ x, P q x → ∃ y, P (q + 1) y ∧ R q x y) :
    ∃ s, Thread P R p v p (p + m) s := by
  induction m with
  | zero =>
    refine ⟨fun _ => v, rfl, ?_, ?_⟩
    · intro q ha hb
      obtain rfl : q = p := by omega
      exact hv
    · intro q ha hb
      omega
  | succ m ih =>
    obtain ⟨s, thread⟩ := ih fun q hq => forth q (by omega)
    have hlast := thread.holds (p + m) (by omega) (by omega)
    obtain ⟨y, hy, join⟩ := forth (p + m) (by omega) _ hlast
    exact ⟨_, thread.right (by omega) hy join⟩

theorem exists_leftward {last m : Nat} (hp : p ≤ last) (start : ∃ s, Thread P R p v p last s)
    (back : ∀ q < last, ∀ y, P (q + 1) y → ∃ x, P q x ∧ R q x y) (ha : a + m = p) :
    ∃ s, Thread P R p v a last s := by
  induction m generalizing a with
  | zero =>
    obtain rfl : a = p := by omega
    exact start
  | succ m ih =>
    have hm : a + 1 + m = p := by omega
    obtain ⟨s, thread⟩ := ih hm
    have hfirst := thread.holds (a + 1) (by omega) (by omega)
    obtain ⟨x, hx, join⟩ := back a (by omega) _ hfirst
    exact ⟨_, thread.left (by omega) hx join⟩

/-- Where every value can be continued by one position both ways, it can be continued to the end. -/
theorem exists_thread {last : Nat} (forth : ∀ q < last, ∀ x, P q x → ∃ y, P (q + 1) y ∧ R q x y)
    (back : ∀ q < last, ∀ y, P (q + 1) y → ∃ x, P q x ∧ R q x y) (hp : p ≤ last) (hv : P p v) :
    ∃ s, Thread P R p v 0 last s := by
  obtain ⟨m, rfl⟩ := Nat.exists_eq_add_of_le hp
  exact exists_leftward hp (exists_rightward hv m forth) back (Nat.zero_add p)

end Thread

/-- A table for chains that says the same to the left and to the right. -/
structure Table.TwoSided {α : Type} [BEq α] (t : Table α Delta) : Prop where
  offsets : t.offsets = chainSteps
  mirrored : ∀ a b, t.permits a 1 b = t.permits b 0 a

namespace Grid

/-- A bounded grid of a single axis. -/
structure IsChain {n : Nat} (g : Grid (Fin n)) (length : Nat) : Prop where
  sizes : g.shape.sizes = [length]
  bounded : g.periodic = false

/-- The cell at a position of a chain has a value. -/
def HasAt {α : Type} [BEq α] {n : Nat} (g : Grid (Fin n)) (cells : Vector (Possibilities α) n)
    (q : Nat) (x : α) : Prop :=
  ∃ j, g.space.slot [(q : Int)] = .ok j ∧ (cells.get j).contains x = true

/-- Two values may stand at a position of a chain and at the next one, unless both cells were
decided before. -/
def JoinsAt {α : Type} [BEq α] {n : Nat} (g : Grid (Fin n)) (t : Table α Delta)
    (before : Vector (Possibilities α) n) (q : Nat) (x y : α) : Prop :=
  ∀ i j, g.space.slot [(q : Int)] = .ok i → g.space.slot [((q + 1 : Nat) : Int)] = .ok j →
    ¬ ((before.get i).entropy = 0 ∧ (before.get j).entropy = 0) → t.permits x 1 y = true

namespace IsChain

variable {α ρ : Type} [BEq α] {n length : Nat} {g : Grid (Fin n)} (chain : g.IsChain length)

include chain

theorem positive : 0 < length := g.shape.positive length (by simp [chain.sizes])

theorem mem_coordinates_iff (c : Coord) :
    c ∈ g.coordinates ↔ ∃ p : Nat, p < length ∧ c = [(p : Int)] := by
  rw [g.mem_coordinates_iff, chain.sizes, Inside, List.forall₂_cons_left_iff]
  constructor
  · rintro ⟨x, rest, ⟨low, high⟩, hrest, rfl⟩
    cases hrest
    exact ⟨x.toNat, by omega, by rw [Int.toNat_of_nonneg low]⟩
  · rintro ⟨p, hp, rfl⟩
    exact ⟨p, [], ⟨by omega, by omega⟩, .nil, rfl⟩

theorem mem_of_lt {q : Nat} (hq : q < length) : [(q : Int)] ∈ g.coordinates :=
  (chain.mem_coordinates_iff _).2 ⟨q, hq, rfl⟩

theorem slot_of_lt {q : Nat} (hq : q < length) : ∃ j, g.space.slot [(q : Int)] = .ok j :=
  g.get_of_mem (chain.mem_of_lt hq)

theorem matching : ∀ D ∈ chainSteps, D.length = g.axes := by
  have haxes : g.axes = 1 := by simp [axes, Shape.axes, chain.sizes]
  rw [haxes]
  decide

theorem offset_eq (p x : Int) :
    g.offset [p] [x] = if 0 ≤ p + x ∧ p + x < length then some [p + x] else none := by
  simp [offset, CellCollapse.offset, chain.sizes, chain.bounded]

theorem neighbor?_iff {p : Nat} (hp : p < length) (k : Nat) (d : Coord) :
    g.space.neighbor? chainSteps [(p : Int)] k = some d ↔
      (k = 0 ∧ ∃ q : Nat, q + 1 = p ∧ d = [(q : Int)]) ∨
        (k = 1 ∧ p + 1 < length ∧ d = [((p + 1 : Nat) : Int)]) := by
  rw [g.neighbor?_eq_some_iff chain.matching]
  constructor
  · rintro ⟨D, hD, hoffset⟩
    match k, hD with
    | 0, hD =>
      cases hD
      rw [chain.offset_eq, Option.ite_none_right_eq_some] at hoffset
      obtain ⟨bounds, hd⟩ := hoffset
      refine .inl ⟨rfl, p - 1, by omega, ?_⟩
      rw [← Option.some.inj hd]
      congr 1
      omega
    | 1, hD =>
      cases hD
      rw [chain.offset_eq, Option.ite_none_right_eq_some] at hoffset
      obtain ⟨bounds, hd⟩ := hoffset
      exact .inr ⟨rfl, by omega, (Option.some.inj hd).symm⟩
  · rintro (⟨rfl, q, rfl, rfl⟩ | ⟨rfl, hnext, rfl⟩)
    · refine ⟨[-1], rfl, ?_⟩
      rw [chain.offset_eq, if_pos (by omega)]
      congr 2
      omega
    · refine ⟨[1], rfl, ?_⟩
      rw [chain.offset_eq, if_pos (by omega)]
      rfl

variable {t : Table α Delta} (sided : t.TwoSided)

include sided

theorem next {q : Nat} (hq : q + 1 < length) :
    g.space.neighbor? t.offsets [(q : Int)] 1 = some [((q + 1 : Nat) : Int)] := by
  rw [sided.offsets, chain.neighbor?_iff (by omega)]
  exact .inr ⟨rfl, hq, rfl⟩

theorem previous {q : Nat} (hq : q + 1 < length) :
    g.space.neighbor? t.offsets [((q + 1 : Nat) : Int)] 0 = some [(q : Int)] := by
  rw [sided.offsets, chain.neighbor?_iff hq]
  exact .inl ⟨rfl, q, rfl, rfl⟩

theorem balanced : t.Balanced g.space := by
  intro c hc k d hd
  obtain ⟨p, hp, rfl⟩ := (chain.mem_coordinates_iff c).1 hc
  rw [sided.offsets] at hd
  rcases (chain.neighbor?_iff hp k d).1 hd with ⟨rfl, q, rfl, rfl⟩ | ⟨rfl, hnext, rfl⟩
  · exact ⟨1, chain.next sided hp, fun a b => (sided.mirrored b a).symm⟩
  · exact ⟨0, chain.previous sided hnext, sided.mirrored⟩

theorem loopless : g.space.Loopless t.offsets := by
  intro c hc k hk
  obtain ⟨p, hp, rfl⟩ := (chain.mem_coordinates_iff c).1 hc
  rw [sided.offsets, chain.neighbor?_iff hp] at hk
  rcases hk with ⟨_, q, hq, heq⟩ | ⟨_, _, heq⟩
  · simp only [List.cons.injEq, and_true] at heq
    omega
  · simp only [List.cons.injEq, and_true] at heq
    omega

theorem forth {before cells : Vector (Possibilities α) n} (linked : t.Linked g.space before cells)
    {q : Nat} (hq : q + 1 < length) {x : α} (hx : g.HasAt cells q x) :
    ∃ y, g.HasAt cells (q + 1) y ∧ g.JoinsAt t before q x y := by
  obtain ⟨i, hi, hcontains⟩ := hx
  obtain ⟨j, hj⟩ := chain.slot_of_lt hq
  have mem : [(q : Int)] ∈ g.coordinates := chain.mem_of_lt (by omega)
  obtain ⟨y, hy, hpermits⟩ := linked _ mem 1 _ i j (chain.next sided hq) hi hj x hcontains
  refine ⟨y, ⟨j, hj, hy⟩, ?_⟩
  intro i' j' hi' hj' live
  cases hi.symm.trans hi'
  cases hj.symm.trans hj'
  exact hpermits live

theorem back {before cells : Vector (Possibilities α) n} (linked : t.Linked g.space before cells)
    {q : Nat} (hq : q + 1 < length) {y : α} (hy : g.HasAt cells (q + 1) y) :
    ∃ x, g.HasAt cells q x ∧ g.JoinsAt t before q x y := by
  obtain ⟨j, hj, hcontains⟩ := hy
  obtain ⟨i, hi⟩ := chain.slot_of_lt (show q < length by omega)
  obtain ⟨x, hx, hpermits⟩ := linked _ (chain.mem_of_lt hq) 0 _ j i (chain.previous sided hq) hj hi
    y hcontains
  refine ⟨x, ⟨i, hi, hx⟩, ?_⟩
  intro i' j' hi' hj' live
  cases hi.symm.trans hi'
  cases hj.symm.trans hj'
  rw [sided.mirrored]
  exact hpermits fun both => live both.symm

/-- A thread through the whole chain is an assignment. -/
theorem guide_of_thread {before cells : Vector (Possibilities α) n} {p : Nat} {v : α} {f : Nat → α}
    (thread : Thread (g.HasAt cells) (g.JoinsAt t before) p v 0 (length - 1) f) :
    t.Guide g.space before cells fun c => f (c.headD 0).toNat := by
  refine ⟨?_, ?_⟩
  · intro c hc i hi
    obtain ⟨q, hq, rfl⟩ := (chain.mem_coordinates_iff c).1 hc
    obtain ⟨j, hj, hcontains⟩ := thread.holds q (by omega) (by omega)
    cases hi.symm.trans hj
    exact hcontains
  · intro c hc i hi undecided k d hd
    obtain ⟨q, hq, rfl⟩ := (chain.mem_coordinates_iff c).1 hc
    rw [sided.offsets] at hd
    rcases (chain.neighbor?_iff hq k d).1 hd with ⟨rfl, m, rfl, rfl⟩ | ⟨rfl, hnext, rfl⟩
    · obtain ⟨j, hj⟩ := chain.slot_of_lt (show m < length by omega)
      have joined := thread.joined m (by omega) (by omega) j i hj hi fun both => undecided both.2
      exact (sided.mirrored _ _).symm.trans joined
    · obtain ⟨j, hj⟩ := chain.slot_of_lt hnext
      exact thread.joined q (by omega) (by omega) i j hi hj fun both => undecided both.1

/-- Any value of any cell of a linked chain can be continued to the whole chain. -/
theorem exists_guide {before cells : Vector (Possibilities α) n}
    (linked : t.Linked g.space before cells) {p : Nat} (hp : p < length) {v : α}
    (hv : g.HasAt cells p v) : ∃ s, s [(p : Int)] = v ∧ t.Guide g.space before cells s := by
  obtain ⟨f, thread⟩ := Thread.exists_thread (p := p) (R := g.JoinsAt t before)
    (fun q (hq : q < length - 1) x hx => chain.forth sided linked (by omega) hx)
    (fun q hq y hy => chain.back sided linked (by omega) hy) (by omega) hv
  exact ⟨_, thread.through, chain.guide_of_thread sided thread⟩

variable [EquivBEq α] {before : Vector (Possibilities α) n}
  {r r' : Run (Possibilities α) Coord ρ n}

theorem linked (steady : t.Steady g.space r) (agreed : t.Agreed g.space before r)
    (idle : r.queue = []) (filled : g.space.Filled r.cells) : t.Linked g.space before r.cells :=
  Table.linked_of_idle (g.space_lawful t.offsets) (chain.balanced sided) idle steady agreed filled

/-- A turn keeps the guide that there is; only an observation needs a new one, through the value
that it left. -/
theorem guide_turn (apart : g.space.Apart) (steady : t.Steady g.space r)
    (agreed : t.Agreed g.space before r)
    (frozen : ∀ i, (before.get i).entropy = 0 → r.cells.get i = before.get i)
    (turn : t.Turn g.space r r') {s : Coord → α} (guide : t.Guide g.space before r.cells s) :
    ∃ s', t.Guide g.space before r'.cells s' := by
  have follow : ∀ s', t.Guide g.space before r.cells s' →
      (∀ c i, r'.observations = r.observations + 1 → r'.events = r.events ++ [.observed c] →
        g.space.slot c = .ok i → (r'.cells.get i).contains (s' c) = true) →
      t.Guide g.space before r'.cells s' := by
    intro s' guide' honest
    refine ⟨turn.offers (g.space_lawful _) apart guide'.offers ?_ honest, guide'.fits⟩
    intro c hc i hi undecided
    refine guide'.fits c hc i hi fun decided => undecided ?_
    rw [frozen i decided]
    exact decided
  cases turn with
  | skip _ _ _ _ count =>
    refine ⟨s, follow s guide ?_⟩
    intro _ _ more
    omega
  | react _ _ _ _ _ _ _ _ count =>
    refine ⟨s, follow s guide ?_⟩
    intro _ _ more
    omega
  | @observe c i v idle mem slot _ held hcells _ _ event =>
    obtain ⟨p, hp, rfl⟩ := (chain.mem_coordinates_iff c).1 mem
    obtain ⟨s', rfl, guide'⟩ := chain.exists_guide sided
      (chain.linked sided steady agreed idle guide.offers.filled) hp ⟨i, slot, held⟩
    refine ⟨s', follow s' guide' ?_⟩
    intro d j _ event' hj
    obtain rfl : [(p : Int)] = d := by
      have := List.append_cancel_left (event.symm.trans event')
      simpa using this
    cases slot.symm.trans hj
    rw [hcells, get_set, if_pos rfl]
    exact (Possibilities.contains_only _ _).trans BEq.rfl

variable [AsValue α] {choose : Chooser ρ} {pick : TieBreak ρ} {context : ρ}

/-- From a moment with an empty queue and no empty cell on, the cells offer an assignment. -/
theorem guide_moment (apart : g.space.Apart) {j k : Nat} (hjk : j ≤ k)
    (running : (t.engine choose pick g.space).moment before context j = .running r)
    (idle : r.queue = []) (filled : g.space.Filled r.cells) :
    ∃ s, t.Guide g.space before
      ((t.engine choose pick g.space).moment before context k).run.cells s := by
  have lawful := g.space_lawful t.offsets
  have balanced := chain.balanced sided
  have loopless := chain.loopless sided
  have steady : ∀ {m q}, (t.engine choose pick g.space).moment before context m = .running q →
      t.Steady g.space q := Table.steady_moment lawful apart balanced.twoWay
  have agreed : ∀ {m q}, (t.engine choose pick g.space).moment before context m = .running q →
      t.Agreed g.space before q := Table.agreed_moment lawful apart balanced loopless
  refine Table.cells_moment_induction lawful
    (fun cells => ∃ s, t.Guide g.space before cells s) hjk ?_ ?_
  · obtain ⟨i, hi⟩ := chain.slot_of_lt chain.positive
    obtain ⟨v, hv⟩ := (r.cells.get i).isEmpty_eq_false_iff.1
      (filled _ (chain.mem_of_lt chain.positive) i hi)
    obtain ⟨s, _, guide⟩ := chain.exists_guide sided
      (chain.linked sided (steady running) (agreed running) idle filled) chain.positive
      ⟨i, hi, Possibilities.contains_of_mem hv⟩
    rw [running]
    exact ⟨s, guide⟩
  · rintro m _ q q' hq _ turn ⟨s, guide⟩
    have kept := Engine.kept_moment lawful.toListed Possibilities.entropy_nonneg hq
    refine chain.guide_turn sided apart (steady hq) (agreed hq) ?_ turn guide
    intro i decided
    exact kept.frozen i (by simpa using decided)

theorem filled_of_settled (apart : g.space.Apart) (choose : Chooser ρ) (pick : TieBreak ρ)
    (settled : g.space.Filled ((t.engine choose pick g.space).settle before context).run.cells)
    (returned : (t.engine choose pick g.space).collapse before context = .finished r) :
    g.space.Filled r.cells := by
  obtain ⟨k, hk⟩ := Engine.exists_collapse_eq_moment (t.engine choose pick g.space) before context
  rw [returned] at hk
  have ended : ∀ q, (t.engine choose pick g.space).moment before context k ≠ .running q := by
    simp [← hk]
  have first := Engine.settle_moment (g.space_lawful t.offsets).toListed
    Possibilities.entropy_nonneg (t.shrinks_engine choose pick g.space) before context
  rcases first with ⟨m, q, hsettle, running, idle⟩ | ⟨m, hsettle, hm⟩
  · rw [hsettle] at settled
    have hmk := Engine.moment_running_le running ended
    obtain ⟨s, guide⟩ := chain.guide_moment sided apart hmk running idle settled
    rw [← hk] at guide
    exact guide.offers.filled
  · rw [hsettle, Engine.moment_eq_of_ended hm ended, ← hk] at settled
    exact settled

omit sided in
/-- A chain that holds no empty cell when its first propagation is over never gets one, and the
values of two adjacent cells allow each other, unless both were decided before. -/
theorem collapse_stays_filled (apart : Function.Injective g.cells.get) (t : Table α Delta)
    (sided : t.TwoSided) (choose : Chooser ρ) (pick : TieBreak ρ)
    (cells : Vector (Possibilities α) n) (context : ρ)
    (settled : g.space.Filled ((t.engine choose pick g.space).settle cells context).run.cells)
    {r : Run (Possibilities α) Coord ρ n}
    (returned : (t.engine choose pick g.space).collapse cells context = .finished r) :
    (∀ c ∈ g.coordinates, ∃ i, g.space.slot c = .ok i ∧ (r.cells.get i).isEmpty = false) ∧
      ∀ p, p + 1 < length → ∃ i j, g.space.slot [(p : Int)] = .ok i ∧
        g.space.slot [((p + 1 : Nat) : Int)] = .ok j ∧
        (¬ ((cells.get i).entropy = 0 ∧ (cells.get j).entropy = 0) →
          ∃ v w, (r.cells.get i).value? = some v ∧ (r.cells.get j).value? = some w ∧
            t.permits v 1 w = true ∧ t.permits w 0 v = true) := by
  have filled := chain.filled_of_settled sided (g.space_apart apart) choose pick settled returned
  refine ⟨?_, ?_⟩
  · intro c hc
    obtain ⟨i, hi⟩ := g.get_of_mem hc
    exact ⟨i, hi, filled c hc i hi⟩
  · intro p hp
    have mem : [(p : Int)] ∈ g.coordinates := chain.mem_of_lt (by omega)
    obtain ⟨i, hi⟩ := g.get_of_mem mem
    obtain ⟨j, hj⟩ := chain.slot_of_lt hp
    refine ⟨i, j, hi, hj, ?_⟩
    intro live
    obtain ⟨v, w, hv, hw, hpermits⟩ := Table.permits_of_finished (g.space_lawful t.offsets)
      (g.space_apart apart) (chain.balanced sided) (chain.loopless sided) returned mem
      (chain.next sided hp) hi hj (filled _ mem i hi) (filled _ (chain.mem_of_lt hp) j hj) live
    exact ⟨v, w, hv, hw, hpermits, (sided.mirrored v w).symm.trans hpermits⟩

end IsChain

/-- A chain of three cells. -/
def tripleGrid : Grid (Fin 3) := ⟨⟨[3], by decide, by decide⟩, false, #v[0, 1, 2]⟩

theorem twoSided_alternating : Table.alternating.TwoSided := by
  refine ⟨rfl, ?_⟩
  intro a b
  rw [Bool.eq_iff_iff, permits_alternating (by decide), permits_alternating (by decide)]
  omega

theorem collapse_stays_filled_tripleGrid :
    ∃ r, (Table.alternating.engine (fun _ _ x => (.ok 0, x)) (fun _ x => (0, x))
        tripleGrid.space).collapse (Vector.replicate 3 (.ofList [0, 1])) () = .finished r ∧
      ∀ c ∈ tripleGrid.coordinates, ∃ i, tripleGrid.space.slot c = .ok i ∧
        (r.cells.get i).isEmpty = false := by
  obtain ⟨r, returned⟩ : ∃ r, (Table.alternating.engine (fun _ _ x => (.ok 0, x))
      (fun _ x => (0, x)) tripleGrid.space).collapse (Vector.replicate 3 (.ofList [0, 1])) () =
        .finished r := by
    with_unfolding_all exact ⟨_, rfl⟩
  have settled : ∀ i, (((Table.alternating.engine (fun _ _ x => (.ok 0, x)) (fun _ x => (0, x))
      tripleGrid.space).settle (Vector.replicate 3 (.ofList [0, 1])) ()).run.cells.get i).isEmpty =
        false := by decide
  have chain : tripleGrid.IsChain 3 := ⟨rfl, rfl⟩
  have apart : Function.Injective tripleGrid.cells.get := by
    unfold Function.Injective
    decide
  exact ⟨r, returned, (chain.collapse_stays_filled apart Table.alternating twoSided_alternating _ _
    _ _ (fun _ _ i _ => settled i) returned).1⟩

end Grid

end CellCollapse
