import CellCollapse.Proofs.Engine.Context
import CellCollapse.Proofs.Possibilities

set_option autoImplicit false

/-!
# Selections

The unresolved coordinates of a run are found once, at its start, and decided ones are dropped from
them only by a selection. Since no cell is ever reopened, a selection still sees the whole space:
it keeps all undecided coordinates in the order of the space, and its candidates are those of lowest
entropy among them. `Engine.tallied` keeps a list of the ties that are broken: one for each
selection with a candidate, and no others.
-/
namespace CellCollapse

/-- The undecided coordinates of lowest entropy, in the order of the space. -/
def Space.lowest {σ κ δ : Type} [CellState σ] {n : Nat} (space : Space κ δ n) (cells : Vector σ n) :
    List κ :=
  (space.undecided cells).filter fun c =>
    (space.undecided cells).all fun d => decide (space.entropyAt cells c ≤ space.entropyAt cells d)

namespace Engine

variable {σ κ δ ρ : Type} {n : Nat}

/-- The engine that notes, for every tie that it breaks, the number of candidates. -/
def tallied (e : Engine σ κ δ ρ n) : Engine σ κ δ (ρ × List Nat) n where
  space := e.space
  rule :=
    { offsets := e.rule.offsets
      collapse := fun s ns x => (e.rule.collapse s ns x.1).note x.2
      observe := fun s ns x => (e.rule.observe s ns x.1).note x.2 }
  pick m x := ((e.pick m x.1).1, (e.pick m x.1).2, x.2 ++ [m + 1])

theorem tallied_extends (e : Engine σ κ δ ρ n) : e.tallied.Extends Prod.fst e :=
  ⟨rfl, rfl, fun _ _ _ => rfl, fun _ _ _ => rfl, fun _ _ => rfl⟩

theorem filter_min?_eq {w : κ → Int} (cs : List κ) :
    cs.filter (fun c => some (w c) == (cs.map w).min?) =
      cs.filter fun c => cs.all fun d => decide (w c ≤ w d) := by
  apply List.filter_congr
  intro c hc
  rw [Bool.eq_iff_iff, beq_iff_eq, eq_comm, List.min?_eq_some_iff, List.all_eq_true]
  simp only [List.mem_map, forall_exists_index, and_imp, forall_apply_eq_imp_iff₂,
    decide_eq_true_eq]
  exact ⟨fun h => h.2, fun h => ⟨⟨c, hc, rfl⟩, h⟩⟩

variable [CellState σ]

theorem readings_eq {space : Space κ δ n} {cells : Vector σ n} {cs : List κ}
    (readable : ∀ c ∈ cs, ∃ i, space.slot c = .ok i) :
    readings space cells cs = (cs.map fun c => (c, space.entropyAt cells c), none) := by
  induction cs with
  | nil => rfl
  | cons c cs ih =>
    obtain ⟨i, hi⟩ := readable c List.mem_cons_self
    have rest := ih fun d hd => readable d (List.mem_cons_of_mem _ hd)
    simp only [readings, Space.get_eq_ok hi, rest, List.map_cons, Space.entropyAt_eq hi]

theorem undecided_eq {space : Space κ δ n} {cells : Vector σ n} (cs : List κ) :
    undecided (cs.map fun c => (c, space.entropyAt cells c)) =
      (cs.filter fun c => space.entropyAt cells c != 0).map
        fun c => (c, space.entropyAt cells c) := by
  rw [undecided, List.filter_map]
  rfl

theorem lowest_eq {space : Space κ δ n} {cells : Vector σ n} {cs us : List κ}
    (found : (cs.filter fun c => space.entropyAt cells c != 0) = us) :
    lowest (cs.map fun c => (c, space.entropyAt cells c)) =
      us.filter fun c => us.all fun d =>
        decide (space.entropyAt cells c ≤ space.entropyAt cells d) := by
  have least : least? (cs.map fun c => (c, space.entropyAt cells c)) =
      (us.map (space.entropyAt cells)).min? := by
    rw [least?, undecided_eq, found, List.map_map]
    rfl
  rw [← filter_min?_eq, lowest, least, undecided_eq, found, List.filter_map, List.map_map]
  exact List.map_id' _

/-- All undecided coordinates of the space are unresolved, and in the same order. -/
def Complete (e : Engine σ κ δ ρ n) (r : Run σ κ ρ n) : Prop :=
  r.unresolved.filter (e.isOpen r.cells) = e.space.coordinates.filter (e.isOpen r.cells)

theorem filter_of_filter {p q : κ → Bool} {cs ds : List κ} (implies : ∀ c, q c = true → p c = true)
    (h : cs.filter p = ds.filter p) : cs.filter q = ds.filter q := by
  have twice : ∀ es : List κ, es.filter q = (es.filter p).filter q := by
    intro es
    rw [List.filter_filter]
    apply List.filter_congr
    intro c _
    cases hq : q c with
    | false => rfl
    | true => simp [implies c hq]
  rw [twice cs, h, ← twice ds]

theorem Move.complete {e : Engine σ κ δ ρ n} {r r' : Run σ κ ρ n} (move : e.Move r (.running r'))
    (complete : e.Complete r) : e.Complete r' := by
  -- A cell that is open afterwards was open before, so nothing has to come back into the list.
  apply filter_of_filter fun _ => move.isOpen_before
  cases move with
  | skip | react => exact complete
  | observe =>
    change (r.unresolved.filter (e.isOpen r.cells)).filter (e.isOpen r.cells) = _
    rw [List.filter_filter]
    simp only [Bool.and_self]
    exact complete

/-- What a selection comes to when all unresolved coordinates can be read and are complete. -/
theorem select_eq {e : Engine σ κ δ ρ n} {r : Run σ κ ρ n}
    (readable : ∀ c ∈ r.unresolved, ∃ i, e.space.slot c = .ok i)
    (found : r.unresolved.filter (e.isOpen r.cells) = e.space.undecided r.cells) :
    e.select r = match e.space.lowest r.cells with
      | [] => ({ r with candidates := [], unresolved := e.space.undecided r.cells }, .ok none)
      | c :: cs =>
        let (j, x) := e.pick cs.length r.context
        ({ r with candidates := c :: cs, unresolved := e.space.undecided r.cells, context := x },
          .ok (if e.space.nowhere ((c :: cs).get j) then none else some ((c :: cs).get j))) := by
  have same : (r.unresolved.filter fun c => e.space.entropyAt r.cells c != 0) =
      e.space.undecided r.cells := by
    rw [← found]
    apply List.filter_congr
    intro c hc
    obtain ⟨i, hi⟩ := readable c hc
    rw [isOpen, Space.entropyAt_eq hi, Space.get_eq_ok hi]
  have left : (undecided (r.unresolved.map fun c => (c, e.space.entropyAt r.cells c))).map
      Prod.fst = e.space.undecided r.cells := by
    rw [undecided_eq, same, List.map_map]
    exact List.map_id' _
  have least : lowest (r.unresolved.map fun c => (c, e.space.entropyAt r.cells c)) =
      e.space.lowest r.cells := lowest_eq same
  have read : readings e.space r.cells r.unresolved =
      (r.unresolved.map fun c => (c, e.space.entropyAt r.cells c), none) := readings_eq readable
  have scanned := select_of_readings (congrArg Prod.snd read)
  rw [read, left, least] at scanned
  exact scanned

theorem observeAt_tallied (e : Engine σ κ δ ρ n) (c : κ) (r : Run σ κ (ρ × List Nat) n) :
    (e.tallied.observeAt c r).run.context.2 = r.context.2 := by
  simp only [observeAt]
  split
  · rename_i looked
    obtain ⟨_, _, _, rfl, _⟩ := lookAround_error looked
    rfl
  · rename_i looked
    obtain ⟨_, _, _, rfl⟩ := lookAround_ok looked
    cases e.tallied.space.slot c with
    | error f => rfl
    | ok i =>
      dsimp only
      split
      · rfl
      · split <;> rfl

/-- The number of candidates of the tie that a step has to break, if there is one. -/
def ties (e : Engine σ κ δ ρ n) : Outcome σ κ ρ n → List Nat
  | .running r =>
    match r.queue, e.space.lowest r.cells with
    | [], c :: cs => [(c :: cs).length]
    | _, _ => []
  | _ => []

variable [BEq κ] {e : Engine σ κ δ ρ n} {cells : Vector σ n} {context : ρ}

theorem complete_moment (listed : e.space.Listed) (nonneg : ∀ s : σ, 0 ≤ CellState.entropy s)
    {k : Nat} {r : Run σ κ ρ n} (h : e.moment cells context k = .running r) : e.Complete r := by
  refine moment_induction e.Complete ?_ ?_ h
  · intro r₀ start
    obtain ⟨_, rfl⟩ := start_running listed nonneg start
    change (e.space.coordinates.filter (e.isOpen cells)).filter (e.isOpen cells) = _
    rw [List.filter_filter]
    simp only [Bool.and_self]
    rfl
  · intro j q q' _ complete move
    exact move.complete complete

theorem select_moment (listed : e.space.Listed) (nonneg : ∀ s : σ, 0 ≤ CellState.entropy s)
    {k : Nat} {r : Run σ κ ρ n} (h : e.moment cells context k = .running r) :
    e.select r = match e.space.lowest r.cells with
      | [] => ({ r with candidates := [], unresolved := e.space.undecided r.cells }, .ok none)
      | c :: cs =>
        let (j, x) := e.pick cs.length r.context
        ({ r with candidates := c :: cs, unresolved := e.space.undecided r.cells, context := x },
          .ok (some ((c :: cs).get j))) := by
  have kept := kept_moment listed nonneg h
  have found : r.unresolved.filter (e.isOpen r.cells) = e.space.undecided r.cells :=
    (complete_moment listed nonneg h).trans (filter_isOpen_eq_undecided nonneg e r.cells)
  have readable : ∀ c ∈ r.unresolved, ∃ i, e.space.slot c = .ok i := by
    intro c hc
    exact kept.readable c (kept.listed c hc)
  rw [select_eq readable found]
  cases hlow : e.space.lowest r.cells with
  | nil => rfl
  | cons c cs =>
    have named : ∀ d ∈ c :: cs, e.space.nowhere d = false := by
      intro d hd
      rw [← hlow] at hd
      exact listed.named d (List.mem_filter.1 (List.mem_filter.1 hd).1).1
    simp only [named _ (List.get_mem _ _), Bool.false_eq_true, if_false]

theorem step_tallied (listed : e.space.Listed) (nonneg : ∀ s : σ, 0 ≤ CellState.entropy s) {k : Nat}
    {r : Run σ κ (ρ × List Nat) n} {context : ρ × List Nat}
    (h : e.tallied.moment cells context k = .running r) :
    (e.tallied.step r).run.context.2 = r.context.2 ++ e.tallied.ties (.running r) := by
  cases hqueue : r.queue with
  | cons c rest =>
    -- As long as a cell is queued, the step asks the rule about it and breaks no tie.
    have consults := (e.tallied.step_move r).consults
    simp only [ties, hqueue, List.append_nil]
    generalize (e.tallied.step r).run.context = x at consults
    cases consults with
    | nothing | collapse => rfl
    | pick _ idle => cases idle.symm.trans hqueue
    | observe _ asks kind => cases (asks.idle.1 kind).symm.trans hqueue
  | nil =>
    have selected := select_moment (e := e.tallied) listed nonneg h
    simp only [step, ties, hqueue, selected]
    cases e.tallied.space.lowest r.cells with
    | nil => simp [Outcome.run]
    | cons c cs =>
      rw [observeAt_tallied]
      rfl

theorem tallied_moment (listed : e.space.Listed) (nonneg : ∀ s : σ, 0 ≤ CellState.entropy s)
    (k : Nat) : (e.tallied.moment cells (context, []) k).run.context.2 =
      (List.range k).flatMap fun j => e.ties (e.moment cells context j) := by
  induction k with
  | zero =>
    rw [moment, start_context]
    rfl
  | succ k ih =>
    have same := e.tallied_extends.moment cells (context, []) k
    rw [List.range_succ, List.flatMap_append, ← ih, List.flatMap_singleton]
    rw [moment]
    change e.moment cells context k = _ at same
    cases ho : e.tallied.moment cells (context, []) k with
    | running r =>
      rw [ho] at same
      rw [same]
      exact step_tallied listed nonneg ho
    | finished r =>
      rw [ho] at same
      rw [same]
      exact (List.append_nil _).symm
    | failed r f =>
      rw [ho] at same
      rw [same]
      exact (List.append_nil _).symm

/-- A selection goes by the whole space, though it looks only at what is unresolved. -/
theorem select_lowest_of_space (e : Engine σ κ δ ρ n) (listed : e.space.Listed)
    (nonneg : ∀ s : σ, 0 ≤ CellState.entropy s) (cells : Vector σ n) (context : ρ) :
    (∀ k r, e.moment cells context k = .running r → r.queue = [] →
      ∃ r' choice, e.select r = (r', .ok choice) ∧ r'.cells = r.cells ∧
        r'.unresolved = e.space.undecided r.cells ∧ r'.candidates = e.space.lowest r.cells ∧
        (choice = none ↔ r'.candidates = []) ∧ (choice = none → r'.context = r.context) ∧
        ∀ c, choice = some c → ∃ m, r'.candidates.length = m + 1 ∧
          r'.candidates[(e.pick m r.context).1.val]? = some c ∧
          r'.context = (e.pick m r.context).2) ∧
      ∀ k, (e.tallied.moment cells (context, []) k).mapContext Prod.fst =
          e.moment cells context k ∧
        (e.tallied.moment cells (context, []) k).run.context.2 =
          (List.range k).flatMap fun j => e.ties (e.moment cells context j) := by
  refine ⟨?_, ?_⟩
  · intro k r h _
    rw [select_moment listed nonneg h]
    cases e.space.lowest r.cells with
    | nil => exact ⟨_, _, rfl, rfl, rfl, rfl, by simp, fun _ => rfl, by simp⟩
    | cons c cs =>
      refine ⟨_, _, rfl, rfl, rfl, rfl, by simp, by simp, ?_⟩
      intro d hd
      obtain rfl := Option.some.inj hd
      exact ⟨cs.length, rfl, by simp, rfl⟩
  · intro k
    exact ⟨(e.tallied_extends.moment cells (context, []) k).symm, tallied_moment listed nonneg k⟩

/-- Three cells without neighbors, not listed by number. -/
def scattered : Space Nat Nat 3 where
  coordinates := [2, 0, 1]
  slot c := if h : c < 3 then .ok ⟨c, h⟩ else .error .noRoom
  neighbors _ ds := ⟨ds.map fun _ => none, none⟩
  nowhere _ := false

/-- A rule that shrinks nothing and observes the first value of a cell. -/
def firstValue : Rule (Possibilities Nat) Nat Unit where
  offsets := []
  collapse s ns x := ⟨s, ns, x, none⟩
  observe s ns x := ⟨(s.toList.head?).elim s .only, ns, x, none⟩

-- The cells 0 and 2 have two values each, cell 1 has three; the last candidate is taken.
theorem select_lowest_of_space_scattered :
    scattered.Listed ∧ ∃ r r', moment ⟨scattered, firstValue, fun m x => (.last m, x)⟩
        #v[.ofList [1, 2], .ofList [3, 4, 5], .ofList [6, 7]] () 3 = .running r ∧
      select ⟨scattered, firstValue, fun m x => (.last m, x)⟩ r = (r', .ok (some 0)) ∧
      r'.unresolved = [2, 0, 1] ∧ r'.candidates = [2, 0] := by
  have listed : scattered.Listed := ⟨by decide, by decide⟩
  obtain ⟨r, reached, idle, remaining, low⟩ : ∃ r,
      moment ⟨scattered, firstValue, fun m x => (.last m, x)⟩
        #v[.ofList [1, 2], .ofList [3, 4, 5], .ofList [6, 7]] () 3 = .running r ∧ r.queue = [] ∧
      scattered.undecided r.cells = [2, 0, 1] ∧ scattered.lowest r.cells = [2, 0] :=
    ⟨_, rfl, rfl, rfl, rfl⟩
  obtain ⟨r', choice, selected, _, unresolved, candidates, none_iff, _, chosen⟩ :=
    (select_lowest_of_space ⟨scattered, firstValue, fun m x => (.last m, x)⟩ listed
      Possibilities.entropy_nonneg #v[.ofList [1, 2], .ofList [3, 4, 5], .ofList [6, 7]] ()).1
      3 r reached idle
  rw [remaining] at unresolved
  rw [low] at candidates
  refine ⟨listed, r, r', reached, ?_, unresolved, candidates⟩
  rw [candidates] at none_iff chosen
  cases choice with
  | none => simp at none_iff
  | some c =>
    obtain ⟨m, length, at_last, _⟩ := chosen c rfl
    obtain rfl : 1 = m := Nat.succ.inj length
    cases at_last
    exact selected

end Engine

end CellCollapse
