import CellCollapse.Proofs.Engine.Scan

set_option autoImplicit false

/-!
# Moves of an engine

`Engine.Move` lists everything that a step of a run can do: a decided cell leaves the queue, an
undecided one reacts or is observed, the run finishes, or it fails through the space, through the
rule, or because an observation left its cell undecided. `Engine.step_move` is the only place where
the step function is taken apart; what a run keeps is shown move by move.
-/
namespace CellCollapse

/-- A call to a rule: what it was asked about. -/
structure Call (σ : Type) where
  observes : Bool
  cell : σ
  snapshots : List (Option σ)

namespace Engine

variable {σ κ δ ρ : Type} {n : Nat}

/-- What keeps an engine from looking around at `c`, with a buffer for the neighbors. -/
inductive Blocked (e : Engine σ κ δ ρ n) (buffer : List (Option κ)) (c : κ) (f : Fault) : Prop where
  | slot (h : e.space.slot c = .error f)
  | neighbors (h : (e.space.neighbors c e.rule.offsets).fault = some f)
  | view (sound : (e.space.neighbors c e.rule.offsets).fault = none)
      (h : e.space.Unreadable f
        (((e.space.neighbors c e.rule.offsets).overwrite buffer).filterMap id))

/-- What the buffers hold after a look around that met no fault. -/
structure Looked (e : Engine σ κ δ ρ n) (r : Run σ κ ρ n) (c : κ) (around : List (Option κ))
    (views : List (Option σ)) : Prop where
  sound : (e.space.neighbors c e.rule.offsets).fault = none
  around_eq : around = (e.space.neighbors c e.rule.offsets).overwrite r.neighbors
  readable : (snapshotsOf e.space r.cells around).fault = none
  views_eq : views = (snapshotsOf e.space r.cells around).overwrite r.snapshots

theorem Looked.length_around {e : Engine σ κ δ ρ n} {r : Run σ κ ρ n} {c : κ}
    {around : List (Option κ)} {views : List (Option σ)} (h : e.Looked r c around views) :
    around.length = r.neighbors.length := by
  rw [h.around_eq, Lookup.length_overwrite]

theorem Looked.length_views {e : Engine σ κ δ ρ n} {r : Run σ κ ρ n} {c : κ}
    {around : List (Option κ)} {views : List (Option σ)} (h : e.Looked r c around views) :
    views.length = r.snapshots.length := by
  rw [h.views_eq, Lookup.length_overwrite]

theorem snapshotsOf_fault {space : Space κ δ n} {cells : Vector σ n} {ns : List (Option κ)}
    {f : Fault} (h : (snapshotsOf space cells ns).fault = some f) :
    space.Unreadable f (ns.filterMap id) := by
  induction ns with
  | nil => simp [snapshotsOf, Lookup.done] at h
  | cons o ns ih =>
    cases o with
    | none => exact ih h
    | some c =>
      simp only [snapshotsOf] at h
      cases hc : space.get cells c with
      | error g =>
        simp only [hc, Lookup.stop, Option.some.injEq] at h
        exact h ▸ .head (Space.get_eq_error hc)
      | ok s =>
        simp only [hc] at h
        obtain ⟨i, hi, _⟩ := (space.get_eq_ok_iff cells c s).1 hc
        exact .tail hi (ih h)

/-- Snapshots that could all be taken are the states at the coordinates. -/
theorem snapshotsOf_found {space : Space κ δ n} {cells : Vector σ n} {ns : List (Option κ)}
    (h : (snapshotsOf space cells ns).fault = none) :
    (snapshotsOf space cells ns).found =
      ns.map fun o => o.bind fun c => (space.get cells c).toOption := by
  induction ns with
  | nil => rfl
  | cons o ns ih =>
    cases o with
    | none => simpa [snapshotsOf, Lookup.cons] using ih h
    | some c =>
      simp only [snapshotsOf] at h ⊢
      cases hc : space.get cells c with
      | error g => simp [hc, Lookup.stop] at h
      | ok s =>
        simp only [hc] at h
        simpa [Lookup.cons, hc, Except.toOption] using ih h

theorem lookAround_ok {e : Engine σ κ δ ρ n} {c : κ} {r r' : Run σ κ ρ n}
    (h : e.lookAround c r = (r', none)) : ∃ around views, e.Looked r c around views ∧
      r' = { r with neighbors := around, snapshots := views } := by
  simp only [lookAround] at h
  cases hf : (e.space.neighbors c e.rule.offsets).fault with
  | some f => simp [hf] at h
  | none =>
    simp only [hf, Prod.mk.injEq] at h
    exact ⟨_, _, ⟨hf, rfl, h.2, rfl⟩, h.1.symm⟩

theorem lookAround_error {e : Engine σ κ δ ρ n} {c : κ} {r r' : Run σ κ ρ n} {f : Fault}
    (h : e.lookAround c r = (r', some f)) : e.Blocked r.neighbors c f ∧ ∃ around views,
      r' = { r with neighbors := around, snapshots := views } ∧
        around.length = r.neighbors.length ∧ views.length = r.snapshots.length := by
  simp only [lookAround] at h
  cases hf : (e.space.neighbors c e.rule.offsets).fault with
  | some g =>
    simp only [hf, Prod.mk.injEq, Option.some.injEq] at h
    exact ⟨.neighbors (h.2 ▸ hf), _, r.snapshots, h.1.symm, Lookup.length_overwrite _ _, rfl⟩
  | none =>
    simp only [hf, Prod.mk.injEq] at h
    exact ⟨.view hf (snapshotsOf_fault h.2), _, _, h.1.symm, Lookup.length_overwrite _ _,
      Lookup.length_overwrite _ _⟩

variable [CellState σ]

theorem isOpen_iff (e : Engine σ κ δ ρ n) (cells : Vector σ n) (c : κ) :
    e.isOpen cells c = true ↔
      ∃ i, e.space.slot c = .ok i ∧ CellState.entropy (cells.get i) ≠ 0 := by
  unfold isOpen Space.get
  cases e.space.slot c with
  | error f => simp [Except.map]
  | ok i => simp [Except.map]

/-- A selection reads all unresolved coordinates and keeps the undecided ones. It chooses one of
them, unless there is none or the choice stands for no cell. -/
theorem select_ok {e : Engine σ κ δ ρ n} {r r' : Run σ κ ρ n} {choice : Option κ}
    (h : e.select r = (r', .ok choice)) :
    (∃ candidates x, r' = { r with
        candidates := candidates
        unresolved := r.unresolved.filter (e.isOpen r.cells)
        context := x } ∧ (choice = none ∧ x = r.context ∨ ∃ m, x = (e.pick m r.context).2)) ∧
      (∀ c, choice = some c → c ∈ r.unresolved ∧ e.isOpen r.cells c = true) ∧
      (choice = none → (∀ c ∈ r.unresolved, e.isOpen r.cells c = false) ∨
        ∃ c ∈ r.unresolved, e.space.nowhere c = true) := by
  cases hf : (readings e.space r.cells r.unresolved).2 with
  | some f => simp [select_of_fault hf] at h
  | none =>
    have hopen : (undecided (readings e.space r.cells r.unresolved).1).map Prod.fst =
        r.unresolved.filter (e.isOpen r.cells) := by
      apply map_filter_readings hf (fun k => k != 0)
      intro c i hi
      rw [isOpen, Space.get_eq_ok hi]
    rw [select_of_readings hf, hopen] at h
    cases hl : lowest (readings e.space r.cells r.unresolved).1 with
    | nil =>
      simp only [hl, Prod.mk.injEq, Except.ok.injEq] at h
      obtain ⟨rfl, rfl⟩ := h
      refine ⟨⟨_, _, rfl, .inl ⟨rfl, rfl⟩⟩, by simp, fun _ => .inl ?_⟩
      rw [undecided_eq_nil_of_lowest hl, List.map_nil] at hopen
      intro c hc
      exact Bool.eq_false_iff.2 (List.filter_eq_nil_iff.1 hopen.symm c hc)
    | cons c cs =>
      have hmem : ∀ d ∈ c :: cs, d ∈ r.unresolved ∧ e.isOpen r.cells d = true := by
        intro d hd
        rw [← hl] at hd
        have := lowest_subset _ d hd
        rwa [hopen, List.mem_filter] at this
      have hchosen := hmem _ (List.get_mem (c :: cs) (e.pick cs.length r.context).1)
      simp only [hl, Prod.mk.injEq, Except.ok.injEq] at h
      obtain ⟨rfl, rfl⟩ := h
      refine ⟨⟨_, _, rfl, .inr ⟨_, rfl⟩⟩, ?_, ?_⟩
      · intro d hd
        split at hd
        · cases hd
        · cases hd
          exact hchosen
      · intro hnone
        split at hnone
        · rename_i hnowhere
          exact .inr ⟨_, hchosen.1, hnowhere⟩
        · cases hnone

/-- Only the space can make a selection fail, and then all unresolved coordinates are kept. -/
theorem select_error {e : Engine σ κ δ ρ n} {r r' : Run σ κ ρ n} {failure : Failure κ}
    (h : e.select r = (r', .error failure)) : ∃ f, failure = .raised f ∧
      e.space.Unreadable f r.unresolved ∧
      ∃ candidates, r' = { r with candidates := candidates } := by
  cases hf : (readings e.space r.cells r.unresolved).2 with
  | some f =>
    simp only [select_of_fault hf, Prod.mk.injEq, Except.error.injEq] at h
    exact ⟨f, h.2.symm, readings_error hf, _, h.1.symm⟩
  | none =>
    rw [select_of_readings hf] at h
    split at h <;> cases h

/-- The run after the cell in slot `i` reacted. -/
def reacted (e : Engine σ κ δ ρ n) (r : Run σ κ ρ n) (rest : List κ) (i : Fin n)
    (around : List (Option κ)) (reply : Reply σ ρ) : Run σ κ ρ n :=
  { r with
    cells := r.cells.set i.val reply.cell i.isLt
    context := reply.context
    queue := rest ++
      if CellState.entropy reply.cell < CellState.entropy (r.cells.get i) then
        (around.filterMap id).filter (e.isOpen (r.cells.set i.val reply.cell i.isLt))
      else []
    neighbors := around
    snapshots := reply.snapshots
    propagations := r.propagations + 1 }

/-- The run after the cell in slot `i`, at coordinate `c`, was observed. -/
def observed (e : Engine σ κ δ ρ n) (r : Run σ κ ρ n) (candidates : List κ) (c : κ) (i : Fin n)
    (around : List (Option κ)) (reply : Reply σ ρ) : Run σ κ ρ n where
  cells := r.cells.set i.val reply.cell i.isLt
  context := reply.context
  queue := around.filterMap id
  unresolved := r.unresolved.filter (e.isOpen r.cells)
  candidates := candidates
  neighbors := around
  snapshots := reply.snapshots
  observations := r.observations + 1
  propagations := r.propagations
  events := r.events ++ [.observed c]

/-- The coordinate that the step after `r` turns to. -/
def next? (e : Engine σ κ δ ρ n) (r : Run σ κ ρ n) : Option κ :=
  match r.queue with
  | c :: _ => some c
  | [] => (e.select r).2.toOption.join

/-- What a call in the step after `r` can be about. -/
structure Asks (e : Engine σ κ δ ρ n) (r : Run σ κ ρ n) (c : κ) (i : Fin n) (call : Call σ) :
    Prop where
  slot : e.space.slot c = .ok i
  undecided : CellState.entropy (r.cells.get i) ≠ 0
  cell : call.cell = r.cells.get i
  looked : ∃ around, e.Looked r c around call.snapshots
  idle : call.observes = true ↔ r.queue = []
  named : c ∈ r.queue ∨ c ∈ r.unresolved
  next : e.next? r = some c

/-- What a call in the step after `r` is answered. An observation comes after a selection. -/
def answer (e : Engine σ κ δ ρ n) (r : Run σ κ ρ n) (call : Call σ) : Reply σ ρ :=
  if call.observes then e.rule.observe call.cell call.snapshots (e.select r).1.context
  else e.rule.collapse call.cell call.snapshots r.context

/-- What keeps the step after `r` from a call: an unresolved coordinate without a cell when it
selects, or a look around the coordinate that it turns to. -/
inductive Stuck (e : Engine σ κ δ ρ n) (r : Run σ κ ρ n) (f : Fault) : Prop where
  | scan (idle : r.queue = []) (h : e.space.Unreadable f r.unresolved)
  | look {c : κ} (next : e.next? r = some c) (blocked : e.Blocked r.neighbors c f)

/-- The step after `r` meets a fault: it gets stuck, or its call is answered with the fault. -/
inductive Meets (e : Engine σ κ δ ρ n) (r : Run σ κ ρ n) (f : Fault) : Prop where
  | stuck (h : e.Stuck r f)
  | call {c : κ} {i : Fin n} {call : Call σ} (asks : e.Asks r c i call)
      (fault : (e.answer r call).fault = some f)

/-- What becomes of the context in the step after `r`. -/
inductive Consults (e : Engine σ κ δ ρ n) (r : Run σ κ ρ n) : ρ → Prop where
  | nothing : Consults e r r.context
  | collapse {c : κ} {i : Fin n} {call : Call σ} (busy : r.queue ≠ []) (asks : e.Asks r c i call)
      (kind : call.observes = false) :
      Consults e r (e.rule.collapse call.cell call.snapshots r.context).context
  | pick (m : Nat) (idle : r.queue = []) : Consults e r (e.pick m r.context).2
  | observe (m : Nat) {c : κ} {i : Fin n} {call : Call σ} (asks : e.Asks r c i call)
      (kind : call.observes = true) :
      Consults e r (e.rule.observe call.cell call.snapshots (e.pick m r.context).2).context

/-- What a failed step leaves behind of the buffers and of what was still to be done. -/
structure Leaves (r r' : Run σ κ ρ n) : Prop where
  queue : ∀ c ∈ r'.queue, c ∈ r.queue
  unresolved : ∀ c ∈ r'.unresolved, c ∈ r.unresolved
  neighbors : r'.neighbors.length = r.neighbors.length

inductive Move (e : Engine σ κ δ ρ n) (r : Run σ κ ρ n) : Outcome σ κ ρ n → Prop where
  | skip {c : κ} {rest : List κ} {i : Fin n} (queued : r.queue = c :: rest)
      (slot : e.space.slot c = .ok i) (decided : CellState.entropy (r.cells.get i) = 0) :
      Move e r (.running { r with queue := rest })
  | react {c : κ} {rest : List κ} {i : Fin n} {around : List (Option κ)} {views : List (Option σ)}
      {reply : Reply σ ρ} (queued : r.queue = c :: rest) (slot : e.space.slot c = .ok i)
      (undecided : CellState.entropy (r.cells.get i) ≠ 0) (looked : e.Looked r c around views)
      (asked : e.rule.collapse (r.cells.get i) views r.context = reply)
      (calm : reply.fault = none) : Move e r (.running (e.reacted r rest i around reply))
  | observe {c : κ} {i : Fin n} {around : List (Option κ)} {views : List (Option σ)}
      {reply : Reply σ ρ} {candidates : List κ} {x : ρ} (idle : r.queue = [])
      (listed : c ∈ r.unresolved) (slot : e.space.slot c = .ok i)
      (undecided : CellState.entropy (r.cells.get i) ≠ 0) (looked : e.Looked r c around views)
      (asked : e.rule.observe (r.cells.get i) views x = reply) (calm : reply.fault = none)
      (settled : CellState.entropy reply.cell = 0) (consults : e.Consults r reply.context) :
      Move e r (.running (e.observed r candidates c i around reply))
  | finish {candidates : List κ} {x : ρ} (idle : r.queue = [])
      (done : (∀ c ∈ r.unresolved, e.isOpen r.cells c = false) ∨
        ∃ c ∈ r.unresolved, e.space.nowhere c = true) (consults : e.Consults r x) :
      Move e r (.finished { r with
        candidates := candidates
        unresolved := r.unresolved.filter (e.isOpen r.cells)
        context := x
        events := r.events ++ [.finished r.observations r.propagations] })
  | raise {r' : Run σ κ ρ n} {f : Fault} (stuck : e.Stuck r f) (kept : r'.cells = r.cells)
      (count : r'.observations = r.observations)
      (consults : e.Consults r r'.context) (leaves : Leaves r r')
      (views : r'.snapshots.length = r.snapshots.length) : Move e r (.failed r' (.raised f))
  | refuse {r' : Run σ κ ρ n} {f : Fault} {c : κ} {i : Fin n} {call : Call σ}
      (asks : e.Asks r c i call) (fault : (e.answer r call).fault = some f)
      (changed : r'.cells = r.cells.set i.val (e.answer r call).cell i.isLt)
      (count : r'.observations = r.observations)
      (consults : e.Consults r r'.context) (leaves : Leaves r r')
      (handed : r'.snapshots = (e.answer r call).snapshots) : Move e r (.failed r' (.raised f))
  | balk {r' : Run σ κ ρ n} {c : κ} {i : Fin n} {call : Call σ} (asks : e.Asks r c i call)
      (kind : call.observes = true) (calm : (e.answer r call).fault = none)
      (unsettled : CellState.entropy (e.answer r call).cell ≠ 0)
      (changed : r'.cells = r.cells.set i.val (e.answer r call).cell i.isLt)
      (count : r'.observations = r.observations + 1) (consults : e.Consults r r'.context) :
      Move e r (.failed r' (.unsettled c (CellState.entropy (e.answer r call).cell)))

theorem Asks.answer_observe {e : Engine σ κ δ ρ n} {r : Run σ κ ρ n} {c : κ} {i : Fin n}
    {call : Call σ} (asks : e.Asks r c i call) (kind : call.observes = true) : e.answer r call =
      e.rule.observe (r.cells.get i) call.snapshots (e.select r).1.context := by
  rw [answer, if_pos kind, asks.cell]

theorem Asks.answer_collapse {e : Engine σ κ δ ρ n} {r : Run σ κ ρ n} {c : κ} {i : Fin n}
    {call : Call σ} (asks : e.Asks r c i call) (kind : ¬ call.observes = true) : e.answer r call =
      e.rule.collapse (r.cells.get i) call.snapshots r.context := by
  rw [answer, if_neg kind, asks.cell]

/-- A call is answered by a collapse or an observation of the present cell. -/
theorem Asks.answer_cases {e : Engine σ κ δ ρ n} {r : Run σ κ ρ n} {c : κ} {i : Fin n}
    {call : Call σ} (asks : e.Asks r c i call) :
    ∃ x, e.rule.collapse (r.cells.get i) call.snapshots x = e.answer r call ∨
      e.rule.observe (r.cells.get i) call.snapshots x = e.answer r call := by
  by_cases kind : call.observes = true
  · exact ⟨_, .inr (asks.answer_observe kind).symm⟩
  · exact ⟨_, .inl (asks.answer_collapse kind).symm⟩

/-- The step turns to a coordinate that is queued or unresolved. -/
theorem mem_of_next? {e : Engine σ κ δ ρ n} {r : Run σ κ ρ n} {c : κ} (next : e.next? r = some c) :
    c ∈ r.queue ∨ c ∈ r.unresolved := by
  unfold next? at next
  split at next
  · rename_i queued
    rw [queued]
    cases next
    exact .inl List.mem_cons_self
  · cases hselect : e.select r with
    | mk r' choice =>
      rw [hselect] at next
      match choice with
      | .error f => cases next
      | .ok none => cases next
      | .ok (some d) =>
        cases next
        exact .inr ((select_ok hselect).2.1 c rfl).1

theorem Stuck.site {e : Engine σ κ δ ρ n} {r : Run σ κ ρ n} {f : Fault} (stuck : e.Stuck r f) :
    ∃ c, (c ∈ r.queue ∨ c ∈ r.unresolved) ∧ e.Blocked r.neighbors c f := by
  cases stuck with
  | scan _ h =>
    obtain ⟨c, mem, missing⟩ := h.exists_missing
    exact ⟨c, .inr mem, .slot missing⟩
  | look next blocked => exact ⟨_, mem_of_next? next, blocked⟩

theorem propagateAt_move (e : Engine σ κ δ ρ n) {c : κ} {rest : List κ} {r : Run σ κ ρ n}
    (queued : r.queue = c :: rest) : e.Move r (e.propagateAt c { r with queue := rest }) := by
  have named : c ∈ r.queue ∨ c ∈ r.unresolved := .inl (by simp [queued])
  have next : e.next? r = some c := by simp [next?, queued]
  have shorter : ∀ d ∈ rest, d ∈ r.queue := fun d hd => by simp [queued, hd]
  simp only [propagateAt]
  cases hs : e.space.slot c with
  | error f =>
    exact .raise (.look next (.slot hs)) rfl rfl .nothing ⟨shorter, fun _ => id, rfl⟩ rfl
  | ok i =>
    dsimp only
    split
    · rename_i decided
      exact .skip queued hs decided
    · rename_i undecided
      cases hl : e.lookAround c { r with queue := rest } with
      | mk r' fault =>
        cases fault with
        | some f =>
          obtain ⟨blocked, around, views, rfl, haround, hviews⟩ := lookAround_error hl
          exact .raise (.look next blocked) rfl rfl .nothing ⟨shorter, fun _ => id, haround⟩
            hviews
        | none =>
          obtain ⟨around, views, looked, rfl⟩ := lookAround_ok hl
          have looked : e.Looked r c around views :=
            ⟨looked.sound, looked.around_eq, looked.readable, looked.views_eq⟩
          have asks : e.Asks r c i ⟨false, r.cells.get i, views⟩ :=
            ⟨hs, undecided, rfl, ⟨around, looked⟩, by simp [queued], named, next⟩
          dsimp only [adopt]
          cases hf : (e.rule.collapse (r.cells.get i) views r.context).fault with
          | some f =>
            exact .refuse asks hf rfl rfl (.collapse (by simp [queued]) asks rfl)
              ⟨shorter, fun _ => id, looked.length_around⟩ rfl
          | none =>
            have move := Move.react queued hs undecided looked rfl hf
            simp only [reacted] at move
            dsimp only
            split
            · rename_i shrunk
              simpa only [shrunk, if_true] using move
            · rename_i same
              simpa only [same, if_false, List.append_nil] using move

theorem observeAt_move {e : Engine σ κ δ ρ n} {c : κ} {r r' : Run σ κ ρ n} (idle : r.queue = [])
    (chosen : e.select r = (r', .ok (some c))) : e.Move r (e.observeAt c r') := by
  have next : e.next? r = some c := by simp [next?, idle, chosen, Except.toOption]
  obtain ⟨⟨candidates, x, rfl, drawn⟩, hsome, _⟩ := select_ok chosen
  obtain ⟨m, rfl⟩ := drawn.resolve_left (by simp)
  obtain ⟨listed, hopen⟩ := hsome c rfl
  obtain ⟨i, hs, undecided⟩ := (e.isOpen_iff r.cells c).1 hopen
  have pending : ∀ d ∈ r.unresolved.filter (e.isOpen r.cells), d ∈ r.unresolved :=
    fun d hd => (List.mem_filter.1 hd).1
  simp only [observeAt]
  split
  · rename_i hl
    obtain ⟨blocked, around, views, rfl, haround, hviews⟩ := lookAround_error hl
    exact .raise (.look next blocked) rfl rfl (.pick m idle) ⟨by simp, pending, haround⟩ hviews
  · rename_i hl
    obtain ⟨around, views, looked, rfl⟩ := lookAround_ok hl
    have looked : e.Looked r c around views :=
      ⟨looked.sound, looked.around_eq, looked.readable, looked.views_eq⟩
    have asks : e.Asks r c i ⟨true, r.cells.get i, views⟩ :=
      ⟨hs, undecided, rfl, ⟨around, looked⟩, by simp [idle], .inr listed, next⟩
    have answered : e.answer r ⟨true, r.cells.get i, views⟩ =
        e.rule.observe (r.cells.get i) views (e.pick m r.context).2 := by
      simp [answer, chosen]
    simp only [hs, adopt]
    cases hf : (e.rule.observe (r.cells.get i) views (e.pick m r.context).2).fault with
    | some f =>
      rw [← answered] at hf
      exact .refuse asks hf (by rw [answered]) rfl (.observe m asks rfl)
        ⟨by simp, pending, looked.length_around⟩ (by rw [answered])
    | none =>
      dsimp only
      split
      · rename_i settled
        exact .observe idle listed hs undecided looked rfl hf settled (.observe m asks rfl)
      · rename_i unsettled
        rw [← answered] at hf unsettled ⊢
        exact .balk asks rfl hf unsettled rfl rfl (by rw [answered]; exact .observe m asks rfl)

theorem step_move (e : Engine σ κ δ ρ n) (r : Run σ κ ρ n) : e.Move r (e.step r) := by
  unfold step
  split
  · rename_i c rest queued
    exact e.propagateAt_move queued
  · rename_i idle
    split
    · rename_i chosen
      obtain ⟨f, rfl, stop, candidates, rfl⟩ := select_error chosen
      exact .raise (.scan idle stop) rfl rfl .nothing ⟨fun _ => id, fun _ => id, rfl⟩ rfl
    · rename_i chosen
      obtain ⟨⟨candidates, x, rfl, drawn⟩, _, done⟩ := select_ok chosen
      refine .finish idle (done rfl) ?_
      rcases drawn with ⟨_, rfl⟩ | ⟨m, rfl⟩
      · exact .nothing
      · exact .pick m idle
    · rename_i chosen
      exact observeAt_move idle chosen

theorem Move.consults {e : Engine σ κ δ ρ n} {r : Run σ κ ρ n} {o : Outcome σ κ ρ n}
    (move : e.Move r o) : e.Consults r o.run.context := by
  cases move with
  | skip => exact .nothing
  | @react c rest i around views reply queued slot undecided looked asked =>
    subst asked
    have asks : e.Asks r c i ⟨false, r.cells.get i, views⟩ :=
      ⟨slot, undecided, rfl, ⟨around, looked⟩, by simp [queued], .inl (by simp [queued]),
        by simp [next?, queued]⟩
    exact .collapse (by simp [queued]) asks rfl
  | observe _ _ _ _ _ _ _ _ consults => exact consults
  | finish _ _ consults => exact consults
  | raise _ _ _ consults => exact consults
  | refuse _ _ _ _ consults => exact consults
  | balk _ _ _ _ _ _ consults => exact consults

/-- A move leaves the cells as they are, or puts what a call left of an undecided cell in its
place. -/
theorem Move.cells_eq_or_set {e : Engine σ κ δ ρ n} {r : Run σ κ ρ n} {o : Outcome σ κ ρ n}
    (move : e.Move r o) : o.run.cells = r.cells ∨ ∃ i views x reply,
      CellState.entropy (r.cells.get i) ≠ 0 ∧
        (e.rule.collapse (r.cells.get i) views x = reply ∨
          e.rule.observe (r.cells.get i) views x = reply) ∧
        o.run.cells = r.cells.set i.val reply.cell i.isLt := by
  cases move with
  | skip | finish => exact .inl rfl
  | raise _ kept _ => exact .inl kept
  | react _ _ undecided _ asked => exact .inr ⟨_, _, _, _, undecided, .inl asked, rfl⟩
  | observe _ _ _ undecided _ asked => exact .inr ⟨_, _, _, _, undecided, .inr asked, rfl⟩
  | refuse asks _ changed =>
    obtain ⟨x, asked⟩ := asks.answer_cases
    exact .inr ⟨_, _, x, _, asks.undecided, asked, changed⟩
  | balk asks _ _ _ changed =>
    obtain ⟨x, asked⟩ := asks.answer_cases
    exact .inr ⟨_, _, x, _, asks.undecided, asked, changed⟩

/-- A move leaves decided cells as they are. -/
theorem Move.frozen {e : Engine σ κ δ ρ n} {r : Run σ κ ρ n} {o : Outcome σ κ ρ n}
    (move : e.Move r o) {i : Fin n} (decided : CellState.entropy (r.cells.get i) = 0) :
    o.run.cells.get i = r.cells.get i := by
  rcases move.cells_eq_or_set with same | ⟨j, _, _, _, undecided, _, changed⟩
  · rw [same]
  · rw [changed, get_set, if_neg]
    rintro rfl
    exact undecided decided

theorem Move.observations_le {e : Engine σ κ δ ρ n} {r : Run σ κ ρ n} {o : Outcome σ κ ρ n}
    (move : e.Move r o) : r.observations ≤ o.run.observations := by
  cases move with
  | skip | react | finish => exact Nat.le_refl _
  | observe => exact Nat.le_succ _
  | raise _ _ count => exact Nat.le_of_eq count.symm
  | refuse _ _ _ count => exact Nat.le_of_eq count.symm
  | balk _ _ _ _ _ count => exact count.symm ▸ Nat.le_succ _

theorem Move.observations_eq {e : Engine σ κ δ ρ n} {r r' : Run σ κ ρ n} {c : κ} {rest : List κ}
    (move : e.Move r (.running r')) (queued : r.queue = c :: rest) :
    r'.observations = r.observations := by
  cases move with
  | skip | react => rfl
  | observe idle => cases idle.symm.trans queued

end Engine

end CellCollapse
