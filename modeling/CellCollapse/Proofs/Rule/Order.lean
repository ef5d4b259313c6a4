import CellCollapse.Proofs.Engine.Simulation
import CellCollapse.Proofs.Rule.Turn
import Mathlib

set_option autoImplicit false

/-!
# The order of values does not matter

Two runs of a table from cells that hold the same values in different orders stay that way, step by
step (`Table.collapse_ignores_order`), even if retained sets and snapshots come out in orders of
their own (`Table.Decides`). A collapse asks which values the neighbors have, and an
observation puts the values of its cell into an order of its own: known ones as the table has them,
unknown ones by their written form. So the unknown values of a cell must have different written
forms, which a run keeps because it brings no unknown value into a cell.
-/
namespace CellCollapse

/-- The same values, in whatever order. -/
def Possibilities.Reordered {α : Type} [BEq α] (s s' : Possibilities α) : Prop :=
  s.toList.Perm s'.toList

/-- The values in the opposite order. -/
def Possibilities.reversed {α : Type} [BEq α] [EquivBEq α] (s : Possibilities α) :
    Possibilities α :=
  ⟨s.toList.reverse, List.pairwise_reverse.2 (s.distinct.imp fun h => BEq.comm.trans h)⟩

theorem Possibilities.reordered_reversed {α : Type} [BEq α] [EquivBEq α] (s : Possibilities α) :
    s.Reordered s.reversed :=
  (List.reverse_perm s.toList).symm

/-- The same value with the same weight, and the same values allowed along each offset. -/
structure Entry.Relisted {α : Type} [BEq α] (e e' : Entry α) : Prop where
  value : e.value = e'.value
  weight : e.weight = e'.weight
  allowed : List.Forall₂ (fun row row' => ∀ v, row.any (· == v) = row'.any (· == v))
    e.allowed e'.allowed

structure Table.Relisted {α δ : Type} [BEq α] (t t' : Table α δ) : Prop where
  offsets : t.offsets = t'.offsets
  entries : List.Forall₂ Entry.Relisted t.entries t'.entries

theorem sortWritten_perm {α : Type} [AsValue α] {xs ys : List α} (perm : xs.Perm ys)
    (different : (xs.map written).Nodup) : sortWritten xs = sortWritten ys := by
  have permuted : (sortWritten xs).Perm (sortWritten ys) :=
    (List.mergeSort_perm xs _).trans (perm.trans (List.mergeSort_perm ys _).symm)
  refine permuted.eq_of_pairwise ?_ (Table.pairwise_sortWritten xs) (Table.pairwise_sortWritten ys)
  intro a b ha hb hab hba
  rw [String.not_lt] at hab hba
  refine List.inj_on_of_nodup_map different ?_ ?_ (String.le_antisymm hab hba)
  · exact Table.mem_sortWritten.1 ha
  · exact perm.mem_iff.2 (Table.mem_sortWritten.1 hb)

namespace Possibilities.Reordered

variable {α : Type} [BEq α] {s s' : Possibilities α}

theorem contains (reordered : s.Reordered s') : s.contains = s'.contains := by
  funext v
  exact List.Perm.any_eq reordered

theorem entropy (reordered : s.Reordered s') : CellState.entropy s' = CellState.entropy s := by
  rw [cellState_entropy, cellState_entropy, Possibilities.entropy, Possibilities.entropy, size,
    size, List.Perm.length_eq reordered]

theorem value? (reordered : s.Reordered s') : s.value? = s'.value? := by
  apply Option.ext
  intro v
  rw [value?_eq_some_iff, value?_eq_some_iff]
  constructor
  · intro single
    rw [Reordered, single] at reordered
    exact List.perm_singleton.1 reordered.symm
  · intro single
    rw [Reordered, single] at reordered
    exact List.perm_singleton.1 reordered

end Possibilities.Reordered

namespace Table

variable {α κ δ ρ : Type} [BEq α] {t t' : Table α δ}

namespace Relisted

theorem values (relisted : t.Relisted t') : t.values = t'.values := by
  have entries := relisted.entries
  unfold Table.values
  generalize t.entries = es at entries
  generalize t'.entries = es' at entries
  induction entries with
  | nil => rfl
  | cons first _ ih => rw [List.map_cons, List.map_cons, first.value, ih]

theorem entry? (relisted : t.Relisted t') (v : α) :
    Option.Rel Entry.Relisted (t.entry? v) (t'.entry? v) := by
  have entries := relisted.entries
  unfold Table.entry?
  generalize t.entries = es at entries
  generalize t'.entries = es' at entries
  induction entries with
  | nil => exact .none
  | @cons e e' _ _ first _ ih =>
    rw [List.find?_cons, List.find?_cons, ← first.value]
    cases e.value == v with
    | true => exact .some first
    | false => exact ih

theorem knows (relisted : t.Relisted t') : t.knows = t'.knows := by
  funext v
  have entry := relisted.entry? v
  rw [Table.knows, Table.knows]
  generalize t.entry? v = o at entry
  generalize t'.entry? v = o' at entry
  cases entry with
  | none => rfl
  | some _ => rfl

theorem weightOr (relisted : t.Relisted t') : t.weightOr = t'.weightOr := by
  funext v
  have entry := relisted.entry? v
  rw [Table.weightOr, Table.weightOr]
  generalize t.entry? v = o at entry
  generalize t'.entry? v = o' at entry
  cases entry with
  | none => rfl
  | some h => exact h.weight

theorem permits (relisted : t.Relisted t') (a : α) (k : Nat) (b : α) :
    t.permits a k b = t'.permits a k b := by
  have entry := relisted.entry? a
  rw [Table.permits, Table.permits]
  generalize t.entry? a = o at entry
  generalize t'.entry? a = o' at entry
  cases entry with
  | none => rfl
  | @some e e' h =>
    have rows := h.allowed
    dsimp only
    generalize e.allowed = rs at rows
    generalize e'.allowed = rs' at rows
    induction rows generalizing k with
    | nil => rfl
    | cons first _ ih =>
      cases k with
      | zero => exact first b
      | succ k => exact ih k

end Relisted

section Shuffled

variable [AsValue α] {s s' : Possibilities α} {ns ns' : List (Option (Possibilities α))}

/-- The same values in whatever order, of which the unknown ones can be told apart by their written
form. -/
structure Shuffled (t : Table α δ) (s s' : Possibilities α) : Prop where
  reordered : s.Reordered s'
  different : ((s.toList.filter fun v => !t.knows v).map written).Nodup

theorem Shuffled.filter (h : t.Shuffled s s') {keep keep' : α → Bool} (same : keep = keep') :
    t.Shuffled (s.filter keep) (s'.filter keep') := by
  subst same
  refine ⟨List.Perm.filter keep h.reordered, h.different.sublist ?_⟩
  exact ((List.filter_sublist).filter _).map _

theorem shuffled_only (t : Table α δ) (v : α) : t.Shuffled (.only v) (.only v) := by
  have part : (([v].filter fun w => !t.knows w).map written).Sublist [written v] :=
    List.filter_sublist.map written
  exact ⟨.refl _, (List.nodup_singleton _).sublist part⟩

/-- The candidates of an observation do not depend on the order of the cell. -/
theorem Relisted.candidates (relisted : t.Relisted t') (h : t.Shuffled s s') :
    t.candidates s = t'.candidates s' := by
  have unknown := sortWritten_perm (h.reordered.filter fun v => !t.knows v) h.different
  rw [Table.candidates, Table.candidates, unknown, relisted.values, h.reordered.contains,
    relisted.knows]

omit [AsValue α] in
theorem getElem?_related {R : Possibilities α → Possibilities α → Prop}
    (views : List.Forall₂ (Option.Rel R) ns ns') (k : Nat) :
    Option.Rel (Option.Rel R) ns[k]? ns'[k]? := by
  induction views generalizing k with
  | nil => exact .none
  | cons first _ ih =>
    cases k with
    | zero => exact .some first
    | succ k => exact ih k

theorem Relisted.backed_iff (relisted : t.Relisted t')
    (views : List.Forall₂ (Option.Rel t.Shuffled) ns ns') (v : α) :
    t.Backed v ns ↔ t'.Backed v ns' := by
  refine forall_congr' fun k => ?_
  have entry := getElem?_related views k
  generalize ns[k]? = o at entry
  generalize ns'[k]? = o' at entry
  cases entry with
  | none => simp
  | some present =>
    cases present with
    | none => simp
    | some h => simp [relisted.permits, h.reordered.mem_iff]

variable [EquivBEq α]

theorem Relisted.keeps (relisted : t.Relisted t')
    (views : List.Forall₂ (Option.Rel t.Shuffled) ns ns') (room : ns.length ≤ t.offsets.length) :
    t.keeps ns = t'.keeps ns' := by
  have room' : ns'.length ≤ t'.offsets.length := by
    rwa [← views.length_eq, ← relisted.offsets]
  funext v
  rw [Bool.eq_iff_iff, t.keeps_iff v room, t'.keeps_iff v room']
  exact relisted.backed_iff views v

theorem Relisted.options (relisted : t.Relisted t') (h : t.Shuffled s s')
    (views : List.Forall₂ (Option.Rel t.Shuffled) ns ns') (room : ns.length ≤ t.offsets.length) :
    t.options s ns = t'.options s' ns' := by
  rw [Table.options, Table.options, relisted.candidates h, relisted.keeps views room]

theorem Relisted.collapse (relisted : t.Relisted t') (h : t.Shuffled s s')
    (views : List.Forall₂ (Option.Rel t.Shuffled) ns ns') (room : ns.length ≤ t.offsets.length)
    (x : ρ) : (t.collapse s ns x).Resembles t.Shuffled (t'.collapse s' ns' x) := by
  have room' : ns'.length ≤ t'.offsets.length := by
    rwa [← views.length_eq, ← relisted.offsets]
  rw [t.collapse_eq s room, t'.collapse_eq s' room']
  exact ⟨h.filter (relisted.keeps views room), rfl, rfl⟩

/-- An observation with the weights by another name: the type of a choice mentions them, so they
cannot be exchanged later. -/
theorem observe_eq (t : Table α δ) (choose : Chooser ρ) (cell : Possibilities α)
    (room : ns.length ≤ t.offsets.length) (x : ρ) {weigh : α → Binary64}
    (h : t.weightOr = weigh) :
    t.observe choose cell ns x =
      match t.options cell ns with
      | [] => ⟨cell, ns, x, none⟩
      | v :: vs =>
        match choose (weigh v) (vs.map weigh) x with
        | (.error f, y) => ⟨cell, ns, y, some f⟩
        | (.ok i, y) => ⟨.only ((v :: vs).get (i.cast (by simp))), ns, y, none⟩ := by
  subst h
  rw [Table.observe, t.firstFault?_eq_none room]
  cases t.options cell ns with
  | nil => rfl
  | cons v vs =>
    dsimp only
    cases choose (t.weightOr v) (vs.map t.weightOr) x with
    | mk choice y => cases choice <;> rfl

theorem Relisted.observe (relisted : t.Relisted t') (choose : Chooser ρ) (h : t.Shuffled s s')
    (views : List.Forall₂ (Option.Rel t.Shuffled) ns ns') (room : ns.length ≤ t.offsets.length)
    (x : ρ) : (t.observe choose s ns x).Resembles t.Shuffled (t'.observe choose s' ns' x) := by
  have room' : ns'.length ≤ t'.offsets.length := by
    rwa [← views.length_eq, ← relisted.offsets]
  rw [t.observe_eq choose s room x relisted.weightOr, t'.observe_eq choose s' room' x rfl,
    relisted.options h views room]
  cases t'.options s' ns' with
  | nil => exact ⟨h, rfl, rfl⟩
  | cons v vs =>
    dsimp only
    split
    · exact ⟨h, rfl, rfl⟩
    · exact ⟨t.shuffled_only _, rfl, rfl⟩

end Shuffled

variable [AsValue α]

/-- The rule decides as the table does. The sets that it looks at may come to it in another order
than they have, and so may the set that it leaves. -/
structure Decides (t : Table α δ) (choose : Chooser ρ) (rule : Rule (Possibilities α) δ ρ) :
    Prop where
  offsets : rule.offsets = t.offsets
  tidy : rule.Tidy
  collapse : ∀ s ns x, ∃ ns', List.Forall₂ (Option.Rel Possibilities.Reordered) ns ns' ∧
    (t.collapse s ns' x).Resembles Possibilities.Reordered (rule.collapse s ns x)
  observe : ∀ s ns x, ∃ ns', List.Forall₂ (Option.Rel Possibilities.Reordered) ns ns' ∧
    (t.observe choose s ns' x).Resembles Possibilities.Reordered (rule.observe s ns x)

theorem decides_rule (t : Table α δ) (choose : Chooser ρ) : t.Decides choose (t.rule choose) := by
  have same : ∀ ns : List (Option (Possibilities α)),
      List.Forall₂ (Option.Rel Possibilities.Reordered) ns ns := by
    intro ns
    refine List.forall₂_same.2 fun o _ => ?_
    cases o with
    | none => exact .none
    | some s => exact .some (.refl _)
  exact ⟨rfl, (t.cellOnly_rule choose).tidy,
    fun s ns x => ⟨ns, same ns, .refl _, rfl, rfl⟩, fun s ns x => ⟨ns, same ns, .refl _, rfl, rfl⟩⟩

/-- The rule that hands its sets on in the opposite order, and leaves its cell so. -/
def backwards [EquivBEq α] (rule : Rule (Possibilities α) δ ρ) : Rule (Possibilities α) δ ρ where
  offsets := rule.offsets
  collapse s ns x :=
    let reply := rule.collapse s (ns.map (Option.map Possibilities.reversed)) x
    { reply with cell := reply.cell.reversed }
  observe s ns x :=
    let reply := rule.observe s (ns.map (Option.map Possibilities.reversed)) x
    { reply with cell := reply.cell.reversed }

theorem decides_backwards [EquivBEq α] (t : Table α δ) (choose : Chooser ρ) :
    t.Decides choose (backwards (t.rule choose)) := by
  have turned : ∀ ns : List (Option (Possibilities α)), List.Forall₂
      (Option.Rel Possibilities.Reordered) ns (ns.map (Option.map Possibilities.reversed)) := by
    intro ns
    refine List.forall₂_map_right_iff.2 (List.forall₂_same.2 fun o _ => ?_)
    cases o with
    | none => exact .none
    | some s => exact .some s.reordered_reversed
  refine ⟨rfl, ⟨?_, ?_⟩, ?_, ?_⟩
  · intro s ns x
    exact ((t.cellOnly_rule choose).tidy.collapse s _ x).trans (List.length_map _)
  · intro s ns x
    exact ((t.cellOnly_rule choose).tidy.observe s _ x).trans (List.length_map _)
  · exact fun s ns x => ⟨_, turned ns, Possibilities.reordered_reversed _, rfl, rfl⟩
  · exact fun s ns x => ⟨_, turned ns, Possibilities.reordered_reversed _, rfl, rfl⟩

theorem Shuffled.reorder {s₀ s s' s₁ : Possibilities α} (before : s.Reordered s₀)
    (h : t.Shuffled s s') (after : s'.Reordered s₁) : t.Shuffled s₀ s₁ := by
  refine ⟨before.symm.trans (h.reordered.trans after), ?_⟩
  exact ((before.filter _).map _).nodup_iff.1 h.different

theorem shuffled_views {ns ns₀ ns' ns₁ : List (Option (Possibilities α))}
    (before : List.Forall₂ (Option.Rel Possibilities.Reordered) ns ns₀)
    (views : List.Forall₂ (Option.Rel t.Shuffled) ns ns')
    (after : List.Forall₂ (Option.Rel Possibilities.Reordered) ns' ns₁) :
    List.Forall₂ (Option.Rel t.Shuffled) ns₀ ns₁ := by
  induction before generalizing ns' ns₁ with
  | nil =>
    cases views
    cases after
    exact .nil
  | cons first _ ih =>
    cases views with
    | cons view views =>
      cases after with
      | cons last after =>
        refine .cons ?_ (ih views after)
        cases first with
        | none =>
          cases view
          cases last
          exact .none
        | some first =>
          cases view with
          | some view =>
            cases last with
            | some last => exact .some (view.reorder first last)

theorem shuffled_reply {reply₀ reply reply' reply₁ : Reply (Possibilities α) ρ}
    (before : reply.Resembles Possibilities.Reordered reply₀)
    (h : reply.Resembles t.Shuffled reply')
    (after : reply'.Resembles Possibilities.Reordered reply₁) :
    reply₀.Resembles t.Shuffled reply₁ :=
  ⟨h.cell.reorder before.cell after.cell,
    before.context.symm.trans (h.context.trans after.context),
    before.fault.symm.trans (h.fault.trans after.fault)⟩

section Runs

variable [EquivBEq α] {n : Nat} {choose : Chooser ρ} {rule rule' : Rule (Possibilities α) δ ρ}

/-- Whatever orders the sets come in, what two rules decide are the same values. -/
theorem Relisted.resembles (relisted : t.Relisted t') (decides : t.Decides choose rule)
    (decides' : t'.Decides choose rule') (pick : TieBreak ρ) (space : Space κ δ n) :
    (Engine.mk space rule pick).Resembles t.Shuffled (Engine.mk space rule' pick) where
  space := rfl
  offsets := by rw [decides.offsets, decides'.offsets, relisted.offsets]
  pick := rfl
  entropy _ _ h := h.reordered.entropy
  collapse s s' ns ns' x h views length := by
    obtain ⟨ns₀, before, left⟩ := decides.collapse s ns x
    obtain ⟨ns₁, after, left'⟩ := decides'.collapse s' ns' x
    have room : ns₀.length ≤ t.offsets.length := by
      rw [← before.length_eq, length, decides.offsets]
    exact shuffled_reply left
      (relisted.collapse h (shuffled_views before views after) room x) left'
  observe s s' ns ns' x h views length := by
    obtain ⟨ns₀, before, left⟩ := decides.observe s ns x
    obtain ⟨ns₁, after, left'⟩ := decides'.observe s' ns' x
    have room : ns₀.length ≤ t.offsets.length := by
      rw [← before.length_eq, length, decides.offsets]
    exact shuffled_reply left
      (relisted.observe choose h (shuffled_views before views after) room x) left'

/-- The table may list its allowed values in another order too. The runs agree in everything but the
order of values, so in the coordinates and values observed and in what is drawn as well. -/
theorem collapse_ignores_order [BEq κ] (relisted : t.Relisted t')
    (decides : t.Decides choose rule) (decides' : t'.Decides choose rule') (pick : TieBreak ρ)
    (space : Space κ δ n) (cells cells' : Vector (Possibilities α) n)
    (reordered : ∀ i, (cells.get i).Reordered (cells'.get i))
    (different : ∀ i, (((cells.get i).toList.filter fun v => !t.knows v).map written).Nodup)
    (context : ρ) :
    (∀ k, ((Engine.mk space rule pick).moment cells context k).Resembles
        Possibilities.Reordered ((Engine.mk space rule' pick).moment cells' context k)) ∧
      ((Engine.mk space rule pick).collapse cells context).Resembles Possibilities.Reordered
        ((Engine.mk space rule' pick).collapse cells' context) ∧
      ∀ k i,
        (((Engine.mk space rule pick).moment cells context k).run.cells.get i).value? =
          (((Engine.mk space rule' pick).moment cells' context k).run.cells.get i).value? := by
  have alike := relisted.resembles decides decides' pick space
  have related : ∀ i, t.Shuffled (cells.get i) (cells'.get i) :=
    fun i => ⟨reordered i, different i⟩
  have moments := alike.moment decides.tidy decides'.tidy related context
  have forget : ∀ s s', t.Shuffled s s' → s.Reordered s' := fun _ _ h => h.reordered
  refine ⟨?_, ?_, ?_⟩
  · intro k
    exact (moments k).mono forget
  · exact (alike.collapse_like decides.tidy decides'.tidy related context).mono forget
  · intro k i
    exact ((moments k).run.cells i).reordered.value?

end Runs

/-- Two cells beside each other and a third one apart from them. -/
def pairAndOne : Space Nat Nat 3 where
  coordinates := [0, 1, 2]
  slot c := if h : c < 3 then .ok ⟨c, h⟩ else .error .noRoom
  neighbors c ds := ⟨ds.map fun d => if c < 2 then some ((c + d) % 2) else none, none⟩
  nowhere _ := false

/-- Two values, beside each of which the values of a row may stand. -/
def besideBoth (row : List Int) : Table Int Nat where
  offsets := [1]
  entries := [⟨0, [row], .one⟩, ⟨1, [row], .one⟩]
  width := by simp
  distinct := by simp
  positive := by
    have positive : Binary64.one.isPositive = true := by decide
    simp [positive]

/-- The last of the candidates is chosen, the unknown value of greatest written form. One run has
its sets as they are, the other one turns them round in every call. -/
theorem collapse_ignores_order_pairAndOne :
    let last : Chooser Unit := fun _ ws x => (.ok (Fin.last ws.length), x)
    let first : TieBreak Unit := fun _ x => (0, x)
    let e : Engine (Possibilities Int) Nat Nat Unit 3 :=
      ⟨pairAndOne, (besideBoth [0, 1]).rule last, first⟩
    let e' : Engine (Possibilities Int) Nat Nat Unit 3 :=
      ⟨pairAndOne, backwards ((besideBoth [1, 0]).rule last), first⟩
    let o := e.collapse #v[.ofList [0, 1], .ofList [0, 1], .ofList [5, 0, 7]] ()
    let o' := e'.collapse #v[.ofList [1, 0], .ofList [0, 1], .ofList [0, 7, 5]] ()
    o.Resembles Possibilities.Reordered o' ∧ (o.run.cells.get 2).value? = some 7 ∧
      (o'.run.cells.get 2).value? = some 7 := by
  intro last first e e' o o'
  have relisted : (besideBoth [0, 1]).Relisted (besideBoth [1, 0]) := by
    have same : ∀ v : Int, [0, 1].any (· == v) = [1, 0].any (· == v) := by
      intro v
      exact List.Perm.any_eq (.swap 1 0 [])
    exact ⟨rfl, .cons ⟨rfl, rfl, .cons same .nil⟩ (.cons ⟨rfl, rfl, .cons same .nil⟩ .nil)⟩
  have alike : o.Resembles Possibilities.Reordered o' :=
    (collapse_ignores_order relisted (decides_rule _ last) (decides_backwards _ last) first
      pairAndOne #v[.ofList [0, 1], .ofList [0, 1], .ofList [5, 0, 7]]
      #v[.ofList [1, 0], .ofList [0, 1], .ofList [0, 7, 5]]
      (by unfold Possibilities.Reordered; decide) (by decide +kernel) ()).2.1
  have seven : (o.run.cells.get 2).value? = some 7 := by
    subst o e last first
    cbv
  exact ⟨alike, seven, (alike.run.cells 2).value?.symm.trans seven⟩

end Table

end CellCollapse
