import CellCollapse.Proofs.Assoc
import CellCollapse.Proofs.Number.Sum
import CellCollapse.Proofs.Rule.Choice

set_option autoImplicit false

/-!
# When every cell can be observed

A choice by weight needs weights of a finite sum, and a table is only asked for weights above zero.
So an observation may be refused. It never is if the sum of all weights of the table is finite: the
weights of a slate are among these, apart from the ones of unknown values, which do not take a
finite sum to infinity. If that sum is not finite, the cell that holds all values of the table
cannot be observed.
-/
namespace CellCollapse

namespace Chooser

open Binary64

/-- A choice is made if the sum of the weights is finite, and is refused otherwise. -/
structure Decides {ρ : Type} (choose : Chooser ρ) : Prop where
  chooses : ∀ w ws x, (total w ws).isFinite = true → ∃ i y, choose w ws x = (.ok i, y)
  refuses : ∀ w ws x, (total w ws).isFinite = false →
    ∃ f y, choose w ws x = (.error f, y) ∧ f.kind = .value

theorem decides_weighted {ρ : Type} (draw : ρ → Float × ρ) : (weighted draw).Decides where
  chooses w ws x finite := by
    simp only [weighted, finite, if_true]
    exact ⟨_, _, rfl⟩
  refuses w ws x infinite := by
    simp only [weighted, infinite, Bool.false_eq_true, if_false]
    exact ⟨_, _, rfl, rfl⟩

/-- The count of a sum of weights. -/
def totalCount (ws : List Binary64) : Nat := (ws.map count).foldl plus 0

theorem counts_foldl {ws : List Binary64} (positive : ∀ w ∈ ws, w.isPositive = true) {sum : Float}
    {a : Nat} (h : Counts sum.toModel.unpack a) :
    Counts (ws.foldl (fun sum v => sum + v.toFloat) sum).toModel.unpack
      ((ws.map count).foldl plus a) := by
  induction ws generalizing sum a with
  | nil => exact h
  | cons w ws ih =>
    obtain ⟨first, rest⟩ := List.forall_mem_cons.1 positive
    exact ih rest (counts_add h (counts_toFloat first))

theorem isFinite_total_iff {w : Binary64} {ws : List Binary64}
    (positive : ∀ v ∈ w :: ws, v.isPositive = true) :
    (total w ws).isFinite = true ↔ totalCount (w :: ws) < limit := by
  obtain ⟨first, rest⟩ := List.forall_mem_cons.1 positive
  have start := counts_toFloat first
  have counts := counts_foldl rest start
  rw [totalCount, List.map_cons, List.foldl_cons, zero_plus start.exact]
  exact isFinite_iff counts

theorem totalCount_mono {vs ws : List Binary64} (part : vs.Sublist ws) :
    totalCount vs ≤ totalCount ws :=
  foldl_plus_le (part.map count) exact_zero

theorem totalCount_append_lt {ws vs : List Binary64} (small : totalCount ws < limit)
    (ones : ∀ v ∈ vs, v = .one) : totalCount (ws ++ vs) < limit := by
  rw [totalCount, List.map_append, List.foldl_append]
  refine foldl_plus_lt_limit ?_ (exact_foldl_plus _ exact_zero) small
  intro u hu
  obtain ⟨v, hv, rfl⟩ := List.mem_map.1 hu
  rw [ones v hv, count_one]

theorem limit_le_totalCount {ws : List Binary64} {w : Binary64} (hw : w ∈ ws)
    (infinite : w.isInfinite = true) : limit ≤ totalCount ws := by
  have alone : totalCount [w] = limit := by
    simp [totalCount, count_of_isInfinite infinite, zero_plus exact_limit]
  rw [← alone]
  exact totalCount_mono (List.singleton_sublist.2 hw)

end Chooser

namespace Table

variable {α δ ρ : Type} [BEq α]

/-- Whether the weights of the table have a finite sum, taken in the order of the table. -/
def finiteTotal (t : Table α δ) : Bool :=
  match t.entries.map Entry.weight with
  | [] => true
  | w :: ws => (Chooser.total w ws).isFinite

theorem finiteTotal_iff (t : Table α δ) :
    t.finiteTotal = true ↔ Chooser.totalCount (t.entries.map Entry.weight) < Binary64.limit := by
  have positive : ∀ w ∈ t.entries.map Entry.weight, w.isPositive = true := by
    intro w hw
    obtain ⟨e, he, rfl⟩ := List.mem_map.1 hw
    exact t.positive e he
  unfold finiteTotal
  split
  · rename_i empty
    rw [empty]
    exact ⟨fun _ => pow_pos Nat.two_pos 2098, fun _ => rfl⟩
  · rename_i w ws hweights
    rw [hweights] at positive ⊢
    exact Chooser.isFinite_total_iff positive

theorem weightOr_isPositive (t : Table α δ) (v : α) : (t.weightOr v).isPositive = true := by
  unfold weightOr
  cases he : t.entry? v with
  | none =>
    change Binary64.isPositive .one = true
    decide
  | some e => exact t.positive e (List.mem_of_find?_eq_some he)

variable [EquivBEq α]

theorem entry?_of_mem (t : Table α δ) {e : Entry α} (h : e ∈ t.entries) :
    t.entry? e.value = some e :=
  find?_beq_of_mem t.distinct h

theorem map_weightOr_values (t : Table α δ) :
    t.values.map t.weightOr = t.entries.map Entry.weight := by
  rw [values, List.map_map]
  refine List.map_congr_left fun e he => ?_
  simp only [Function.comp_apply, weightOr, t.entry?_of_mem he]
  rfl

variable [AsValue α]

/-- A slate has a finite sum if the table has. -/
theorem Slate.isFinite_total {t : Table α δ} {cell : Possibilities α}
    {ns : List (Option (Possibilities α))} {v : α} {vs : List α} (slate : t.Slate cell ns (v :: vs))
    (finite : t.finiteTotal = true) :
    (Chooser.total (t.weightOr v) (vs.map t.weightOr)).isFinite = true := by
  obtain ⟨known, unknown, hsplit, part, outside, _⟩ := slate.ordered
  have positive : ∀ w ∈ (v :: vs).map t.weightOr, w.isPositive = true := by
    intro w hw
    obtain ⟨u, _, rfl⟩ := List.mem_map.1 hw
    exact t.weightOr_isPositive u
  refine (Chooser.isFinite_total_iff positive).2 ?_
  change Chooser.totalCount ((v :: vs).map t.weightOr) < _
  rw [hsplit, List.map_append]
  apply Chooser.totalCount_append_lt
  · have part := part.map t.weightOr
    rw [map_weightOr_values] at part
    exact (Chooser.totalCount_mono part).trans_lt (t.finiteTotal_iff.1 finite)
  · intro w hw
    obtain ⟨u, hu, rfl⟩ := List.mem_map.1 hw
    have unknown := (outside u hu).2
    rw [knows, Option.isSome_eq_false_iff, Option.isNone_iff_eq_none] at unknown
    rw [weightOr, unknown]
    rfl

/-- Beside no neighbors, the values of the table are all to choose from. -/
theorem options_ofList_values (t : Table α δ) :
    t.options (.ofList t.values) (List.replicate t.offsets.length none) = t.values := by
  have listed := Possibilities.toList_ofList t.pairwise_values
  have held : t.values.filter (Possibilities.ofList t.values).contains = t.values := by
    refine List.filter_eq_self.2 fun v hv => Possibilities.contains_of_mem ?_
    rwa [listed]
  have unknown : (t.values.filter fun v => !t.knows v) = [] := by
    rw [List.filter_eq_nil_iff]
    intro v hv
    obtain ⟨e, he, rfl⟩ := List.mem_map.1 hv
    simp [knows, t.entry?_of_mem he]
  have candidates : t.candidates (.ofList t.values) = t.values := by
    simp [candidates, listed, held, unknown, sortWritten]
  have kept : t.values.filter (t.keeps (List.replicate t.offsets.length none)) = t.values := by
    refine List.filter_eq_self.2 fun v _ => ?_
    rw [t.keeps_iff v (by simp)]
    intro k s hs
    simp [List.getElem?_replicate] at hs
  rw [options, candidates, kept]
  split
  · rfl
  · rename_i hvalues
    exact hvalues.symm

variable {t : Table α δ} {cell : Possibilities α} {ns : List (Option (Possibilities α))}
  {choose : Chooser ρ}

theorem observe_of_total (decides : choose.Decides) (room : ns.length = t.offsets.length) {v : α}
    {vs : List α} (hoptions : t.options cell ns = v :: vs) (x : ρ) :
    ((Chooser.total (t.weightOr v) (vs.map t.weightOr)).isFinite = true →
      ∃ u y, cell.contains u = true ∧ t.observe choose cell ns x = ⟨.only u, ns, y, none⟩) ∧
    ((Chooser.total (t.weightOr v) (vs.map t.weightOr)).isFinite = false →
      ∃ f y, f.kind = .value ∧ t.observe choose cell ns x = ⟨cell, ns, y, some f⟩) := by
  have sound := fun u (_ : cell.contains u = true) => t.exists_admits room.le u
  constructor
  · intro finite
    obtain ⟨i, y, hchoose⟩ := decides.chooses _ _ x finite
    have listed : (v :: vs).get (i.cast (by simp)) ∈ t.options cell ns := by
      rw [hoptions]
      exact List.get_mem _ _
    exact ⟨_, y, contains_of_mem_options listed, (observe_of_choice sound hoptions).2 i hchoose⟩
  · intro infinite
    obtain ⟨f, y, hchoose, kind⟩ := decides.refuses _ _ x infinite
    exact ⟨f, y, kind, (observe_of_choice sound hoptions).1 f hchoose⟩

/-- If the sum is not finite, the values of the table make a cell that cannot be observed. -/
theorem observe_ofList_values (decides : choose.Decides) (infinite : t.finiteTotal = false)
    (x : ρ) :
    (Possibilities.ofList t.values).toList ≠ [] ∧ ∃ f y,
      t.observe choose (.ofList t.values) (List.replicate t.offsets.length none) x =
        ⟨.ofList t.values, List.replicate t.offsets.length none, y, some f⟩ := by
  have weights := t.map_weightOr_values
  have hoptions := t.options_ofList_values
  unfold finiteTotal at infinite
  rw [Possibilities.toList_ofList t.pairwise_values]
  cases hvalues : t.values with
  | nil =>
    rw [hvalues] at weights
    rw [← weights] at infinite
    cases infinite
  | cons v vs =>
    refine ⟨List.cons_ne_nil v vs, ?_⟩
    rw [hvalues] at weights hoptions
    rw [← weights] at infinite
    obtain ⟨f, y, _, refused⟩ :=
      (observe_of_total decides List.length_replicate hoptions x).2 infinite
    exact ⟨f, y, refused⟩

theorem observe_of_fault_eq_some (decides : choose.Decides) (room : ns.length = t.offsets.length)
    {x : ρ} {f : Fault} (fault : (t.observe choose cell ns x).fault = some f) :
    f.kind = .value ∧ (t.observe choose cell ns x).cell = cell := by
  cases hoptions : t.options cell ns with
  | nil => simp [observe, t.firstFault?_eq_none room.le, hoptions] at fault
  | cons v vs =>
    obtain ⟨settles, refuses⟩ := observe_of_total decides room hoptions x
    cases htotal : (Chooser.total (t.weightOr v) (vs.map t.weightOr)).isFinite with
    | true =>
      obtain ⟨u, y, _, settled⟩ := settles htotal
      rw [settled] at fault
      cases fault
    | false =>
      obtain ⟨g, y, kind, refused⟩ := refuses htotal
      rw [refused] at fault ⊢
      cases fault
      exact ⟨kind, rfl⟩

/-- Every cell with values can be observed if and only if the sum of all weights of the table is
finite, which it is not for a table with an infinite weight. An observation that is refused leaves
its cell as it was. -/
theorem observe_settles_iff (t : Table α δ) {choose : Chooser ρ} (decides : choose.Decides)
    (x : ρ) :
    ((∀ cell ns, cell.toList ≠ [] → ns.length = t.offsets.length →
        ∃ v y, cell.contains v = true ∧ t.observe choose cell ns x = ⟨.only v, ns, y, none⟩) ↔
      t.finiteTotal = true) ∧
    (∀ cell ns f, ns.length = t.offsets.length → (t.observe choose cell ns x).fault = some f →
      f.kind = .value ∧ (t.observe choose cell ns x).cell = cell) ∧
    ((∃ e ∈ t.entries, e.weight.isInfinite = true) → t.finiteTotal = false) := by
  refine ⟨⟨?_, ?_⟩, ?_, ?_⟩
  · intro settles
    by_contra infinite
    obtain ⟨filled, f, z, refused⟩ :=
      observe_ofList_values decides (Bool.eq_false_iff.2 infinite) x
    obtain ⟨v, y, _, settled⟩ := settles _ _ filled List.length_replicate
    rw [settled] at refused
    cases congrArg Reply.fault refused
  · intro finite cell ns filled room
    obtain ⟨v, vs, hoptions⟩ := List.exists_cons_of_ne_nil (t.options_ne_nil filled ns)
    have slate : t.Slate cell ns (v :: vs) := hoptions ▸ t.slate_options cell ns
    exact (observe_of_total decides room hoptions x).1 (slate.isFinite_total finite)
  · intro cell ns f room fault
    exact observe_of_fault_eq_some decides room fault
  · rintro ⟨e, he, infinite⟩
    have large := Chooser.limit_le_totalCount (List.mem_map_of_mem he) infinite
    rw [Bool.eq_false_iff, ne_eq, finiteTotal_iff]
    exact Nat.not_lt.2 large

/-- The largest finite weight, and one more. -/
def brimful : Table Int Nat where
  offsets := [1]
  entries := [⟨0, [[1]], ⟨0x7FEFFFFFFFFFFFFF⟩⟩, ⟨1, [[0]], .one⟩]
  width := by decide
  distinct := by decide
  positive := by decide

theorem observe_settles_iff_brimful :
    let choose : Chooser Unit := .weighted fun x => (0.5, x)
    choose.Decides ∧ ∀ cell ns, cell.toList ≠ [] → ns.length = brimful.offsets.length → ∃ v y,
      cell.contains v = true ∧ brimful.observe choose cell ns () = ⟨.only v, ns, y, none⟩ := by
  intro choose
  have decides : choose.Decides := Chooser.decides_weighted _
  exact ⟨decides, (observe_settles_iff brimful decides ()).1.2 (by decide +kernel)⟩

/-- Two values, the first of infinite weight. -/
def boundless : Table Int Nat where
  offsets := []
  entries := [⟨0, [], ⟨0x7FF0000000000000⟩⟩, ⟨1, [], .one⟩]
  width := by decide
  distinct := by decide
  positive := by decide

-- The infinite weight is accepted, and then no value can be chosen.
theorem observe_boundless :
    Table.make [] (.ofList [(0, []), (1, [])]) (.ofList [(0, .float ⟨0x7FF0000000000000⟩ 0)]) =
        .ok boundless ∧
      ∀ draw : Unit → Float × Unit, boundless.observe (.weighted draw) (.ofList [0, 1]) [] () =
        ⟨.ofList [0, 1], [], (), some .totalNotFinite⟩ := by
  refine ⟨rfl, fun draw => ?_⟩
  have infinite : (Chooser.total ⟨0x7FF0000000000000⟩ [.one]).isFinite = false := by decide
  have refused : Chooser.weighted draw ⟨0x7FF0000000000000⟩ [.one] () =
      (.error .totalNotFinite, ()) := by
    simp [Chooser.weighted, infinite]
  exact (observe_of_choice (fun v _ => boundless.exists_admits (by decide) v)
    boundless.options_ofList_values).1 _ refused

end Table

end CellCollapse
