import CellCollapse.Proofs.Assoc
import CellCollapse.Proofs.Grid.Consistency
import CellCollapse.Proofs.Rule.Weight

set_option autoImplicit false

/-!
# What a symmetric table permits

A table made of adjacencies permits what one of them asserts, read forth along its own offset or
back along the opposite one (`Symmetric.table_ok`). The opposite offset is the first equal one in
the list. So the table says the same from both ends of an offset, but perhaps not in the same place
of the list, unless no offset is listed twice.
-/
namespace CellCollapse

namespace Table

variable {α δ : Type} [BEq α] {offsets : List δ} {t : Table α δ}
  {allowed : Assoc α (List (List α))} {weights : Assoc α Value}

theorem make_ok [AsValue α] (h : make offsets allowed weights = .ok t) :
    t.offsets = offsets ∧ t.entries.map (fun e => (e.value, e.allowed)) = allowed.pairs := by
  obtain ⟨hoffsets, weighed⟩ := make_entries h
  exact ⟨hoffsets, weighEntries_rows weighed⟩

theorem permits_of_rows (rows : t.entries.map (fun e => (e.value, e.allowed)) = allowed.pairs)
    (a : α) (k : Nat) (b : α) :
    t.permits a k b = (((allowed.get? a).getD []).getD k []).any (· == b) := by
  have hrow : allowed.get? a = (t.entry? a).map Entry.allowed := by
    rw [Assoc.get?, ← rows, List.find?_map, Option.map_map]
    rfl
  rw [permits, hrow]
  cases t.entry? a with
  | none => simp
  | some e => simp

end Table

namespace Symmetric

section Opposites

variable {offsets : List Delta}

/-- The number of the opposite offset, for each offset. -/
def opposite (offsets : List Delta) : List Nat := offsets.map fun D => offsets.idxOf (negate D)

theorem opposites_ok {ds : List Delta} {opp : List Nat} (h : opposites offsets ds = .ok opp) :
    opp = ds.map (fun D => offsets.idxOf (negate D)) ∧ ∀ D ∈ ds, negate D ∈ offsets := by
  induction ds generalizing opp with
  | nil =>
    cases h
    simp
  | cons D ds ih =>
    change (if offsets.contains (negate D) then
      (opposites offsets ds).map (offsets.idxOf (negate D) :: ·) else _) = _ at h
    split at h
    · rename_i found
      cases hrest : opposites offsets ds with
      | error f => simp [hrest, Except.map] at h
      | ok rest =>
        obtain ⟨rfl, closed⟩ := ih hrest
        simp only [hrest, Except.map, Except.ok.injEq] at h
        subst h
        refine ⟨rfl, ?_⟩
        intro E hE
        rcases List.mem_cons.1 hE with rfl | hE
        · simpa using found
        · exact closed E hE
    · cases h

theorem getD_opposite {i : Nat} (hi : i < offsets.length) :
    (opposite offsets).getD i 0 = offsets.idxOf (negate offsets[i]) := by
  simp [opposite, List.getElem?_eq_getElem hi]

theorem opposite_lt (closed : ∀ D ∈ offsets, negate D ∈ offsets) :
    ∀ i < (opposite offsets).length, (opposite offsets).getD i 0 < (opposite offsets).length := by
  intro i hi
  rw [opposite, List.length_map] at hi
  rw [getD_opposite hi, opposite, List.length_map]
  exact List.idxOf_lt_length_iff.2 (closed _ (List.getElem_mem hi))

theorem negate_negate (D : Delta) : negate (negate D) = D := by
  rw [negate, negate, List.map_map]
  exact List.map_id'' Int.neg_neg D

theorem getElem?_opposite (closed : ∀ D ∈ offsets, negate D ∈ offsets) {i : Nat} {D : Delta}
    (hi : offsets[i]? = some D) :
    offsets[(opposite offsets).getD i 0]? = some (negate D) := by
  obtain ⟨hlt, rfl⟩ := List.getElem?_eq_some_iff.1 hi
  have found := List.idxOf_lt_length_iff.2 (closed _ (List.getElem_mem hlt))
  rw [getD_opposite hlt, List.getElem?_eq_getElem found, List.getElem_idxOf]

/-- An offset is listed in one place only. -/
def OnlyAt (offsets : List Delta) (D : Delta) (i : Nat) : Prop := ∀ k, offsets[k]? = some D ↔ k = i

theorem onlyAt_of_nodup (nodup : offsets.Nodup) {i : Nat} {D : Delta} (hi : offsets[i]? = some D) :
    OnlyAt offsets D i := by
  intro k
  constructor
  · intro hk
    exact (List.getElem?_inj (List.getElem?_eq_some_iff.1 hk).1 nodup).1 (hk.trans hi.symm)
  · rintro rfl
    exact hi

end Opposites

variable {α : Type} [BEq α]

/-- The row of a value, which is blank before the value comes. -/
def row (opp : List Nat) (m : Assoc α (List (List α))) (a : α) : List (List α) :=
  (m.get? a).getD (opp.map fun _ => [])

/-- Whether `b` has been entered along the offset with number `k` from `a`. -/
def entered (opp : List Nat) (m : Assoc α (List (List α))) (a : α) (k : Nat) (b : α) : Bool :=
  ((row opp m a).getD k []).any (· == b)

def Wide (opp : List Nat) (m : Assoc α (List (List α))) : Prop :=
  ∀ a, (row opp m a).length = opp.length

/-- What an adjacency along the offset with number `i` asserts, forth and back. -/
def Asserts (opp : List Nat) (i : Nat) (s : Adjacency α) (a : α) (k : Nat) (b : α) : Prop :=
  (s.value == a) = true ∧ i = k ∧ (s.neighbor == b) = true ∨
    (s.neighbor == a) = true ∧ opp.getD i 0 = k ∧ (s.value == b) = true

theorem wide_empty (opp : List Nat) : Wide opp (.empty : Assoc α (List (List α))) := by
  intro a
  simp [row]

omit [BEq α] in
theorem getD_blank (opp : List Nat) (k : Nat) :
    (opp.map fun _ => ([] : List α)).getD k [] = [] := by
  rw [List.getD_eq_getElem?_getD, List.getElem?_map]
  cases opp[k]? <;> rfl

theorem entered_empty (opp : List Nat) (a : α) (k : Nat) (b : α) :
    entered opp .empty a k b = false := by
  simp only [entered, row, Assoc.get?_empty, Option.getD_none, getD_blank, List.any_nil]

theorem entered_eq (opp : List Nat) (m : Assoc α (List (List α))) (a : α) (k : Nat) (b : α) :
    entered opp m a k b = (((m.get? a).getD []).getD k []).any (· == b) := by
  cases hrow : m.get? a with
  | none => simp only [entered, row, hrow, Option.getD_none, getD_blank, List.getD_nil]
  | some rows => simp [entered, row, hrow]

theorem any_allowAt {rows : List (List α)} {i : Nat} (hi : i < rows.length) (v : α) (k : Nat)
    (b : α) : ((allowAt i v rows).getD k []).any (· == b) = true ↔
      (rows.getD k []).any (· == b) = true ∨ i = k ∧ (v == b) = true := by
  rw [allowAt, List.getD_eq_getElem?_getD, List.getElem?_modify, List.getD_eq_getElem?_getD]
  by_cases hik : i = k
  · subst hik
    simp [List.getElem?_eq_getElem hi]
  · simp [hik]

theorem place_lt {count i : Nat} {index : Value} (h : place count index = .ok i) : i < count := by
  unfold place at h
  split at h
  · split at h
    · cases h
      omega
    · cases h
  · split at h
    · cases h
    · split at h <;> cases h

/-- What an adjacency asserts along an offset it also asserts back along an opposite one. -/
theorem asserts_back {offsets : List Delta} (closed : ∀ D ∈ offsets, negate D ∈ offsets) {i k : Nat}
    {D : Delta} (hi : i < offsets.length) (hk : offsets[k]? = some D) {s : Adjacency α} {a b : α}
    (forth : Asserts (opposite offsets) i s a k b) :
    ∃ l, offsets[l]? = some (negate D) ∧ Asserts (opposite offsets) i s b l a := by
  rcases forth with ⟨ha, rfl, hb⟩ | ⟨ha, rfl, hb⟩
  · exact ⟨_, getElem?_opposite closed hk, .inr ⟨hb, rfl, ha⟩⟩
  · -- The way back leads to the place that the adjacency names, which need not be the first one.
    have named := List.getElem?_eq_getElem hi
    cases (getElem?_opposite closed named).symm.trans hk
    exact ⟨i, by rw [negate_negate, named], .inl ⟨hb, rfl, ha⟩⟩

variable [EquivBEq α] {opp : List Nat} {m m' : Assoc α (List (List α))}

theorem row_enter (opp : List Nat) (i : Nat) (a b : α) (m : Assoc α (List (List α))) (x : α) :
    row opp (enter opp i a b m) x =
      (if b == x then allowAt (opp.getD i 0) a else id)
        ((if a == x then allowAt i b else id) (row opp m x)) := by
  simp only [row, enter, Assoc.get?_modify, Assoc.get?_insertNew]
  cases m.get? x <;> cases a == x <;> cases b == x <;> simp

theorem Wide.enter (wide : Wide opp m) (i : Nat) (a b : α) : Wide opp (enter opp i a b m) := by
  intro x
  rw [row_enter]
  cases a == x <;> cases b == x <;> simp [allowAt, wide x]

/-- One adjacency adds what it asserts and nothing else. -/
theorem entered_enter (wide : Wide opp m) {i : Nat} (hi : i < opp.length)
    (hopp : opp.getD i 0 < opp.length) (s : Adjacency α) (a : α) (k : Nat) (b : α) :
    entered opp (enter opp i s.value s.neighbor m) a k b = true ↔
      entered opp m a k b = true ∨ Asserts opp i s a k b := by
  rw [← wide a] at hi hopp
  have back : ∀ v, opp.getD i 0 < (allowAt i v (row opp m a)).length := by
    intro v
    rwa [allowAt, List.length_modify]
  simp only [entered, Asserts, row_enter]
  -- A value that is its own neighbor is entered twice in one row.
  cases s.value == a with
  | false =>
    cases s.neighbor == a with
    | false => simp
    | true =>
      simp only [Bool.false_eq_true, if_true, if_false, id, any_allowAt hopp, false_and, false_or,
        true_and]
  | true =>
    cases s.neighbor == a with
    | false =>
      simp only [Bool.false_eq_true, if_true, if_false, id, any_allowAt hi, false_and, or_false,
        true_and]
    | true => simp only [if_true, any_allowAt (back _), any_allowAt hi, or_assoc, true_and]

omit [EquivBEq α] in
theorem place_of_enterAll {triples : List (Adjacency α)} (h : enterAll opp triples m = .ok m') :
    ∀ s ∈ triples, ∃ i, place opp.length s.index = .ok i := by
  induction triples generalizing m with
  | nil =>
    intro s hs
    cases hs
  | cons s triples ih =>
    simp only [enterAll] at h
    cases hplace : place opp.length s.index with
    | error f => simp [hplace] at h
    | ok i =>
      rw [hplace] at h
      intro s' hs'
      rcases List.mem_cons.1 hs' with rfl | hs'
      · exact ⟨i, hplace⟩
      · exact ih h s' hs'

theorem entered_enterAll (inside : ∀ i < opp.length, opp.getD i 0 < opp.length)
    {triples : List (Adjacency α)} (wide : Wide opp m) (h : enterAll opp triples m = .ok m')
    (a : α) (k : Nat) (b : α) :
    entered opp m' a k b = true ↔ entered opp m a k b = true ∨
      ∃ s ∈ triples, ∃ i, place opp.length s.index = .ok i ∧ Asserts opp i s a k b := by
  induction triples generalizing m with
  | nil =>
    cases h
    simp
  | cons s triples ih =>
    simp only [enterAll] at h
    cases hplace : place opp.length s.index with
    | error f => simp [hplace] at h
    | ok i =>
      rw [hplace] at h
      have hi := place_lt hplace
      rw [ih (wide.enter i s.value s.neighbor) h, entered_enter wide hi (inside i hi), or_assoc]
      simp [hplace]

variable [AsValue α] {offsets : List Delta} {triples : List (Adjacency α)}
  {weights : Assoc α Value} {t : Table α Delta}

theorem table_ok (h : table offsets triples weights = .ok t) :
    t.offsets = offsets ∧ (∀ D ∈ offsets, negate D ∈ offsets) ∧
      (∀ s ∈ triples, ∃ i, place offsets.length s.index = .ok i) ∧
      ∀ a k b, (t.permits a k b = true ↔ ∃ s ∈ triples, ∃ i,
        place offsets.length s.index = .ok i ∧ Asserts (opposite offsets) i s a k b) := by
  unfold table at h
  cases hopp : opposites offsets offsets with
  | error f =>
    rw [hopp] at h
    cases h
  | ok opp =>
    obtain ⟨hdef, closed⟩ := opposites_ok hopp
    rw [hopp, show opp = opposite offsets from hdef] at h
    cases hall : enterAll (opposite offsets) triples .empty with
    | error f =>
      simp only [bind, Except.bind, hall] at h
      cases h
    | ok allowed =>
      simp only [bind, Except.bind, hall] at h
      obtain ⟨hoffsets, rows⟩ := Table.make_ok h
      have placed := place_of_enterAll hall
      rw [opposite, List.length_map] at placed
      refine ⟨hoffsets, closed, placed, ?_⟩
      intro a k b
      rw [Table.permits_of_rows rows, ← entered_eq (opposite offsets),
        entered_enterAll (opposite_lt closed) (wide_empty _) hall, entered_empty]
      simp [opposite]

theorem permits_back (h : table offsets triples weights = .ok t) {k : Nat} {D : Delta}
    (hk : offsets[k]? = some D) {a b : α} (forth : t.permits a k b = true) :
    ∃ l, offsets[l]? = some (negate D) ∧ t.permits b l a = true := by
  obtain ⟨_, closed, _, permits⟩ := table_ok h
  obtain ⟨s, hs, i, hi, asserted⟩ := (permits a k b).1 forth
  obtain ⟨l, hl, back⟩ := asserts_back closed (place_lt hi) hk asserted
  exact ⟨l, hl, (permits b l a).2 ⟨s, hs, i, hi, back⟩⟩

theorem permits_eq_of_onlyAt (h : table offsets triples weights = .ok t) {k l : Nat} {D : Delta}
    (hk : OnlyAt offsets D k) (hl : OnlyAt offsets (negate D) l) (a b : α) :
    t.permits a k b = t.permits b l a := by
  rw [Bool.eq_iff_iff]
  constructor
  · intro forth
    obtain ⟨l', hl', back⟩ := permits_back h ((hk k).2 rfl) forth
    rwa [← (hl l').1 hl']
  · intro back
    obtain ⟨k', hk', forth⟩ := permits_back h ((hl l).2 rfl) back
    rw [negate_negate] at hk'
    rwa [← (hk k').1 hk']

theorem table_mirrored (nodup : offsets.Nodup) (h : table offsets triples weights = .ok t) :
    t.Mirrored := by
  obtain ⟨rfl, _⟩ := table_ok h
  intro k l D hk hl
  exact permits_eq_of_onlyAt h (onlyAt_of_nodup nodup hk) (onlyAt_of_nodup nodup hl)

/-- A symmetric table holds every adjacency and its converse, and says the same from both ends of an
offset. Where an offset and its opposite are listed once, it says so place by place. -/
theorem table_says_both_ways (h : table offsets triples weights = .ok t) :
    (∀ s ∈ triples, ∃ i D, place offsets.length s.index = .ok i ∧ offsets[i]? = some D ∧
      t.permits s.value i s.neighbor = true ∧
      t.permits s.neighbor (offsets.idxOf (negate D)) s.value = true) ∧
    (∀ D a b, (∃ i, offsets[i]? = some D ∧ t.permits a i b = true) ↔
      ∃ j, offsets[j]? = some (negate D) ∧ t.permits b j a = true) ∧
    ∀ D i, OnlyAt offsets D i → OnlyAt offsets (negate D) (offsets.idxOf (negate D)) →
      ∀ a b, t.permits a i b = t.permits b (offsets.idxOf (negate D)) a := by
  obtain ⟨_, closed, placed, permits⟩ := table_ok h
  refine ⟨?_, ?_, fun D i hi hj => permits_eq_of_onlyAt h hi hj⟩
  · intro s hs
    obtain ⟨i, hi⟩ := placed s hs
    have hlt := place_lt hi
    refine ⟨i, offsets[i], hi, List.getElem?_eq_getElem hlt, ?_, ?_⟩
    · exact (permits _ _ _).2 ⟨s, hs, i, hi, .inl ⟨BEq.rfl, rfl, BEq.rfl⟩⟩
    · exact (permits _ _ _).2 ⟨s, hs, i, hi, .inr ⟨BEq.rfl, getD_opposite hlt, BEq.rfl⟩⟩
  · intro D a b
    constructor
    · rintro ⟨i, hi, forth⟩
      exact permits_back h hi forth
    · rintro ⟨j, hj, back⟩
      obtain ⟨i, hi, forth⟩ := permits_back h hj back
      rw [negate_negate] at hi
      exact ⟨i, hi, forth⟩

-- A one may stand to the right of a zero, so a zero may stand to the left of a one.
theorem table_says_both_ways_chain :
    ∃ t, table [[-1], [1]] [⟨(0 : Int), .int 1, 1⟩] .empty = .ok t ∧
      t.permits 0 1 1 = true ∧ t.permits 1 0 0 = true ∧
      ∀ a b, t.permits a 1 b = t.permits b 0 a := by
  obtain ⟨t, built⟩ : ∃ t, table [[-1], [1]] [⟨(0 : Int), .int 1, 1⟩] .empty = .ok t := by
    with_unfolding_all exact ⟨_, rfl⟩
  obtain ⟨holds, _, placewise⟩ := table_says_both_ways built
  have nodup : ([[-1], [1]] : List Delta).Nodup := by decide
  have same := placewise [1] 1 (onlyAt_of_nodup nodup rfl) (onlyAt_of_nodup nodup rfl)
  obtain ⟨i, D, hi, hD, forth, back⟩ := holds _ List.mem_cons_self
  cases (show place 2 (.int 1) = .ok 1 from rfl).symm.trans hi
  cases (show ([[-1], [1]] : List Delta)[1]? = some [1] from rfl).symm.trans hD
  exact ⟨t, built, forth, back, same⟩

/-- An adjacency along a repeated offset is entered where it is repeated. Seen from its converse the
opposite offset is the first one in the list, and nothing is entered there. -/
theorem table_one_sided_repeated :
    ∃ t, table [[1], [-1], [1]] [⟨(0 : Int), .int 2, 1⟩] .empty = .ok t ∧
      t.offsets[1]? = some [-1] ∧ t.offsets.idxOf (negate [-1]) = 0 ∧
      t.permits 1 1 0 = true ∧ t.permits 0 0 1 = false := by
  with_unfolding_all exact ⟨_, rfl, rfl, rfl, rfl, rfl⟩

end Symmetric

end CellCollapse
