import CellCollapse.Proofs.Rule.Symmetric

set_option autoImplicit false

/-!
# Tables of adjacencies

When some adjacencies make a table, and which one. A table is refused for an offset without its
opposite and for an index that is no place of the list of offsets, and for nothing else. It lists
the values of the adjacencies as they first come, each adjacency from its value to its neighbor and
back. So the order of the adjacencies tells in the order of the values, and in nothing else.
-/
namespace CellCollapse

/-- What an adjacency says: `b` may stand along the offset with number `i` from `a`. -/
def Adjacency.Says {α : Type} [BEq α] (s : Adjacency α) (a : α) (i : Nat) (b : α) : Prop :=
  (s.value == a) = true ∧ s.index.whole? = some (i : Int) ∧ (s.neighbor == b) = true

namespace Symmetric

section Refusals

variable {offsets ds : List Delta} {count : Nat} {index : Value} {f : Fault}

theorem opposites_of_closed (closed : ∀ D ∈ ds, negate D ∈ offsets) :
    opposites offsets ds = .ok (ds.map fun D => offsets.idxOf (negate D)) := by
  induction ds with
  | nil => rfl
  | cons D ds ih =>
    have found : offsets.contains (negate D) = true := by
      simpa using closed D List.mem_cons_self
    have rest := ih fun E hE => closed E (List.mem_cons_of_mem _ hE)
    change (if offsets.contains (negate D) then
      (opposites offsets ds).map (offsets.idxOf (negate D) :: ·) else _) = _
    rw [if_pos found, rest]
    rfl

theorem kind_of_opposites (h : opposites offsets ds = .error f) : f.kind = .invalidRule := by
  induction ds with
  | nil => cases h
  | cons D ds ih =>
    change (if offsets.contains (negate D) then
      (opposites offsets ds).map (offsets.idxOf (negate D) :: ·)
      else .error (.noOpposite (asValue D) (asValue (negate D)))) = _ at h
    split at h
    · cases hrest : opposites offsets ds with
      | error g =>
        rw [hrest] at h
        cases h
        exact ih hrest
      | ok opp =>
        rw [hrest] at h
        cases h
    · cases h
      rfl

theorem place_eq_ok_iff {i : Nat} :
    place count index = .ok i ↔ index.whole? = some (i : Int) ∧ i < count := by
  unfold place
  cases index.whole? with
  | none =>
    dsimp only
    split
    · simp
    · split <;> simp
  | some z =>
    dsimp only
    split
    · simp only [Except.ok.injEq, Option.some.injEq]
      omega
    · simp only [reduceCtorEq, Option.some.injEq, false_iff]
      omega

theorem place_eq_error_iff {z : Int} (whole : index.whole? = some z) :
    place count index = .error f ↔ ¬ (0 ≤ z ∧ z < count) ∧ f = .offsetIndex index count := by
  by_cases inRange : 0 ≤ z ∧ z < count
  · simp [place, whole, inRange]
  · simp [place, whole, inRange, eq_comm]

end Refusals

variable {α : Type} [BEq α] {opp : List Nat} {m m' : Assoc α (List (List α))}
  {triples : List (Adjacency α)}

theorem enterAll_exists (placed : ∀ s ∈ triples, ∃ i, place opp.length s.index = .ok i)
    (m : Assoc α (List (List α))) : ∃ m', enterAll opp triples m = .ok m' := by
  induction triples generalizing m with
  | nil => exact ⟨m, rfl⟩
  | cons s triples ih =>
    obtain ⟨i, hi⟩ := placed s List.mem_cons_self
    simp only [enterAll, hi]
    exact ih (fun s' hs' => placed s' (List.mem_cons_of_mem _ hs')) _

theorem fault_of_enterAll {f : Fault} (h : enterAll opp triples m = .error f) :
    ∃ s ∈ triples, place opp.length s.index = .error f := by
  induction triples generalizing m with
  | nil => cases h
  | cons s triples ih =>
    simp only [enterAll] at h
    cases hplace : place opp.length s.index with
    | error g =>
      rw [hplace] at h
      cases h
      exact ⟨s, List.mem_cons_self, hplace⟩
    | ok i =>
      rw [hplace] at h
      obtain ⟨s', hs', refused⟩ := ih h
      exact ⟨s', List.mem_cons_of_mem s hs', refused⟩

variable [EquivBEq α]

theorem Wide.enterAll (wide : Wide opp m) (h : enterAll opp triples m = .ok m') :
    Wide opp m' := by
  induction triples generalizing m with
  | nil =>
    cases h
    exact wide
  | cons s triples ih =>
    simp only [Symmetric.enterAll] at h
    cases hplace : place opp.length s.index with
    | error f => simp [hplace] at h
    | ok i =>
      rw [hplace] at h
      exact ih (wide.enter i s.value s.neighbor) h

/-- A key that comes next is new unless an equal one came before. -/
theorem loop_insertNew {β : Type} (m : Assoc α β) (k : α) (b : β) (vs : List α) :
    List.eraseDupsBy.loop (· == ·) vs (m.insertNew k b).keys.reverse =
      List.eraseDupsBy.loop (· == ·) (k :: vs) m.keys.reverse := by
  have seen : m.keys.reverse.any (k == ·) = m.contains k := by
    rw [List.any_reverse, Assoc.keys, List.any_map, Assoc.contains]
    congr 1
    funext p
    exact BEq.comm
  rw [Assoc.keys_insertNew, List.eraseDupsBy.loop, seen]
  cases m.contains k with
  | true => rfl
  | false => simp

theorem keys_enterAll (h : enterAll opp triples m = .ok m') :
    m'.keys = List.eraseDupsBy.loop (· == ·) (triples.flatMap fun s => [s.value, s.neighbor])
      m.keys.reverse := by
  induction triples generalizing m with
  | nil =>
    cases h
    rw [List.flatMap_nil, List.eraseDupsBy.loop, List.reverse_reverse]
  | cons s triples ih =>
    simp only [enterAll] at h
    cases hplace : place opp.length s.index with
    | error f => simp [hplace] at h
    | ok i =>
      rw [hplace] at h
      rw [ih h, enter, Assoc.keys_modify, Assoc.keys_modify, loop_insertNew, loop_insertNew]
      rfl

variable [AsValue α] {offsets : List Delta} {t : Table α Delta}

/-- Nothing but a missing opposite or a misplaced index keeps adjacencies from making a table. -/
theorem table_exists (closed : ∀ D ∈ offsets, negate D ∈ offsets)
    (placed : ∀ s ∈ triples, ∃ i, place offsets.length s.index = .ok i) :
    ∃ t, table offsets triples .empty = .ok t ∧
      t.values = (triples.flatMap fun s => [s.value, s.neighbor]).eraseDups := by
  have hlength : (opposite offsets).length = offsets.length := by simp [opposite]
  obtain ⟨allowed, hall⟩ := enterAll_exists (by rwa [hlength]) .empty
  have hopp : opposites offsets offsets = .ok (opposite offsets) := opposites_of_closed closed
  have hmake : table offsets triples .empty = Table.make offsets allowed .empty := by
    simp only [table, hopp, bind, Except.bind, hall]
  have wide := (wide_empty (opposite offsets)).enterAll hall
  obtain ⟨t, ht⟩ : ∃ t, Table.make offsets allowed .empty = .ok t := by
    apply Table.make_exists
    · intro p hp
      have hrow := wide p.1
      rwa [row, Assoc.get?_of_mem hp, Option.getD_some, hlength] at hrow
    · intro v hv
      cases hv
    · intro p _
      exact ⟨defaultWeight, rfl, by decide⟩
  refine ⟨t, hmake.trans ht, ?_⟩
  obtain ⟨_, rows⟩ := Table.make_ok ht
  have hkeys : t.values = allowed.keys := by
    rw [Assoc.keys, ← rows, List.map_map]
    rfl
  rw [hkeys, keys_enterAll hall]
  rfl

theorem fault_of_table (closed : ∀ D ∈ offsets, negate D ∈ offsets) {f : Fault}
    (h : table offsets triples .empty = .error f) :
    ∃ s ∈ triples, place offsets.length s.index = .error f := by
  have hopp : opposites offsets offsets = .ok (opposite offsets) := opposites_of_closed closed
  cases hall : enterAll (opposite offsets) triples .empty with
  | error g =>
    simp only [table, hopp, bind, Except.bind, hall] at h
    cases h
    simpa [opposite] using fault_of_enterAll hall
  | ok allowed =>
    obtain ⟨t, ht, _⟩ := table_exists closed (by simpa [opposite] using place_of_enterAll hall)
    cases ht.symm.trans h

theorem kind_of_table (whole : ∀ s ∈ triples, ∃ z, s.index.whole? = some z) {f : Fault}
    (h : table offsets triples .empty = .error f) : f.kind = .invalidRule := by
  cases hopp : opposites offsets offsets with
  | error g =>
    simp only [table, hopp, bind, Except.bind] at h
    cases h
    exact kind_of_opposites hopp
  | ok opp =>
    obtain ⟨s, hs, refused⟩ := fault_of_table (opposites_ok hopp).2 h
    obtain ⟨z, hz⟩ := whole s hs
    obtain ⟨_, rfl⟩ := (place_eq_error_iff hz).1 refused
    rfl

/-- Which way round an adjacency is read, in the words of the offsets. -/
theorem permits_iff_says (h : table offsets triples .empty = .ok t) (a : α) (k : Nat) (b : α) :
    t.permits a k b = true ↔ ∃ s ∈ triples, s.Says a k b ∨
      ∃ j D, offsets[j]? = some D ∧ offsets.idxOf (negate D) = k ∧ s.Says b j a := by
  obtain ⟨_, _, placed, permits⟩ := table_ok h
  rw [permits]
  refine exists_congr fun s => and_congr_right fun hs => ?_
  obtain ⟨i, hi⟩ := placed s hs
  have hlt := place_lt hi
  have named := (place_eq_ok_iff.1 hi).1
  constructor
  · rintro ⟨i', hi', asserted⟩
    cases hi.symm.trans hi'
    rcases asserted with ⟨ha, rfl, hb⟩ | ⟨ha, rfl, hb⟩
    · exact .inl ⟨ha, named, hb⟩
    · exact .inr ⟨i, offsets[i], List.getElem?_eq_getElem hlt, (getD_opposite hlt).symm, hb, named,
        ha⟩
  · rintro (⟨ha, hk, hb⟩ | ⟨j, D, hD, rfl, hb, hj, ha⟩)
    · have same : i = k := by
        have := Option.some.inj (named.symm.trans hk)
        omega
      exact ⟨i, hi, .inl ⟨ha, same, hb⟩⟩
    · have same : i = j := by
        have := Option.some.inj (named.symm.trans hj)
        omega
      subst same
      cases (List.getElem?_eq_getElem hlt).symm.trans hD
      exact ⟨i, hi, .inr ⟨ha, getD_opposite hlt, hb⟩⟩

/-- Adjacencies along whole indices make a table exactly if every offset has its opposite and every
index is a place of an offset. The table then lists the values as they first come, and permits what
an adjacency says, forth or back, so that repeated or reordered adjacencies permit the same. -/
theorem table_of_adjacencies (offsets : List Delta) (triples : List (Adjacency α))
    (whole : ∀ s ∈ triples, ∃ z, s.index.whole? = some z) :
    ((∃ f, table offsets triples .empty = .error f ∧ f.kind = .invalidRule) ↔
      (∃ D ∈ offsets, negate D ∉ offsets) ∨
        ∃ s ∈ triples, ∃ z, s.index.whole? = some z ∧ ¬ (0 ≤ z ∧ z < offsets.length)) ∧
    ((∀ D ∈ offsets, negate D ∈ offsets) →
      (∀ s ∈ triples, ∀ z, s.index.whole? = some z → 0 ≤ z ∧ z < offsets.length) →
      ∃ t, table offsets triples .empty = .ok t ∧ t.offsets = offsets ∧
        t.values = (triples.flatMap fun s => [s.value, s.neighbor]).eraseDups ∧
        (∀ a i b, t.permits a i b = true ↔ ∃ s ∈ triples, s.Says a i b ∨
          ∃ j D, offsets[j]? = some D ∧ offsets.idxOf (negate D) = i ∧ s.Says b j a) ∧
        ∀ triples' : List (Adjacency α), (∀ s, s ∈ triples' ↔ s ∈ triples) →
          ∃ t', table offsets triples' .empty = .ok t' ∧
            ∀ a i b, t'.permits a i b = t.permits a i b) := by
  have inRange : ∀ s ∈ triples, ((∃ i, place offsets.length s.index = .ok i) ↔
      ∀ z, s.index.whole? = some z → 0 ≤ z ∧ z < offsets.length) := by
    intro s hs
    obtain ⟨z, hz⟩ := whole s hs
    simp only [place_eq_ok_iff, hz, Option.some.injEq, forall_eq']
    constructor
    · rintro ⟨i, rfl, hi⟩
      omega
    · intro bounds
      exact ⟨z.toNat, by omega, by omega⟩
  refine ⟨⟨?_, ?_⟩, ?_⟩
  · rintro ⟨f, refused, _⟩
    by_cases closed : ∀ D ∈ offsets, negate D ∈ offsets
    · by_cases bounds : ∀ s ∈ triples, ∀ z, s.index.whole? = some z → 0 ≤ z ∧ z < offsets.length
      · obtain ⟨t, ht, _⟩ := table_exists closed fun s hs => (inRange s hs).2 (bounds s hs)
        cases ht.symm.trans refused
      · exact .inr (by simpa using bounds)
    · exact .inl (by simpa using closed)
  · intro unsound
    cases ht : table offsets triples .empty with
    | error f => exact ⟨f, rfl, kind_of_table whole ht⟩
    | ok t =>
      obtain ⟨_, closed, placed, _⟩ := table_ok ht
      rcases unsound with ⟨D, hD, missing⟩ | ⟨s, hs, z, hz, outside⟩
      · exact absurd (closed D hD) missing
      · exact absurd ((inRange s hs).1 (placed s hs) z hz) outside
  · intro closed bounds
    have placed := fun s hs => (inRange s hs).2 (bounds s hs)
    obtain ⟨t, ht, hvalues⟩ := table_exists closed placed
    refine ⟨t, ht, (table_ok ht).1, hvalues, permits_iff_says ht, ?_⟩
    intro triples' same
    obtain ⟨t', ht', _⟩ := table_exists closed fun s hs => placed s ((same s).1 hs)
    refine ⟨t', ht', ?_⟩
    intro a i b
    rw [Bool.eq_iff_iff, permits_iff_says ht, permits_iff_says ht']
    simp only [same]

-- The second index is a truth value, which stands for one.
theorem table_of_adjacencies_chain :
    (∃ t t', table [[-1], [1]] [⟨(2 : Int), .int 1, 0⟩, ⟨0, .bool true, 2⟩] .empty = .ok t ∧
      table [[-1], [1]] [⟨(0 : Int), .bool true, 2⟩, ⟨2, .int 1, 0⟩] .empty = .ok t' ∧
      t.values = [2, 0] ∧ t.permits 0 0 2 = true ∧ ∀ a i b, t'.permits a i b = t.permits a i b) ∧
    ∃ f, table [[-1], [1]] [⟨(2 : Int), .int 2, 0⟩] .empty = .error f ∧ f.kind = .invalidRule := by
  constructor
  · obtain ⟨_, made⟩ := table_of_adjacencies [[-1], [1]]
      [⟨(2 : Int), .int 1, 0⟩, ⟨0, .bool true, 2⟩] (by simp [Value.whole?])
    obtain ⟨t, ht, _, hvalues, permits, reordered⟩ := made (by decide) (by simp [Value.whole?])
    obtain ⟨t', ht', same⟩ := reordered [⟨0, .bool true, 2⟩, ⟨2, .int 1, 0⟩] (by simp [or_comm])
    have back : t.permits 0 0 2 = true := by
      refine (permits 0 0 2).2 ⟨⟨2, .int 1, 0⟩, List.mem_cons_self, .inr ⟨1, [1], rfl, rfl, ?_⟩⟩
      exact ⟨rfl, rfl, rfl⟩
    exact ⟨t, t', ht, ht', hvalues, back, same⟩
  · obtain ⟨refused, _⟩ := table_of_adjacencies [[-1], [1]] [⟨(2 : Int), .int 2, 0⟩]
      (by simp [Value.whole?])
    exact refused.2 (.inr ⟨⟨2, .int 2, 0⟩, List.mem_cons_self, 2, rfl, by decide⟩)

end Symmetric

end CellCollapse
