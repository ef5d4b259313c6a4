import CellCollapse.Proofs.Possibilities
import CellCollapse.Rule.Table

set_option autoImplicit false

/-!
# Support in a table

`Table.permits` is the relation that a table lists. With no more neighbors than offsets no fault
arises: a collapse keeps exactly the values that every present neighbor backs, and an observation
settles on one value of the cell, a backed one if all values of the cell are.
-/
namespace CellCollapse.Table

variable {α δ ρ : Type} [BEq α]

/-- Whether `b` may stand along the offset with number `k` from `a`. Nothing may stand beside a
value without an entry. -/
def permits (t : Table α δ) (a : α) (k : Nat) (b : α) : Bool :=
  match t.entry? a with
  | some e => (e.allowed.getD k []).any (· == b)
  | none => false

/-- Every present neighbor has a value that may stand beside `v`. -/
def Backed (t : Table α δ) (v : α) (ns : List (Option (Possibilities α))) : Prop :=
  ∀ k s, ns[k]? = some (some s) → ∃ b ∈ s.toList, t.permits v k b = true

section Equality

variable [EquivBEq α]

theorem entry?_congr (t : Table α δ) {a b : α} (h : (a == b) = true) : t.entry? a = t.entry? b := by
  unfold entry?
  congr 1
  funext e
  exact BEq.congr_right h

theorem permits_congr_left (t : Table α δ) {a b : α} (h : (a == b) = true) (k : Nat) (c : α) :
    t.permits a k c = t.permits b k c := by
  simp only [permits, t.entry?_congr h]

theorem permits_congr_right (t : Table α δ) {b c : α} (h : (b == c) = true) (a : α) (k : Nat) :
    t.permits a k b = t.permits a k c := by
  unfold permits
  cases t.entry? a with
  | none => rfl
  | some e =>
    dsimp only
    congr 1
    funext x
    exact BEq.congr_right h

theorem disjoint_eq_false_iff (row : List α) (s : Possibilities α) :
    Possibilities.disjoint row s = false ↔ ∃ b ∈ s.toList, row.any (· == b) = true := by
  simp only [Possibilities.disjoint, Bool.not_eq_false', List.any_eq_true,
    Possibilities.contains_iff]
  constructor
  · rintro ⟨a, ha, b, hb, h⟩
    exact ⟨b, hb, a, ha, BEq.symm h⟩
  · rintro ⟨b, hb, a, ha, h⟩
    exact ⟨a, ha, b, hb, BEq.symm h⟩

/-- The walk along a row decides whether every present neighbor has an allowed value. -/
theorem supported_eq {rows : List (List α)} {ns : List (Option (Possibilities α))}
    (room : ns.length ≤ rows.length) :
    ∃ b, supported rows ns = .ok b ∧ (b = true ↔
      ∀ k s, ns[k]? = some (some s) → ∃ x ∈ s.toList, (rows.getD k []).any (· == x) = true) := by
  induction ns generalizing rows with
  | nil => exact ⟨true, by simp [supported], by simp⟩
  | cons o ns ih =>
    obtain ⟨row, rows, rfl⟩ := List.exists_cons_of_length_pos (l := rows) (by
      simp only [List.length_cons] at room
      omega)
    obtain ⟨b, hb, hiff⟩ := @ih rows (by simpa using room)
    -- The head of the list is place 0; the rest is the induction hypothesis, one place further.
    cases o with
    | none =>
      refine ⟨b, by simpa [supported] using hb, hiff.trans ⟨fun h k s hk => ?_, fun h k s hk => ?_⟩⟩
      · cases k with
        | zero => simp at hk
        | succ k => exact h k s (by simpa using hk)
      · exact h (k + 1) s (by simpa using hk)
    | some s =>
      cases hd : Possibilities.disjoint row s with
      | true =>
        refine ⟨false, by simp [supported, hd], by simp, fun h => ?_⟩
        have hback := (disjoint_eq_false_iff row s).2 (h 0 s rfl)
        rw [hd] at hback
        cases hback
      | false =>
        have hhead := (disjoint_eq_false_iff row s).1 hd
        refine ⟨b, by simpa [supported, hd] using hb,
          hiff.trans ⟨fun h k s' hk => ?_, fun h k s' hk => ?_⟩⟩
        · cases k with
          | zero =>
            obtain rfl : s = s' := by simpa using hk
            simpa using hhead
          | succ k => exact h k s' (by simpa using hk)
        · exact h (k + 1) s' (by simpa using hk)

theorem admits_eq (t : Table α δ) (v : α) {ns : List (Option (Possibilities α))}
    (room : ns.length ≤ t.offsets.length) :
    ∃ b, t.admits v ns = .ok b ∧ (b = true ↔ t.Backed v ns) := by
  unfold admits Backed permits
  cases he : t.entry? v with
  | some e =>
    have hwidth : e.allowed.length = t.offsets.length := t.width e (List.mem_of_find?_eq_some he)
    exact supported_eq (by omega)
  | none =>
    refine ⟨_, rfl, ?_⟩
    rw [List.all_eq_true]
    constructor
    · intro h k s hk
      have := h (some s) (List.mem_of_getElem? hk)
      simp at this
    · intro h o ho
      cases o with
      | none => rfl
      | some s =>
        obtain ⟨k, hk⟩ := List.mem_iff_getElem?.1 ho
        obtain ⟨b, _, hb⟩ := h k s hk
        simp at hb

theorem keeps_iff (t : Table α δ) (v : α) {ns : List (Option (Possibilities α))}
    (room : ns.length ≤ t.offsets.length) : t.keeps ns v = true ↔ t.Backed v ns := by
  obtain ⟨b, hb, hiff⟩ := t.admits_eq v room
  simp only [keeps, hb]
  exact hiff

theorem firstFault?_eq_none (t : Table α δ) {ns : List (Option (Possibilities α))}
    (room : ns.length ≤ t.offsets.length) (vs : List α) : t.firstFault? ns vs = none := by
  rw [firstFault?, List.findSome?_eq_none_iff]
  intro v _
  obtain ⟨b, hb, _⟩ := t.admits_eq v room
  simp only [hb]

theorem collapse_eq (t : Table α δ) (cell : Possibilities α)
    {ns : List (Option (Possibilities α))} (room : ns.length ≤ t.offsets.length) (context : ρ) :
    t.collapse cell ns context = ⟨cell.filter (t.keeps ns), ns, context, none⟩ := by
  simp only [collapse, t.firstFault?_eq_none room]

section Observation

variable [AsValue α]

theorem mem_sortWritten {β : Type} [AsValue β] {x : β} {xs : List β} :
    x ∈ sortWritten xs ↔ x ∈ xs :=
  List.mem_mergeSort

theorem pairwise_sortWritten {β : Type} [AsValue β] (xs : List β) :
    (sortWritten xs).Pairwise fun a b => ¬ written b < written a := by
  have sorted : (sortWritten xs).Pairwise fun a b => decide (¬ written b < written a) = true := by
    apply List.pairwise_mergeSort
    · intro a b c hab hbc
      simp only [decide_eq_true_eq, String.not_lt] at hab hbc ⊢
      exact String.le_trans hab hbc
    · intro a b
      simp only [Bool.or_eq_true, decide_eq_true_eq, String.not_lt]
      exact String.le_total _ _
  exact sorted.imp of_decide_eq_true

theorem contains_of_mem_candidates {t : Table α δ} {cell : Possibilities α} {v : α}
    (h : v ∈ t.candidates cell) : cell.contains v = true := by
  rw [candidates, List.mem_append, mem_sortWritten] at h
  rcases h with h | h
  · exact (List.mem_filter.1 h).2
  · exact Possibilities.contains_of_mem (List.mem_filter.1 h).1

/-- A known value appears under the key of its entry, an unknown one in the sorted part. -/
theorem exists_mem_candidates (t : Table α δ) {cell : Possibilities α} {v : α}
    (held : cell.contains v = true) : ∃ u ∈ t.candidates cell, (u == v) = true := by
  simp only [candidates, List.mem_append, mem_sortWritten, List.mem_filter]
  cases he : t.entry? v with
  | some e =>
    have hkey : (e.value == v) = true := List.find?_some (p := fun e : Entry α => e.value == v) he
    have hvalue : e.value ∈ t.values := List.mem_map_of_mem (List.mem_of_find?_eq_some he)
    exact ⟨e.value, .inl ⟨hvalue, (cell.contains_congr hkey).trans held⟩, hkey⟩
  | none =>
    obtain ⟨x, hx, same⟩ := (cell.contains_iff v).1 held
    exact ⟨x, .inr ⟨hx, by simp [knows, t.entry?_congr same, he]⟩, same⟩

theorem candidates_ne_nil (t : Table α δ) {cell : Possibilities α} (filled : cell.toList ≠ []) :
    t.candidates cell ≠ [] := by
  obtain ⟨v, hv⟩ := List.exists_mem_of_ne_nil _ filled
  obtain ⟨u, hu, _⟩ := t.exists_mem_candidates (Possibilities.contains_of_mem hv)
  exact List.ne_nil_of_mem hu

theorem options_ne_nil (t : Table α δ) {cell : Possibilities α} (filled : cell.toList ≠ [])
    (ns : List (Option (Possibilities α))) : t.options cell ns ≠ [] := by
  unfold options
  split
  · exact t.candidates_ne_nil filled
  · simp

theorem contains_of_mem_options {t : Table α δ} {cell : Possibilities α}
    {ns : List (Option (Possibilities α))} {v : α} (h : v ∈ t.options cell ns) :
    cell.contains v = true := by
  unfold options at h
  split at h
  · exact contains_of_mem_candidates h
  · rename_i hfilter
    rw [← hfilter] at h
    exact contains_of_mem_candidates (List.mem_filter.1 h).1

/-- With a fault an observation leaves the cell as it was; otherwise one of its values remains. -/
theorem observe_cases (t : Table α δ) (choose : Chooser ρ) {cell : Possibilities α}
    (filled : cell.toList ≠ []) (ns : List (Option (Possibilities α))) (context : ρ) :
    (∃ f x, t.observe choose cell ns context = ⟨cell, ns, x, some f⟩) ∨
      ∃ v x, cell.contains v = true ∧
        t.observe choose cell ns context = ⟨.only v, ns, x, none⟩ := by
  have hne := t.options_ne_nil filled ns
  unfold observe
  split
  · rename_i f _
    exact .inl ⟨f, context, rfl⟩
  · split
    · rename_i hnil
      exact absurd hnil hne
    · rename_i v vs hoptions
      split
      · rename_i f x _
        exact .inl ⟨f, x, rfl⟩
      · rename_i i x _
        have hmem : (v :: vs).get (i.cast (by simp)) ∈ t.options cell ns := by
          rw [hoptions]
          exact List.get_mem _ _
        exact .inr ⟨_, x, contains_of_mem_options hmem, rfl⟩

end Observation

end Equality

end CellCollapse.Table
