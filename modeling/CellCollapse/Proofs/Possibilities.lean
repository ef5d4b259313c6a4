import CellCollapse.Possibilities

set_option autoImplicit false

/-!
# Laws of possibilities

Membership by `==`, and how the entropy of a set follows its values: filtering an undecided set
either lowers the entropy or changes nothing, and a decided set that is not empty has one value. A
set built from a list has the members of the list, and two sets are the `same` if they have the same
members.
-/
namespace CellCollapse.Possibilities

variable {α : Type} [BEq α]

@[simp] theorem cellState_entropy (s : Possibilities α) :
    CellState.entropy s = (s.entropy : Int) := rfl

theorem entropy_nonneg (s : Possibilities α) : 0 ≤ CellState.entropy s :=
  Int.natCast_nonneg s.entropy

theorem contains_iff (s : Possibilities α) (v : α) :
    s.contains v = true ↔ ∃ x ∈ s.toList, (x == v) = true := by
  simp [contains]

theorem contains_of_mem [ReflBEq α] {s : Possibilities α} {v : α} (h : v ∈ s.toList) :
    s.contains v = true :=
  (s.contains_iff v).2 ⟨v, h, BEq.rfl⟩

theorem contains_congr [EquivBEq α] (s : Possibilities α) {v w : α} (h : (v == w) = true) :
    s.contains v = s.contains w := by
  rw [Bool.eq_iff_iff, contains_iff, contains_iff]
  constructor
  · rintro ⟨x, hx, hv⟩
    exact ⟨x, hx, BEq.trans hv h⟩
  · rintro ⟨x, hx, hw⟩
    exact ⟨x, hx, BEq.trans hw (BEq.symm h)⟩

theorem contains_only (v w : α) : (only v).contains w = (v == w) := by
  simp [contains, only]

/-- Filtering by a test that does not tell equal values apart. -/
theorem contains_filter (s : Possibilities α) (keep : α → Bool) (v : α)
    (congr : ∀ x, (x == v) = true → keep x = keep v) :
    (s.filter keep).contains v = (s.contains v && keep v) := by
  rw [Bool.eq_iff_iff, Bool.and_eq_true, contains_iff, contains_iff]
  constructor
  · rintro ⟨x, hx, hv⟩
    obtain ⟨hmem, hkeep⟩ := List.mem_filter.1 hx
    exact ⟨⟨x, hmem, hv⟩, congr x hv ▸ hkeep⟩
  · rintro ⟨⟨x, hx, hv⟩, hkeep⟩
    exact ⟨x, List.mem_filter.2 ⟨hx, (congr x hv).trans hkeep⟩, hv⟩

theorem contains_of_contains_filter {s : Possibilities α} {keep : α → Bool} {v : α}
    (h : (s.filter keep).contains v = true) : s.contains v = true := by
  obtain ⟨x, hx, hv⟩ := (contains_iff _ v).1 h
  exact (s.contains_iff v).2 ⟨x, (List.mem_filter.1 hx).1, hv⟩

theorem isEmpty_eq_false_iff (s : Possibilities α) : s.isEmpty = false ↔ ∃ v, v ∈ s.toList := by
  rw [isEmpty, List.isEmpty_eq_false_iff_exists_mem]

theorem isEmpty_eq_false_of_contains {s : Possibilities α} {v : α} (h : s.contains v = true) :
    s.isEmpty = false := by
  obtain ⟨x, hx, _⟩ := (s.contains_iff v).1 h
  exact s.isEmpty_eq_false_iff.2 ⟨x, hx⟩

theorem entropy_filter_le (s : Possibilities α) (keep : α → Bool) :
    (s.filter keep).entropy ≤ s.entropy :=
  Nat.sub_le_sub_right (List.length_filter_le keep s.toList) 1

/-- The entropy of an undecided set shows whether a filter removed a value. -/
theorem filter_eq_of_entropy {s : Possibilities α} {keep : α → Bool} (undecided : s.entropy ≠ 0)
    (same : ¬ (s.filter keep).entropy < s.entropy) : s.filter keep = s := by
  have hle := List.length_filter_le keep s.toList
  have hlen : (s.toList.filter keep).length = s.toList.length := by
    simp only [entropy, size, filter] at undecided same
    omega
  have hall : s.toList.filter keep = s.toList :=
    (List.filter_sublist).eq_of_length hlen
  simp only [filter, hall]

theorem filter_eq_self {s : Possibilities α} {keep : α → Bool}
    (kept : ∀ v ∈ s.toList, keep v = true) : s.filter keep = s := by
  simp [filter, List.filter_eq_self.2 kept]

theorem nonempty_of_entropy {s : Possibilities α} (undecided : s.entropy ≠ 0) : s.toList ≠ [] := by
  intro h
  exact undecided (by simp [entropy, size, h])

theorem value?_eq_some_iff (s : Possibilities α) (v : α) : s.value? = some v ↔ s.toList = [v] := by
  unfold value?
  split
  · rename_i w h
    simp [h]
  · rename_i h
    constructor
    · intro h'
      cases h'
    · intro h'
      exact absurd h' (h v)

theorem eq_of_mem_of_decided {s : Possibilities α} (decided : s.entropy = 0) {v w : α}
    (hv : v ∈ s.toList) (hw : w ∈ s.toList) : v = w := by
  simp only [entropy, size] at decided
  match hs : s.toList with
  | [] => simp [hs] at hv
  | [x] =>
    simp only [hs, List.mem_singleton] at hv hw
    rw [hv, hw]
  | _ :: _ :: _ => simp [hs] at decided

/-- A decided set is empty or has exactly one value. -/
theorem exists_value? {s : Possibilities α} (decided : s.entropy = 0) (filled : s.isEmpty = false) :
    ∃ v, s.value? = some v := by
  obtain ⟨v, hv⟩ := s.isEmpty_eq_false_iff.1 filled
  have hlen : s.toList.length ≤ 1 := by
    simp only [entropy, size] at decided
    omega
  refine ⟨v, (s.value?_eq_some_iff v).2 ?_⟩
  match hs : s.toList with
  | [] => simp [hs] at hv
  | [w] =>
    simp only [hs, List.mem_singleton] at hv
    rw [hv]
  | _ :: _ :: _ => simp [hs] at hlen

theorem entropy_eq_of_same {s t : Possibilities α} (h : s.same t = true) :
    s.entropy = t.entropy := by
  rw [same, Bool.and_eq_true, beq_iff_eq] at h
  rw [entropy, entropy, h.1]

section Building

theorem toList_insert (s : Possibilities α) (v : α) :
    (s.insert v).toList = if s.contains v then s.toList else s.toList ++ [v] := by
  unfold insert
  split <;> rfl

theorem mem_foldl_insert {s : Possibilities α} {vs : List α} {v : α}
    (h : v ∈ (vs.foldl insert s).toList) : v ∈ s.toList ∨ v ∈ vs := by
  induction vs generalizing s with
  | nil => exact .inl h
  | cons w vs ih =>
    rcases ih h with h | h
    · rw [toList_insert] at h
      split at h
      · exact .inl h
      · rcases List.mem_append.1 h with h | h
        · exact .inl h
        · exact .inr (List.mem_cons.2 (.inl (List.mem_singleton.1 h)))
    · exact .inr (List.mem_cons_of_mem _ h)

theorem mem_of_mem_ofList {vs : List α} {v : α} (h : v ∈ (ofList vs).toList) : v ∈ vs :=
  (mem_foldl_insert h).resolve_left List.not_mem_nil

/-- A list without equal values becomes a set as it is. -/
theorem toList_foldl_insert {s : Possibilities α} {vs : List α}
    (distinct : (s.toList ++ vs).Pairwise fun a b => (a == b) = false) :
    (vs.foldl insert s).toList = s.toList ++ vs := by
  induction vs generalizing s with
  | nil => simp
  | cons v vs ih =>
    have absent : s.contains v = false := by
      rw [contains, List.any_eq_false]
      intro x hx
      simp [(List.pairwise_append.1 distinct).2.2 x hx v List.mem_cons_self]
    have pushed : (s.insert v).toList = s.toList ++ [v] := by
      rw [toList_insert, if_neg (by simp [absent])]
    rw [List.foldl_cons, ih (by simpa [pushed] using distinct), pushed, List.append_assoc,
      List.singleton_append]

theorem toList_ofList {vs : List α} (distinct : vs.Pairwise fun a b => (a == b) = false) :
    (ofList vs).toList = vs :=
  toList_foldl_insert (s := empty) distinct

variable [EquivBEq α]

theorem contains_insert (s : Possibilities α) (v w : α) :
    (s.insert v).contains w = (s.contains w || v == w) := by
  rw [contains, toList_insert]
  split
  · rename_i present
    cases hvw : v == w with
    | false => simp [contains]
    | true =>
      rw [s.contains_congr hvw] at present
      simpa [contains] using present
  · simp [contains]

theorem contains_foldl_insert (s : Possibilities α) (vs : List α) (w : α) :
    (vs.foldl insert s).contains w = (s.contains w || vs.any (· == w)) := by
  induction vs generalizing s with
  | nil => simp
  | cons v vs ih => rw [List.foldl_cons, ih, contains_insert, List.any_cons, Bool.or_assoc]

theorem contains_ofList (vs : List α) (w : α) : (ofList vs).contains w = vs.any (· == w) := by
  rw [ofList, contains_foldl_insert]
  rfl

end Building

section Sameness

variable [EquivBEq α]

/-- Distinct values need as many values to be equal to. -/
theorem length_le_of_covered {xs ys : List α}
    (distinct : xs.Pairwise fun a b => (a == b) = false)
    (covered : ∀ x ∈ xs, ∃ y ∈ ys, (y == x) = true) : xs.length ≤ ys.length := by
  induction xs generalizing ys with
  | nil => exact Nat.zero_le _
  | cons x xs ih =>
    obtain ⟨hx, distinct⟩ := List.pairwise_cons.1 distinct
    obtain ⟨y, hy, hyx⟩ := covered x List.mem_cons_self
    have hlen := List.length_eraseP_of_mem (p := (· == x)) hy hyx
    have hpos := List.length_pos_of_mem hy
    -- What covers the other values is not equal to `x`, so it outlasts the one that covers `x`.
    have rest : ∀ z ∈ xs, ∃ w ∈ ys.eraseP (· == x), (w == z) = true := by
      intro z hz
      obtain ⟨w, hw, hwz⟩ := covered z (List.mem_cons_of_mem _ hz)
      refine ⟨w, (List.mem_eraseP_of_neg ?_).2 hw, hwz⟩
      intro hwx
      have hxz := BEq.trans (BEq.symm hwx) hwz
      rw [hx z hz] at hxz
      cases hxz
    have hle := ih distinct rest
    simp only [List.length_cons]
    omega

theorem subset_iff (s t : Possibilities α) :
    s.subset t = true ↔ ∀ v, s.contains v = true → t.contains v = true := by
  rw [subset, List.all_eq_true]
  constructor
  · intro h v hv
    obtain ⟨x, hx, hxv⟩ := (s.contains_iff v).1 hv
    rw [← t.contains_congr hxv]
    exact h x hx
  · intro h x hx
    exact h x (contains_of_mem hx)

theorem subset_refl (s : Possibilities α) : s.subset s = true :=
  (s.subset_iff s).2 fun _ => id

theorem subset_trans {s t u : Possibilities α} (hst : s.subset t = true)
    (htu : t.subset u = true) : s.subset u = true :=
  (s.subset_iff u).2 fun v hv => (t.subset_iff u).1 htu v ((s.subset_iff t).1 hst v hv)

theorem subset_filter (s : Possibilities α) (keep : α → Bool) : (s.filter keep).subset s = true :=
  ((s.filter keep).subset_iff s).2 fun _ => contains_of_contains_filter

theorem subset_only {s : Possibilities α} {v : α} (held : s.contains v = true) :
    (only v).subset s = true := by
  rw [subset_iff]
  intro w hw
  rw [contains_only] at hw
  rwa [← s.contains_congr hw]

theorem size_le_of_subset {s t : Possibilities α} (h : s.subset t = true) : s.size ≤ t.size :=
  length_le_of_covered s.distinct fun x hx =>
    (t.contains_iff x).1 ((s.subset_iff t).1 h x (contains_of_mem hx))

theorem subset_of_size_le {s t : Possibilities α} (h : s.subset t = true)
    (hsize : t.size ≤ s.size) : t.subset s = true := by
  rw [subset_iff]
  intro v hv
  apply Decidable.byContradiction
  intro absent
  have more : (v :: s.toList).length ≤ t.toList.length := by
    refine length_le_of_covered (List.pairwise_cons.2 ⟨?_, s.distinct⟩) ?_
    · intro x hx
      refine Bool.eq_false_iff.2 fun hvx => absent ?_
      rw [s.contains_congr hvx]
      exact contains_of_mem hx
    · intro x hx
      rcases List.mem_cons.1 hx with rfl | hx
      · exact (t.contains_iff x).1 hv
      · exact (t.contains_iff x).1 ((s.subset_iff t).1 h x (contains_of_mem hx))
  simp only [size, List.length_cons] at hsize more
  omega

theorem same_iff (s t : Possibilities α) :
    s.same t = true ↔ ∀ v, s.contains v = t.contains v := by
  rw [same, Bool.and_eq_true, beq_iff_eq]
  constructor
  · rintro ⟨hsize, hst⟩ v
    have hts := subset_of_size_le hst (Nat.le_of_eq hsize.symm)
    rw [Bool.eq_iff_iff]
    exact ⟨(s.subset_iff t).1 hst v, (t.subset_iff s).1 hts v⟩
  · intro h
    have hst : s.subset t = true := (s.subset_iff t).2 fun v hv => (h v).symm.trans hv
    have hts : t.subset s = true := (t.subset_iff s).2 fun v hv => (h v).trans hv
    exact ⟨Nat.le_antisymm (size_le_of_subset hst) (size_le_of_subset hts), hst⟩

end Sameness

end CellCollapse.Possibilities
