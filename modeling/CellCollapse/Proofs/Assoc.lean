import CellCollapse.Assoc

set_option autoImplicit false

/-!
# Look-ups in association lists

What `Assoc.get?` finds after each way to change a map, and in which order the keys are then. Keys
need only be equal by `==`.
-/
namespace CellCollapse

variable {α β : Type} [BEq α]

/-- Among entries without equal keys, a key finds its own entry. -/
theorem find?_beq_of_mem [ReflBEq α] {key : β → α} {xs : List β}
    (distinct : xs.Pairwise fun x y => (key x == key y) = false) {x : β} (h : x ∈ xs) :
    xs.find? (fun y => key y == key x) = some x := by
  induction xs with
  | nil => cases h
  | cons y xs ih =>
    obtain ⟨first, distinct⟩ := List.pairwise_cons.1 distinct
    rcases List.mem_cons.1 h with rfl | h
    · simp
    · rw [List.find?_cons_of_neg (by simp [first x h])]
      exact ih distinct h

namespace Assoc

@[simp] theorem get?_empty (x : α) : (empty : Assoc α β).get? x = none := rfl

theorem contains_eq_any_keys (m : Assoc α β) (k : α) : m.contains k = m.keys.any (· == k) := by
  rw [keys, List.any_map]
  rfl

theorem contains_eq_isSome (m : Assoc α β) (k : α) : m.contains k = (m.get? k).isSome := by
  rw [contains, get?, Option.isSome_map, Bool.eq_iff_iff, List.any_eq_true, List.find?_isSome]

theorem get?_eq_none {m : Assoc α β} {k : α} (h : m.contains k = false) : m.get? k = none := by
  rwa [contains_eq_isSome, Option.isSome_eq_false_iff, Option.isNone_iff_eq_none] at h

/-- Pairs without equal keys become a map as they are. -/
theorem pairs_foldl_insert {m : Assoc α β} {ps : List (α × β)}
    (distinct : (m.pairs ++ ps).Pairwise fun p q => (p.1 == q.1) = false) :
    (ps.foldl (fun m p => m.insert p.1 p.2) m).pairs = m.pairs ++ ps := by
  induction ps generalizing m with
  | nil => simp
  | cons p ps ih =>
    have absent : m.contains p.1 = false := by
      rw [contains, List.any_eq_false]
      intro q hq
      simp [(List.pairwise_append.1 distinct).2.2 q hq p List.mem_cons_self]
    have pushed : (m.insert p.1 p.2).pairs = m.pairs ++ [p] := by
      rw [insert, dif_neg (by simp [absent])]
    rw [List.foldl_cons, ih (by simpa [pushed] using distinct), pushed, List.append_assoc,
      List.singleton_append]

theorem pairs_ofList {ps : List (α × β)}
    (distinct : ps.Pairwise fun p q => (p.1 == q.1) = false) : (ofList ps).pairs = ps :=
  pairs_foldl_insert (m := empty) distinct

theorem keys_replace (m : Assoc α β) (k : α) (b : β) : (m.replace k b).keys = m.keys := by
  rw [keys, replace, List.map_map]
  apply List.map_congr_left
  intro p _
  change (if p.1 == k then (p.1, b) else p).1 = p.1
  split <;> rfl

theorem keys_insert (m : Assoc α β) (k : α) (b : β) :
    (m.insert k b).keys = if m.contains k then m.keys else m.keys ++ [k] := by
  unfold insert
  split
  · exact keys_replace m k b
  · rw [keys, List.map_append]
    rfl

theorem keys_insertNew (m : Assoc α β) (k : α) (b : β) :
    (m.insertNew k b).keys = if m.contains k then m.keys else m.keys ++ [k] := by
  unfold insertNew
  split
  · rfl
  · rename_i absent
    rw [keys_insert, if_neg absent]

theorem keys_modify (m : Assoc α β) (k : α) (f : β → β) : (m.modify k f).keys = m.keys := by
  unfold modify
  split
  · rename_i b found
    rw [keys_insert, contains_eq_isSome, found]
    rfl
  · rfl

variable [EquivBEq α]

theorem get?_of_mem {m : Assoc α β} {p : α × β} (h : p ∈ m.pairs) : m.get? p.1 = some p.2 := by
  rw [get?, find?_beq_of_mem m.distinct h]
  rfl

theorem get?_congr (m : Assoc α β) {a b : α} (h : (a == b) = true) : m.get? a = m.get? b := by
  unfold get?
  congr 2
  funext p
  exact BEq.congr_right h

theorem get?_replace (m : Assoc α β) (k x : α) (b : β) :
    (m.replace k b).get? x = if k == x then (m.get? x).map fun _ => b else m.get? x := by
  unfold get? replace
  dsimp only
  induction m.pairs with
  | nil => simp
  | cons p ps ih =>
    have hkey : (if (p.1 == k) = true then (p.1, b) else p).1 = p.1 := by
      split <;> rfl
    rw [List.map_cons, List.find?_cons, List.find?_cons, hkey]
    cases hx : p.1 == x with
    | false => exact ih
    | true =>
      have same : (p.1 == k) = (k == x) := by
        rw [BEq.congr_left hx, BEq.comm]
      cases hk : k == x <;> simp [same, hk]

theorem get?_insert (m : Assoc α β) (k x : α) (b : β) :
    (m.insert k b).get? x = if k == x then some b else m.get? x := by
  unfold insert
  split
  · rename_i present
    rw [get?_replace]
    cases hx : k == x with
    | false => rfl
    | true =>
      rw [contains_eq_isSome, m.get?_congr hx] at present
      obtain ⟨old, hold⟩ := Option.isSome_iff_exists.1 present
      simp [hold]
  · rename_i absent
    rw [get?, List.find?_append, Option.map_or]
    change (m.get? x).or _ = _
    cases hx : k == x with
    | false => simp [hx]
    | true => simp [← m.get?_congr hx, get?_eq_none (by simpa using absent), hx]

theorem get?_insertNew (m : Assoc α β) (k x : α) (b : β) :
    (m.insertNew k b).get? x = (m.get? x).or (if k == x then some b else none) := by
  unfold insertNew
  cases present : m.contains k with
  | true =>
    rw [contains_eq_isSome] at present
    obtain ⟨old, hold⟩ := Option.isSome_iff_exists.1 present
    cases hx : k == x with
    | false => simp
    | true => simp [← m.get?_congr hx, hold]
  | false =>
    rw [if_neg (by simp), get?_insert]
    cases hx : k == x with
    | false => simp
    | true => simp [← m.get?_congr hx, get?_eq_none present]

theorem get?_modify (m : Assoc α β) (k x : α) (f : β → β) :
    (m.modify k f).get? x = if k == x then (m.get? x).map f else m.get? x := by
  unfold modify
  cases hx : k == x with
  | false => cases m.get? k <;> simp [get?_insert, hx]
  | true =>
    rw [← m.get?_congr hx]
    cases hk : m.get? k with
    | none => simp [← m.get?_congr hx, hk]
    | some b => simp [get?_insert, hx]

end Assoc

end CellCollapse
