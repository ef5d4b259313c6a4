import CellCollapse.Grid.NestedArray
import Mathlib.Data.List.DropRight

set_option autoImplicit false

/-!
# Entries of nested arrays

A value whose rows agree has as many scalars as its outline has places, so its array is full, and
stretching a full array fills the target. All that a stretched array shows are entries of the array,
and none of these is a tuple. A value that is no tuple is an array with no axes, which shows the
same entry everywhere: the value itself, or a text without the NULs at its end.
-/
namespace CellCollapse

def Value.Scalar (v : Value) : Prop := ∀ items, v ≠ .tuple items

theorem length_flatten_of_width {α : Type} {w : Nat} {rows : List (List α)}
    (width : ∀ row ∈ rows, row.length = w) : rows.flatten.length = rows.length * w := by
  have widths : ∀ n ∈ rows.map List.length, n = w := by
    intro n hn
    obtain ⟨row, hrow, rfl⟩ := List.mem_map.1 hn
    exact width row hrow
  rw [List.length_flatten, List.eq_replicate_of_mem widths, List.sum_replicate_nat, List.length_map]

namespace NestedArray

section Repeating

theorem map_of_mapM {α β : Type} {f : α → Option β} {xs : List α} {ys : List β}
    (h : xs.mapM f = some ys) : xs.map f = ys.map some := by
  induction xs generalizing ys with
  | nil =>
    cases h
    rfl
  | cons x xs ih =>
    rw [List.mapM_cons] at h
    obtain ⟨y, hy, h⟩ := Option.bind_eq_some_iff.1 h
    obtain ⟨ys, hys, h⟩ := Option.bind_eq_some_iff.1 h
    cases h
    rw [List.map_cons, List.map_cons, hy, ih hys]

/-- The rows of a source are repeated one by one. There are as many of them as in the target, or
there is a single one, which stands for all. -/
theorem repeatRows_cons {a b : Nat} {as bs : List Nat} {vs ws : List Value}
    (h : repeatRows (a :: as) (b :: bs) vs = some ws) :
    ∃ wide : List (List Value), wide.length = a ∧
      (∀ row ∈ wide, ∃ i < a,
        repeatRows as bs ((vs.drop (i * volume as)).take (volume as)) = some row) ∧
      (a = b ∧ ws = wide.flatten ∨ a = 1 ∧ ws = (List.replicate b wide.flatten).flatten) := by
  simp only [repeatRows] at h
  split at h
  · cases h
  · rename_i wide hwide
    have rows := map_of_mapM hwide
    refine ⟨wide, by simpa using (congrArg List.length rows).symm, ?_, ?_⟩
    · intro row hrow
      have found : some row ∈ wide.map some := List.mem_map_of_mem hrow
      simpa [← rows] using found
    · split at h
      · exact .inl ⟨‹_›, (Option.some.inj h).symm⟩
      · split at h
        · exact .inr ⟨‹_›, (Option.some.inj h).symm⟩
        · cases h

theorem length_row {a width i : Nat} {vs : List Value} (full : vs.length = a * width) (hi : i < a) :
    ((vs.drop (i * width)).take width).length = width := by
  have room : i * width + width ≤ a * width := by
    rw [← Nat.succ_mul]
    exact Nat.mul_le_mul_right _ hi
  rw [List.length_take, List.length_drop, full]
  omega

/-- Nothing but the entries is shown, and full sources give full targets. -/
theorem repeatRows_spec (source target : List Nat) {vs ws : List Value}
    (h : repeatRows source target vs = some ws) :
    (∀ w ∈ ws, w ∈ vs) ∧ (vs.length = volume source → ws.length = volume target) := by
  induction source generalizing target vs ws with
  | nil =>
    cases target with
    | nil =>
      cases h
      exact ⟨fun _ hw => hw, id⟩
    | cons b bs => cases h
  | cons a as ih =>
    cases target with
    | nil => cases h
    | cons b bs =>
      obtain ⟨wide, rfl, rows, stacked⟩ := repeatRows_cons h
      have shown : ∀ w ∈ wide.flatten, w ∈ vs := by
        intro w hw
        obtain ⟨row, hrow, hw⟩ := List.mem_flatten.1 hw
        obtain ⟨i, _, hrepeat⟩ := rows row hrow
        exact List.mem_of_mem_drop (List.mem_of_mem_take ((ih bs hrepeat).1 w hw))
      have narrow (full : vs.length = volume (wide.length :: as)) :
          wide.flatten.length = wide.length * volume bs := by
        refine length_flatten_of_width fun row hrow => ?_
        obtain ⟨i, hi, hrepeat⟩ := rows row hrow
        exact (ih bs hrepeat).2 (length_row full hi)
      obtain ⟨same, rfl⟩ | ⟨single, rfl⟩ := stacked
      · refine ⟨shown, fun full => ?_⟩
        rw [narrow full, volume, same]
      · -- The single row is as long as a row of the target, and there are `b` copies of it.
        constructor
        · intro w hw
          obtain ⟨row, hrow, hw⟩ := List.mem_flatten.1 hw
          exact shown w (List.eq_of_mem_replicate hrow ▸ hw)
        · intro full
          rw [length_flatten_of_width (w := volume bs), List.length_replicate, volume]
          intro row hrow
          rw [List.eq_of_mem_replicate hrow, narrow full, single, Nat.one_mul]

theorem volume_append (as bs : List Nat) : volume (as ++ bs) = volume as * volume bs := by
  induction as with
  | nil => rw [List.nil_append, volume, Nat.one_mul]
  | cons a as ih => rw [List.cons_append, volume, volume, ih, Nat.mul_assoc]

theorem volume_ones (n : Nat) : volume (List.replicate n 1) = 1 := by
  induction n with
  | zero => rfl
  | succ n ih => rw [List.replicate_succ, volume, ih]

theorem repeatRows_ones (target : List Nat) (v : Value) :
    repeatRows (List.replicate target.length 1) target [v] =
      some (List.replicate (volume target) v) := by
  induction target with
  | nil => rfl
  | cons b bs ih =>
    have rows : ((List.range 1).map fun i => ([v].drop (i * 1)).take 1).mapM
        (repeatRows (List.replicate bs.length 1) bs) =
          some [List.replicate (volume bs) v] := by
      simp [ih]
    simp only [List.length_cons, List.replicate_succ, repeatRows, volume_ones, rows, volume]
    by_cases single : 1 = b
    · simp [← single]
    · simp [single]

end Repeating

section Stretching

theorem volume_dropOnes (axes : Nat) (as : List Nat) : volume (dropOnes axes as) = volume as := by
  fun_induction dropOnes axes as with
  | case1 as _ ih => rw [ih, volume, Nat.one_mul]
  | case2 as _ => rfl
  | case3 as _ => rfl

/-- A full array stretches to a full one, and shows its own entries only. -/
theorem stretch_spec {a : NestedArray} {target : List Nat} {ws : List Value}
    (h : a.stretch target = .ok ws) (full : a.entries.length = volume a.shape) :
    ws.length = volume target ∧ ∀ w ∈ ws, w ∈ a.entries := by
  simp only [stretch] at h
  split at h
  · cases h
  · split at h
    · rename_i vs hvs
      cases h
      obtain ⟨shown, filled⟩ := repeatRows_spec _ _ hvs
      refine ⟨filled ?_, shown⟩
      rw [full, volume_append, volume_ones, volume_dropOnes, Nat.one_mul]
    · cases h

theorem stretch_error {a : NestedArray} {target : List Nat} {f : Fault}
    (h : a.stretch target = .error f) : f.kind = .value := by
  simp only [stretch] at h
  split at h
  · cases h
    rfl
  · split at h
    · cases h
    · cases h
      rfl

theorem stretch_scalar (target : List Nat) (v : Value) (u : Bool) :
    stretch ⟨[], [v], u⟩ target = .ok (List.replicate (volume target) v) := by
  have ones : List.replicate (target.length - 0) 1 ++ ([] : List Nat) =
      List.replicate target.length 1 := by
    simp
  simp only [stretch, dropOnes, List.length_nil, Nat.not_lt_zero, if_false, ones, repeatRows_ones]

end Stretching

section Outlines

theorem commonPart_self (as : List Nat) : commonPart as as = as := by
  induction as with
  | nil => rfl
  | cons a as ih => simp [commonPart, ih]

theorem meet_regular {x y : Outline} (regular : (x.meet y).regular = true) :
    x.meet y = x ∧ y = x := by
  obtain ⟨as, regularX⟩ := x
  obtain ⟨bs, regularY⟩ := y
  obtain ⟨⟨rfl, rfl⟩, rfl⟩ : (regularX = true ∧ regularY = true) ∧ as = bs := by
    simpa [Outline.meet] using regular
  simp [Outline.meet, commonPart_self]

/-- Rows that agree all have the outline of the first. -/
theorem outlineRows_regular {axes : Nat} {before : Outline} {vs : List Value}
    (regular : (outlineRows axes before vs).regular = true) :
    outlineRows axes before vs = before ∧ ∀ v ∈ vs, outline axes v = before := by
  induction vs generalizing before with
  | nil => exact ⟨rfl, by simp⟩
  | cons v vs ih =>
    rw [outlineRows] at regular ⊢
    obtain ⟨rest, rows⟩ := ih regular
    obtain ⟨meet, first⟩ := meet_regular (rest ▸ regular)
    exact ⟨rest.trans meet, List.forall_mem_cons.2 ⟨first, fun w hw => (rows w hw).trans meet⟩⟩

theorem scalarsOf_eq (vs : List Value) : scalarsOf vs = (vs.map scalars).flatten := by
  induction vs with
  | nil => rfl
  | cons v vs ih => rw [scalarsOf, ih, List.map_cons, List.flatten_cons]

theorem length_scalars (axes : Nat) (v : Value) (regular : (outline axes v).regular = true) :
    (scalars v).length = volume (outline axes v).shape := by
  -- An outline is taken with one axis less for the rows, so the induction is on the axes.
  induction axes generalizing v with
  | zero =>
    cases v with
    | tuple items => cases items <;> cases regular
    | _ => rfl
  | succ axes ih =>
    match v with
    | .tuple [] => rfl
    | .tuple (v :: vs) =>
      simp only [outline] at regular ⊢
      obtain ⟨same, rows⟩ := outlineRows_regular regular
      rw [same] at regular ⊢
      have widths : ∀ row ∈ (v :: vs).map scalars, row.length = volume (outline axes v).shape := by
        intro row hrow
        obtain ⟨w, hw, rfl⟩ := List.mem_map.1 hrow
        have outlined : outline axes w = outline axes v := by
          obtain rfl | hw := List.mem_cons.1 hw
          · rfl
          · exact rows w hw
        rw [ih w (outlined ▸ regular), outlined]
      rw [scalars, scalarsOf_eq, length_flatten_of_width widths, List.length_map, volume,
        List.length_cons]
    | .null | .bool _ | .int _ | .float _ _ | .text _ => rfl

mutual

theorem scalar_of_mem_scalars (v : Value) {w : Value} (hw : w ∈ scalars v) : w.Scalar := by
  match v with
  | .tuple vs => exact scalar_of_mem_scalarsOf vs hw
  | .null | .bool _ | .int _ | .float _ _ | .text _ =>
    rw [List.mem_singleton.1 hw]
    exact fun _ => Value.noConfusion

theorem scalar_of_mem_scalarsOf (vs : List Value) {w : Value} (hw : w ∈ scalarsOf vs) :
    w.Scalar := by
  match vs with
  | [] => cases hw
  | v :: vs =>
    obtain hw | hw := List.mem_append.1 hw
    · exact scalar_of_mem_scalars v hw
    · exact scalar_of_mem_scalarsOf vs hw

end

end Outlines

section Entries

/-- Bringing entries to one type keeps their number and makes no tuples. -/
theorem unify_spec {vs : List Value} (scalar : ∀ v ∈ vs, v.Scalar) :
    (unify vs).length = vs.length ∧ ∀ w ∈ unify vs, w.Scalar := by
  have through (f : Value → Value) (keeps : ∀ v, v.Scalar → (f v).Scalar) :
      (vs.map f).length = vs.length ∧ ∀ w ∈ vs.map f, w.Scalar := by
    refine ⟨List.length_map f, ?_⟩
    intro w hw
    obtain ⟨v, hv, rfl⟩ := List.mem_map.1 hw
    exact keeps v (scalar v hv)
  unfold unify
  split
  · refine through asText fun v _ => ?_
    cases v <;> exact fun _ => Value.noConfusion
  · split
    · refine through asFloat fun v h => ?_
      cases v with
      | tuple items => exact absurd rfl (h items)
      | _ => exact fun _ => Value.noConfusion
    · split
      · exact ⟨rfl, scalar⟩
      · refine through asInt fun v h => ?_
        cases v with
        | tuple items => exact absurd rfl (h items)
        | _ => exact fun _ => Value.noConfusion

/-- The array of a value is full of scalars. -/
theorem ofValue_spec {v : Value} {a : NestedArray} (h : ofValue v = .ok a) :
    a.entries.length = volume a.shape ∧ ∀ w ∈ a.entries, w.Scalar := by
  simp only [ofValue] at h
  split at h
  · rename_i regular
    have full := length_scalars _ v regular
    have scalar : ∀ w ∈ scalars v, w.Scalar := fun w => scalar_of_mem_scalars v
    split at h
    · cases h
      exact ⟨full, scalar⟩
    · cases h
      obtain ⟨length, unified⟩ := unify_spec scalar
      exact ⟨length.trans full, unified⟩
  · split at h <;> cases h

theorem ofValue_error {v : Value} {f : Fault} (h : ofValue v = .error f) : f.kind = .value := by
  simp only [ofValue] at h
  split at h
  · split at h <;> cases h
  · split at h
    · cases h
      rfl
    · cases h
      rfl

/-- What a value shows as an array with no axes. -/
def entry : Value → Value
  | .text s => .text (fixedText s)
  | v => v

theorem unify_int (n : Int) : unify [.int n] = [.int n] := by
  have apart : (fitsSigned n && fitsUnsigned n) = false := by
    rw [Bool.and_eq_false_imp]
    intro signed
    simp only [fitsSigned, Bool.and_eq_true, decide_eq_true_eq] at signed
    simp only [fitsUnsigned, decide_eq_false (Int.not_le.2 signed.2), Bool.false_and]
  simp [unify, Value.isText, Value.isFloat, Value.isBool, isSigned, isUnsigned, apart, asInt]

theorem ofValue_scalar {v : Value} (scalar : v.Scalar) :
    ∃ u, ofValue v = .ok ⟨[], [entry v], u⟩ := by
  cases v with
  | tuple items => exact absurd rfl (scalar items)
  | int n =>
    refine ⟨!isLoose (.int n), ?_⟩
    cases loose : isLoose (.int n) <;> simp [ofValue, outline, scalars, loose, unify_int, entry]
  | null => exact ⟨_, rfl⟩
  | bool b => exact ⟨_, rfl⟩
  | float x mark => exact ⟨_, rfl⟩
  | text s => exact ⟨_, rfl⟩

theorem toNat_eq_zero_iff (c : Char) : c.toNat = 0 ↔ c = Char.ofNat 0 := by
  constructor
  · intro h
    rw [← Char.ofNat_toNat c, h]
  · rintro rfl
    rfl

/-- A text is cut exactly if it ends in a NUL. -/
theorem fixedText_eq_iff (s : String) :
    fixedText s = s ↔ s.toList.getLast? ≠ some (Char.ofNat 0) := by
  have cut : fixedText s = s ↔ s.toList.rdropWhile (·.toNat == 0) = s.toList := by
    rw [← String.toList_inj, fixedText, String.toList_ofList]
    rfl
  rw [cut, List.rdropWhile_eq_self_iff]
  obtain empty | ⟨cs, c, hs⟩ := List.eq_nil_or_concat s.toList
  · simp [empty]
  · simp [hs, toNat_eq_zero_iff]

end Entries

end NestedArray

end CellCollapse
