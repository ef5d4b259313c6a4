import CellCollapse.Proofs.Rule.Choice
import CellCollapse.Proofs.Rule.Order

set_option autoImplicit false

/-!
# Reactions of a cell

What a cell keeps beside neighbors of any number. The neighbors are gone through in order and the
first one without an allowed value decides, so a neighbor beyond the offsets is met only by a value
that all the neighbors within the offsets back. One such value is enough for a fault, and then the
cell stays as it was. Otherwise a reaction keeps the backed values. It is idempotent, and what it
keeps can only shrink with the cell and its neighbors.
-/
namespace CellCollapse

/-- As long as a value remains, a filter lowers the entropy whenever it removes one. -/
theorem Possibilities.entropy_filter_lt_iff {α : Type} [BEq α] {s : Possibilities α}
    {keep : α → Bool} (filled : (s.filter keep).isEmpty = false) :
    (s.filter keep).entropy < s.entropy ↔ ∃ v ∈ s.toList, v ∉ (s.filter keep).toList := by
  have remains : 0 < (s.toList.filter keep).length := by
    rw [List.length_pos_iff, ← List.isEmpty_eq_false_iff]
    exact filled
  have drop : (s.filter keep).entropy < s.entropy ↔
      (s.toList.filter keep).length < s.toList.length := by
    change (s.toList.filter keep).length - 1 < s.toList.length - 1 ↔ _
    omega
  rw [drop, List.length_filter_lt_length_iff_exists]
  refine exists_congr fun v => and_congr_right fun hv => ?_
  simp [filter, hv]

namespace Table

variable {α δ ρ : Type} [BEq α]

/-- A known value that all neighbors within the offsets back, with a neighbor beyond them. -/
def Overruns (t : Table α δ) (v : α) (ns : List (Option (Possibilities α))) : Prop :=
  t.knows v = true ∧ (∃ k s, t.offsets.length ≤ k ∧ ns[k]? = some (some s)) ∧
    ∀ k s, ns[k]? = some (some s) → k < t.offsets.length → ∃ b ∈ s.toList, t.permits v k b = true

section Walk

theorem forall_present_cons {P : Nat → Possibilities α → Prop} {o : Option (Possibilities α)}
    {ns : List (Option (Possibilities α))} :
    (∀ k s, (o :: ns)[k]? = some (some s) → P k s) ↔
      (∀ s, o = some s → P 0 s) ∧ ∀ k s, ns[k]? = some (some s) → P (k + 1) s := by
  constructor
  · intro h
    refine ⟨fun s hs => h 0 s (by rw [hs]; rfl), fun k s hk => h (k + 1) s hk⟩
  · rintro ⟨first, rest⟩ k s hk
    cases k with
    | zero => exact first s (Option.some.inj hk)
    | succ k => exact rest k s hk

theorem exists_present_cons {P : Nat → Possibilities α → Prop} {o : Option (Possibilities α)}
    {ns : List (Option (Possibilities α))} :
    (∃ k s, P k s ∧ (o :: ns)[k]? = some (some s)) ↔
      (∃ s, o = some s ∧ P 0 s) ∨ ∃ k s, P (k + 1) s ∧ ns[k]? = some (some s) := by
  constructor
  · rintro ⟨k, s, hp, hk⟩
    cases k with
    | zero => exact .inl ⟨s, Option.some.inj hk, hp⟩
    | succ k => exact .inr ⟨k, s, hp, hk⟩
  · rintro (⟨s, rfl, hp⟩ | ⟨k, s, hp, hk⟩)
    · exact ⟨0, s, hp, rfl⟩
    · exact ⟨k + 1, s, hp, hk⟩

omit [BEq α] in
theorem getD_tail (rows : List (List α)) (k : Nat) :
    rows.tail.getD k [] = rows.getD (k + 1) [] := by
  cases rows with
  | nil => rfl
  | cons row rows => rfl

variable [EquivBEq α] (rows : List (List α)) (ns : List (Option (Possibilities α)))

/-- The walk comes to its end if every neighbor has an allowed value, none of them beyond the
lists. -/
theorem supported_true_iff : supported rows ns = .ok true ↔
    ∀ k s, ns[k]? = some (some s) → ∃ x ∈ s.toList, (rows.getD k []).any (· == x) = true := by
  fun_induction supported rows ns with
  | case1 rows => simp
  | case2 rows ns ih =>
    rw [ih, forall_present_cons]
    simp only [getD_tail]
    exact ⟨fun h => ⟨nofun, h⟩, And.right⟩
  | case3 s ns =>
    refine iff_of_false nofun fun h => ?_
    obtain ⟨x, _, allowed⟩ := h 0 s rfl
    cases allowed
  | case4 row rows s ns unbacked =>
    refine iff_of_false (by simp) fun h => ?_
    rw [(disjoint_eq_false_iff row s).2 (h 0 s rfl)] at unbacked
    cases unbacked
  | case5 row rows s ns backed ih =>
    have first := (disjoint_eq_false_iff row s).1 (Bool.eq_false_iff.2 backed)
    rw [ih, forall_present_cons]
    refine ⟨fun h => ⟨?_, h⟩, And.right⟩
    rintro _ ⟨⟩
    exact first

/-- The walk fails at a neighbor beyond the lists, if all neighbors within them let it pass. -/
theorem supported_error_iff : supported rows ns = .error .missingOffset ↔
    (∃ k s, rows.length ≤ k ∧ ns[k]? = some (some s)) ∧
      ∀ k s, ns[k]? = some (some s) → k < rows.length →
        ∃ x ∈ s.toList, (rows.getD k []).any (· == x) = true := by
  fun_induction supported rows ns with
  | case1 rows => simp
  | case2 rows ns ih =>
    rw [ih, exists_present_cons, forall_present_cons]
    simp only [getD_tail, List.length_tail, Nat.sub_le_iff_le_add, Nat.lt_sub_iff_add_lt]
    simp
  | case3 s ns =>
    refine iff_of_true rfl ⟨⟨0, s, Nat.le_refl _, rfl⟩, ?_⟩
    intro k s _ inside
    cases inside
  | case4 row rows s ns unbacked =>
    refine iff_of_false nofun fun h => ?_
    rw [(disjoint_eq_false_iff row s).2 (h.2 0 s rfl (Nat.zero_lt_succ _))] at unbacked
    cases unbacked
  | case5 row rows s ns backed ih =>
    have first := (disjoint_eq_false_iff row s).1 (Bool.eq_false_iff.2 backed)
    rw [ih, exists_present_cons, forall_present_cons]
    simp only [List.length_cons, Nat.add_le_add_iff_right, Nat.add_lt_add_iff_right]
    refine and_congr (or_iff_right (by simp)).symm ⟨fun h => ⟨?_, h⟩, And.right⟩
    rintro _ ⟨⟩ _
    exact first

end Walk

section Admission

variable {t : Table α δ} {ns : List (Option (Possibilities α))} {v : α}

theorem forall_absent_iff :
    (∀ (k : Nat) (s : Possibilities α), ns[k]? ≠ some (some s)) ↔ ∀ o ∈ ns, o = none := by
  constructor
  · intro absent o ho
    cases o with
    | none => rfl
    | some s =>
      obtain ⟨k, hk⟩ := List.mem_iff_getElem?.1 ho
      exact absurd hk (absent k s)
  · intro absent k s hk
    cases absent _ (List.mem_of_getElem? hk)

theorem knows_of_permits {k : Nat} {b : α} (h : t.permits v k b = true) : t.knows v = true := by
  unfold permits at h
  unfold knows
  cases he : t.entry? v with
  | none => simp [he] at h
  | some e => rfl

/-- A value without an entry is backed only where there is no neighbor. -/
theorem backed_iff : t.Backed v ns ↔ (∀ o ∈ ns, o = none) ∨ t.knows v = true ∧ t.Backed v ns := by
  constructor
  · intro backed
    cases known : t.knows v with
    | true => exact .inr ⟨rfl, backed⟩
    | false =>
      refine .inl (forall_absent_iff.1 fun k s hk => ?_)
      obtain ⟨b, _, permitted⟩ := backed k s hk
      cases known.symm.trans (knows_of_permits permitted)
  · rintro (absent | ⟨_, backed⟩)
    · intro k s hk
      exact absurd hk (forall_absent_iff.2 absent k s)
    · exact backed

variable [EquivBEq α]

theorem admits_true_iff : t.admits v ns = .ok true ↔ t.Backed v ns := by
  unfold admits
  cases he : t.entry? v with
  | none =>
    have unknown : t.knows v = false := by simp [knows, he]
    rw [backed_iff, unknown]
    simp [List.all_eq_true]
  | some e =>
    unfold Backed permits
    rw [he]
    exact supported_true_iff e.allowed ns

theorem admits_error_iff : t.admits v ns = .error .missingOffset ↔ t.Overruns v ns := by
  unfold admits Overruns knows permits
  cases he : t.entry? v with
  | none => simp
  | some e =>
    rw [← t.width e (List.mem_of_find?_eq_some he)]
    exact (supported_error_iff e.allowed ns).trans (and_iff_right rfl).symm

theorem Overruns.congr {w : α} (same : (v == w) = true) (h : t.Overruns v ns) :
    t.Overruns w ns := by
  rw [← admits_error_iff] at h ⊢
  rwa [← t.admits_congr same]

theorem Backed.congr {w : α} (same : (v == w) = true) (h : t.Backed v ns) : t.Backed w ns := by
  rw [← admits_true_iff] at h ⊢
  rwa [← t.admits_congr same]

end Admission

section Reaction

variable {t : Table α δ} {cell : Possibilities α} {ns : List (Option (Possibilities α))}

theorem kind_of_firstFault? {vs : List α} {f : Fault} (h : t.firstFault? ns vs = some f) :
    f = .missingOffset := by
  obtain ⟨v, _, hv⟩ := List.exists_of_findSome?_eq_some h
  split at hv
  · cases hv
  · rename_i g admitted
    cases hv
    exact admits_error admitted

variable [EquivBEq α]

theorem firstFault?_eq_none_iff {vs : List α} :
    t.firstFault? ns vs = none ↔ ∀ v ∈ vs, ¬ t.Overruns v ns := by
  rw [firstFault?, List.findSome?_eq_none_iff]
  refine forall₂_congr fun v _ => ?_
  rw [← admits_error_iff]
  cases h : t.admits v ns with
  | ok b => simp
  | error f => simp [admits_error h]

theorem collapse_of_calm (calm : ∀ v ∈ cell.toList, ¬ t.Overruns v ns) (x : ρ) :
    t.collapse cell ns x = ⟨cell.filter (t.keeps ns), ns, x, none⟩ := by
  rw [collapse, firstFault?_eq_none_iff.2 calm]

theorem collapse_of_overruns (h : ∃ v ∈ cell.toList, t.Overruns v ns) (x : ρ) :
    t.collapse cell ns x = ⟨cell, ns, x, some .missingOffset⟩ := by
  obtain ⟨v, hv, overruns⟩ := h
  unfold collapse
  cases hfault : t.firstFault? ns cell.toList with
  | none => exact absurd overruns (firstFault?_eq_none_iff.1 hfault v hv)
  | some f => rw [kind_of_firstFault? hfault]

theorem keeps_iff_backed (v : α) : t.keeps ns v = true ↔ t.Backed v ns :=
  (keeps_iff_admits v).trans admits_true_iff

end Reaction

section Shrinking

variable [EquivBEq α] {t : Table α δ} {ns ns' : List (Option (Possibilities α))}

/-- The same neighbors are present, and each has no more values than before. -/
abbrev Shrunk (ns' ns : List (Option (Possibilities α))) : Prop :=
  List.Forall₂ (Option.Rel fun s' s => s'.subset s = true) ns' ns

omit [EquivBEq α] in
theorem Shrunk.before (shrunk : Shrunk ns' ns) {k : Nat} {s' : Possibilities α}
    (h : ns'[k]? = some (some s')) : ∃ s, ns[k]? = some (some s) ∧ s'.subset s = true := by
  have entry := getElem?_related shrunk k
  rw [h] at entry
  generalize ns[k]? = o at entry ⊢
  cases entry with
  | some within =>
    cases within with
    | some subset => exact ⟨_, rfl, subset⟩

omit [EquivBEq α] in
theorem Shrunk.after (shrunk : Shrunk ns' ns) {k : Nat} {s : Possibilities α}
    (h : ns[k]? = some (some s)) : ∃ s', ns'[k]? = some (some s') ∧ s'.subset s = true := by
  have entry := getElem?_related shrunk k
  rw [h] at entry
  generalize ns'[k]? = o at entry ⊢
  cases entry with
  | some within =>
    cases within with
    | some subset => exact ⟨_, rfl, subset⟩

theorem exists_permits_mono {s' s : Possibilities α} (subset : s'.subset s = true) {v : α} {k : Nat}
    (h : ∃ b ∈ s'.toList, t.permits v k b = true) : ∃ b ∈ s.toList, t.permits v k b = true := by
  obtain ⟨b', hb', permitted⟩ := h
  have held := (Possibilities.subset_iff s' s).1 subset b' (Possibilities.contains_of_mem hb')
  obtain ⟨b, hb, same⟩ := (s.contains_iff b').1 held
  exact ⟨b, hb, (t.permits_congr_right same v k).trans permitted⟩

theorem Backed.mono (shrunk : Shrunk ns' ns) {v : α} (h : t.Backed v ns') : t.Backed v ns := by
  intro k s hk
  obtain ⟨s', hk', subset⟩ := shrunk.after hk
  exact exists_permits_mono subset (h k s' hk')

theorem Overruns.mono (shrunk : Shrunk ns' ns) {v : α} (h : t.Overruns v ns') :
    t.Overruns v ns := by
  obtain ⟨known, ⟨k, s', beyond, hk'⟩, within⟩ := h
  obtain ⟨s, hk, _⟩ := shrunk.before hk'
  refine ⟨known, ⟨k, s, beyond, hk⟩, ?_⟩
  intro l u hl inside
  obtain ⟨u', hl', subset⟩ := shrunk.after hl
  exact exists_permits_mono subset (within l u' hl' inside)

/-- With less to begin with there is no new fault, and no more is kept. -/
theorem collapse_mono {cell' cell : Possibilities α} (smaller : cell'.subset cell = true)
    (shrunk : Shrunk ns' ns) (calm : ∀ v ∈ cell.toList, ¬ t.Overruns v ns) :
    (∀ v ∈ cell'.toList, ¬ t.Overruns v ns') ∧
      (cell'.filter (t.keeps ns')).subset (cell.filter (t.keeps ns)) = true := by
  -- A value of the smaller cell stands for an equal one of the larger.
  have origin : ∀ w ∈ cell'.toList, ∃ v ∈ cell.toList, (v == w) = true := fun w hw =>
    (cell.contains_iff w).1
      ((Possibilities.subset_iff cell' cell).1 smaller w (Possibilities.contains_of_mem hw))
  constructor
  · intro w hw overrun
    obtain ⟨v, hv, same⟩ := origin w hw
    exact calm v hv ((overrun.mono shrunk).congr (BEq.symm same))
  · rw [Possibilities.subset, List.all_eq_true]
    intro w hw
    obtain ⟨hw, kept⟩ := List.mem_filter.1 hw
    obtain ⟨v, hv, same⟩ := origin w hw
    have backed := (((keeps_iff_backed w).1 kept).mono shrunk).congr (BEq.symm same)
    rw [Possibilities.contains_iff]
    exact ⟨v, List.mem_filter.2 ⟨hv, (keeps_iff_backed v).2 backed⟩, same⟩

end Shrinking

theorem collapse_keeps_backed [EquivBEq α] (t : Table α δ) (cell : Possibilities α)
    (ns : List (Option (Possibilities α))) (x : ρ) :
    let r := t.collapse cell ns x
    ((∃ f, r.fault = some f ∧ f.kind = .index) ↔ ∃ v ∈ cell.toList, t.Overruns v ns) ∧
      (∀ f, r.fault = some f → f.kind = .index ∧ r.cell = cell) ∧
      (r.fault = none →
        (∀ v, v ∈ r.cell.toList ↔ v ∈ cell.toList ∧
          ((∀ o ∈ ns, o = none) ∨ t.knows v = true ∧ t.Backed v ns)) ∧
        (∀ y : ρ, t.collapse r.cell ns y = ⟨r.cell, ns, y, none⟩) ∧
        (∀ cell' ns', ∀ y : ρ, cell'.subset cell = true → Shrunk ns' ns →
          (t.collapse cell' ns' y).fault = none ∧
            (t.collapse cell' ns' y).cell.subset r.cell = true) ∧
        (r.cell.isEmpty = false →
          (r.cell.entropy < cell.entropy ↔ ∃ v ∈ cell.toList, v ∉ r.cell.toList))) := by
  intro r
  by_cases overrun : ∃ v ∈ cell.toList, t.Overruns v ns
  · have reply : r = ⟨cell, ns, x, some .missingOffset⟩ := collapse_of_overruns overrun x
    rw [reply]
    refine ⟨iff_of_true ⟨_, rfl, rfl⟩ overrun, ?_, nofun⟩
    rintro _ ⟨⟩
    exact ⟨rfl, rfl⟩
  · have calm : ∀ v ∈ cell.toList, ¬ t.Overruns v ns := fun v hv h => overrun ⟨v, hv, h⟩
    have reply : r = ⟨cell.filter (t.keeps ns), ns, x, none⟩ := collapse_of_calm calm x
    rw [reply]
    refine ⟨iff_of_false nofun overrun, nofun, ?_⟩
    rintro -
    refine ⟨?_, ?_, ?_, Possibilities.entropy_filter_lt_iff⟩
    · intro v
      rw [← backed_iff, ← keeps_iff_backed]
      exact List.mem_filter
    · intro y
      have same : (cell.filter (t.keeps ns)).filter (t.keeps ns) = cell.filter (t.keeps ns) :=
        Possibilities.filter_eq_self fun v hv => (List.mem_filter.1 hv).2
      rw [collapse_of_calm (fun v hv => calm v (List.mem_filter.1 hv).1), same]
    · intro cell' ns' y smaller shrunk
      obtain ⟨calm', subset⟩ := collapse_mono smaller shrunk calm
      rw [collapse_of_calm calm']
      exact ⟨rfl, subset⟩

-- The one is backed by the zero beside it and meets a second neighbor, which is one too many.
theorem collapse_keeps_backed_uneven :
    let cell : Possibilities Int := .ofList [5, 0, 1]
    let crowded : List (Option (Possibilities Int)) := [some (.only 0), some (.only 5)]
    let beside : List (Option (Possibilities Int)) := [some (.ofList [0, 3])]
    let r := uneven.collapse cell beside ()
    ((∃ f, (uneven.collapse cell crowded ()).fault = some f ∧ f.kind = .index) ∧
        (uneven.collapse cell crowded ()).cell = cell) ∧
      r.fault = none ∧ (1 ∈ r.cell.toList ∧ 0 ∉ r.cell.toList ∧ 5 ∉ r.cell.toList) ∧
      uneven.collapse r.cell beside () = ⟨r.cell, beside, (), none⟩ ∧
      (uneven.collapse (.ofList [1, 0]) [some (.only 0)] ()).cell.subset r.cell = true ∧
      r.cell.isEmpty = false ∧ r.cell.entropy < cell.entropy := by
  intro cell crowded beside r
  have overrun : ∃ v ∈ cell.toList, uneven.Overruns v crowded := by
    refine ⟨1, by decide, by decide, ⟨1, .only 5, by decide, rfl⟩, ?_⟩
    intro k s hk inside
    obtain rfl : k = 0 := Nat.lt_one_iff.1 inside
    cases hk
    exact ⟨0, by decide, by decide⟩
  obtain ⟨raises, unchanged, _⟩ := uneven.collapse_keeps_backed cell crowded ()
  obtain ⟨f, raised, kind⟩ := raises.2 overrun
  obtain ⟨_, _, calm⟩ := uneven.collapse_keeps_backed cell beside ()
  obtain ⟨_, idempotent, mono, drops⟩ := calm rfl
  have within : Shrunk [some (.only 0)] beside := .cons (.some (by decide)) .nil
  exact ⟨⟨⟨f, raised, kind⟩, (unchanged f raised).2⟩, rfl, by decide, idempotent (),
    (mono (.ofList [1, 0]) _ () (by decide) within).2, rfl, (drops rfl).2 ⟨5, by decide, by decide⟩⟩

end Table

end CellCollapse
