import CellCollapse.Engine.Collapse
import CellCollapse.Proofs.Space

set_option autoImplicit false

/-!
# What a selection finds

A selection reads each unresolved coordinate once and keeps a running minimum. `Scan.Sums` is the
invariant of that loop: the lowest entropy, the candidates and the decided places are those of the
readings so far. The deletions that follow hit an occupied place each, in whatever order they are
made, and leave the undecided coordinates in their order. So a selection comes to what its readings
say: `Engine.select_of_readings`, and up to a fault `Engine.select_of_fault`.
-/
namespace CellCollapse

variable {σ κ δ ρ : Type} {n : Nat}

namespace Engine

/-- The undecided ones among some readings. -/
def undecided (rs : List (κ × Int)) : List (κ × Int) := rs.filter fun r => r.2 != 0

/-- The lowest entropy among the undecided ones. -/
def least? (rs : List (κ × Int)) : Option Int := ((undecided rs).map Prod.snd).min?

/-- The coordinates of lowest entropy among the undecided ones. -/
def lowest (rs : List (κ × Int)) : List κ :=
  ((undecided rs).filter fun r => some r.2 == least? rs).map Prod.fst

theorem lowest_of_least {rs : List (κ × Int)} {m : Int} (h : least? rs = some m) :
    lowest rs = ((undecided rs).filter fun r => r.2 == m).map Prod.fst := by
  simp only [lowest, h, Option.some_beq_some]

theorem least?_le {rs : List (κ × Int)} {m : Int} (h : least? rs = some m) :
    ∀ r ∈ undecided rs, m ≤ r.2 := by
  intro r hr
  exact (List.min?_eq_some_iff.1 h).2 _ (List.mem_map_of_mem hr)

theorem undecided_of_least {rs : List (κ × Int)} (h : least? rs = none) : undecided rs = [] := by
  simpa [least?] using h

section Append

variable (rs : List (κ × Int)) (c : κ) {k : Int}

theorem undecided_append_zero : undecided (rs ++ [(c, 0)]) = undecided rs := by
  simp [undecided]

theorem undecided_append (undecided_k : k ≠ 0) :
    undecided (rs ++ [(c, k)]) = undecided rs ++ [(c, k)] := by
  simp [undecided, undecided_k]

theorem least?_append (undecided_k : k ≠ 0) :
    least? (rs ++ [(c, k)]) = some ((least? rs).elim k (min · k)) := by
  rw [least?, undecided_append rs c undecided_k, least?]
  cases undecided rs with
  | nil => rfl
  | cons r us =>
    simp only [List.map_append, List.map_cons, List.map_nil, List.cons_append, List.min?_cons',
      List.foldl_append, List.foldl_cons, List.foldl_nil, Option.elim_some]

end Append

/-- A reading that is no lower than the lowest one leaves it as it is. -/
theorem least?_append_of_le {rs : List (κ × Int)} {m : Int} (h : least? rs = some m) (c : κ)
    {k : Int} (undecided_k : k ≠ 0) (le : m ≤ k) : least? (rs ++ [(c, k)]) = some m := by
  rw [least?_append rs c undecided_k, h, Option.elim_some, Int.min_eq_left le]

theorem lowest_append_of_lt (rs : List (κ × Int)) (c : κ) {k : Int} (undecided_k : k ≠ 0)
    (lower : ∀ m, least? rs = some m → k < m) :
    least? (rs ++ [(c, k)]) = some k ∧ lowest (rs ++ [(c, k)]) = [c] := by
  have least : least? (rs ++ [(c, k)]) = some k := by
    rw [least?_append rs c undecided_k]
    cases hm : least? rs with
    | none => rfl
    | some m =>
      have := lower m hm
      simp only [Option.elim_some, Option.some.injEq]
      omega
  refine ⟨least, ?_⟩
  have above : (undecided rs).filter (fun r => r.2 == k) = [] := by
    rw [List.filter_eq_nil_iff]
    intro r hr same
    cases hm : least? rs with
    | none => simp [undecided_of_least hm] at hr
    | some m =>
      have := lower m hm
      have := least?_le hm r hr
      have := eq_of_beq same
      omega
  rw [lowest_of_least least, undecided_append rs c undecided_k, List.filter_append, above]
  simp

theorem lowest_append_self {rs : List (κ × Int)} {k : Int} (h : least? rs = some k) (c : κ)
    (undecided_k : k ≠ 0) : lowest (rs ++ [(c, k)]) = lowest rs ++ [c] := by
  have least := least?_append_of_le h c undecided_k (Int.le_refl k)
  rw [lowest_of_least least, lowest_of_least h, undecided_append rs c undecided_k]
  simp

theorem lowest_append_of_gt {rs : List (κ × Int)} {m k : Int} (h : least? rs = some m) (c : κ)
    (undecided_k : k ≠ 0) (higher : m < k) : lowest (rs ++ [(c, k)]) = lowest rs := by
  have least := least?_append_of_le h c undecided_k (Int.le_of_lt higher)
  have apart : ¬ k = m := by omega
  rw [lowest_of_least least, lowest_of_least h, undecided_append rs c undecided_k]
  simp [apart]

end Engine

/-- The scan has found what some readings say. -/
structure Scan.Sums (scan : Scan κ) (rs : List (κ × Int)) : Prop where
  lowest : scan.lowest = Engine.least? rs
  candidates : scan.candidates.toList = Engine.lowest rs
  resolved : ∀ place, place ∈ scan.resolved.map Prod.fst ↔ ∃ c, rs[place]? = some (c, 0)
  once : (scan.resolved.map Prod.fst).Nodup

namespace Scan

open Engine

theorem sums_empty : (empty : Scan κ).Sums [] :=
  ⟨rfl, rfl, by simp [empty], .nil⟩

/-- A reading is decided if an earlier one was, or if it is the last one and zero. -/
theorem exists_decided_append (rs : List (κ × Int)) (c : κ) (k : Int) (place : Nat) :
    (∃ d, (rs ++ [(c, k)])[place]? = some (d, 0)) ↔
      (∃ d, rs[place]? = some (d, 0)) ∨ place = rs.length ∧ k = 0 := by
  rcases Nat.lt_trichotomy place rs.length with before | rfl | after
  · rw [List.getElem?_append_left before]
    simp [Nat.ne_of_lt before]
  · simp
  · rw [List.getElem?_append_right (Nat.le_of_lt after), List.getElem?_eq_none]
    · simp [List.getElem?_eq_none (Nat.le_of_lt after), Nat.ne_of_gt after]
    · simp
      omega

theorem Sums.note_decided {scan : Scan κ} {rs : List (κ × Int)} (h : scan.Sums rs) (c : κ) :
    (scan.note rs.length c 0).Sums (rs ++ [(c, 0)]) := by
  have fresh : rs.length ∉ scan.resolved.map Prod.fst := by
    rw [h.resolved]
    simp
  rw [Scan.note, if_pos rfl]
  refine ⟨?_, ?_, ?_, List.nodup_cons.2 ⟨fresh, h.once⟩⟩
  · rw [least?, undecided_append_zero]
    exact h.lowest
  · rw [Engine.lowest, least?, undecided_append_zero]
    exact h.candidates
  · intro place
    rw [exists_decided_append, ← h.resolved place]
    simp only [List.map_cons, List.mem_cons, and_true]
    exact or_comm

theorem Sums.note_undecided {scan : Scan κ} {rs : List (κ × Int)} (h : scan.Sums rs) (c : κ)
    {k : Int} (undecided_k : k ≠ 0) : (scan.note rs.length c k).Sums (rs ++ [(c, k)]) := by
  -- The decided places stay the same, whatever becomes of the lowest entropy.
  have resolved : ∀ place, place ∈ scan.resolved.map Prod.fst ↔
      ∃ d, (rs ++ [(c, k)])[place]? = some (d, 0) := by
    intro place
    rw [exists_decided_append, h.resolved place]
    simp [undecided_k]
  rw [Scan.note, if_neg undecided_k]
  split
  · rename_i lower
    rw [h.lowest, Option.all_eq_true] at lower
    obtain ⟨least, only⟩ := lowest_append_of_lt rs c undecided_k (by simpa using lower)
    exact ⟨least.symm, only.symm, resolved, h.once⟩
  · rename_i notLower
    rw [h.lowest, Option.all_eq_true] at notLower
    obtain ⟨m, hm, le⟩ : ∃ m, least? rs = some m ∧ m ≤ k := by simpa using notLower
    have least := least?_append_of_le hm c undecided_k le
    split
    · rename_i same
      rw [h.lowest, hm, Option.some.injEq] at same
      subst same
      refine ⟨h.lowest.trans (hm.trans least.symm), ?_, resolved, h.once⟩
      rw [lowest_append_self hm c undecided_k, ← h.candidates, Array.toList_push]
    · rename_i differs
      rw [h.lowest, hm, Option.some.injEq] at differs
      refine ⟨h.lowest.trans (hm.trans least.symm), ?_, resolved, h.once⟩
      rw [lowest_append_of_gt hm c undecided_k (by omega)]
      exact h.candidates

/-- What is noted of a reading keeps the scan in step with the readings. -/
theorem Sums.note {scan : Scan κ} {rs : List (κ × Int)} (h : scan.Sums rs) (c : κ) (k : Int) :
    (scan.note rs.length c k).Sums (rs ++ [(c, k)]) := by
  by_cases decided : k = 0
  · subst decided
    exact h.note_decided c
  · exact h.note_undecided c decided

/-- A scan stops where the readings do, and has found what they say. -/
theorem Sums.along [CellState σ] (space : Space κ δ n) (cells : Vector σ n) {scan : Scan κ}
    {rs : List (κ × Int)} (h : scan.Sums rs) (cs : List κ) :
    (Scan.along space cells rs.length cs scan).1.Sums (rs ++ (readings space cells cs).1) ∧
      (Scan.along space cells rs.length cs scan).2 = (readings space cells cs).2 := by
  induction cs generalizing rs scan with
  | nil =>
    simp only [Scan.along, readings, List.append_nil]
    exact ⟨h, trivial⟩
  | cons c cs ih =>
    simp only [Scan.along, readings]
    cases space.get cells c with
    | error f =>
      simp only [List.append_nil]
      exact ⟨h, trivial⟩
    | ok s =>
      have rest := ih (h.note c (CellState.entropy s))
      simpa only [List.length_append, List.length_singleton, List.append_assoc,
        List.singleton_append] using rest

end Scan

/-- Deletions from distinct places that are all occupied hit a coordinate each. They leave these
places vacant and all others as they were. -/
theorem takeOut_eq (table : Array (Option κ)) {ps : List (Nat × κ)}
    (once : (ps.map Prod.fst).Nodup)
    (occupied : ∀ place ∈ ps.map Prod.fst, ∃ c, table[place]? = some (some c)) :
    (takeOut table ps).2 = none ∧ ∀ q, (takeOut table ps).1[q]? =
      if q ∈ ps.map Prod.fst then some none else table[q]? := by
  induction ps generalizing table with
  | nil => simp [takeOut]
  | cons p ps ih =>
    obtain ⟨place, c⟩ := p
    obtain ⟨fresh, once⟩ := List.nodup_cons.1 once
    obtain ⟨d, hd⟩ := occupied place (by simp)
    have inside : place < table.size := (Array.getElem?_eq_some_iff.1 hd).1
    have after : ∀ q, (table.setIfInBounds place none)[q]? =
        if q = place then some none else table[q]? := by
      intro q
      rw [Array.getElem?_setIfInBounds]
      by_cases same : place = q
      · subst same
        simp [inside]
      · simp [same, Ne.symm same]
    have rest := ih _ once fun q hq => by
      obtain ⟨e, he⟩ := occupied q (List.mem_cons_of_mem _ hq)
      refine ⟨e, ?_⟩
      rw [after, if_neg, he]
      rintro rfl
      exact fresh hq
    simp only [takeOut, hd]
    refine ⟨rest.1, ?_⟩
    intro q
    rw [rest.2 q, after q, List.map_cons]
    by_cases later : q ∈ ps.map Prod.fst
    · simp [later]
    · simp [later]

theorem Engine.filterMap_vacated (rs : List (κ × Int)) :
    (rs.map fun r => if r.2 = 0 then none else some r.1).filterMap id =
      (undecided rs).map Prod.fst := by
  induction rs with
  | nil => rfl
  | cons r rs ih =>
    by_cases decided : r.2 = 0
    · simpa [undecided, decided] using ih
    · simpa [undecided, decided] using ih

/-- What the deletions leave are the undecided coordinates, in their order. -/
theorem Scan.Sums.takeOut {scan : Scan κ} {rs : List (κ × Int)} (h : scan.Sums rs) :
    (takeOut ((rs.map Prod.fst).map some).toArray scan.resolved).2 = none ∧
      (takeOut ((rs.map Prod.fst).map some).toArray scan.resolved).1.toList.filterMap id =
        (Engine.undecided rs).map Prod.fst := by
  have occupied : ∀ place ∈ scan.resolved.map Prod.fst, ∃ c,
      ((rs.map Prod.fst).map some).toArray[place]? = some (some c) := by
    intro place hplace
    obtain ⟨c, hc⟩ := (h.resolved place).1 hplace
    exact ⟨c, by simp [hc]⟩
  obtain ⟨hit, left⟩ := takeOut_eq _ h.once occupied
  refine ⟨hit, ?_⟩
  have vacated :
      (CellCollapse.takeOut ((rs.map Prod.fst).map some).toArray scan.resolved).1.toList =
        rs.map fun r => if r.2 = 0 then none else some r.1 := by
    apply List.ext_getElem?
    intro q
    have place := h.resolved q
    rw [Array.getElem?_toList, left q, List.getElem?_map]
    cases hq : rs[q]? with
    | none => simp [hq, place]
    | some r =>
      obtain ⟨c, k⟩ := r
      by_cases decided : k = 0
      · simp [hq, place, decided]
      · simp [hq, place, decided]
  rw [vacated, Engine.filterMap_vacated]

namespace Engine

variable [CellState σ] {e : Engine σ κ δ ρ n} {r : Run σ κ ρ n}

theorem readings_error {space : Space κ δ n} {cells : Vector σ n} {cs : List κ} {f : Fault}
    (h : (readings space cells cs).2 = some f) : space.Unreadable f cs := by
  induction cs with
  | nil => simp [readings] at h
  | cons c cs ih =>
    simp only [readings] at h
    cases hc : space.get cells c with
    | error g =>
      simp only [hc, Option.some.injEq] at h
      exact .head (h ▸ Space.get_eq_error hc)
    | ok s =>
      simp only [hc] at h
      obtain ⟨i, hi, _⟩ := (space.get_eq_ok_iff cells c s).1 hc
      exact .tail hi (ih h)

/-- Readings without a fault pair every coordinate with the entropy of its cell. -/
theorem readings_ok {space : Space κ δ n} {cells : Vector σ n} {cs : List κ}
    (h : (readings space cells cs).2 = none) :
    (readings space cells cs).1.map Prod.fst = cs ∧
      ∀ q ∈ (readings space cells cs).1, ∃ i, space.slot q.1 = .ok i ∧
        q.2 = CellState.entropy (cells.get i) := by
  induction cs with
  | nil => simp [readings]
  | cons c cs ih =>
    simp only [readings] at h ⊢
    cases hc : space.get cells c with
    | error g => simp [hc] at h
    | ok s =>
      simp only [hc] at h
      obtain ⟨hmap, hall⟩ := ih h
      obtain ⟨i, hi, hs⟩ := (space.get_eq_ok_iff cells c s).1 hc
      refine ⟨by simp [hmap], ?_⟩
      intro q hq
      rcases List.mem_cons.1 hq with rfl | hq
      · exact ⟨i, hi, by rw [hs]⟩
      · exact hall q hq

/-- A test on readings is a test on coordinates that looks up the entropy itself. -/
theorem map_filter_readings {space : Space κ δ n} {cells : Vector σ n} {cs : List κ}
    (h : (readings space cells cs).2 = none) (p : Int → Bool) (q : κ → Bool)
    (agree : ∀ c i, space.slot c = .ok i → p (CellState.entropy (cells.get i)) = q c) :
    ((readings space cells cs).1.filter fun x => p x.2).map Prod.fst = cs.filter q := by
  obtain ⟨hmap, hall⟩ := readings_ok h
  calc
    _ = ((readings space cells cs).1.filter (q ∘ Prod.fst)).map Prod.fst := by
      congr 1
      apply List.filter_congr
      intro x hx
      obtain ⟨i, hi, hentropy⟩ := hall x hx
      rw [hentropy, agree x.1 i hi, Function.comp]
    _ = ((readings space cells cs).1.map Prod.fst).filter q := by rw [List.filter_map]
    _ = _ := by rw [hmap]

theorem lowest_subset (rs : List (κ × Int)) : ∀ c ∈ lowest rs, c ∈ (undecided rs).map Prod.fst := by
  intro c hc
  simp only [lowest, List.mem_map, List.mem_filter] at hc ⊢
  obtain ⟨q, ⟨hq, _⟩, rfl⟩ := hc
  exact ⟨q, hq, rfl⟩

theorem undecided_eq_nil_of_lowest {rs : List (κ × Int)} (h : lowest rs = []) :
    undecided rs = [] := by
  cases hm : least? rs with
  | none => simpa [least?] using hm
  | some m =>
    -- The least entropy is read somewhere, so there is a coordinate of lowest entropy.
    obtain ⟨q, hq, hqm⟩ := List.mem_map.1 (List.min?_mem hm)
    have hmem : q.1 ∈ lowest rs := by
      simp only [lowest, hm, List.mem_map, List.mem_filter]
      exact ⟨q, ⟨hq, by simp [hqm]⟩, rfl⟩
    rw [h] at hmem
    cases hmem

/-- A fault of the space ends the selection with the candidates so far. -/
theorem select_of_fault {f : Fault} (h : (readings e.space r.cells r.unresolved).2 = some f) :
    e.select r = ({ r with candidates := lowest (readings e.space r.cells r.unresolved).1 },
      .error (.raised f)) := by
  obtain ⟨sums, stopped⟩ := Scan.sums_empty.along e.space r.cells r.unresolved
  simp only [List.length_nil, List.nil_append] at sums stopped
  simp only [select, Space.select, stopped, h, sums.candidates]

/-- A selection that can read all unresolved coordinates takes the decided ones out and breaks the
tie among those of lowest entropy. -/
theorem select_of_readings (h : (readings e.space r.cells r.unresolved).2 = none) :
    e.select r = match lowest (readings e.space r.cells r.unresolved).1 with
      | [] => ({ r with
          candidates := []
          unresolved := (undecided (readings e.space r.cells r.unresolved).1).map Prod.fst },
          .ok none)
      | c :: cs => ({ r with
          candidates := c :: cs
          unresolved := (undecided (readings e.space r.cells r.unresolved).1).map Prod.fst
          context := (e.pick cs.length r.context).2 },
          .ok (if e.space.nowhere ((c :: cs).get (e.pick cs.length r.context).1) then none
            else some ((c :: cs).get (e.pick cs.length r.context).1))) := by
  obtain ⟨sums, stopped⟩ := Scan.sums_empty.along e.space r.cells r.unresolved
  simp only [List.length_nil, List.nil_append] at sums stopped
  obtain ⟨hit, left⟩ := sums.takeOut
  rw [(readings_ok h).1] at hit left
  simp only [select, Space.select, stopped, h, hit, left, sums.candidates]
  cases lowest (readings e.space r.cells r.unresolved).1 <;> rfl

end Engine

end CellCollapse
