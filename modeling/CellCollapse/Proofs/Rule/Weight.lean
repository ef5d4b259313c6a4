import CellCollapse.Rule.Table

set_option autoImplicit false

/-!
# Weights of a table

When a table can be made of given rows and weights, and which weight each of its entries gets. A
count is a weight above zero, however large it is: `Binary64.isPositive_ofInt`.
-/
namespace CellCollapse

namespace Binary64

theorem ratioBits_le (num den : Nat) : ratioBits num den ≤ infinityBits := by
  unfold ratioBits
  split
  · exact Nat.zero_le _
  · exact Nat.min_le_right _ _

theorem ratioBits_pos {m : Nat} (h : 0 < m) : 0 < ratioBits m 1 := by
  -- A count has its last kept bit at `2^-53` or above, so the exponent field is not zero.
  have last : -53 ≤ lastExponent m 1 := by
    simp only [lastExponent, show Nat.log2 1 = 0 from rfl]
    split <;> omega
  have field : 0 < (lastExponent m 1 + 1074).toNat := by omega
  have scaled : 0 < (lastExponent m 1 + 1074).toNat * Nat.pow 2 52 :=
    Nat.mul_pos field (Nat.pow_pos Nat.two_pos)
  rw [ratioBits, if_neg (by omega)]
  exact Nat.lt_min.2 ⟨Nat.add_pos_left scaled _, by decide⟩

theorem toNat_bits_ofInt (m : Nat) : (ofInt m).bits.toNat = ratioBits m 1 := by
  have small : ratioBits m 1 < 2 ^ 64 :=
    Nat.lt_of_le_of_lt (ratioBits_le m 1) (by decide)
  have sign : decide ((m : Int) < 0) = false := by
    rw [decide_eq_false_iff_not]
    omega
  simp only [ofInt, ofRatio, signed, sign, Int.natAbs_natCast, Bool.false_eq_true, if_false,
    Nat.add_zero, UInt64.toNat_ofNat']
  exact Nat.mod_eq_of_lt small

theorem isPositive_ofInt {m : Nat} (h : 0 < m) : (ofInt m).isPositive = true := by
  rw [isPositive, toNat_bits_ofInt, Bool.and_eq_true, decide_eq_true_eq, decide_eq_true_eq]
  exact ⟨ratioBits_pos h, ratioBits_le m 1⟩

end Binary64

section Weighing

variable {α : Type} {weigh : α → Except Fault Binary64} {ps : List (α × List (List α))}

theorem weighEntries_exists (readable : ∀ p ∈ ps, ∃ w, weigh p.1 = .ok w) :
    ∃ es, weighEntries weigh ps = .ok es := by
  induction ps with
  | nil => exact ⟨[], rfl⟩
  | cons p ps ih =>
    obtain ⟨w, hw⟩ := readable p List.mem_cons_self
    obtain ⟨es, hes⟩ := ih fun q hq => readable q (List.mem_cons_of_mem _ hq)
    exact ⟨⟨p.1, p.2, w⟩ :: es, by simp only [weighEntries, hw, hes]⟩

theorem weighEntries_weight {es : List (Entry α)} (h : weighEntries weigh ps = .ok es) :
    ∀ e ∈ es, weigh e.value = .ok e.weight := by
  induction ps generalizing es with
  | nil =>
    cases h
    simp
  | cons p ps ih =>
    simp only [weighEntries] at h
    cases hw : weigh p.1 with
    | error f => simp [hw] at h
    | ok w =>
      cases hs : weighEntries weigh ps with
      | error f => simp [hw, hs] at h
      | ok rest =>
        simp only [hw, hs, Except.ok.injEq] at h
        subst h
        intro e he
        rcases List.mem_cons.1 he with rfl | he
        · exact hw
        · exact ih hs e he

end Weighing

namespace Table

variable {α δ : Type} [BEq α] [AsValue α] {offsets : List δ} {allowed : Assoc α (List (List α))}
  {weights : Assoc α Value}

theorem make_entries {t : Table α δ} (h : make offsets allowed weights = .ok t) :
    t.offsets = offsets ∧ weighEntries (readWeight weights) allowed.pairs = .ok t.entries := by
  unfold make at h
  split at h
  · cases h
  · split at h
    · cases h
    · split at h
      · cases h
      · rename_i es weighed
        unfold ofEntries at h
        split at h
        · cases h
          exact ⟨rfl, weighed⟩
        · cases h

/-- Rows of the right width and positive weights for known values make a table. -/
theorem make_exists (width : ∀ p ∈ allowed.pairs, p.2.length = offsets.length)
    (known : ∀ v ∈ weights.keys, allowed.contains v = true)
    (weighed : ∀ p ∈ allowed.pairs, ∃ w, readWeight weights p.1 = .ok w ∧ w.isPositive = true) :
    ∃ t, make offsets allowed weights = .ok t := by
  unfold make
  split
  · rename_i p hp
    have wrong := List.find?_some hp
    simp [width p (List.mem_of_find?_eq_some hp)] at wrong
  · split
    · rename_i v vs unknown
      have absent : v ∈ weights.keys.filter fun v => !allowed.contains v := by simp [unknown]
      rw [List.mem_filter] at absent
      simp [known v absent.1] at absent
    · split
      · rename_i f failed
        obtain ⟨es, hes⟩ : ∃ es, weighEntries (readWeight weights) allowed.pairs = .ok es :=
          weighEntries_exists fun p hp => (weighed p hp).imp fun _ h => h.1
        cases hes.symm.trans failed
      · rename_i es hes
        refine ⟨_, dif_pos ?_⟩
        intro e he
        have row : (e.value, e.allowed) ∈ allowed.pairs := by
          rw [← weighEntries_rows hes]
          exact List.mem_map_of_mem he
        obtain ⟨w, hw, positive⟩ := weighed _ row
        cases (weighEntries_weight hes e he).symm.trans hw
        exact positive

end Table

end CellCollapse
