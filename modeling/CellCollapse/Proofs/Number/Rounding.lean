import CellCollapse.Number.Binary64
import Mathlib

set_option autoImplicit false

/-!
# Rounding to 53 digits

Numbers are counted in units of the smallest number above zero, so that every number of the format
and every sum of such numbers is a natural. `Binary64.rounded` keeps the order of naturals and does
not change a natural of 53 digits, whatever zeros follow them. `Binary64.plus` is then a sum that
stops at infinity: a part of the summands has no larger sum than all of them.
-/
namespace CellCollapse.Binary64

theorem nearestNat_mul_self {d : Nat} (hd : 0 < d) (q : Nat) : nearestNat (q * d) d = q := by
  simp [nearestNat, Nat.mul_div_cancel _ hd, Nat.mul_mod_left, hd]

theorem nearestNat_mono {d a b : Nat} (hd : 0 < d) (h : a ≤ b) :
    nearestNat a d ≤ nearestNat b d := by
  have ha := Nat.div_add_mod a d
  have hb := Nat.div_add_mod b d
  have hra := Nat.mod_lt a hd
  have hq := Nat.div_le_div_right (c := d) h
  unfold nearestNat
  dsimp only
  rcases Nat.eq_or_lt_of_le hq with same | less
  · rw [same] at ha ⊢
    split_ifs <;> omega
  · split_ifs <;> omega

/-- A ratio may be extended. -/
theorem nearestNat_mul_mul {c : Nat} (hc : 0 < c) (a d : Nat) :
    nearestNat (a * c) (d * c) = nearestNat a d := by
  unfold nearestNat
  dsimp only
  rw [Nat.mul_div_mul_right a d hc, Nat.mul_mod_mul_right, ← Nat.mul_assoc]
  simp only [Nat.mul_lt_mul_right hc]

theorem log2_mul_two_pow {m : Nat} (positive : 0 < m) (j : Nat) :
    (m * 2 ^ j).log2 = m.log2 + j := by
  rw [Nat.log2_eq_iff (by positivity)]
  constructor
  · rw [Nat.pow_add]
    exact Nat.mul_le_mul_right _ (Nat.log2_self_le positive.ne')
  · rw [Nat.add_right_comm, Nat.pow_add]
    exact Nat.mul_lt_mul_of_pos_right Nat.lt_log2_self (Nat.two_pow_pos j)

/-- The number of digits of a natural beyond the first 53. -/
def excess (n : Nat) : Nat := n.log2 - 52

/-- The nearest natural with no more than 53 digits before its zeros; a half goes to the even
neighbour. -/
def rounded (n : Nat) : Nat := nearestNat n (2 ^ excess n) * 2 ^ excess n

theorem lt_two_pow_excess (n : Nat) : n < 2 ^ 53 * 2 ^ excess n := by
  rw [← Nat.pow_add]
  refine Nat.lt_of_lt_of_le Nat.lt_log2_self (Nat.pow_le_pow_right Nat.two_pos ?_)
  unfold excess
  omega

theorem two_pow_excess_le {n : Nat} (h : excess n ≠ 0) : 2 ^ 52 * 2 ^ excess n ≤ n := by
  have positive : n ≠ 0 := by
    rintro rfl
    exact h rfl
  have log : 52 + excess n = n.log2 := by
    unfold excess at h ⊢
    omega
  rw [← Nat.pow_add, log]
  exact Nat.log2_self_le positive

theorem div_excess_lt (n : Nat) : n / 2 ^ excess n < 2 ^ 53 :=
  (Nat.div_lt_iff_lt_mul (Nat.two_pow_pos _)).2 (lt_two_pow_excess n)

theorem le_div_excess (n : Nat) : 2 ^ 52 ≤ n / 2 ^ excess n ∨ excess n = 0 := by
  by_cases h : excess n = 0
  · exact .inr h
  · exact .inl ((Nat.le_div_iff_mul_le (Nat.two_pow_pos _)).2 (two_pow_excess_le h))

theorem div_excess_pos {n : Nat} (positive : 0 < n) : 0 < n / 2 ^ excess n := by
  rcases le_div_excess n with long | zero
  · exact Nat.lt_of_lt_of_le (Nat.two_pow_pos 52) long
  · rw [zero]
    simpa using positive

theorem excess_mono {a b : Nat} (h : a ≤ b) : excess a ≤ excess b := by
  rcases Nat.eq_zero_or_pos a with rfl | positive
  · exact Nat.zero_le _
  · have hlog : a.log2 ≤ b.log2 :=
      (Nat.le_log2 (by omega)).2 ((Nat.log2_self_le (by omega)).trans h)
    unfold excess
    omega

theorem excess_mul_two_pow {m j : Nat} (digits : m < 2 ^ 53) (normal : 2 ^ 52 ≤ m ∨ j = 0) :
    excess (m * 2 ^ j) = j := by
  rcases Nat.eq_zero_or_pos m with rfl | positive
  · rcases normal with normal | rfl
    · omega
    · rfl
  · have short : m.log2 < 53 := (Nat.log2_lt positive.ne').2 digits
    rw [excess, log2_mul_two_pow positive]
    rcases normal with normal | rfl
    · have long : 52 ≤ m.log2 := (Nat.le_log2 positive.ne').2 normal
      omega
    · omega

theorem nearestNat_le {n : Nat} : nearestNat n (2 ^ excess n) ≤ 2 ^ 53 := by
  have hd : 0 < 2 ^ excess n := Nat.two_pow_pos _
  calc nearestNat n (2 ^ excess n)
      ≤ nearestNat (2 ^ 53 * 2 ^ excess n) (2 ^ excess n) :=
        nearestNat_mono hd (lt_two_pow_excess n).le
    _ = 2 ^ 53 := nearestNat_mul_self hd _

theorem le_nearestNat {n : Nat} (h : excess n ≠ 0) : 2 ^ 52 ≤ nearestNat n (2 ^ excess n) := by
  have hd : 0 < 2 ^ excess n := Nat.two_pow_pos _
  calc 2 ^ 52 = nearestNat (2 ^ 52 * 2 ^ excess n) (2 ^ excess n) :=
        (nearestNat_mul_self hd _).symm
    _ ≤ nearestNat n (2 ^ excess n) := nearestNat_mono hd (two_pow_excess_le h)

theorem rounded_mono {a b : Nat} (h : a ≤ b) : rounded a ≤ rounded b := by
  rcases Nat.eq_or_lt_of_le (excess_mono h) with same | less
  · unfold rounded
    rw [same]
    exact Nat.mul_le_mul_right _ (nearestNat_mono (Nat.two_pow_pos _) h)
  · -- A power of two lies between naturals of different lengths, and rounding does not pass it.
    have step : 2 ^ 53 * 2 ^ excess a ≤ 2 ^ 52 * 2 ^ excess b := by
      rw [← Nat.pow_add, ← Nat.pow_add]
      exact Nat.pow_le_pow_right Nat.two_pos (by omega)
    calc rounded a ≤ 2 ^ 53 * 2 ^ excess a := Nat.mul_le_mul_right _ nearestNat_le
      _ ≤ 2 ^ 52 * 2 ^ excess b := step
      _ ≤ rounded b := Nat.mul_le_mul_right _ (le_nearestNat (by omega))

theorem rounded_pos {n : Nat} (positive : 0 < n) : 0 < rounded n := by
  refine Nat.mul_pos ?_ (Nat.two_pow_pos _)
  by_cases h : excess n = 0
  · rw [h]
    simpa [nearestNat, Nat.mod_one] using positive
  · exact Nat.lt_of_lt_of_le (Nat.two_pow_pos 52) (le_nearestNat h)

theorem excess_le_excess_rounded (n : Nat) : excess n ≤ excess (rounded n) := by
  by_cases h : excess n = 0
  · rw [h]
    exact Nat.zero_le _
  · calc excess n = excess (2 ^ 52 * 2 ^ excess n) :=
          (excess_mul_two_pow (by decide) (.inl le_rfl)).symm
      _ ≤ excess (rounded n) := excess_mono (Nat.mul_le_mul_right _ (le_nearestNat h))

theorem rounded_of_digits {m : Nat} (h : m < 2 ^ 53) (j : Nat) :
    rounded (m * 2 ^ j) = m * 2 ^ j := by
  rcases Nat.eq_zero_or_pos m with rfl | positive
  · simp [rounded, nearestNat]
  · have short : excess (m * 2 ^ j) ≤ j := by
      have := (Nat.log2_lt positive.ne').2 h
      rw [excess, log2_mul_two_pow positive]
      omega
    have split : m * 2 ^ j = m * 2 ^ (j - excess (m * 2 ^ j)) * 2 ^ excess (m * 2 ^ j) := by
      rw [Nat.mul_assoc, ← Nat.pow_add, Nat.sub_add_cancel short]
    unfold rounded
    generalize excess (m * 2 ^ j) = k at split
    rw [split, nearestNat_mul_self (Nat.two_pow_pos k)]

theorem div_mul_excess {n : Nat} (digits : rounded n = n) :
    n / 2 ^ excess n * 2 ^ excess n = n := by
  refine Nat.div_mul_cancel ⟨nearestNat n (2 ^ excess n), ?_⟩
  rw [Nat.mul_comm]
  exact digits.symm

theorem le_of_excess_le {n k : Nat} (digits : rounded n = n) (h : excess n ≤ k) :
    n ≤ (2 ^ 53 - 1) * 2 ^ k := by
  have short : n / 2 ^ excess n ≤ 2 ^ 53 - 1 := Nat.le_sub_one_of_lt (div_excess_lt n)
  calc n = n / 2 ^ excess n * 2 ^ excess n := (div_mul_excess digits).symm
    _ ≤ (2 ^ 53 - 1) * 2 ^ k := Nat.mul_le_mul short (Nat.pow_le_pow_right Nat.two_pos h)

theorem rounded_rounded (n : Nat) : rounded (rounded n) = rounded n := by
  rcases Nat.eq_or_lt_of_le (nearestNat_le (n := n)) with carry | digits
  · have even : rounded n = 2 ^ 52 * 2 ^ (excess n + 1) := by
      rw [rounded, carry, Nat.pow_succ]
      omega
    rw [even]
    exact rounded_of_digits (by decide) _
  · exact rounded_of_digits digits _

/-- The count of infinity. -/
def limit : Nat := 2 ^ 2098

theorem excess_le_iff (n : Nat) : excess n ≤ 2045 ↔ n < limit := by
  rcases Nat.eq_zero_or_pos n with rfl | positive
  · exact ⟨fun _ => pow_pos Nat.two_pos 2098, fun _ => Nat.zero_le _⟩
  · rw [limit, ← Nat.log2_lt positive.ne']
    unfold excess
    omega

/-- A count that a number has. -/
structure Exact (n : Nat) : Prop where
  digits : rounded n = n
  bounded : n ≤ limit

/-- The count of a sum. -/
def plus (a b : Nat) : Nat := min (rounded (a + b)) limit

theorem exact_zero : Exact 0 := ⟨rfl, Nat.zero_le _⟩

theorem exact_limit : Exact limit := by
  refine ⟨?_, Nat.le_refl _⟩
  have power := rounded_of_digits (m := 1) (by decide) 2098
  rwa [Nat.one_mul] at power

theorem plus_of_le {a b : Nat} (h : limit ≤ a + b) : plus a b = limit := by
  refine Nat.min_eq_right ?_
  rw [← exact_limit.digits]
  exact rounded_mono h

theorem exact_plus (a b : Nat) : Exact (plus a b) := by
  refine ⟨?_, Nat.min_le_right _ _⟩
  rcases Nat.le_total (rounded (a + b)) limit with small | large
  · rw [plus, Nat.min_eq_left small, rounded_rounded]
  · rw [plus, Nat.min_eq_right large, exact_limit.digits]

theorem zero_plus {a : Nat} (exact : Exact a) : plus 0 a = a := by
  rw [plus, Nat.zero_add, exact.digits, Nat.min_eq_left exact.bounded]

theorem plus_mono {a b : Nat} (h : a ≤ b) (c : Nat) : plus a c ≤ plus b c :=
  min_le_min_right limit (rounded_mono (Nat.add_le_add_right h c))

theorem le_plus {a : Nat} (exact : Exact a) (b : Nat) : a ≤ plus a b := by
  refine Nat.le_min.2 ⟨?_, exact.bounded⟩
  calc a = rounded a := exact.digits.symm
    _ ≤ rounded (a + b) := rounded_mono (Nat.le_add_right a b)

/-- One more makes no difference to the largest finite number. -/
theorem plus_lt_limit {a : Nat} (exact : Exact a) (small : a < limit) :
    plus a (2 ^ 1074) < limit := by
  calc plus a (2 ^ 1074) ≤ plus ((2 ^ 53 - 1) * 2 ^ 2045) (2 ^ 1074) :=
        plus_mono (le_of_excess_le exact.digits ((excess_le_iff a).2 small)) _
    _ < limit := by decide +kernel

theorem foldl_plus_mono (us : List Nat) {a b : Nat} (h : a ≤ b) :
    us.foldl plus a ≤ us.foldl plus b := by
  induction us generalizing a b with
  | nil => exact h
  | cons u us ih => exact ih (plus_mono h u)

theorem exact_foldl_plus (us : List Nat) {a : Nat} (exact : Exact a) : Exact (us.foldl plus a) := by
  induction us generalizing a with
  | nil => exact exact
  | cons u us ih => exact ih (exact_plus a u)

theorem foldl_plus_lt_limit {us : List Nat} (ones : ∀ u ∈ us, u = 2 ^ 1074) {a : Nat}
    (exact : Exact a) (small : a < limit) : us.foldl plus a < limit := by
  induction us generalizing a with
  | nil => exact small
  | cons u us ih =>
    obtain ⟨first, rest⟩ := List.forall_mem_cons.1 ones
    rw [List.foldl_cons, first]
    exact ih rest (exact_plus a _) (plus_lt_limit exact small)

theorem foldl_plus_le {us vs : List Nat} (part : us.Sublist vs) {a : Nat} (exact : Exact a) :
    us.foldl plus a ≤ vs.foldl plus a := by
  induction part generalizing a with
  | slnil => exact Nat.le_refl a
  | cons v _ ih => exact (foldl_plus_mono _ (le_plus exact v)).trans (ih (exact_plus a v))
  | cons_cons v _ ih => exact ih (exact_plus a v)

end CellCollapse.Binary64
