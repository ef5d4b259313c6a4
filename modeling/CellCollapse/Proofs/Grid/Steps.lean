import CellCollapse.Proofs.Grid.Neighbors
import Mathlib.Data.Int.ModEq

set_option autoImplicit false

/-!
# Arithmetic of steps

Where a step leads, said without the walk along the axes. On a bounded grid it leads to the sum of
coordinate and delta, if that lies inside of the box. On a periodic grid it leads to the one
coordinate inside of the box that differs from the sum by whole turns round the axes, and two steps
lead to where one step along their sum does.
-/
namespace CellCollapse

/-- The sum of two lists of integers, entry by entry. -/
def plus (c D : List Int) : List Int := List.zipWith (· + ·) c D

/-- The same coordinate up to whole turns round each axis. -/
inductive Congruent : List Nat → Coord → Coord → Prop
  | nil : Congruent [] [] []
  | cons {s : Nat} {ss : List Nat} {p q : Int} {c d : Coord} (turns : p ≡ q [ZMOD s])
      (rest : Congruent ss c d) : Congruent (s :: ss) (p :: c) (q :: d)

theorem Congruent.unique {ss : List Nat} {c d e : Coord} (hd : Congruent ss c d)
    (he : Congruent ss c e) (insideD : Inside ss d) (insideE : Inside ss e) : d = e := by
  induction hd generalizing e with
  | nil =>
    cases he
    rfl
  | @cons s ss p q c d turns _ ih =>
    cases he with
    | @cons _ _ _ q' _ e turns' rest' =>
      obtain ⟨hq, insideD⟩ := List.forall₂_cons.1 insideD
      obtain ⟨hq', insideE⟩ := List.forall₂_cons.1 insideE
      have same : q = q' := by
        rw [← Int.emod_eq_of_lt hq.1 hq.2, ← Int.emod_eq_of_lt hq'.1 hq'.2]
        exact turns.symm.trans turns'
      rw [same, ih rest' insideD insideE]

theorem offset_bounded {ss : List Nat} {c : Coord} {D : Delta} (inside : Inside ss c)
    (matching : D.length = ss.length) (d : Coord) :
    offset false ss c D = some d ↔ d = plus c D ∧ Inside ss d := by
  induction inside generalizing D d with
  | nil => simp [offset, plus, Inside, eq_comm]
  | @cons s p ss ps _ _ ih =>
    cases D with
    | nil => simp at matching
    | cons x D =>
      have hD : D.length = ss.length := by simpa using matching
      by_cases inRange : 0 ≤ p + x ∧ p + x < s
      · simp only [offset, Bool.false_eq_true, if_false, inRange, and_self, if_true,
          Option.map_eq_some_iff]
        constructor
        · rintro ⟨e, he, rfl⟩
          obtain ⟨rfl, rest⟩ := (ih hD e).1 he
          exact ⟨rfl, .cons inRange rest⟩
        · rintro ⟨rfl, rest⟩
          exact ⟨plus ps D, (ih hD _).2 ⟨rfl, (List.forall₂_cons.1 rest).2⟩, rfl⟩
      · -- One axis that is left is enough for the whole step to lead nowhere.
        simp only [offset, Bool.false_eq_true, if_false, inRange]
        constructor
        · intro h
          cases h
        · rintro ⟨rfl, rest⟩
          exact absurd (List.forall₂_cons.1 rest).1 inRange

theorem offset_congruent {ss : List Nat} {c d : Coord} {D : Delta} (inside : Inside ss c)
    (matching : D.length = ss.length) (h : offset true ss c D = some d) :
    Congruent ss (plus c D) d := by
  induction inside generalizing D d with
  | nil =>
    cases h
    exact .nil
  | @cons s p ss ps _ _ ih =>
    cases D with
    | nil => simp at matching
    | cons x D =>
      simp only [offset, if_true, Option.map_eq_some_iff] at h
      obtain ⟨e, he, rfl⟩ := h
      exact .cons (Int.mod_modEq _ _).symm (ih (by simpa using matching) he)

/-- Turns that the first step makes do not matter to the second one. -/
theorem offset_plus {ss : List Nat} {c d : Coord} {D D' : Delta} (inside : Inside ss c)
    (matching : D.length = ss.length) (matching' : D'.length = ss.length)
    (h : offset true ss c D = some d) : offset true ss d D' = offset true ss c (plus D D') := by
  induction inside generalizing D D' d with
  | nil => simp [offset]
  | @cons s p ss ps _ _ ih =>
    cases D with
    | nil => simp at matching
    | cons x D =>
      cases D' with
      | nil => simp at matching'
      | cons y D' =>
        simp only [offset, if_true, Option.map_eq_some_iff] at h
        obtain ⟨e, he, rfl⟩ := h
        have rest := ih (by simpa using matching) (by simpa using matching') he
        have axis : ((p + x) % (s : Int) + y) % (s : Int) = (p + (x + y)) % (s : Int) := by
          rw [Int.emod_add_emod, Int.add_assoc]
        simp only [offset, if_true, rest, axis, plus, List.zipWith_cons_cons]

namespace Grid

variable {σ : Type} (g : Grid σ)

theorem get_of_inside {c : Coord} (inside : Inside g.shape.sizes c) : ∃ s, g.get c = .ok s := by
  obtain ⟨k, hk⟩ := Option.isSome_iff_exists.1 ((rank?_isSome_iff _ c).2 inside)
  exact ⟨g.cells.get k, by simp only [get, hk]⟩

/-- Where a step from inside of a grid leads, and that every step can be undone. -/
theorem offset_arithmetic {c : Coord} (inside : Inside g.shape.sizes c) {D : Delta}
    (matching : D.length = g.axes) :
    (g.periodic = false →
      (Inside g.shape.sizes (plus c D) → g.offset c D = some (plus c D)) ∧
      (¬ Inside g.shape.sizes (plus c D) → g.offset c D = none)) ∧
    (g.periodic = true → ∃ d, g.offset c D = some d ∧ Inside g.shape.sizes d ∧
      Congruent g.shape.sizes (plus c D) d ∧
      ∀ e, Inside g.shape.sizes e → Congruent g.shape.sizes (plus c D) e → e = d) ∧
    (∀ d, g.offset c D = some d → (∃ s, g.get d = .ok s) ∧ g.offset d (negate D) = some c) ∧
    (g.periodic = true → ∀ D' : Delta, D'.length = g.axes →
      (g.offset c D).bind (fun d => g.offset d D') = g.offset c (plus D D')) := by
  simp only [offset]
  refine ⟨?_, ?_, ?_, ?_⟩
  · intro bounded
    rw [bounded]
    refine ⟨fun within => (offset_bounded inside matching _).2 ⟨rfl, within⟩, ?_⟩
    intro outside
    rw [Option.eq_none_iff_forall_ne_some]
    intro d hd
    obtain ⟨rfl, within⟩ := (offset_bounded inside matching d).1 hd
    exact outside within
  · intro periodic
    rw [periodic]
    obtain ⟨d, hd⟩ := offset_periodic g.shape.sizes c D
    have within := offset_inside inside matching hd
    have congruent := offset_congruent inside matching hd
    refine ⟨d, hd, within, congruent, ?_⟩
    intro e hinside hcongruent
    exact hcongruent.unique congruent hinside within
  · intro d hd
    exact ⟨g.get_of_inside (offset_inside inside matching hd), offset_negate inside matching hd⟩
  · intro periodic D' matching'
    rw [periodic]
    obtain ⟨d, hd⟩ := offset_periodic g.shape.sizes c D
    rw [hd, Option.bind_some, offset_plus inside matching matching' hd]

/-- A band of three cells along the second of two axes, closed to a ring. -/
def closedBand : Grid Unit := ⟨⟨[1, 3], by decide, by decide⟩, true, .replicate 3 ()⟩

-- Two turns and a step back on the long axis, and any number of steps on the short one.
theorem offset_arithmetic_closedBand :
    Inside closedBand.shape.sizes [0, 0] ∧ closedBand.offset [0, 0] [5, -7] = some [0, 2] ∧
      closedBand.offset [0, 2] [-5, 7] = some [0, 0] ∧
      closedBand.offset [0, 2] [0, 4] = closedBand.offset [0, 0] [5, -3] := by
  have inside : Inside closedBand.shape.sizes [0, 0] :=
    .cons (by decide) (.cons (by decide) .nil)
  obtain ⟨_, lands, undone, twice⟩ :=
    closedBand.offset_arithmetic inside (D := [5, -7]) rfl
  obtain ⟨d, hd, _, _, unique⟩ := lands rfl
  have there : [0, 2] = d := by
    refine unique [0, 2] (.cons (by decide) (.cons (by decide) .nil)) ?_
    exact .cons (by decide) (.cons (by decide) .nil)
  subst there
  have along := twice rfl [0, 4] rfl
  rw [hd] at along
  exact ⟨inside, hd, (undone _ hd).2, along⟩

end Grid

end CellCollapse
