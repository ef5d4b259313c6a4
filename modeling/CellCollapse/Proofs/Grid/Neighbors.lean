import CellCollapse.Grid.Basic
import CellCollapse.Proofs.Space
import CellCollapse.Rule.Symmetric
import Mathlib.Data.List.Forall2
import Mathlib.Data.List.Nodup

set_option autoImplicit false

/-!
# Neighbors on grids

The coordinates of a grid are the lists of integers inside of its box, each listed once. A step
from inside of the box ends inside of it or nowhere, and the opposite step leads back, on bounded
and on periodic grids alike. So the space of a grid is lawful for every list of offsets.
-/
namespace CellCollapse

/-- One entry per axis, each of them in the range of its axis. -/
def Inside : List Nat → Coord → Prop := List.Forall₂ fun s p => 0 ≤ p ∧ p < (s : Int)

theorem mem_boxCoords_iff (ss : List Nat) (c : Coord) : c ∈ boxCoords ss ↔ Inside ss c := by
  induction ss generalizing c with
  | nil => simp [boxCoords, Inside]
  | cons s ss ih =>
    simp only [boxCoords, List.mem_flatMap, List.mem_range, List.mem_map]
    constructor
    · rintro ⟨i, hi, d, hd, rfl⟩
      exact .cons ⟨by omega, by omega⟩ ((ih d).1 hd)
    · intro h
      cases h with
      | @cons _ p _ ps bounds rest =>
        exact ⟨p.toNat, by omega, ps, (ih ps).2 rest, by rw [Int.toNat_of_nonneg bounds.1]⟩

theorem nodup_boxCoords (ss : List Nat) : (boxCoords ss).Nodup := by
  induction ss with
  | nil => simp [boxCoords]
  | cons s ss ih =>
    rw [boxCoords, List.nodup_flatMap]
    constructor
    · intro i _
      exact ih.map fun _ _ h => (List.cons.inj h).2
    · refine List.nodup_range.imp ?_
      intro i j hne
      change List.Disjoint _ _
      rw [List.disjoint_left]
      intro c hi hj
      obtain ⟨d, _, rfl⟩ := List.mem_map.1 hi
      obtain ⟨d', _, heq⟩ := List.mem_map.1 hj
      have := (List.cons.inj heq).1
      omega

theorem rank?_isSome_iff (ss : List Nat) (c : Coord) : (rank? ss c).isSome ↔ Inside ss c := by
  induction ss generalizing c with
  | nil =>
    cases c with
    | nil => simp [rank?, Inside]
    | cons p ps => simp [rank?, Inside]
  | cons s ss ih =>
    cases c with
    | nil => simp [rank?, Inside]
    | cons p ps =>
      simp only [rank?, Inside, List.forall₂_cons]
      split
      · rename_i bounds
        simpa [bounds, Inside] using ih ps
      · rename_i outside
        simp [outside]

theorem eq_of_mul_add_eq {a b v x y : Nat} (hx : x < v) (hy : y < v)
    (h : a * v + x = b * v + y) : a = b ∧ x = y := by
  have hquot : ∀ c z, z < v → (c * v + z) / v = c := by
    intro c z hz
    rw [Nat.mul_comm, Nat.mul_add_div (by omega), Nat.div_eq_of_lt hz, Nat.add_zero]
  have hab : a = b := by rw [← hquot a x hx, h, hquot b y hy]
  subst hab
  exact ⟨rfl, by omega⟩

theorem rank?_injective {ss : List Nat} {c d : Coord} {k : Fin (volume ss)}
    (hc : rank? ss c = some k) (hd : rank? ss d = some k) : c = d := by
  induction ss generalizing c d with
  | nil =>
    cases c with
    | cons p ps => simp [rank?] at hc
    | nil =>
      cases d with
      | cons p ps => simp [rank?] at hd
      | nil => rfl
  | cons s ss ih =>
    cases c with
    | nil => simp [rank?] at hc
    | cons p ps =>
      cases d with
      | nil => simp [rank?] at hd
      | cons q qs =>
        simp only [rank?] at hc hd
        split at hc
        · split at hd
          · rename_i hp hq
            obtain ⟨a, ha, rfl⟩ := Option.map_eq_some_iff.1 hc
            obtain ⟨b, hb, heq⟩ := Option.map_eq_some_iff.1 hd
            have hsum : q.toNat * volume ss + b.val = p.toNat * volume ss + a.val :=
              congrArg Fin.val heq
            obtain ⟨hquot, hrem⟩ := eq_of_mul_add_eq b.isLt a.isLt hsum
            obtain rfl : a = b := Fin.ext hrem.symm
            obtain rfl : p = q := by omega
            rw [ih ha hb]
          · cases hd
        · cases hc

theorem offset_inside {periodic : Bool} {ss : List Nat} {c d : Coord} {D : Delta}
    (inside : Inside ss c) (matching : D.length = ss.length)
    (h : offset periodic ss c D = some d) : Inside ss d := by
  induction inside generalizing D d with
  | nil =>
    simp only [offset, Option.some.injEq] at h
    exact h ▸ .nil
  | @cons s p ss ps bounds rest ih =>
    cases D with
    | nil => simp at matching
    | cons x D =>
      have hD : D.length = ss.length := by simpa using matching
      simp only [offset] at h
      split at h
      · obtain ⟨e, he, rfl⟩ := Option.map_eq_some_iff.1 h
        exact .cons ⟨Int.emod_nonneg _ (by omega), Int.emod_lt_of_pos _ (by omega)⟩ (ih hD he)
      · split at h
        · rename_i inRange
          obtain ⟨e, he, rfl⟩ := Option.map_eq_some_iff.1 h
          exact .cons inRange (ih hD he)
        · cases h

/-- A step back undoes a step, also around the circle of a periodic axis. -/
theorem offset_negate {periodic : Bool} {ss : List Nat} {c d : Coord} {D : Delta}
    (inside : Inside ss c) (matching : D.length = ss.length)
    (h : offset periodic ss c D = some d) : offset periodic ss d (negate D) = some c := by
  induction inside generalizing D d with
  | nil => simp [offset]
  | @cons s p ss ps bounds rest ih =>
    cases D with
    | nil => simp at matching
    | cons x D =>
      have hD : D.length = ss.length := by simpa using matching
      simp only [offset] at h
      cases periodic with
      | true =>
        obtain ⟨e, he, rfl⟩ := Option.map_eq_some_iff.1 h
        have hback : ((p + x) % (s : Int) + -x) % (s : Int) = p := by
          rw [Int.emod_add_emod, Int.add_neg_cancel_right]
          exact Int.emod_eq_of_lt bounds.1 bounds.2
        simpa [offset, negate, hback] using ih hD he
      | false =>
        simp only [Bool.false_eq_true, if_false] at h
        split at h
        · obtain ⟨e, he, rfl⟩ := Option.map_eq_some_iff.1 h
          have hback : p + x + -x = p := by omega
          simpa [offset, negate, hback, bounds] using ih hD he
        · cases h

theorem offset_periodic (ss : List Nat) (c : Coord) (D : Delta) :
    ∃ d, offset true ss c D = some d := by
  induction ss generalizing c D with
  | nil => exact ⟨[], rfl⟩
  | cons s ss ih =>
    cases c with
    | nil => exact ⟨[], rfl⟩
    | cons p ps =>
      cases D with
      | nil => exact ⟨[], rfl⟩
      | cons x D =>
        obtain ⟨d, hd⟩ := ih ps D
        exact ⟨(p + x) % (s : Int) :: d, by simp [offset, hd]⟩

namespace Grid

section Entries

variable {σ : Type} (g : Grid σ)

theorem mem_coordinates_iff (c : Coord) : c ∈ g.coordinates ↔ Inside g.shape.sizes c :=
  mem_boxCoords_iff g.shape.sizes c

/-- An entry that was found belongs to a delta of the right length. -/
theorem getElem?_neighbors {c : Coord} {ds : List Delta} {room k : Nat} {o : Option Coord}
    (h : (g.neighbors c ds room).found[k]? = some o) :
    ∃ D, ds[k]? = some D ∧ D.length = g.axes ∧ o = g.offset c D := by
  induction ds generalizing room k with
  | nil => simp [neighbors, Lookup.done] at h
  | cons D ds ih =>
    simp only [neighbors] at h
    split at h
    · simp [Lookup.stop] at h
    · rename_i matching
      cases room with
      | zero => simp [Lookup.stop] at h
      | succ room =>
        cases k with
        | zero => exact ⟨D, rfl, by simpa using matching, by simpa [Lookup.cons] using h.symm⟩
        | succ k => exact ih (by simpa [Lookup.cons] using h)

theorem neighbors_eq {c : Coord} {ds : List Delta} (matching : ∀ D ∈ ds, D.length = g.axes) :
    g.neighbors c ds ds.length = ⟨ds.map (g.offset c), none⟩ := by
  induction ds with
  | nil => rfl
  | cons D ds ih =>
    have hD := matching D List.mem_cons_self
    have hds := ih fun E hE => matching E (List.mem_cons_of_mem _ hE)
    simp [neighbors, hD, hds, Lookup.cons]

theorem found_eq_some_iff {ds : List Delta} (matching : ∀ D ∈ ds, D.length = g.axes) (c d : Coord)
    (k : Nat) : (g.neighbors c ds ds.length).found[k]? = some (some d) ↔
      ∃ D, ds[k]? = some D ∧ g.offset c D = some d := by
  rw [g.neighbors_eq matching, List.getElem?_map, Option.map_eq_some_iff]

theorem length_found_le (c : Coord) (ds : List Delta) (room : Nat) :
    (g.neighbors c ds room).found.length ≤ room := by
  induction ds generalizing room with
  | nil => exact Nat.zero_le _
  | cons D ds ih =>
    simp only [neighbors]
    split
    · exact Nat.zero_le _
    · cases room with
      | zero => exact Nat.zero_le _
      | succ room => exact Nat.succ_le_succ (ih room)

/-- A look-up ends after its last delta, or at one that has the wrong length, or at one that fits
but finds no room. -/
theorem neighbors_end (c : Coord) (ds : List Delta) (room : Nat) :
    let l := g.neighbors c ds room
    l.found.length = ds.length ∧ l.fault = none ∨
      ∃ D f, ds[l.found.length]? = some D ∧ l.fault = some f ∧
        (D.length ≠ g.axes ∧ f = .deltaLength (asValue D) g.axes ∧ f.kind = .coordinate ∨
          D.length = g.axes ∧ room ≤ l.found.length ∧ f = .noRoom ∧ f.kind = .index) := by
  induction ds generalizing room with
  | nil => exact .inl ⟨rfl, rfl⟩
  | cons D ds ih =>
    simp only [neighbors]
    split
    · rename_i misfit
      exact .inr ⟨D, _, rfl, rfl, .inl ⟨misfit, rfl, rfl⟩⟩
    · rename_i fits
      cases room with
      | zero => exact .inr ⟨D, _, rfl, rfl, .inr ⟨not_not.1 fits, Nat.le_refl 0, rfl, rfl⟩⟩
      | succ room =>
        -- One more entry and one more place: what ended the rest ends the whole one place later.
        rcases ih room with ⟨length, sound⟩ | ⟨E, f, here, fault, cause⟩
        · exact .inl ⟨congrArg Nat.succ length, sound⟩
        · refine .inr ⟨E, f, here, fault, cause.imp_right ?_⟩
          rintro ⟨matching, full, hf⟩
          exact ⟨matching, Nat.succ_le_succ full, hf⟩

theorem length_found_of_sound {c : Coord} {ds : List Delta} {room : Nat}
    (sound : (g.neighbors c ds room).fault = none) :
    (g.neighbors c ds room).found.length = ds.length := by
  rcases g.neighbors_end c ds room with ⟨length, _⟩ | ⟨D, f, _, fault, _⟩
  · exact length
  · cases sound.symm.trans fault

end Entries

variable {n : Nat} (g : Grid (Fin n))

theorem get_of_mem {c : Coord} (h : c ∈ g.coordinates) : ∃ i, g.space.slot c = .ok i := by
  obtain ⟨k, hk⟩ := Option.isSome_iff_exists.1
    ((rank?_isSome_iff _ c).2 ((g.mem_coordinates_iff c).1 h))
  exact ⟨g.cells.get k, by simp [space, get, hk]⟩

theorem mem_of_slot {c : Coord} {i : Fin n} (h : g.space.slot c = .ok i) : c ∈ g.coordinates := by
  rw [mem_coordinates_iff, ← rank?_isSome_iff]
  simp only [space, get] at h
  split at h
  · rename_i k hk
    exact Option.isSome_of_eq_some hk
  · cases h

theorem neighbor?_eq_some_iff {offsets : List Delta} (matching : ∀ D ∈ offsets, D.length = g.axes)
    (c d : Coord) (k : Nat) :
    g.space.neighbor? offsets c k = some d ↔ ∃ D, offsets[k]? = some D ∧ g.offset c D = some d := by
  rw [Space.neighbor?_eq_some_iff]
  exact g.found_eq_some_iff matching c d k

/-- The way back from a neighbor is along the opposite offset, wherever that is listed. -/
theorem neighbor?_back {offsets : List Delta} (matching : ∀ D ∈ offsets, D.length = g.axes)
    {c d : Coord} {k : Nat} (mem : c ∈ g.coordinates)
    (next : g.space.neighbor? offsets c k = some d) :
    ∃ D, offsets[k]? = some D ∧ g.offset c D = some d ∧
      ∀ l, offsets[l]? = some (negate D) → g.space.neighbor? offsets d l = some c := by
  obtain ⟨D, hD, hoffset⟩ := (g.neighbor?_eq_some_iff matching c d k).1 next
  refine ⟨D, hD, hoffset, ?_⟩
  intro l hl
  have hback := offset_negate ((g.mem_coordinates_iff c).1 mem)
    (matching D (List.mem_of_getElem? hD)) hoffset
  exact (g.neighbor?_eq_some_iff matching d c l).2 ⟨negate D, hl, hback⟩

theorem space_lawful (offsets : List Delta) : g.space.Lawful offsets where
  once := (nodup_boxCoords g.shape.sizes).imp fun hne => by simpa using hne.symm
  named _ _ := rfl
  closed := by
    intro c hc k d hd
    obtain ⟨D, _, matching, hoffset⟩ :=
      g.getElem?_neighbors ((Space.neighbor?_eq_some_iff _ _ c d k).1 hd)
    exact (g.mem_coordinates_iff d).2
      (offset_inside ((g.mem_coordinates_iff c).1 hc) matching hoffset.symm)
  complete _ _ sound := g.length_found_of_sound sound

theorem space_apart (apart : Function.Injective g.cells.get) : g.space.Apart := by
  intro c hc d hd i hi hj
  simp only [space, get] at hi hj
  cases hrc : rank? g.shape.sizes c with
  | none => simp [hrc] at hi
  | some k =>
    cases hrd : rank? g.shape.sizes d with
    | none => simp [hrd] at hj
    | some l =>
      simp only [hrc, hrd, Except.ok.injEq] at hi hj
      have hkl : k = l := apart (hi.trans hj.symm)
      exact rank?_injective hrc (hkl ▸ hrd)

end Grid

end CellCollapse
