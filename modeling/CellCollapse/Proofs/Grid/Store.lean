import CellCollapse.Grid.Address
import CellCollapse.Proofs.Grid.Neighbors
import Mathlib.Algebra.BigOperators.Group.List.Basic

set_option autoImplicit false

/-!
# Grids as stores

The coordinates of a box are listed in increasing order, and the place of a coordinate in the list
is its rank. So a grid holds its entries in the order in which they were asked for when it was
built, and it keeps them like a map with the coordinates of the box for keys: a coordinate reads as
what was last written there, and one outside of the box is refused for reading and for writing.
-/
namespace CellCollapse

theorem volume_eq_prod (ss : List Nat) : volume ss = ss.prod := by
  induction ss with
  | nil => rfl
  | cons s ss ih => rw [volume, List.prod_cons, ih]

/-- Coordinates are compared like words, the first axis that differs decides. -/
theorem pairwise_lt_boxCoords (ss : List Nat) : (boxCoords ss).Pairwise (· < ·) := by
  induction ss with
  | nil => simp [boxCoords]
  | cons s ss ih =>
    rw [boxCoords, List.pairwise_flatMap]
    constructor
    · intro i _
      rw [List.pairwise_map]
      exact ih.imp fun h => List.cons_lt_cons_iff.2 (.inr ⟨rfl, h⟩)
    · refine List.pairwise_lt_range.imp ?_
      intro i j hij c hc d hd
      obtain ⟨c, _, rfl⟩ := List.mem_map.1 hc
      obtain ⟨d, _, rfl⟩ := List.mem_map.1 hd
      exact List.cons_lt_cons_iff.2 (.inl (by omega))

theorem flatMap_range_mul (s v : Nat) :
    ((List.range s).flatMap fun i => (List.range v).map (i * v + ·)) = List.range (s * v) := by
  induction s with
  | zero => simp
  | succ s ih => rw [List.range_succ, List.flatMap_append, ih, Nat.succ_mul, List.range_add,
      List.flatMap_singleton]

theorem map_rank?_boxCoords (ss : List Nat) :
    (boxCoords ss).map (fun c => (rank? ss c).map Fin.val) = (List.range (volume ss)).map some := by
  induction ss with
  | nil => rfl
  | cons s ss ih =>
    -- The slice with first entry `i` holds the ranks from `i * volume ss` on.
    have slice : ∀ i ∈ List.range s,
        ((boxCoords ss).map ((i : Int) :: ·)).map (fun c => (rank? (s :: ss) c).map Fin.val) =
          ((List.range (volume ss)).map (i * volume ss + ·)).map some := by
      intro i hi
      have bounds : (0 : Int) ≤ i ∧ (i : Int) < s := by
        rw [List.mem_range] at hi
        omega
      have row := congrArg (List.map (Option.map (i * volume ss + ·))) ih
      simp only [List.map_map, Function.comp_def, Option.map_map, Option.map_some] at row ⊢
      rw [← row]
      apply List.map_congr_left
      intro c _
      simp [rank?, bounds, Function.comp_def]
    change _ = (List.range (s * volume ss)).map some
    rw [boxCoords, List.map_flatMap, ← flatMap_range_mul, List.map_flatMap, List.flatMap_def,
      List.flatMap_def, List.map_congr_left slice]

theorem rank?_of_getElem? {ss : List Nat} {k : Nat} {c : Coord}
    (h : (boxCoords ss)[k]? = some c) : ∃ r, rank? ss c = some r ∧ r.val = k := by
  have place := congrArg (·[k]?) (map_rank?_boxCoords ss)
  simp only [List.getElem?_map, h, Option.map_some] at place
  have bound : k < volume ss := by
    rw [← length_boxCoords]
    exact (List.getElem?_eq_some_iff.1 h).1
  rw [List.getElem?_range bound, Option.map_some, Option.some_inj] at place
  exact Option.map_eq_some_iff.1 place

theorem coord?_cons (p : Int) (vs : List Value) :
    Address.coord? (.tuple (.int p :: vs)) = (Address.coord? (.tuple vs)).map (p :: ·) := by
  simp only [Address.coord?, List.mapM_cons, Option.map_eq_bind]
  rfl

theorem coord?_asValue (c : Coord) : Address.coord? (asValue c) = some c := by
  induction c with
  | nil => rfl
  | cons p c ih => exact (coord?_cons p _).trans (congrArg (Option.map (p :: ·)) ih)

namespace Grid

variable {σ : Type} (g : Grid σ)

theorem getAt_asValue (c : Coord) : g.getAt (asValue c) = g.get c := by
  simp only [getAt, coord?_asValue]

theorem setAt_asValue (c : Coord) (s : σ) : g.setAt (asValue c) s = g.set c s := by
  simp only [setAt, coord?_asValue]

/-- Every coordinate with its entry, in row-major order. -/
def entries : List (Coord × σ) := g.coordinates.zip g.cells.toList

theorem get_of_getElem? {c : Coord} {s : σ} {k : Nat} (hc : g.coordinates[k]? = some c)
    (hs : g.cells.toList[k]? = some s) : g.get c = .ok s := by
  obtain ⟨r, hr, rfl⟩ := rank?_of_getElem? hc
  have bound : r.val < g.shape.volume := r.isLt
  simp only [get, hr, Except.ok.injEq]
  change g.cells[r.val] = s
  simpa [bound] using hs

theorem inside_of_get {c : Coord} {s : σ} (h : g.get c = .ok s) : Inside g.shape.sizes c := by
  rw [← rank?_isSome_iff]
  unfold get at h
  split at h
  · rename_i hr
    simp [hr]
  · cases h

theorem exists_entry {c : Coord} (inside : Inside g.shape.sizes c) : ∃ s, (c, s) ∈ g.entries := by
  obtain ⟨k, hc⟩ := List.mem_iff_getElem?.1 ((mem_boxCoords_iff _ c).2 inside)
  have bound : k < g.cells.toList.length := by
    rw [Vector.length_toList, Shape.volume, ← length_boxCoords]
    exact (List.getElem?_eq_some_iff.1 hc).1
  refine ⟨g.cells.toList[k], List.mem_iff_getElem?.2 ⟨k, ?_⟩⟩
  exact List.getElem?_zip_eq_some.2 ⟨hc, List.getElem?_eq_getElem bound⟩

theorem mem_entries_iff (c : Coord) (s : σ) : (c, s) ∈ g.entries ↔ g.get c = .ok s := by
  have stored : ∀ t, (c, t) ∈ g.entries → g.get c = .ok t := by
    intro t h
    obtain ⟨k, hk⟩ := List.mem_iff_getElem?.1 h
    obtain ⟨hc, ht⟩ := List.getElem?_zip_eq_some.1 hk
    exact g.get_of_getElem? hc ht
  refine ⟨stored s, ?_⟩
  intro h
  obtain ⟨t, ht⟩ := g.exists_entry (g.inside_of_get h)
  cases h.symm.trans (stored t ht)
  exact ht

section Writing

theorem get_of_outside {c : Coord} (outside : ¬ Inside g.shape.sizes c) :
    g.get c = .error (.outsideGrid (asValue c) g.shape.sizes) := by
  rw [← rank?_isSome_iff, Option.not_isSome_iff_eq_none] at outside
  simp only [get, outside]

theorem set_of_outside {c : Coord} (outside : ¬ Inside g.shape.sizes c) (s : σ) :
    g.set c s = .error (.outsideGrid (asValue c) g.shape.sizes) := by
  rw [← rank?_isSome_iff, Option.not_isSome_iff_eq_none] at outside
  simp only [set, outside]

/-- A write is seen at its own coordinate and nowhere else. -/
theorem set_of_inside {c : Coord} (inside : Inside g.shape.sizes c) (s : σ) :
    ∃ g', g.set c s = .ok g' ∧ g'.shape = g.shape ∧ g'.get c = .ok s ∧
      ∀ d, d ≠ c → g'.get d = g.get d := by
  obtain ⟨k, hk⟩ := Option.isSome_iff_exists.1 ((rank?_isSome_iff _ c).2 inside)
  refine ⟨{ g with cells := g.cells.set k.val s k.isLt }, by simp only [set, hk], rfl, ?_, ?_⟩
  · simp only [get, hk, Except.ok.injEq]
    exact Vector.getElem_set_self k.isLt
  · intro d hne
    simp only [get]
    cases hr : rank? g.shape.sizes d with
    | none => rfl
    | some l =>
      have apart : k.val ≠ l.val := by
        intro same
        exact hne (rank?_injective (hr.trans (congrArg some (Fin.ext same.symm))) hk)
      exact congrArg Except.ok (Vector.getElem_set_ne k.isLt l.isLt apart)

end Writing

section Building

variable {m : Type → Type} [Monad m]

/-- The way to fill a grid that also notes every entry as it is asked for. -/
def noted (entry : Coord → m σ) (c : Coord) : StateT (List (Coord × σ)) m σ := do
  let s ← entry c
  modify (· ++ [(c, s)])
  return s

variable [LawfulMonad m]

theorem mapM_noted (entry : Coord → m σ) (cs : List Coord) (log : List (Coord × σ)) :
    (cs.mapM (noted entry)).run log =
      (fun ss => (ss, log ++ cs.zip ss)) <$> cs.mapM entry := by
  induction cs generalizing log with
  | nil => simp
  | cons c cs ih => simp [List.mapM_cons, noted, ih]

theorem build_eq (shape : Shape) (periodic : Bool) (entry : Coord → m σ) :
    build shape periodic entry =
      (fun cells => ⟨shape, periodic, cells⟩) <$> shape.coordinateVector.mapM entry := by
  rw [build, bind_pure_comp]

theorem toList_mapM (shape : Shape) (entry : Coord → m σ) :
    Vector.toList <$> shape.coordinateVector.mapM entry = shape.coordinates.mapM entry := by
  calc
    Vector.toList <$> shape.coordinateVector.mapM entry =
        Array.toList <$> (Vector.toArray <$> shape.coordinateVector.mapM entry) := by
      rw [Functor.map_map]
      rfl
    _ = Array.toList <$> (List.toArray <$> shape.coordinates.mapM entry) := by
      rw [Vector.toArray_mapM, Array.mapM_eq_mapM_toList]
      rfl
    _ = shape.coordinates.mapM entry := by simp

/-- The entries are asked for once each and in order, and every one goes to its own cell. -/
theorem build_noted (shape : Shape) (periodic : Bool) (entry : Coord → m σ) :
    (build shape periodic (noted entry)).run [] =
      (fun g => (g, g.entries)) <$> build shape periodic entry := by
  have filled : (shape.coordinateVector.mapM (noted entry)).run [] =
      (fun cells => (cells, shape.coordinates.zip cells.toList)) <$>
        shape.coordinateVector.mapM entry := by
    refine (map_inj_right (f := fun p => (p.1.toList, p.2)) ?_).1 ?_
    · rintro ⟨x, xs⟩ ⟨y, ys⟩ h
      simpa [Vector.toList_inj] using h
    · rw [← StateT.run_map, toList_mapM, mapM_noted, ← toList_mapM]
      simp
  rw [build_eq, build_eq, StateT.run_map, filled, Functor.map_map, Functor.map_map]
  rfl

theorem shape_build (shape : Shape) (periodic : Bool) (entry : Coord → m σ) :
    (fun g => (g.shape, g.periodic)) <$> build shape periodic entry =
      (fun _ => (shape, periodic)) <$> build shape periodic entry := by
  rw [build_eq, Functor.map_map, Functor.map_map]

end Building

section Access

/-- One use of a grid after it was built. -/
inductive Access (σ : Type) where
  | read (c : Coord)
  | write (c : Coord) (s : σ)

def Access.coord : Access σ → Coord
  | .read c => c
  | .write c _ => c

/-- What an access gives back, and the grid after it. -/
def perform : Access σ → Except Fault (Option σ) × Grid σ
  | .read c => ((g.getAt (asValue c)).map some, g)
  | .write c s =>
    match g.setAt (asValue c) s with
    | .ok g' => (.ok none, g')
    | .error f => (.error f, g)

def after (accesses : List (Access σ)) : Grid σ :=
  accesses.foldl (fun g access => (g.perform access).2) g

/-- What was last written at a coordinate. -/
def lastWrite (c : Coord) : List (Access σ) → Option σ
  | [] => none
  | .read _ :: accesses => lastWrite c accesses
  | .write d s :: accesses => (lastWrite c accesses).or (if d = c then some s else none)

theorem perform_read {c : Coord} {s : σ} (stored : g.get c = .ok s) :
    g.perform (.read c) = (.ok (some s), g) := by
  rw [perform, getAt_asValue, stored]
  rfl

theorem perform_write {c : Coord} (inside : Inside g.shape.sizes c) (s : σ) :
    ∃ g', g.perform (.write c s) = (.ok none, g') ∧ g'.shape = g.shape ∧ g'.get c = .ok s ∧
      ∀ d, d ≠ c → g'.get d = g.get d := by
  obtain ⟨g', hset, hshape, hsame, hother⟩ := g.set_of_inside inside s
  refine ⟨g', ?_, hshape, hsame, hother⟩
  simp only [perform, setAt_asValue, hset]

theorem perform_outside (access : Access σ) (outside : ¬ Inside g.shape.sizes access.coord) :
    g.perform access =
      (.error (.outsideGrid (asValue access.coord) g.shape.sizes), g) := by
  cases access with
  | read c =>
    change ¬ Inside g.shape.sizes c at outside
    rw [perform, getAt_asValue, g.get_of_outside outside]
    rfl
  | write c s =>
    change ¬ Inside g.shape.sizes c at outside
    simp only [perform, setAt_asValue, g.set_of_outside outside, Access.coord]

/-- An access changes no coordinate but the one that it writes to. -/
theorem get_perform {c : Coord} {s : σ} (stored : g.get c = .ok s) (access : Access σ) :
    (g.perform access).2.get c = .ok ((lastWrite c [access]).getD s) := by
  cases access with
  | read d => exact stored
  | write d t =>
    by_cases inside : Inside g.shape.sizes d
    · obtain ⟨g', hperform, _, hsame, hother⟩ := g.perform_write inside t
      rw [hperform]
      by_cases hdc : d = c
      · subst hdc
        simpa [lastWrite] using hsame
      · simpa [lastWrite, hdc] using (hother c (Ne.symm hdc)).trans stored
    · have hdc : d ≠ c := by
        rintro rfl
        exact inside (g.inside_of_get stored)
      rw [g.perform_outside (.write d t) inside]
      simpa [lastWrite, hdc] using stored

theorem shape_perform (access : Access σ) : (g.perform access).2.shape = g.shape := by
  cases access with
  | read c => rfl
  | write c s =>
    by_cases inside : Inside g.shape.sizes c
    · obtain ⟨g', hperform, hshape, _⟩ := g.perform_write inside s
      rw [hperform]
      exact hshape
    · rw [g.perform_outside (.write c s) inside]

theorem shape_after (accesses : List (Access σ)) : (g.after accesses).shape = g.shape := by
  induction accesses generalizing g with
  | nil => rfl
  | cons access accesses ih => exact (ih _).trans (g.shape_perform access)

theorem get_after {c : Coord} {s : σ} (stored : g.get c = .ok s) (accesses : List (Access σ)) :
    (g.after accesses).get c = .ok ((lastWrite c accesses).getD s) := by
  induction accesses generalizing g s with
  | nil => exact stored
  | cons access accesses ih =>
    have first := ih _ (g.get_perform stored access)
    change (g.after (access :: accesses)).get c = _ at first
    rw [first]
    cases access with
    | read d => rfl
    | write d t => cases hlast : lastWrite c accesses <;> simp [lastWrite, hlast]

end Access

/-- What a grid is filled with, and what becomes of it under any number of accesses. -/
theorem store_faithful {m : Type → Type} [Monad m] [LawfulMonad m] (shape : Shape)
    (periodic : Bool) (entry : Coord → m σ) :
    (shape.coordinates.Pairwise (· < ·) ∧
      (∀ c, c ∈ shape.coordinates ↔ Inside shape.sizes c) ∧
      shape.coordinates.length = shape.sizes.prod) ∧
    ((build shape periodic (noted entry)).run [] =
        (fun g => (g, g.entries)) <$> build shape periodic entry ∧
      (fun g => (g.shape, g.periodic)) <$> build shape periodic entry =
        (fun _ => (shape, periodic)) <$> build shape periodic entry) ∧
    ∀ (g : Grid σ) (before : List (Access σ)) (c : Coord),
      (Inside g.shape.sizes c → ∃ s, (c, s) ∈ g.entries ∧
        (g.after before).perform (.read c) =
          (.ok (some ((lastWrite c before).getD s)), g.after before) ∧
        ∀ t, ∃ g', (g.after before).perform (.write c t) = (.ok none, g') ∧ g'.get c = .ok t ∧
          ∀ d, d ≠ c → g'.get d = (g.after before).get d) ∧
      (¬ Inside g.shape.sizes c → ∀ access : Access σ, access.coord = c → ∃ f : Fault,
        f.kind = .coordinate ∧ (g.after before).perform access = (.error f, g.after before)) := by
  refine ⟨⟨pairwise_lt_boxCoords _, mem_boxCoords_iff _, ?_⟩,
    ⟨build_noted shape periodic entry, shape_build shape periodic entry⟩, ?_⟩
  · rw [Shape.coordinates, length_boxCoords, volume_eq_prod]
  · intro g before c
    have shape : (g.after before).shape = g.shape := g.shape_after before
    constructor
    · intro inside
      obtain ⟨s, hs⟩ := g.exists_entry inside
      have stored := g.get_after ((g.mem_entries_iff c s).1 hs) before
      refine ⟨s, hs, (g.after before).perform_read stored, ?_⟩
      intro t
      obtain ⟨g', hperform, _, hsame, hother⟩ :=
        (g.after before).perform_write (shape ▸ inside) t
      exact ⟨g', hperform, hsame, hother⟩
    · rintro outside access rfl
      exact ⟨_, rfl, (g.after before).perform_outside access (shape ▸ outside)⟩

/-- Two rows of three cells. -/
def band : Shape := ⟨[2, 3], by decide, by decide⟩

/-- Hands out numbers one after the other. -/
def serial (_ : Coord) : StateM Nat Nat := fun n => (n, n + 1)

-- The first cell of the second row is written twice; there is no third row.
theorem store_faithful_band :
    let g := ((build band false serial).run 10).1
    let before := [Access.write [1, 0] 7, .write [2, 0] 5, .write [1, 0] 8, .read [0, 0]]
    g.entries =
        [([0, 0], 10), ([0, 1], 11), ([0, 2], 12), ([1, 0], 13), ([1, 1], 14), ([1, 2], 15)] ∧
      ((build band false (noted serial)).run []).run 10 = ((g, g.entries), 16) ∧
      (g.after before).perform (.read [1, 0]) = (.ok (some 8), g.after before) ∧
      (g.after before).perform (.read [1, 1]) = (.ok (some 14), g.after before) ∧
      ∃ f : Fault, f.kind = .coordinate ∧
        (g.after before).perform (.read [1, -1]) = (.error f, g.after before) := by
  intro g before
  obtain ⟨_, ⟨called, _⟩, kept⟩ := store_faithful band false serial
  have filled : g.entries =
      [([0, 0], 10), ([0, 1], 11), ([0, 2], 12), ([1, 0], 13), ([1, 1], 14), ([1, 2], 15)] := by
    with_unfolding_all rfl
  refine ⟨filled, ?_, ?_, ?_, ?_⟩
  · rw [called]
    with_unfolding_all rfl
  · obtain ⟨s, _, hread, _⟩ := (kept g before [1, 0]).1 (.cons (by decide) (.cons (by decide) .nil))
    exact hread
  · obtain ⟨s, hs, hread, _⟩ := (kept g before [1, 1]).1
      (.cons (by decide) (.cons (by decide) .nil))
    obtain rfl : s = 14 := by simpa [filled] using hs
    exact hread
  · refine (kept g before [1, -1]).2 ?_ (.read [1, -1]) rfl
    rw [← mem_boxCoords_iff]
    decide

end Grid

end CellCollapse
