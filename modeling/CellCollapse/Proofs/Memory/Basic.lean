import CellCollapse.Memory.Engine
import CellCollapse.Proofs.Engine.Buffers

set_option autoImplicit false

/-!
# Cells and clones

What is written to a state of a cell is read there and nowhere else, and what is written to a clone
is not read from any cell. Cloning only adds states (`Memory.Grows`), and the clones made for a
look around have the values that the neighbors have at that time (`Memory.clones_spec`).
-/
namespace CellCollapse

namespace Memory

variable {σ κ δ : Type} {n : Nat}

theorem get_cells (m : Memory σ n) (i : Fin n) : m.cells.get i = m.cell i :=
  Vector.getElem_ofFn i.isLt

theorem read?_cell (m : Memory σ n) (i : Fin n) : m.read? i.val = some (m.cell i) :=
  List.getElem?_eq_getElem (Nat.lt_of_lt_of_le i.isLt m.room)

theorem cells_ofCells (cells : Vector σ n) : (ofCells cells).cells = cells := by
  apply Vector.ext
  intro i hi
  exact (Vector.getElem_ofFn hi).trans (Vector.getElem_toList _)

theorem cells_congr {m m' : Memory σ n} (same : ∀ i : Fin n, m'.read? i.val = m.read? i.val) :
    m'.cells = m.cells := by
  have cell : m'.cell = m.cell := by
    funext i
    exact Option.some.inj (by rw [← read?_cell, ← read?_cell, same])
  rw [cells, cells, cell]

theorem cells_write (m : Memory σ n) (i : Fin n) (s : σ) :
    (m.write i.val s).cells = m.cells.set i.val s i.isLt := by
  apply Vector.ext
  intro j hj
  change (Vector.ofFn _)[j] = (Vector.set (Vector.ofFn _) _ _ _)[j]
  rw [Vector.getElem_ofFn, Vector.getElem_set, Vector.getElem_ofFn]
  exact List.getElem_set _

theorem cells_write_copy (m : Memory σ n) {ref : Ref} (copy : n ≤ ref) (s : σ) :
    (m.write ref s).cells = m.cells := by
  apply cells_congr
  intro i
  exact List.getElem?_set_ne (Nat.ne_of_gt (Nat.lt_of_lt_of_le i.isLt copy))

/-- The references lead to states that are not those of the cells. -/
def Copies (m : Memory σ n) (refs : List (Option Ref)) : Prop :=
  ∀ ref, some ref ∈ refs → n ≤ ref ∧ ref < m.states.length

/-- The later memory has the states of the earlier one and perhaps more. -/
def Grows (m m' : Memory σ n) : Prop := ∃ more, m'.states = m.states ++ more

theorem Grows.read? {m m' : Memory σ n} (grows : m.Grows m') {ref : Ref}
    (known : ref < m.states.length) : m'.read? ref = m.read? ref := by
  obtain ⟨more, states⟩ := grows
  rw [Memory.read?, states]
  exact List.getElem?_append_left known

theorem Grows.cells {m m' : Memory σ n} (grows : m.Grows m') : m'.cells = m.cells :=
  cells_congr fun i => grows.read? (Nat.lt_of_lt_of_le i.isLt m.room)

theorem Grows.trans {m m' m'' : Memory σ n} (first : m.Grows m') (second : m'.Grows m'') :
    m.Grows m'' := by
  obtain ⟨more, h⟩ := first
  obtain ⟨more', h'⟩ := second
  exact ⟨more ++ more', by rw [h', h, List.append_assoc]⟩

theorem Grows.length_le {m m' : Memory σ n} (grows : m.Grows m') :
    m.states.length ≤ m'.states.length := by
  obtain ⟨more, states⟩ := grows
  rw [states, List.length_append]
  exact Nat.le_add_right _ _

theorem grows_clone (m : Memory σ n) (i : Fin n) : m.Grows (m.clone i).1 := ⟨[m.cell i], rfl⟩

theorem read?_clone (m : Memory σ n) (i : Fin n) :
    (m.clone i).1.read? (m.clone i).2 = some (m.cell i) :=
  List.getElem?_concat_length

/-- The clones made between two memories have the values of a look-up. -/
structure Cloned (m : Memory σ n) (views : Lookup σ) (m' : Memory σ n) (refs : Lookup Ref) :
    Prop where
  grows : m.Grows m'
  fault : refs.fault = views.fault
  values : m'.values refs.found = views.found
  fresh : ∀ ref, some ref ∈ refs.found → m.states.length ≤ ref ∧ ref < m'.states.length

theorem Cloned.nothing (m : Memory σ n) (fault : Option Fault) :
    Cloned m ⟨[], fault⟩ m ⟨[], fault⟩ :=
  ⟨⟨[], (List.append_nil _).symm⟩, rfl, rfl, fun _ mem => nomatch mem⟩

theorem Cloned.absent {m m' : Memory σ n} {views : Lookup σ} {refs : Lookup Ref}
    (h : Cloned m views m' refs) : Cloned m (.cons none views) m' (.cons none refs) :=
  ⟨h.grows, h.fault, congrArg (none :: ·) h.values,
    fun ref mem => h.fresh ref (by simpa [Lookup.cons] using mem)⟩

/-- The first clone is not touched by those that are made after it. -/
theorem Cloned.present {m m' : Memory σ n} {i : Fin n} {views : Lookup σ} {refs : Lookup Ref}
    (h : Cloned (m.clone i).1 views m' refs) :
    Cloned m (.cons (some (m.cell i)) views) m' (.cons (some (m.clone i).2) refs) := by
  have known : (m.clone i).2 < (m.clone i).1.states.length := by simp [clone]
  have first : m'.read? (m.clone i).2 = some (m.cell i) :=
    (h.grows.read? known).trans (m.read?_clone i)
  refine ⟨(m.grows_clone i).trans h.grows, h.fault, ?_, ?_⟩
  · change m'.read? (m.clone i).2 :: m'.values refs.found = _
    rw [first, h.values]
    rfl
  · intro ref mem
    rcases List.mem_cons.1 mem with same | later
    · cases same
      exact ⟨Nat.le_refl _, Nat.lt_of_lt_of_le known h.grows.length_le⟩
    · obtain ⟨above, below⟩ := h.fresh ref later
      exact ⟨Nat.le_trans (m.grows_clone i).length_le above, below⟩

theorem clones_spec (space : Space κ δ n) (m : Memory σ n) (ns : List (Option κ)) :
    Cloned m (Engine.snapshotsOf space m.cells ns) (m.clones space ns).1 (m.clones space ns).2 := by
  induction ns generalizing m with
  | nil => exact .nothing m none
  | cons o ns ih =>
    cases o with
    | none => exact (ih m).absent
    | some c =>
      simp only [clones, Engine.snapshotsOf, Space.get]
      cases space.slot c with
      | error f => exact .nothing m (some f)
      | ok i =>
        have rest := ih (m.clone i).1
        rw [(m.grows_clone i).cells] at rest
        simp only [Except.map, get_cells]
        exact rest.present

end Memory

end CellCollapse
