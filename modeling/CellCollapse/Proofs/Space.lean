import CellCollapse.Space

set_option autoImplicit false

/-!
# Laws of spaces

What a space promises to an engine: its list of coordinates names every cell once, and a look-up
that meets no fault gives one entry per offset, each of them nothing or one of the coordinates.
`Space.Apart` says in addition that no two coordinates share their state.
-/
namespace CellCollapse

theorem get_set {σ : Type} {n : Nat} (cells : Vector σ n) (i j : Fin n) (s : σ) :
    (cells.set i.val s i.isLt).get j = if i = j then s else cells.get j := by
  change (cells.set i.val s i.isLt)[j.val] = if i = j then s else cells[j.val]
  rw [Vector.getElem_set]
  simp only [Fin.ext_iff]

namespace Space

variable {κ δ : Type} {n : Nat}

/-- The neighbor along the offset with number `k`, if there is one. -/
def neighbor? (space : Space κ δ n) (offsets : List δ) (c : κ) (k : Nat) : Option κ :=
  (space.neighbors c offsets).found[k]?.join

theorem neighbor?_eq_some_iff (space : Space κ δ n) (offsets : List δ) (c d : κ) (k : Nat) :
    space.neighbor? offsets c k = some d ↔
      (space.neighbors c offsets).found[k]? = some (some d) := by
  simp [neighbor?, Option.join_eq_some_iff]

theorem mem_filterMap_found_iff (space : Space κ δ n) (offsets : List δ) (c d : κ) :
    d ∈ (space.neighbors c offsets).found.filterMap id ↔
      ∃ k, space.neighbor? offsets c k = some d := by
  rw [List.mem_filterMap]
  constructor
  · rintro ⟨o, ho, rfl⟩
    obtain ⟨k, hk⟩ := List.mem_iff_getElem?.1 ho
    exact ⟨k, (space.neighbor?_eq_some_iff offsets c d k).2 hk⟩
  · rintro ⟨k, hk⟩
    have hfound := (space.neighbor?_eq_some_iff offsets c d k).1 hk
    exact ⟨some d, List.mem_of_getElem? hfound, rfl⟩

/-- What the cell at a coordinate sees of its neighbors, one entry per offset. -/
def views {σ : Type} (space : Space κ δ n) (offsets : List δ) (cells : Vector σ n) (c : κ) :
    List (Option σ) :=
  (space.neighbors c offsets).found.map fun o => o.bind fun d => (space.get cells d).toOption

theorem length_views {σ : Type} (space : Space κ δ n) (offsets : List δ) (cells : Vector σ n)
    (c : κ) : (space.views offsets cells c).length = (space.neighbors c offsets).found.length :=
  List.length_map _

structure Listed [BEq κ] (space : Space κ δ n) : Prop where
  once : space.coordinates.Pairwise fun c d => (d == c) = false
  named : ∀ c ∈ space.coordinates, space.nowhere c = false

theorem Listed.nodup [BEq κ] [ReflBEq κ] {space : Space κ δ n} (listed : space.Listed) :
    space.coordinates.Nodup := by
  refine listed.once.imp ?_
  rintro c d different rfl
  rw [BEq.rfl] at different
  cases different

structure Lawful [BEq κ] (space : Space κ δ n) (offsets : List δ) : Prop extends Listed space where
  closed : ∀ c ∈ space.coordinates, ∀ k d, space.neighbor? offsets c k = some d →
    d ∈ space.coordinates
  complete : ∀ c ∈ space.coordinates, (space.neighbors c offsets).fault = none →
    (space.neighbors c offsets).found.length = offsets.length

theorem Lawful.mem_of_found [BEq κ] {space : Space κ δ n} {offsets : List δ}
    (lawful : space.Lawful offsets) {c d : κ} (mem : c ∈ space.coordinates)
    (h : d ∈ (space.neighbors c offsets).found.filterMap id) : d ∈ space.coordinates := by
  obtain ⟨k, hk⟩ := (space.mem_filterMap_found_iff offsets c d).1 h
  exact lawful.closed c mem k d hk

/-- Every cell has a state of its own. -/
def Apart (space : Space κ δ n) : Prop :=
  ∀ c ∈ space.coordinates, ∀ d ∈ space.coordinates, ∀ i,
    space.slot c = .ok i → space.slot d = .ok i → c = d

theorem get_eq_ok_iff {σ : Type} (space : Space κ δ n) (cells : Vector σ n) (c : κ) (s : σ) :
    space.get cells c = .ok s ↔ ∃ i, space.slot c = .ok i ∧ cells.get i = s := by
  unfold get
  cases space.slot c with
  | error f => simp [Except.map]
  | ok i => simp [Except.map]

theorem get_eq_ok {σ : Type} {space : Space κ δ n} {c : κ} {i : Fin n}
    (slot : space.slot c = .ok i) (cells : Vector σ n) : space.get cells c = .ok (cells.get i) :=
  (space.get_eq_ok_iff cells c _).2 ⟨i, slot, rfl⟩

theorem get_eq_error {σ : Type} {space : Space κ δ n} {cells : Vector σ n} {c : κ} {f : Fault}
    (h : space.get cells c = .error f) : space.slot c = .error f := by
  unfold get at h
  cases hs : space.slot c with
  | error g => simpa [hs, Except.map] using h
  | ok i => simp [hs, Except.map] at h

/-- Of some coordinates, the first one without a cell has this fault. -/
inductive Unreadable (space : Space κ δ n) (f : Fault) : List κ → Prop where
  | head {c : κ} {cs : List κ} (missing : space.slot c = .error f) : Unreadable space f (c :: cs)
  | tail {c : κ} {cs : List κ} {i : Fin n} (readable : space.slot c = .ok i)
      (later : Unreadable space f cs) : Unreadable space f (c :: cs)

theorem Unreadable.exists_missing {space : Space κ δ n} {f : Fault} {cs : List κ}
    (h : space.Unreadable f cs) : ∃ c ∈ cs, space.slot c = .error f := by
  induction h with
  | head missing => exact ⟨_, List.mem_cons_self, missing⟩
  | tail _ _ ih =>
    obtain ⟨c, mem, missing⟩ := ih
    exact ⟨c, List.mem_cons_of_mem _ mem, missing⟩

section Entropy

variable {σ : Type} [CellState σ]

/-- The entropy of a cell; a coordinate without a cell counts as decided. -/
def entropyAt (space : Space κ δ n) (cells : Vector σ n) (c : κ) : Int :=
  match space.get cells c with
  | .ok s => CellState.entropy s
  | .error _ => 0

/-- The coordinates of the undecided cells, in the order of the space. -/
def undecided (space : Space κ δ n) (cells : Vector σ n) : List κ :=
  space.coordinates.filter fun c => decide (0 < space.entropyAt cells c)

theorem entropyAt_eq {space : Space κ δ n} {c : κ} {i : Fin n} (slot : space.slot c = .ok i)
    (cells : Vector σ n) : space.entropyAt cells c = CellState.entropy (cells.get i) := by
  rw [entropyAt, get_eq_ok slot]

end Entropy

end Space

namespace Lookup

variable {τ : Type}

theorem overwrite_eq_found {l : Lookup τ} {buffer : List (Option τ)}
    (h : l.found.length = buffer.length) : l.overwrite buffer = l.found := by
  simp [overwrite, ← h]

end Lookup

end CellCollapse
