import CellCollapse.Proofs.Engine.Moment

set_option autoImplicit false

/-!
# Buffers of a run

A run has one place per offset for a neighbor and one for its snapshot, and uses the same places in
every step. As long as a rule hands back as many snapshots as it was given, both buffers keep their
size (`Engine.Buffered`), and a look around fills them to the end: whatever an earlier call left in
them is gone before the next call is made (`Engine.Buffered.looked`).
-/
namespace CellCollapse

variable {σ κ δ ρ : Type} {n : Nat}

/-- The rule hands back as many snapshots as it was given. -/
structure Rule.Tidy (rule : Rule σ δ ρ) : Prop where
  collapse : ∀ s ns x, (rule.collapse s ns x).snapshots.length = ns.length
  observe : ∀ s ns x, (rule.observe s ns x).snapshots.length = ns.length

/-- The rule changes only the cell that it is asked about. -/
structure Rule.CellOnly (rule : Rule σ δ ρ) : Prop where
  collapse : ∀ s ns x, (rule.collapse s ns x).snapshots = ns
  observe : ∀ s ns x, (rule.observe s ns x).snapshots = ns

theorem Rule.CellOnly.tidy {rule : Rule σ δ ρ} (only : rule.CellOnly) : rule.Tidy := by
  constructor
  · intro s ns x
    rw [only.collapse]
  · intro s ns x
    rw [only.observe]

namespace Engine

structure Buffered (e : Engine σ κ δ ρ n) (r : Run σ κ ρ n) : Prop where
  around : r.neighbors.length = e.rule.offsets.length
  views : r.snapshots.length = e.rule.offsets.length

variable {e : Engine σ κ δ ρ n} {r r' : Run σ κ ρ n}

theorem length_snapshotsOf {space : Space κ δ n} {cells : Vector σ n} {ns : List (Option κ)}
    (readable : (snapshotsOf space cells ns).fault = none) :
    (snapshotsOf space cells ns).found.length = ns.length := by
  rw [snapshotsOf_found readable, List.length_map]

theorem Buffered.looked (buffered : e.Buffered r) {c : κ} {around : List (Option κ)}
    {views : List (Option σ)}
    (complete : (e.space.neighbors c e.rule.offsets).found.length = e.rule.offsets.length)
    (looked : e.Looked r c around views) :
    around = (e.space.neighbors c e.rule.offsets).found ∧
      views.length = e.rule.offsets.length ∧ views = e.space.views e.rule.offsets r.cells c := by
  have haround : around = (e.space.neighbors c e.rule.offsets).found :=
    looked.around_eq.trans (Lookup.overwrite_eq_found (complete.trans buffered.around.symm))
  have hlength := looked.length_views.trans buffered.views
  refine ⟨haround, hlength, ?_⟩
  rw [looked.views_eq, Lookup.overwrite_eq_found, snapshotsOf_found looked.readable, haround]
  · rfl
  · rw [length_snapshotsOf looked.readable, haround, complete, buffered.views]

variable [CellState σ]

theorem Buffered.move (tidy : e.rule.Tidy) (buffered : e.Buffered r)
    (move : e.Move r (.running r')) : e.Buffered r' := by
  cases move with
  | skip => exact ⟨buffered.around, buffered.views⟩
  | @react c rest i around views reply _ _ _ looked asked =>
    subst asked
    refine ⟨looked.length_around.trans buffered.around, ?_⟩
    change (e.rule.collapse (r.cells.get i) views r.context).snapshots.length = _
    rw [tidy.collapse, looked.length_views, buffered.views]
  | @observe c i around views reply candidates x _ _ _ _ looked asked =>
    subst asked
    refine ⟨looked.length_around.trans buffered.around, ?_⟩
    change (e.rule.observe (r.cells.get i) views x).snapshots.length = _
    rw [tidy.observe, looked.length_views, buffered.views]

theorem Buffered.select (buffered : e.Buffered r) : e.Buffered (e.select r).1 :=
  ⟨buffered.around, buffered.views⟩

variable [BEq κ]

theorem Buffered.start (buffered : e.Buffered r) : e.Buffered (e.start r).run := by
  simp only [Engine.start]
  split
  · exact ⟨buffered.around, buffered.views⟩
  · exact ⟨buffered.around, buffered.views⟩

omit [CellState σ] [BEq κ] in
theorem buffered_fresh (e : Engine σ κ δ ρ n) (cells : Vector σ n) (context : ρ) :
    e.Buffered (e.fresh cells context) := by
  constructor
  · exact List.length_replicate
  · exact List.length_replicate

theorem buffered_moment (tidy : e.rule.Tidy) {cells : Vector σ n} {context : ρ} {k : Nat}
    (h : e.moment cells context k = .running r) : e.Buffered r := by
  refine moment_induction e.Buffered ?_ (fun _ _ _ _ => Buffered.move tidy) h
  intro r₀ start
  have buffered := (e.buffered_fresh cells context).start
  rwa [start] at buffered

end Engine

end CellCollapse
