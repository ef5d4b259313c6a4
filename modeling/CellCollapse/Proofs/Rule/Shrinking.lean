import CellCollapse.Proofs.Engine.Frozen
import CellCollapse.Proofs.Rule.Turn

set_option autoImplicit false

/-!
# Possibilities only shrink

Nothing that the engine of a table does brings a value into a cell. An observation may put the
table's own form of a value into the cell, and that is a value of the cell by `==`. What is said
here needs no law of the space: the buffers may hold what they like.
-/
namespace CellCollapse.Table

variable {α κ δ ρ : Type} [BEq α] {n : Nat} {t : Table α δ}

section Governed

variable {e : Engine (Possibilities α) κ δ ρ n} (governs : t.Governs e.rule)

include governs

theorem Governs.recorded : t.Governs e.recorded.rule where
  offsets := governs.offsets
  collapse s ns x := by
    change (∃ y f, (e.rule.collapse s ns x.1).record _ = _) ∨
      ∃ y, (e.rule.collapse s ns x.1).record _ = _
    rcases governs.collapse s ns x.1 with ⟨y, f, hreply⟩ | ⟨y, hreply⟩
    · rw [hreply]
      exact .inl ⟨_, f, rfl⟩
    · rw [hreply]
      exact .inr ⟨_, rfl⟩
  observe s ns x filled := by
    change (∃ y f, (e.rule.observe s ns x.1).record _ = _) ∨
      ∃ v y, s.contains v = true ∧ (e.rule.observe s ns x.1).record _ = _
    rcases governs.observe s ns x.1 filled with ⟨y, f, hreply⟩ | ⟨v, y, held, hreply⟩
    · rw [hreply]
      exact .inl ⟨_, f, rfl⟩
    · rw [hreply]
      exact .inr ⟨v, _, held, rfl⟩

/-- A step that counts an observation leaves one value of an undecided cell. -/
theorem Governs.observed_only {r r' : Run (Possibilities α) κ ρ n} (move : e.Move r (.running r'))
    (counted : r'.observations ≠ r.observations) : ∃ i v, (r.cells.get i).entropy ≠ 0 ∧
      (r.cells.get i).contains v = true ∧ r'.cells = r.cells.set i.val (.only v) i.isLt := by
  cases move with
  | skip | react => exact absurd rfl counted
  | @observe c i around views reply candidates x _ _ _ undecided _ asked calm =>
    have undecided : (r.cells.get i).entropy ≠ 0 := by simpa using undecided
    have filled := Possibilities.nonempty_of_entropy undecided
    rcases governs.observe (r.cells.get i) views x filled with ⟨y, f, hreply⟩ | ⟨v, y, held, hreply⟩
    · cases calm.symm.trans (congrArg Reply.fault (asked.symm.trans hreply))
    · refine ⟨i, v, undecided, held, ?_⟩
      rw [Engine.observed, asked.symm.trans hreply]

/-- The step that takes the last value of a cell makes one call, which is to collapse that cell. -/
theorem Governs.emptied {r : Run (Possibilities α) κ (ρ × List (Call (Possibilities α))) n}
    {o : Outcome (Possibilities α) κ (ρ × List (Call (Possibilities α))) n}
    (move : e.recorded.Move r o) {i : Fin n} (filled : (r.cells.get i).isEmpty = false)
    (empty : (o.run.cells.get i).isEmpty = true) :
    ∃ views, o.run.context.2 = r.context.2 ++ [⟨false, r.cells.get i, views⟩] ∧
      o.run.cells.get i = (e.rule.collapse (r.cells.get i) views r.context.1).cell := by
  have changed : o.run.cells.get i ≠ r.cells.get i := by
    intro same
    rw [same, filled] at empty
    cases empty
  -- A cell other than the one that is asked about does not change.
  have site : ∀ (j : Fin n) (s : Possibilities α),
      (r.cells.set j.val s j.isLt).get i ≠ r.cells.get i → j = i := by
    intro j s differs
    apply Decidable.byContradiction
    intro other
    rw [get_set, if_neg other] at differs
    exact differs rfl
  by_cases running : ∃ q, o = .running q
  · obtain ⟨q, rfl⟩ := running
    by_cases counted : q.observations = r.observations
    · cases move with
      | skip => exact absurd rfl changed
      | @react c rest j around views reply _ _ _ _ asked =>
        obtain rfl := site j reply.cell changed
        subst asked
        refine ⟨views, rfl, ?_⟩
        change (r.cells.set j.val _ j.isLt).get j = _
        rw [get_set, if_pos rfl]
        rfl
      | observe => exact absurd counted (Nat.succ_ne_self _)
    · obtain ⟨j, v, _, _, hcells⟩ := governs.recorded.observed_only move counted
      change (q.cells.get i).isEmpty = true at empty
      change q.cells.get i ≠ r.cells.get i at changed
      rw [hcells] at changed empty
      obtain rfl := site j _ changed
      rw [get_set, if_pos rfl] at empty
      cases empty
  · refine absurd ?_ changed
    rw [governs.recorded.cells_of_ended move fun q hq => running ⟨q, hq⟩]

theorem Governs.recorded_emptied [BEq κ] {cells : Vector (Possibilities α) n} {context : ρ}
    {k : Nat} {i : Fin n} (filled : ((e.moment cells context k).run.cells.get i).isEmpty = false)
    (empty : ((e.moment cells context (k + 1)).run.cells.get i).isEmpty = true) :
    ∃ calls call x,
      e.recorded.moment cells (context, []) k = (e.moment cells context k).record calls ∧
      e.recorded.moment cells (context, []) (k + 1) =
        (e.moment cells context (k + 1)).record (calls ++ [call]) ∧
      call.observes = false ∧ call.cell = (e.moment cells context k).run.cells.get i ∧
      (e.moment cells context (k + 1)).run.cells.get i =
        (e.rule.collapse call.cell call.snapshots x).cell := by
  have same : ∀ m, e.moment cells context m =
      (e.recorded.moment cells (context, []) m).mapContext Prod.fst :=
    e.recorded_extends.moment cells (context, [])
  simp only [same, Outcome.run_mapContext, Run.mapContext] at filled empty ⊢
  rcases e.recorded.moment_next cells (context, []) k with stays | ⟨r, hr, move⟩
  · rw [stays, filled] at empty
    cases empty
  · rw [hr] at filled ⊢
    obtain ⟨views, grown, left⟩ := governs.emptied move filled empty
    refine ⟨r.context.2, ⟨false, r.cells.get i, views⟩, r.context.1, rfl, ?_, rfl, rfl, left⟩
    rw [← grown]
    exact (Outcome.record_mapContext _).symm

variable [EquivBEq α]

theorem Governs.subset_reply {s : Possibilities α} {ns : List (Option (Possibilities α))} {x : ρ}
    {reply : Reply (Possibilities α) ρ} (undecided : CellState.entropy s ≠ 0)
    (asked : e.rule.collapse s ns x = reply ∨ e.rule.observe s ns x = reply) :
    reply.cell.subset s = true := by
  have filled := Possibilities.nonempty_of_entropy (s := s) (by simpa using undecided)
  rcases asked with rfl | rfl
  · rcases governs.collapse s ns x with ⟨y, f, hreply⟩ | ⟨y, hreply⟩
    · rw [hreply]
      exact s.subset_refl
    · rw [hreply]
      exact s.subset_filter _
  · rcases governs.observe s ns x filled with ⟨y, f, hreply⟩ | ⟨v, y, held, hreply⟩
    · rw [hreply]
      exact s.subset_refl
    · rw [hreply]
      exact Possibilities.subset_only held

theorem Governs.subset_move {r : Run (Possibilities α) κ ρ n}
    {o : Outcome (Possibilities α) κ ρ n} (move : e.Move r o) (i : Fin n) :
    (o.run.cells.get i).subset (r.cells.get i) = true := by
  rcases move.cells_eq_or_set with same | ⟨j, views, x, reply, undecided, asked, changed⟩
  · rw [same]
    exact (r.cells.get i).subset_refl
  · rw [changed, get_set]
    split
    · rename_i hji
      subst hji
      exact governs.subset_reply undecided asked
    · exact (r.cells.get i).subset_refl

theorem Governs.subset_moment [BEq κ] (cells : Vector (Possibilities α) n) (context : ρ)
    {j k : Nat} (h : j ≤ k) (i : Fin n) :
    ((e.moment cells context k).run.cells.get i).subset
      ((e.moment cells context j).run.cells.get i) = true := by
  refine Engine.moment_rel (fun r r' => (r'.cells.get i).subset (r.cells.get i) = true)
    (fun r => (r.cells.get i).subset_refl) ?_ (fun _ _ move => governs.subset_move move i) h
  intro p q r hpq hqr
  exact Possibilities.subset_trans hqr hpq

theorem Governs.contains_before [BEq κ] {cells : Vector (Possibilities α) n} {context : ρ} {k : Nat}
    {i : Fin n} {v : α} (held : ((e.moment cells context k).run.cells.get i).contains v = true) :
    (cells.get i).contains v = true := by
  have shrunk := governs.subset_moment cells context (Nat.zero_le k) i
  rw [Engine.moment, Engine.start_cells, Possibilities.subset_iff] at shrunk
  exact shrunk v held

end Governed

variable [EquivBEq α] [AsValue α] [BEq κ]

/-- A value of a cell in the course of a collapse was there at the start. -/
theorem contains_before {choose : Chooser ρ} {pick : TieBreak ρ} {space : Space κ δ n}
    {cells : Vector (Possibilities α) n} {context : ρ} {k : Nat} {r : Run (Possibilities α) κ ρ n}
    (h : (t.engine choose pick space).moment cells context k = .running r) (i : Fin n) (v : α)
    (held : (r.cells.get i).contains v = true) : (cells.get i).contains v = true := by
  have governs : t.Governs (t.engine choose pick space).rule := t.governs_rule choose
  have present : (((t.engine choose pick space).moment cells context k).run.cells.get
      i).contains v = true := by
    rw [h]
    exact held
  exact governs.contains_before present

/-- The calls are read off the record of `Engine.recorded`. What an observation leaves is said for
every context that the call may find. -/
theorem possibilities_only_shrink (t : Table α δ) (choose : Chooser ρ)
    (e : Engine (Possibilities α) κ δ ρ n) (ruled : e.rule = t.rule choose)
    (cells : Vector (Possibilities α) n) (context : ρ) :
    (∃ k, e.collapse cells context = e.moment cells context k) ∧
    (∀ j k i, j ≤ k → ((e.moment cells context k).run.cells.get i).subset
      ((e.moment cells context j).run.cells.get i) = true) ∧
    (∀ k, ∃ calls, e.recorded.moment cells (context, []) k =
        (e.moment cells context k).record calls ∧
      ∀ call ∈ calls, call.observes = true → ∀ x,
        (∃ f y, t.observe choose call.cell call.snapshots x =
          ⟨call.cell, call.snapshots, y, some f⟩) ∨
        ∃ v y, call.cell.contains v = true ∧
          t.observe choose call.cell call.snapshots x = ⟨.only v, call.snapshots, y, none⟩) ∧
    (∀ k r, e.moment cells context k = .running r →
      (∀ r' f, e.moment cells context (k + 1) = .failed r' f → r'.cells = r.cells) ∧
      ∀ r', e.moment cells context (k + 1) = .running r' → r'.observations ≠ r.observations →
        ∃ i v, (r.cells.get i).entropy ≠ 0 ∧ (r.cells.get i).contains v = true ∧
          r'.cells = r.cells.set i.val (.only v) i.isLt) ∧
    (∀ k i, ((e.moment cells context k).run.cells.get i).isEmpty = false →
      ((e.moment cells context (k + 1)).run.cells.get i).isEmpty = true →
      ∃ calls call x,
        e.recorded.moment cells (context, []) k = (e.moment cells context k).record calls ∧
        e.recorded.moment cells (context, []) (k + 1) =
          (e.moment cells context (k + 1)).record (calls ++ [call]) ∧
        call.observes = false ∧ call.cell = (e.moment cells context k).run.cells.get i ∧
        (e.moment cells context (k + 1)).run.cells.get i =
          (e.rule.collapse call.cell call.snapshots x).cell) ∧
    ∀ i, ((e.collapse cells context).run.cells.get i).isEmpty = false →
      ∃ v ∈ ((e.collapse cells context).run.cells.get i).toList,
        (cells.get i).contains v = true := by
  have governs : t.Governs e.rule := by
    rw [ruled]
    exact t.governs_rule choose
  obtain ⟨last, hlast⟩ := e.exists_collapse_eq_moment cells context
  refine ⟨⟨last, hlast⟩, fun j k i h => governs.subset_moment cells context h i, ?_, ?_,
    fun k i => governs.recorded_emptied, ?_⟩
  · intro k
    obtain ⟨calls, recorded, hcalls⟩ := e.recorded_moment cells context k
    refine ⟨calls, recorded, ?_⟩
    intro call hcall _ x
    obtain ⟨_, _, r, c, i, _, asks⟩ := hcalls call hcall
    have undecided : call.cell.entropy ≠ 0 := by
      rw [asks.cell]
      simpa using asks.undecided
    exact t.observe_cases choose (Possibilities.nonempty_of_entropy undecided) call.snapshots x
  · intro k r hr
    have move := e.step_move r
    rw [← Engine.moment_succ hr] at move
    refine ⟨?_, ?_⟩
    · intro r' f failed
      rw [failed] at move
      exact governs.cells_of_ended move (by simp)
    · intro r' running counted
      rw [running] at move
      exact governs.observed_only move counted
  · intro i filled
    rw [hlast] at filled ⊢
    obtain ⟨v, hv⟩ := (Possibilities.isEmpty_eq_false_iff _).1 filled
    exact ⟨v, hv, governs.contains_before (Possibilities.contains_of_mem hv)⟩

/-- Zeros and ones in turn, written as numbers. -/
def numbers : Table Value Nat where
  offsets := [1]
  entries := [⟨.int 0, [[.int 1]], .one⟩, ⟨.int 1, [[.int 0]], .one⟩]
  width := by decide
  distinct := by decide
  positive := by decide

def numbersEngine : Engine (Possibilities Value) Nat Nat Unit 2 :=
  ⟨Engine.twoCells, numbers.rule fun _ ws x => (.ok (Fin.last ws.length), x),
    fun m x => (⟨0, m.succ_pos⟩, x)⟩

/-- Two cells that may be `true`, which is a one to the table, or zero. -/
def truths : Vector (Possibilities Value) 2 :=
  #v[.ofList [.bool true, .int 0], .ofList [.int 0, .bool true]]

-- The first cell is observed to be the number one, and not `true`.
theorem possibilities_only_shrink_numbers :
    numbersEngine.rule = numbers.rule (fun _ ws x => (.ok (Fin.last ws.length), x)) ∧
      ((numbersEngine.collapse truths ()).run.cells.get 0).toList.map Value.isBool = [false] ∧
      (∃ v ∈ ((numbersEngine.collapse truths ()).run.cells.get 0).toList,
        (truths.get 0).contains v = true) ∧
      ((numbersEngine.moment truths () 2).run.cells.get 0).size = 2 ∧
      ((numbersEngine.moment truths () 3).run.cells.get 0).size = 1 ∧
      ((numbersEngine.moment truths () 3).run.cells.get 0).subset
        ((numbersEngine.moment truths () 2).run.cells.get 0) = true := by
  obtain ⟨_, shrinks, _, _, _, final⟩ := possibilities_only_shrink numbers
    (fun _ ws x => (.ok (Fin.last ws.length), x)) numbersEngine rfl truths ()
  exact ⟨rfl, by decide +kernel, final 0 (by decide +kernel), by decide +kernel,
    by decide +kernel, shrinks 2 3 0 (by omega)⟩

end CellCollapse.Table
