import CellCollapse.Grid.Report
import CellCollapse.Proofs.Grid.NestedArray
import CellCollapse.Proofs.Grid.Store

set_option autoImplicit false

/-!
# What a report shows

A report is an array of the grid's shape. A decided cell shows its value whole, whatever the value
is. The other cells show the backdrop as long as it is plain. A tuple is no plain backdrop: it is
stretched over the grid as an array, so its parts are shown in its place, or it is refused. Nor is a
text that ends in a NUL, which is shown without its end.
-/
namespace CellCollapse

/-- The backdrops that are shown as they are. -/
def Value.isPlain : Value → Bool
  | .tuple _ => false
  | .text s => s.toList.getLast? != some (Char.ofNat 0)
  | _ => true

theorem Value.scalar_of_isPlain {v : Value} (plain : v.isPlain = true) : v.Scalar := by
  rintro items rfl
  cases plain

theorem Value.beq_tuple {v : Value} (scalar : v.Scalar) (items : List Value) :
    (v == .tuple items) = false := by
  rw [Value.beq_eq_decide, decide_eq_false_iff_not]
  intro same
  -- The key of a tuple is a chain, and no other key is one.
  cases v with
  | tuple vs => exact scalar vs rfl
  | float x mark =>
    simp only [Value.key, Value.floatKey] at same
    split at same <;> cases items <;> cases same
  | _ => cases items <;> cases same

namespace NestedArray

theorem entry_of_isPlain {v : Value} (plain : v.isPlain = true) : entry v = v := by
  cases v with
  | text s =>
    have whole : fixedText s = s := (fixedText_eq_iff s).2 (by simpa [Value.isPlain] using plain)
    rw [entry, whole]
  | _ => rfl

/-- A backdrop that is not plain is among none of its own entries. -/
theorem beq_of_mem_entries {v : Value} {a : NestedArray} (made : ofValue v = .ok a)
    (coarse : v.isPlain = false) {w : Value} (hw : w ∈ a.entries) : (w == v) = false := by
  cases v with
  | tuple items => exact Value.beq_tuple ((ofValue_spec made).2 w hw) items
  | text s =>
    obtain ⟨u, scalar⟩ := ofValue_scalar (v := .text s) fun _ => Value.noConfusion
    cases made.symm.trans scalar
    have cut : fixedText s ≠ s := by
      rw [Ne, fixedText_eq_iff]
      simpa [Value.isPlain] using coarse
    rw [List.mem_singleton.1 hw, entry, Value.beq_eq_decide, decide_eq_false_iff_not]
    exact fun same => cut (Key.text.inj same)
  | _ => cases coarse

end NestedArray

namespace Grid

variable {σ : Type} (g : Grid σ)

/-- An array of the grid's shape has an entry for every cell. -/
theorem exists_array {vs : List Value} (full : vs.length = g.shape.volume) :
    ∃ a : Grid Value, a.shape = g.shape ∧ a.cells.toList = vs ∧
      ∀ c s, g.get c = .ok s → ∃ (k : Nat) (w : Value), g.cells.toList[k]? = some s ∧
        vs[k]? = some w ∧ a.get c = .ok w := by
  let a : Grid Value := ⟨g.shape, g.periodic, ⟨vs.toArray, full⟩⟩
  refine ⟨a, rfl, rfl, ?_⟩
  intro c s stored
  obtain ⟨k, hk⟩ := List.mem_iff_getElem?.1 ((g.mem_entries_iff c s).2 stored)
  obtain ⟨hc, hs⟩ := List.getElem?_zip_eq_some.1 hk
  have bound : k < vs.length := by
    rw [full, ← g.cells.length_toList]
    exact (List.getElem?_eq_some_iff.1 hs).1
  have hw : vs[k]? = some vs[k] := List.getElem?_eq_getElem bound
  exact ⟨k, vs[k], hs, hw, a.get_of_getElem? hc hw⟩

variable (value? : σ → Option Value)

variable {backdrop : Value}

theorem report_of_stretch {a : NestedArray} {behind : List Value}
    (made : NestedArray.ofValue backdrop = .ok a)
    (stretched : a.stretch g.shape.sizes = .ok behind) :
    ∃ r : Grid Value, r.shape = g.shape ∧ g.report value? backdrop = .ok r.cells.toList ∧
      ∀ c s, g.get c = .ok s → ∃ b ∈ behind, r.get c = .ok ((value? s).getD b) := by
  have full := (NestedArray.stretch_spec stretched (NestedArray.ofValue_spec made).1).1
  let vs := List.zipWith (fun s b => (value? s).getD b) g.cells.toList behind
  have length : vs.length = g.shape.volume := by
    rw [List.length_zipWith, Vector.length_toList, full, Shape.volume, Nat.min_self]
  obtain ⟨r, shape, cells, shown⟩ := g.exists_array length
  refine ⟨r, shape, ?_, ?_⟩
  · rw [cells, report, made]
    simp only [bind, Except.bind, stretched]
    rfl
  · intro c s stored
    obtain ⟨k, w, hs, hw, hget⟩ := shown c s stored
    obtain ⟨t, b, ht, hb, rfl⟩ := List.getElem?_zipWith_eq_some.1 hw
    cases hs.symm.trans ht
    exact ⟨b, List.mem_of_getElem? hb, hget⟩

theorem report_of_scalar (scalar : backdrop.Scalar) :
    ∃ r : Grid Value, r.shape = g.shape ∧ g.report value? backdrop = .ok r.cells.toList ∧
      ∀ c s, g.get c = .ok s →
        r.get c = .ok ((value? s).getD (NestedArray.entry backdrop)) := by
  obtain ⟨u, made⟩ := NestedArray.ofValue_scalar scalar
  have stretched := NestedArray.stretch_scalar g.shape.sizes (NestedArray.entry backdrop) u
  obtain ⟨r, shape, reported, shown⟩ := g.report_of_stretch value? made stretched
  refine ⟨r, shape, reported, ?_⟩
  intro c s stored
  obtain ⟨b, hb, hget⟩ := shown c s stored
  rwa [List.eq_of_mem_replicate hb] at hget

/-- A report is refused only for its backdrop. -/
theorem report_cases (backdrop : Value) :
    (∃ a behind, NestedArray.ofValue backdrop = .ok a ∧ a.stretch g.shape.sizes = .ok behind) ∨
      ∃ f : Fault, f.kind = .value ∧ g.report value? backdrop = .error f := by
  unfold report
  cases made : NestedArray.ofValue backdrop with
  | error f => exact .inr ⟨f, NestedArray.ofValue_error made, rfl⟩
  | ok a =>
    cases stretched : a.stretch g.shape.sizes with
    | ok behind => exact .inl ⟨a, behind, rfl, stretched⟩
    | error f =>
      refine .inr ⟨f, NestedArray.stretch_error stretched, ?_⟩
      simp only [bind, Except.bind, stretched]

theorem report_ok {vs : List Value} (h : g.report value? backdrop = .ok vs) :
    ∃ (r : Grid Value) (a : NestedArray), NestedArray.ofValue backdrop = .ok a ∧
      r.shape = g.shape ∧ r.cells.toList = vs ∧
      ∀ c s, g.get c = .ok s → ∃ b ∈ a.entries, r.get c = .ok ((value? s).getD b) := by
  obtain ⟨a, behind, made, stretched⟩ | ⟨f, _, refused⟩ := g.report_cases value? backdrop
  · obtain ⟨r, shape, reported, shown⟩ := g.report_of_stretch value? made stretched
    have entries := (NestedArray.stretch_spec stretched (NestedArray.ofValue_spec made).1).2
    refine ⟨r, a, made, shape, Except.ok.inj (reported.symm.trans h), ?_⟩
    intro c s stored
    obtain ⟨b, hb, hget⟩ := shown c s stored
    exact ⟨b, entries b hb, hget⟩
  · cases refused.symm.trans h

theorem report_error {f : Fault} (h : g.report value? backdrop = .error f) :
    f.kind = .value ∧ ∃ items, backdrop = .tuple items := by
  constructor
  · obtain ⟨a, behind, made, stretched⟩ | ⟨f', kind, refused⟩ := g.report_cases value? backdrop
    · obtain ⟨r, _, reported, _⟩ := g.report_of_stretch value? made stretched
      cases reported.symm.trans h
    · cases refused.symm.trans h
      exact kind
  · by_contra plain
    have scalar : backdrop.Scalar := fun items same => plain ⟨items, same⟩
    obtain ⟨r, _, reported, _⟩ := g.report_of_scalar value? scalar
    cases reported.symm.trans h

/-- The value of a state that is a set with a single possibility. -/
def settled? (set? : σ → Option (Possibilities Value)) (s : σ) : Option Value :=
  (set? s).bind Possibilities.value?

/-- A plain backdrop is shown wherever there is no value to show, any other one nowhere. -/
theorem report_shows (set? : σ → Option (Possibilities Value)) (backdrop : Value) :
    (backdrop.isPlain = true →
      ∃ r : Grid Value, r.shape = g.shape ∧
        g.report (settled? set?) backdrop = .ok r.cells.toList ∧
        ∀ c s, g.get c = .ok s → r.get c = .ok ((settled? set? s).getD backdrop)) ∧
    (∀ vs, g.report (settled? set?) backdrop = .ok vs →
      ∃ r : Grid Value, r.shape = g.shape ∧ r.cells.toList = vs ∧
        ∀ c s, g.get c = .ok s → ∃ w, r.get c = .ok w ∧
          (∀ v, settled? set? s = some v → w = v) ∧
          (settled? set? s = none → backdrop.isPlain = false → (w == backdrop) = false)) ∧
    (∀ f, g.report (settled? set?) backdrop = .error f →
      f.kind = .value ∧ ∃ items, backdrop = .tuple items) := by
  refine ⟨?_, ?_, fun f => g.report_error (settled? set?)⟩
  · intro plain
    have shown := g.report_of_scalar (settled? set?) (Value.scalar_of_isPlain plain)
    rwa [NestedArray.entry_of_isPlain plain] at shown
  · intro vs reported
    obtain ⟨r, a, made, shape, cells, shown⟩ := g.report_ok (settled? set?) reported
    refine ⟨r, shape, cells, ?_⟩
    intro c s stored
    obtain ⟨b, hb, hget⟩ := shown c s stored
    refine ⟨_, hget, ?_, ?_⟩
    · intro v hv
      rw [hv, Option.getD_some]
    · intro undecided coarse
      rw [undecided, Option.getD_none]
      exact NestedArray.beq_of_mem_entries made coarse hb

/-- A band with a decided cell, an undecided one, a contradiction and three states that are no sets;
the value of the decided cell is a tuple. -/
def mixedBand : Grid (Option (Possibilities Value)) :=
  ⟨band, false, #v[some (.only (.tuple [.int 1, .int 2])), some (.ofList [.text "a", .text "b"]),
    some .empty, none, none, none]⟩

theorem report_shows_mixedBand :
    (Value.int 0).isPlain = true ∧
      (∃ r : Grid Value, r.shape = band ∧
        mixedBand.report (settled? id) (.int 0) = .ok r.cells.toList ∧
        r.get [0, 0] = .ok (.tuple [.int 1, .int 2]) ∧
        r.get [0, 1] = .ok (.int 0) ∧ r.get [0, 2] = .ok (.int 0) ∧
        r.get [1, 0] = .ok (.int 0)) ∧
      (∃ r : Grid Value, r.shape = band ∧
        mixedBand.report (settled? id) (.tuple [.int 7, .int 8, .int 9]) = .ok r.cells.toList ∧
        r.get [0, 0] = .ok (.tuple [.int 1, .int 2]) ∧
        ∃ w, r.get [0, 1] = .ok w ∧ (w == .tuple [.int 7, .int 8, .int 9]) = false) ∧
      ∃ f : Fault, f.kind = .value ∧
        mixedBand.report (settled? id) (.tuple [.int 7, .int 8]) = .error f := by
  refine ⟨rfl, ?_, ?_, ?_⟩
  · obtain ⟨r, shape, reported, shown⟩ := (mixedBand.report_shows id (.int 0)).1 rfl
    exact ⟨r, shape, reported, shown [0, 0] _ rfl, shown [0, 1] _ rfl, shown [0, 2] _ rfl,
      shown [1, 0] _ rfl⟩
  · obtain ⟨r, shape, cells, shown⟩ :=
      (mixedBand.report_shows id (.tuple [.int 7, .int 8, .int 9])).2.1 _ rfl
    obtain ⟨v, hv, value, _⟩ := shown [0, 0] _ rfl
    obtain ⟨w, hw, _, other⟩ := shown [0, 1] _ rfl
    exact ⟨r, shape, congrArg Except.ok cells.symm, by rw [hv, value _ rfl], w, hw, other rfl rfl⟩
  · have refused := (mixedBand.report_shows id (.tuple [.int 7, .int 8])).2.2 _ rfl
    exact ⟨_, refused.1, rfl⟩

/-- A band on which nothing is decided. -/
def openBand : Grid (Possibilities Value) := ⟨band, false, .replicate 6 (.ofList [.int 0, .int 1])⟩

/-- A tuple as the backdrop is shown part by part, and a text without the NUL at its end. -/
theorem report_spreads_backdrop :
    let triple : Value := .tuple [.int 7, .int 8, .int 9]
    openBand.report (settled? some) triple =
        .ok [.int 7, .int 8, .int 9, .int 7, .int 8, .int 9] ∧
      openBand.report (settled? some) (.text "a\x00") = .ok (.replicate 6 (.text "a")) ∧
      ¬ ∃ r : Grid Value, r.shape = openBand.shape ∧
        openBand.report (settled? some) triple = .ok r.cells.toList ∧
        ∀ c s, openBand.get c = .ok s → r.get c = .ok ((settled? some s).getD triple) := by
  intro triple
  have spread : openBand.report (settled? some) triple =
      .ok [.int 7, .int 8, .int 9, .int 7, .int 8, .int 9] := rfl
  refine ⟨spread, rfl, ?_⟩
  rintro ⟨r, shape, reported, shown⟩
  have cells : r.cells.toList = [.int 7, .int 8, .int 9, .int 7, .int 8, .int 9] :=
    Except.ok.inj (reported.symm.trans spread)
  have first : r.get [0, 0] = .ok (.int 7) := by
    refine r.get_of_getElem? (k := 0) ?_ (by rw [cells]; rfl)
    rw [coordinates, shape]
    rfl
  cases first.symm.trans (shown [0, 0] _ rfl)

end Grid

end CellCollapse
