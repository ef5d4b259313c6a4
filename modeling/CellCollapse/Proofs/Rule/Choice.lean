import CellCollapse.Proofs.Rule.Support

set_option autoImplicit false

/-!
# What an observation chooses from

An observation of a cell that is not empty makes one choice, by weight and among a list of values
that the random source has no part in. `Table.Slate` says which list that is. No value of the cell
is doubled or lost in it, apart from those that the neighbors do not admit while they admit others.
The cell changes only with the outcome of the choice; a neighbor beyond the offsets may be a fault,
but then no choice is made.
-/
namespace CellCollapse

/-- The choice that also notes the weights it is asked to choose by. -/
def Chooser.noted {ρ : Type} (choose : Chooser ρ) : Chooser (ρ × List (List Binary64)) :=
  fun w ws s => ((choose w ws s.1).1, (choose w ws s.1).2, s.2 ++ [w :: ws])

namespace Table

variable {α δ ρ : Type} [BEq α] [AsValue α]

/-- The values of a cell that an observation chooses from: those that the neighbors admit, or all of
them if none is admitted. Known values have the form and the order that the table has them in, the
unknown ones follow by their written form. -/
structure Slate (t : Table α δ) (cell : Possibilities α) (ns : List (Option (Possibilities α)))
    (vs : List α) : Prop where
  distinct : vs.Pairwise fun a b => (a == b) = false
  held : ∀ v ∈ vs, cell.contains v = true
  listed : ∀ v, cell.contains v = true → ((∃ u ∈ vs, (u == v) = true) ↔
    t.admits v ns = .ok true ∨ ∀ w, cell.contains w = true → t.admits w ns ≠ .ok true)
  ordered : ∃ known unknown, vs = known ++ unknown ∧ known.Sublist t.values ∧
    (∀ v ∈ unknown, v ∈ cell.toList ∧ t.knows v = false) ∧
    unknown.Pairwise fun a b => ¬ written b < written a

variable {t : Table α δ} {cell : Possibilities α} {ns : List (Option (Possibilities α))}

omit [AsValue α] in
theorem supported_error {rows : List (List α)} {f : Fault} (h : supported rows ns = .error f) :
    f = .missingOffset := by
  induction ns generalizing rows with
  | nil => simp [supported] at h
  | cons o ns ih =>
    cases o with
    | none =>
      rw [supported] at h
      exact ih h
    | some s =>
      cases rows with
      | nil =>
        cases h
        rfl
      | cons row rows =>
        rw [supported] at h
        split at h
        · cases h
        · exact ih h

omit [AsValue α] in
theorem admits_error {v : α} {f : Fault} (h : t.admits v ns = .error f) : f = .missingOffset := by
  unfold admits at h
  split at h
  · exact supported_error h
  · cases h

omit [AsValue α] in
theorem keeps_iff_admits (v : α) : t.keeps ns v = true ↔ t.admits v ns = .ok true := by
  unfold keeps
  cases t.admits v ns with
  | error f => simp
  | ok b => simp

theorem weight_or_default (t : Table α δ) (v : α) :
    t.weight v = .ok (t.weightOr v) ∨ t.knows v = false ∧ t.weightOr v = .one := by
  unfold weight weightOr knows
  cases t.entry? v with
  | some e => exact .inl rfl
  | none => exact .inr ⟨rfl, rfl⟩

variable [EquivBEq α]

omit [AsValue α] in
theorem admits_congr (t : Table α δ) {v w : α} (same : (v == w) = true)
    (ns : List (Option (Possibilities α))) : t.admits v ns = t.admits w ns := by
  unfold admits
  rw [t.entry?_congr same]

omit [AsValue α] in
theorem exists_admits (room : ns.length ≤ t.offsets.length) (v : α) :
    ∃ b, t.admits v ns = .ok b := by
  obtain ⟨b, hb, _⟩ := t.admits_eq v room
  exact ⟨b, hb⟩

omit [AsValue α] [EquivBEq α] in
theorem pairwise_values (t : Table α δ) : t.values.Pairwise fun a b => (a == b) = false :=
  List.pairwise_map.2 t.distinct

theorem pairwise_candidates (t : Table α δ) (cell : Possibilities α) :
    (t.candidates cell).Pairwise fun a b => (a == b) = false := by
  have unknown : (sortWritten (cell.toList.filter fun v => !t.knows v)).Pairwise
      fun a b => (a == b) = false := by
    have symmetric : ∀ {a b : α}, (a == b) = false → (b == a) = false := by
      intro a b h
      rwa [BEq.comm]
    exact (List.mergeSort_perm _ _).symm.pairwise (cell.distinct.filter _) symmetric
  refine List.pairwise_append.2 ⟨t.pairwise_values.filter _, unknown, ?_⟩
  -- A known value is equal to none that has no entry.
  intro a ha b hb
  obtain ⟨e, he, rfl⟩ := List.mem_map.1 (List.mem_filter.1 ha).1
  have hb := (List.mem_filter.1 (mem_sortWritten.1 hb)).2
  refine Bool.eq_false_iff.2 fun same => ?_
  have found : t.knows b = true := by
    rw [knows, entry?, List.find?_isSome]
    exact ⟨e, he, same⟩
  simp [found] at hb

/-- Leaving out values that the cell has no other form of makes a slate of the candidates. -/
theorem slate_filter {keep : α → Bool}
    (congr : ∀ {a b : α}, (a == b) = true → keep a = keep b)
    (kept : ∀ v, cell.contains v = true → (keep v = true ↔
      t.admits v ns = .ok true ∨ ∀ w, cell.contains w = true → t.admits w ns ≠ .ok true)) :
    t.Slate cell ns ((t.candidates cell).filter keep) where
  distinct := (t.pairwise_candidates cell).filter keep
  held v hv := contains_of_mem_candidates (List.mem_filter.1 hv).1
  listed v hv := by
    rw [← kept v hv]
    constructor
    · rintro ⟨u, hu, same⟩
      rw [← congr same]
      exact (List.mem_filter.1 hu).2
    · intro hkeep
      obtain ⟨u, hu, same⟩ := t.exists_mem_candidates hv
      exact ⟨u, List.mem_filter.2 ⟨hu, (congr same).trans hkeep⟩, same⟩
  ordered := by
    refine ⟨_, _, List.filter_append _ _, (List.filter_sublist).trans List.filter_sublist, ?_,
      (pairwise_sortWritten _).filter keep⟩
    intro v hv
    have hv := List.mem_filter.1 (mem_sortWritten.1 (List.mem_filter.1 hv).1)
    exact ⟨hv.1, by simpa using hv.2⟩

theorem slate_options (t : Table α δ) (cell : Possibilities α)
    (ns : List (Option (Possibilities α))) : t.Slate cell ns (t.options cell ns) := by
  have admitted : ∀ {v}, v ∈ (t.candidates cell).filter (t.keeps ns) ↔
      v ∈ t.candidates cell ∧ t.admits v ns = .ok true := by
    intro v
    rw [List.mem_filter, keeps_iff_admits]
  unfold options
  split
  · rename_i empty
    have refused : ∀ w, cell.contains w = true → t.admits w ns ≠ .ok true := by
      intro w hw hadmits
      obtain ⟨u, hu, same⟩ := t.exists_mem_candidates hw
      have kept := admitted.2 ⟨hu, (t.admits_congr same ns).trans hadmits⟩
      rw [empty] at kept
      cases kept
    have all : t.Slate cell ns ((t.candidates cell).filter fun _ => true) :=
      slate_filter (fun _ => rfl) fun _ _ => ⟨fun _ => .inr refused, fun _ => rfl⟩
    rwa [List.filter_eq_self.2 fun _ _ => rfl] at all
  · rename_i v vs hfilter
    rw [← hfilter]
    have first := admitted.1 (hfilter ▸ List.mem_cons_self : v ∈ _)
    apply slate_filter
    · intro a b same
      rw [Bool.eq_iff_iff, keeps_iff_admits, keeps_iff_admits, t.admits_congr same]
    · intro w _
      rw [keeps_iff_admits]
      refine ⟨.inl, ?_⟩
      rintro (hadmits | refused)
      · exact hadmits
      · exact absurd first.2 (refused v (contains_of_mem_candidates first.1))

theorem firstFault?_eq_none_of_sound
    (sound : ∀ v, cell.contains v = true → ∃ b, t.admits v ns = .ok b) :
    t.firstFault? ns (t.candidates cell) = none := by
  rw [firstFault?, List.findSome?_eq_none_iff]
  intro v hv
  obtain ⟨b, hb⟩ := sound v (contains_of_mem_candidates hv)
  simp only [hb]

/-- A neighbor beyond the offsets stops an observation before its choice. -/
theorem observe_of_fault {v : α} {f : Fault} (held : cell.contains v = true)
    (fault : t.admits v ns = .error f) (choose : Chooser ρ) (x : ρ) :
    t.observe choose cell ns x = ⟨cell, ns, x, some f⟩ := by
  have found : t.firstFault? ns (t.candidates cell) = some f := by
    obtain ⟨u, hu, same⟩ := t.exists_mem_candidates held
    rw [← t.admits_congr same] at fault
    cases hfirst : t.firstFault? ns (t.candidates cell) with
    | none =>
      rw [firstFault?, List.findSome?_eq_none_iff] at hfirst
      have := hfirst u hu
      simp [fault] at this
    | some g =>
      obtain ⟨w, _, hw⟩ := List.exists_of_findSome?_eq_some hfirst
      cases hadmits : t.admits w ns with
      | ok b => simp [hadmits] at hw
      | error g' =>
        simp only [hadmits, Option.some.injEq] at hw
        rw [← hw, admits_error fault, admits_error hadmits]
  simp only [observe, found]

/-- What a choice among the options comes to. -/
theorem observe_of_choice (sound : ∀ v, cell.contains v = true → ∃ b, t.admits v ns = .ok b)
    {v : α} {vs : List α} (hoptions : t.options cell ns = v :: vs) {choose : Chooser ρ} {x y : ρ} :
    (∀ f, choose (t.weightOr v) (vs.map t.weightOr) x = (.error f, y) →
      t.observe choose cell ns x = ⟨cell, ns, y, some f⟩) ∧
    ∀ i, choose (t.weightOr v) (vs.map t.weightOr) x = (.ok i, y) →
      t.observe choose cell ns x = ⟨.only ((v :: vs).get (i.cast (by simp))), ns, y, none⟩ := by
  constructor
  · intro f hchoose
    simp only [observe, firstFault?_eq_none_of_sound sound, hoptions, hchoose]
  · intro i hchoose
    simp only [observe, firstFault?_eq_none_of_sound sound, hoptions, hchoose]

/-- An empty cell stays empty, and nothing is drawn. A cell with values makes one choice, among the
values of a slate that is there before the choice and with the weights that the table has for them,
unless a neighbor beyond the offsets is asked about, which leaves the cell as it was. -/
theorem observe_chooses_once (t : Table α δ) (cell : Possibilities α)
    (ns : List (Option (Possibilities α))) :
    (cell.toList = [] → ∀ (choose : Chooser ρ) (x : ρ),
      t.observe choose cell ns x = ⟨cell, ns, x, none⟩) ∧
    (cell.toList ≠ [] → (∀ v, cell.contains v = true → ∃ b, t.admits v ns = .ok b) →
      ∃ v vs, t.Slate cell ns (v :: vs) ∧
        (∀ u ∈ v :: vs,
          t.weight u = .ok (t.weightOr u) ∨ t.knows u = false ∧ t.weightOr u = .one) ∧
        ∀ (choose : Chooser ρ) (x : ρ),
          (∀ f y, choose (t.weightOr v) (vs.map t.weightOr) x = (.error f, y) →
            t.observe choose cell ns x = ⟨cell, ns, y, some f⟩) ∧
          (∀ i y, choose (t.weightOr v) (vs.map t.weightOr) x = (.ok i, y) →
            t.observe choose cell ns x =
              ⟨.only ((v :: vs).get (i.cast (by simp))), ns, y, none⟩) ∧
          ∀ calls, (t.observe choose.noted cell ns (x, calls)).context.2 =
            calls ++ [(v :: vs).map t.weightOr]) ∧
    (ns.length ≤ t.offsets.length → ∀ v, ∃ b, t.admits v ns = .ok b) ∧
    ∀ v f, cell.contains v = true → t.admits v ns = .error f → f.kind = .index ∧
      ∀ (choose : Chooser ρ) (x : ρ), t.observe choose cell ns x = ⟨cell, ns, x, some f⟩ := by
  refine ⟨?_, ?_, ?_, ?_⟩
  · intro blank choose x
    have empty : t.candidates cell = [] := by
      rw [List.eq_nil_iff_forall_not_mem]
      intro v hv
      obtain ⟨u, hu, _⟩ := (cell.contains_iff v).1 (contains_of_mem_candidates hv)
      rw [blank] at hu
      cases hu
    simp [observe, firstFault?, options, empty]
  · intro filled sound
    obtain ⟨v, vs, hoptions⟩ := List.exists_cons_of_ne_nil (t.options_ne_nil filled ns)
    refine ⟨v, vs, hoptions ▸ t.slate_options cell ns, fun u _ => t.weight_or_default u, ?_⟩
    intro choose x
    refine ⟨fun f y => (observe_of_choice sound hoptions).1 f,
      fun i y => (observe_of_choice sound hoptions).2 i, ?_⟩
    intro calls
    cases hchoose : choose (t.weightOr v) (vs.map t.weightOr) x with
    | mk choice y =>
      have noted : choose.noted (t.weightOr v) (vs.map t.weightOr) (x, calls) =
          (choice, y, calls ++ [(v :: vs).map t.weightOr]) := by
        rw [Chooser.noted, hchoose]
        rfl
      cases choice with
      | error f => rw [(observe_of_choice sound hoptions).1 f noted]
      | ok i => rw [(observe_of_choice sound hoptions).2 i noted]
  · exact exists_admits
  · intro v f held fault
    refine ⟨?_, observe_of_fault held fault⟩
    rw [admits_error fault]
    rfl

/-- Two values that may stand only beside each other, the one of twice the weight first. -/
def uneven : Table Int Nat where
  offsets := [1]
  entries := [⟨1, [[0]], .ofInt 2⟩, ⟨0, [[1]], .one⟩]
  width := by decide
  distinct := by decide
  positive := by decide

-- Beside a zero, the one is the only value to choose. A second neighbor is one too many.
theorem observe_chooses_once_uneven :
    let first : Chooser Unit := fun _ _ x => (.ok 0, x)
    (uneven.observe first (.ofList [5, 0, 1]) [some (.only 0)] ()).cell = .only 1 ∧
      (uneven.observe first.noted (.ofList [5, 0, 1]) [some (.only 0)] ((), [])).context.2 =
        [[.ofInt 2]] ∧
      uneven.observe first (.ofList [5, 0, 1]) [none, some (.only 0)] () =
        ⟨.ofList [5, 0, 1], [none, some (.only 0)], (), some .missingOffset⟩ := by
  intro first
  obtain ⟨_, chooses, sound, _⟩ :=
    observe_chooses_once (ρ := Unit) uneven (.ofList [5, 0, 1]) [some (.only 0)]
  obtain ⟨v, vs, slate, _, outcome⟩ := chooses (by decide) fun v _ => sound (by decide) v
  obtain ⟨_, settles, called⟩ := outcome first ()
  have only : ∀ u ∈ v :: vs, u = 1 := by
    intro u hu
    have held := slate.held u hu
    have listed := (slate.listed u held).1 ⟨u, hu, BEq.rfl⟩
    rcases listed with admitted | refused
    · simp only [Possibilities.contains_ofList, List.any_cons, List.any_nil, Bool.or_false,
        Bool.or_eq_true, beq_iff_eq] at held
      rcases held with rfl | rfl | rfl
      · cases admitted
      · cases admitted
      · rfl
    · exact absurd rfl (refused 1 rfl)
  obtain rfl : v = 1 := only v List.mem_cons_self
  have alone : vs = [] := by
    rw [List.eq_nil_iff_forall_not_mem]
    intro u hu
    have different := (List.pairwise_cons.1 slate.distinct).1 u hu
    rw [only u (List.mem_cons_of_mem _ hu)] at different
    cases different
  subst alone
  refine ⟨?_, called [], ?_⟩
  · rw [settles 0 () rfl]
    rfl
  · obtain ⟨_, _, _, stops⟩ :=
      observe_chooses_once (ρ := Unit) uneven (.ofList [5, 0, 1]) [none, some (.only 0)]
    exact (stops 1 _ rfl rfl).2 first ()

end Table

end CellCollapse
