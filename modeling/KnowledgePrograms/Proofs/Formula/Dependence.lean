import KnowledgePrograms.Proofs.Kripke.Pointing
import KnowledgePrograms.Proofs.Kripke.Sameness

/-! # What an answer depends on

A formula looks up the atoms that occur in it and, where it has modalities, the arcs of a model. On
a valuation alone the answer, be it a truth value or an error, depends on these atoms; at a world
it depends on them and on the frame of the model. An answer found on a valuation alone has not
looked at any arc, so it is the answer at each world with this valuation, whatever the model.

* `Formula.deciding`: evaluation on a valuation alone as a reading.
* `Formula.evaluateOn_eq_of_atoms`: it depends on the atoms of the formula, errors included.
* `Formula.answers_depend_on_atoms`: what answers on valuations and at worlds depend on. -/

namespace KnowledgePrograms

namespace Formula

/-- Evaluation on a valuation alone as a reading: operands are read in order up to the first that
decides, and a modality that is read is an error. -/
def deciding (value : Atom → Bool) : Reading (Except EvaluationError Bool) where
  atom p := .ok (value p)
  not x := return !(← x)
  and xs := xs.allM id
  or xs := xs.anyM id
  imp x y := do if ← x then y else return true
  iff x y := do
    let b ← x
    let c ← y
    return b == c
  knows _ _ := .error .unpointedModality
  possible _ _ := .error .unpointedModality
  everyone _ _ := .error .unpointedModality
  common _ _ := .error .unpointedModality

/-- The value of a formula under this reading is what it evaluates to on the valuation. -/
theorem read_deciding (v : Valuation) (f : Formula) :
    (deciding v.valueOf).read f = f.evaluateOn v := by
  induction f with
  | atom p => rw [Reading.read, deciding, evaluateOn]
  | not f ih => rw [Reading.read, ih, deciding, evaluateOn]
  -- Evaluating the operands one by one is testing the list of their outcomes.
  | and fs ih =>
    rw [Reading.read, Reading.readEach_eq, List.map_congr_left ih, evaluateOn, evaluateAllOn_eq]
    exact allM_map (evaluateOn v) id fs
  | or fs ih =>
    rw [Reading.read, Reading.readEach_eq, List.map_congr_left ih, evaluateOn, evaluateAnyOn_eq]
    exact anyM_map (evaluateOn v) id fs
  | imp f g ihf ihg | iff f g ihf ihg => rw [Reading.read, ihf, ihg, deciding, evaluateOn]
  | knows a f ih | possible a f ih | everyone group f ih | common group f ih =>
    rw [Reading.read, deciding, evaluateOn]

variable {f : Formula} {v w : Valuation} {e : EvaluationError}

/-- Valuations that give each atom of a formula the same value give the formula the same value or
the same error. -/
theorem evaluateOn_eq_of_atoms (same : ∀ p ∈ f.atoms, v.valueOf p = w.valueOf p) :
    f.evaluateOn v = f.evaluateOn w := by
  rw [← read_deciding, ← read_deciding]
  -- The two readings differ in the values of atoms alone.
  exact ((deciding v.valueOf).read_withAtom (fun p => .ok (w.valueOf p))
    fun p mem => congrArg Except.ok (same p mem)).symm

/-- On a valuation alone nothing fails but that a modality of the formula is read. -/
theorem error_of_evaluateOn (failed : f.evaluateOn v = .error e) :
    e = .unpointedModality ∧ f.isModal = true := by
  rcases evaluateOn_found_or_modal (Model.hasValuation_lone v) f with found | ⟨unpointed, modal⟩
  · cases found.symm.trans failed
  · cases unpointed.symm.trans failed
    exact ⟨rfl, modal⟩

/-- A truth value found on a valuation is the one at each world whose valuation counts as equal. -/
theorem satisfies_of_evaluateOn_beq {b : Bool} (found : f.evaluateOn v = .ok b) {m : Model}
    {r : WorldRef} {x : World} (here : m.world? r = some x) (same : (x.valuation == v) = true) :
    m.satisfies f r = b := by
  refine satisfies_of_evaluateOn (fun p => ?_) f b found
  rw [Model.valueOf_eq here, Valuation.beq_iff.1 same]

/-- **What answers depend on.** Evaluation never misses a world. On a valuation alone it fails only
if the formula is modal, for want of a world to point at, and a truth value that is found there is
the one at each world of a model whose valuation counts as equal. Valuations that agree on the atoms
of the formula give the same answer, errors included. In two models with the same worlds and arcs
the answers at each world are the same if the worlds agree on the atoms of the formula. -/
theorem answers_depend_on_atoms (f : Formula) :
    (∀ c : Context, f.evaluateIn c = f.evaluate c) ∧
    (∀ v : Valuation,
      (∀ r : WorldRef, f.evaluate (.bare v) ≠ .error (.missingWorld r)) ∧
      (f.evaluate (.bare v) = .error .unpointedModality → f.isModal = true) ∧
      ∀ b : Bool, f.evaluate (.bare v) = .ok b →
        ∀ (m : Model) (r : WorldRef) (x : World) (live : m.contains r = true),
          m.world? r = some x → (x.valuation == v) = true →
          f.evaluate (.pointed m r live) = .ok b) ∧
    (∀ v w : Valuation, (∀ p ∈ f.atoms, v.valueOf p = w.valueOf p) →
      f.evaluate (.bare v) = f.evaluate (.bare w)) ∧
    ∀ m n : Model, m.SameFrame n →
      (∀ r x y, m.world? r = some x → n.world? r = some y →
        ∀ p ∈ f.atoms, x.valuation.valueOf p = y.valuation.valueOf p) →
      ∀ (r : WorldRef) (live : m.contains r = true) (live' : n.contains r = true),
        f.evaluate (.pointed m r live) = f.evaluate (.pointed n r live') := by
  refine ⟨f.evaluateIn_eq_evaluate, ?_, ?_, ?_⟩
  · intro v
    refine ⟨?_, ?_, ?_⟩
    · intro r failed
      cases (error_of_evaluateOn failed).1
    · intro failed
      exact (error_of_evaluateOn failed).2
    · intro b found m r x live here same
      exact congrArg Except.ok (satisfies_of_evaluateOn_beq found here same)
  · intro v w same
    exact evaluateOn_eq_of_atoms same
  · intro m n frame agree r live live'
    have truth : m.satisfies f = n.satisfies f := by
      -- A world of one model has its counterpart in the other, at the same reference.
      refine frame.satisfies_eq fun s there p mem => ?_
      obtain ⟨x, hx⟩ := Model.contains_iff_exists.1 there
      obtain ⟨y, hy⟩ := Model.contains_iff_exists.1 ((frame.contains_eq s).symm.trans there)
      rw [Model.valueOf_eq hx, Model.valueOf_eq hy]
      exact agree s x y hx hy p mem
    exact congrArg Except.ok (congrFun truth r)

/-- With `p` true it is decided that `p ∨ K[a] q` before knowledge is read, so it is true at each
world with `p` true and `q` false, also if `r` is true there; with `p` false knowledge is read. -/
theorem answers_depend_on_atoms_decided_early :
    let f : Formula := .or [.atom ⟨"p"⟩, .knows ⟨"a"⟩ (.atom ⟨"q"⟩)]
    let v : Valuation := .set .empty ⟨"p"⟩ true
    let w : Valuation := v.set ⟨"r"⟩ true
    let alone (x : World) : Model := ((Model.empty.addWorld x).addAgent ⟨"a"⟩).addLoops
    let m : Model := alone ⟨"w", v.set ⟨"q"⟩ false⟩
    let n : Model := alone ⟨"x", w⟩
    let r : WorldRef := Model.empty.fresh
    f.evaluate (.bare .empty) = .error .unpointedModality ∧ f.isModal = true ∧
      f.evaluate (.bare v) = .ok true ∧ f.evaluate (.bare w) = .ok true ∧
      ∃ (live : m.contains r = true) (live' : n.contains r = true),
        f.evaluate (.pointed m r live) = .ok true ∧ f.evaluate (.pointed n r live') = .ok true := by
  intro f v w alone m n r
  obtain ⟨-, onValuation, agreeing, atWorlds⟩ := answers_depend_on_atoms f
  have unread : f.evaluate (.bare .empty) = .error .unpointedModality := rfl
  have found : f.evaluate (.bare v) = .ok true := rfl
  have same : ∀ p ∈ f.atoms.toList, v.valueOf p = w.valueOf p ∧
      (v.set ⟨"q"⟩ false).valueOf p = w.valueOf p := by decide +kernel
  simp only [Std.ExtTreeSet.mem_toList] at same
  -- The two models have one world, at the same reference, and the same arc.
  have world (x : World) (s : WorldRef) : (alone x).world? s = if r = s then some x else none :=
    Model.empty.world?_addWorld x s
  have live : m.contains r = true := by decide +kernel
  have live' : n.contains r = true := by decide +kernel
  have frame : m.SameFrame n := by
    refine ⟨fun s => ?_, fun a arc => Iff.rfl⟩
    rw [Model.contains_eq_isSome_facts?, Model.contains_eq_isSome_facts?, Model.facts?, world,
      Model.facts?, world]
    split <;> rfl
  have agree : ∀ s x y, m.world? s = some x → n.world? s = some y →
      ∀ p ∈ f.atoms, x.valuation.valueOf p = y.valuation.valueOf p := by
    intro s x y hx hy p mem
    rw [world] at hx hy
    cases (Option.ite_none_right_eq_some.1 hx).2
    cases (Option.ite_none_right_eq_some.1 hy).2
    exact (same p mem).2
  have first : f.evaluate (.pointed m r live) = .ok true :=
    (onValuation v).2.2 true found m r _ live (world _ r) (by decide +kernel)
  refine ⟨unread, (onValuation .empty).2.1 unread, found, ?_, live, live', first, ?_⟩
  · rw [← agreeing v w fun p mem => (same p mem).1, found]
  · rw [← atWorlds m n frame agree r live live', first]

end Formula

end KnowledgePrograms
