import KnowledgePrograms.Proofs.Formula.Meaning
import KnowledgePrograms.Proofs.Kripke.Removal
import KnowledgePrograms.Proofs.Kripke.Semantics

/-! # Pointing at worlds

A modality is evaluated by pointing at one world after the other, and pointing at a world may fail:
the world may be missing. Likewise an announcement points at every world of the model before it
removes any, and then removes them one by one. In a model none of this can fail, since its arcs and
what is reachable along them stay among its worlds.

* `View.evaluate`: evaluation with every error that it may run into, in whatever the worlds are
  looked up, and `Formula.evaluateIn` on the contexts of models.
* `Formula.evaluateIn_eq_evaluate`: it runs into one only where a modality is read without a world.
* `Model.evaluate_iff_holds`: at a world of a model it decides satisfaction.
* `Model.announceIn_eq`: an announcement runs into none. -/

namespace KnowledgePrograms

open Std (ExtTreeMap ExtTreeSet)

/-! ## (1) Evaluation -/

/-- What is looked up to evaluate formulas. -/
structure View where
  /-- The valuation of the world at a reference, if there is a world. -/
  valuation? : WorldRef → Option Valuation
  /-- The worlds that arcs of an agent lead to. -/
  accessible : Agent → WorldRef → List WorldRef
  /-- The worlds that paths of a group lead to. -/
  reachable : ExtTreeSet Agent → WorldRef → List WorldRef

/-- What a formula is evaluated at: a valuation, and the world that it is the valuation of if there
is one. -/
structure Point where
  /-- Which atoms are true. -/
  valuation : Valuation
  /-- The reference to the world. -/
  world? : Option WorldRef

/-- The world of a point, for a modality to be read at. -/
def Point.world (c : Point) : Except EvaluationError WorldRef :=
  match c.world? with
  | some r => .ok r
  | none => .error .unpointedModality

namespace View

/-- Point at a world. -/
def pointAt (v : View) (r : WorldRef) : Except EvaluationError Point :=
  match v.valuation? r with
  | some valuation => .ok ⟨valuation, some r⟩
  | none => .error (.missingWorld r)

mutual

/-- The truth value of a formula at a point, found by pointing at further worlds. -/
def evaluate (v : View) : Formula → Point → Except EvaluationError Bool
  | .atom p, c => return c.valuation.valueOf p
  | .not f, c => return !(← v.evaluate f c)
  | .and fs, c => v.evaluateAll fs c
  | .or fs, c => v.evaluateAny fs c
  | .imp f g, c => do if ← v.evaluate f c then v.evaluate g c else return true
  | .iff f g, c => do
      let b ← v.evaluate f c
      let d ← v.evaluate g c
      return b == d
  | .knows a f, c => do
      let r ← c.world
      (v.accessible a r).allM fun s => do v.evaluate f (← v.pointAt s)
  | .possible a f, c => do
      let r ← c.world
      (v.accessible a r).anyM fun s => do v.evaluate f (← v.pointAt s)
  | .everyone group f, c => do
      let r ← c.world
      group.toList.allM fun a => (v.accessible a r).allM fun s => do v.evaluate f (← v.pointAt s)
  | .common group f, c => do
      let r ← c.world
      (v.reachable group r).allM fun s => do v.evaluate f (← v.pointAt s)

/-- Whether all operands are true at a point, read up to the first that is not. -/
def evaluateAll (v : View) : List Formula → Point → Except EvaluationError Bool
  | [], _ => return true
  | f :: fs, c => do if ← v.evaluate f c then v.evaluateAll fs c else return false

/-- Whether some operand is true at a point, read up to the first that is. -/
def evaluateAny (v : View) : List Formula → Point → Except EvaluationError Bool
  | [], _ => return false
  | f :: fs, c => do if ← v.evaluate f c then return true else v.evaluateAny fs c

end

/-- Whether all operands are true at a point is found by evaluating them one by one. -/
@[simp] theorem evaluateAll_eq (v : View) (fs : List Formula) (c : Point) :
    v.evaluateAll fs c = fs.allM fun f => v.evaluate f c := by
  induction fs with
  | nil => rw [evaluateAll, List.allM]
  | cons f fs ih =>
    rw [evaluateAll, ih, List.allM]
    refine bind_congr fun b => ?_
    cases b <;> rfl

/-- Whether some operand is true at a point is found by evaluating them one by one. -/
@[simp] theorem evaluateAny_eq (v : View) (fs : List Formula) (c : Point) :
    v.evaluateAny fs c = fs.anyM fun f => v.evaluate f c := by
  induction fs with
  | nil => rw [evaluateAny, List.anyM]
  | cons f fs ih =>
    rw [evaluateAny, ih, List.anyM]
    refine bind_congr fun b => ?_
    cases b <;> rfl

/-- The worlds of a list at which a formula is false, found by pointing at one after the other. -/
def refuting (v : View) (f : Formula) : List WorldRef → Except EvaluationError (List WorldRef)
  | [] => return []
  | r :: rest => do
      let holds ← v.evaluate f (← v.pointAt r)
      let refuted ← v.refuting f rest
      return if holds then refuted else r :: refuted

/-- The worlds at which a formula is false are listed as the worlds that were looked at are. -/
theorem sublist_refuting {v : View} {f : Formula} {rs refuted : List WorldRef}
    (done : v.refuting f rs = .ok refuted) : refuted.Sublist rs := by
  induction rs generalizing refuted with
  | nil =>
    cases done
    exact .slnil
  | cons r rest ih =>
    rw [refuting] at done
    obtain ⟨c, -, done⟩ := Formula.exists_of_bind_eq_ok done
    obtain ⟨holds, -, done⟩ := Formula.exists_of_bind_eq_ok done
    obtain ⟨others, found, done⟩ := Formula.exists_of_bind_eq_ok done
    cases holds <;> cases done
    · exact (ih found).cons_cons r
    · exact (ih found).cons r

end View

/-- There is a world at a reference to one. -/
theorem Model.isSome_world? {m : Model} {r : WorldRef} (live : m.contains r = true) :
    (m.world? r).isSome = true := by
  rwa [world?, ← WorldTable.contains_eq_isSome]

/-- What is looked up in a model. -/
def Model.view (m : Model) : View where
  valuation? r := (m.world? r).map World.valuation
  accessible := m.accessible
  reachable := m.reachable

namespace Context

/-- What is looked up for a context: its model, or nothing. -/
def view : Context → View
  | .bare _ => Model.empty.view
  | .pointed m _ _ => m.view

/-- What a context is pointed at. -/
def point : Context → Point
  | .bare v => ⟨v, none⟩
  | .pointed m r live =>
      ⟨((m.world? r).get (Model.isSome_world? live)).valuation, some r⟩

end Context

/-- The truth value of a formula on a context, found by pointing at further worlds. -/
def Formula.evaluateIn (f : Formula) (c : Context) : Except EvaluationError Bool :=
  c.view.evaluate f c.point

namespace Model

variable {m : Model} {r : WorldRef}

/-- To point at a world of a model is to have the context of the world. -/
theorem pointAt_view (live : m.contains r = true) :
    m.view.pointAt r = .ok (Context.pointed m r live).point := by
  have found : m.view.valuation? r
      = some ((m.world? r).get (isSome_world? live)).valuation := by
    rw [← Option.map_some, Option.some_get]
    rfl
  rw [View.pointAt, found]
  rfl

/-- At a world of a model an atom has the value that it has at the context of the world. -/
theorem valueOf_point (live : m.contains r = true) (p : Atom) :
    (Context.pointed m r live).point.valuation.valueOf p = m.valueOf r p := by
  obtain ⟨w, here⟩ := Option.isSome_iff_exists.1 (isSome_world? live)
  simp [Context.point, valueOf, here]

/-- At a world of a model a formula evaluates to its truth value there. -/
theorem evaluate_view (m : Model) (f : Formula) (r : WorldRef) (live : m.contains r = true) :
    m.view.evaluate f (Context.pointed m r live).point = .ok (m.satisfies f r) := by
  -- The worlds that a modality points at are worlds of the model, so none is missed.
  have pointing (f : Formula) (s : WorldRef) (there : m.contains s = true)
      (ih : ∀ (r : WorldRef) (live : m.contains r = true),
        m.view.evaluate f (Context.pointed m r live).point = .ok (m.satisfies f r)) :
      (do m.view.evaluate f (← m.view.pointAt s)) = .ok (m.satisfies f s) := by
    rw [pointAt_view there]
    exact ih s there
  induction f generalizing r with
  | atom p =>
    rw [View.evaluate, satisfies, valueOf_point live]
    rfl
  | not f ih =>
    rw [View.evaluate, ih r live, satisfies]
    rfl
  | and fs ih =>
    rw [View.evaluate, View.evaluateAll_eq, satisfies, satisfiesAll_eq]
    exact Formula.allM_eq_ok fun f hf => ih f hf r live
  | or fs ih =>
    rw [View.evaluate, View.evaluateAny_eq, satisfies, satisfiesAny_eq]
    exact Formula.anyM_eq_ok fun f hf => ih f hf r live
  | imp f g ihf ihg =>
    rw [View.evaluate, ihf r live, ihg r live, satisfies]
    cases m.satisfies f r <;> rfl
  | iff f g ihf ihg =>
    rw [View.evaluate, ihf r live, ihg r live, satisfies]
    rfl
  | knows a f ih =>
    rw [View.evaluate, satisfies]
    exact Formula.allM_eq_ok fun s hs => pointing f s (contains_of_mem_accessible hs) ih
  | possible a f ih =>
    rw [View.evaluate, satisfies]
    exact Formula.anyM_eq_ok fun s hs => pointing f s (contains_of_mem_accessible hs) ih
  | everyone group f ih =>
    rw [View.evaluate, satisfies]
    exact Formula.allM_eq_ok fun a _ => Formula.allM_eq_ok fun s hs =>
      pointing f s (contains_of_mem_accessible hs) ih
  | common group f ih =>
    rw [View.evaluate, satisfies]
    exact Formula.allM_eq_ok fun s hs => pointing f s (contains_of_mem_reachable hs) ih

end Model

namespace Formula

/-- At a world of a model a formula evaluates to its truth value there. -/
theorem evaluateIn_pointed (m : Model) (f : Formula) (r : WorldRef)
    (live : m.contains r = true) : f.evaluateIn (.pointed m r live) = .ok (m.satisfies f r) :=
  m.evaluate_view f r live

/-- On a valuation alone a formula evaluates to what the valuation gives it. -/
theorem evaluateIn_bare (v : Valuation) (f : Formula) :
    f.evaluateIn (.bare v) = f.evaluateOn v := by
  rw [evaluateIn]
  induction f with
  | atom p =>
    rw [View.evaluate, evaluateOn]
    rfl
  | not f ih => rw [View.evaluate, ih, evaluateOn]
  | and fs ih =>
    rw [View.evaluate, View.evaluateAll_eq, evaluateOn, evaluateAllOn_eq]
    exact allM_congr ih
  | or fs ih =>
    rw [View.evaluate, View.evaluateAny_eq, evaluateOn, evaluateAnyOn_eq]
    exact anyM_congr ih
  | imp f g ihf ihg | iff f g ihf ihg => rw [View.evaluate, ihf, ihg, evaluateOn]
  | knows a f ih | possible a f ih | everyone group f ih | common group f ih =>
    rw [View.evaluate, evaluateOn]
    rfl

/-- Evaluation by pointing at worlds never misses one. -/
theorem evaluateIn_eq_evaluate (f : Formula) (c : Context) : f.evaluateIn c = f.evaluate c := by
  cases c with
  | bare v => exact evaluateIn_bare v f
  | pointed m r live => exact evaluateIn_pointed m f r live

end Formula

/-! ## (2) Evaluation decides satisfaction -/

namespace Model

/-- **Evaluation decides satisfaction.** At a world of a model every formula has a truth value,
which is true exactly if the world satisfies the formula: evaluation runs into no error, as contexts
can be pointed at all worlds that it is led to, both along the arcs of an agent and along the paths
of a group. The search for the latter ends within a step for each world and one for the start, with
just the worlds reached that one or more arcs of the group lead to. -/
theorem evaluate_iff_holds (m : Model) (r : WorldRef) (live : m.contains r = true) :
    (∀ f : Formula, ∃ c b, m.contextAt r = .ok c ∧ f.evaluateIn c = .ok b ∧
      f.evaluate c = .ok b ∧ (b = true ↔ m.Holds f r)) ∧
    (∀ a, ∀ s ∈ m.accessible a r, ∃ c, m.contextAt s = .ok c) ∧
    ∀ group : ExtTreeSet Agent,
      (∀ s ∈ m.reachable group r, ∃ c, m.contextAt s = .ok c) ∧
      ∃ steps ≤ m.worldCount + 1, ∃ reached : ExtTreeSet WorldRef,
        (Search.step (m.successors group))^[steps] (.start r) = ⟨reached, []⟩ ∧
        m.reachable group r = reached.toList ∧
        ∀ s, s ∈ reached ↔ Relation.TransGen (m.Leads group) r s := by
  refine ⟨fun f => ?_, fun a s hs => ?_, fun group => ⟨fun s hs => ?_, m.search_ends group r⟩⟩
  · exact ⟨_, _, contextAt_of_contains live, Formula.evaluateIn_pointed m f r live, rfl,
      m.satisfies_iff_holds f r⟩
  · exact ⟨_, contextAt_of_contains (contains_of_mem_accessible hs)⟩
  · exact ⟨_, contextAt_of_contains (contains_of_mem_reachable hs)⟩

/-- A world without `p` and one with `p`. At either the agent holds the latter possible only. -/
def misled : Model :=
  let worlds := (Draft.empty.addWorld ⟨"u", .empty⟩).addWorld ⟨"v", .ofList [(⟨"p"⟩, true)]⟩
  let arcs := (worlds.addArcs ⟨"a"⟩ [⟨⟨1, 1⟩, ⟨2, 1⟩⟩, ⟨⟨2, 1⟩, ⟨2, 1⟩⟩]).1
  arcs.vouchReflexive.vouchSymmetric.finish

/-- No path leads back to the world without `p`, so `p` is common knowledge there and false. -/
theorem evaluate_iff_holds_misled :
    let p : Formula := .atom ⟨"p"⟩
    let group : ExtTreeSet Agent := {(⟨"a"⟩ : Agent)}
    misled.contains ⟨1, 1⟩ = true ∧
      (∃ c, misled.contextAt ⟨1, 1⟩ = .ok c ∧ p.evaluateIn c = .ok false ∧
        (Formula.common group p).evaluateIn c = .ok true) ∧
      ¬ misled.Holds p ⟨1, 1⟩ ∧ misled.Holds (.common group p) ⟨1, 1⟩ ∧
      ∃ steps ≤ 3, ∃ reached : ExtTreeSet WorldRef,
        (Search.step (misled.successors group))^[steps] (.start ⟨1, 1⟩) = ⟨reached, []⟩ ∧
        misled.reachable group ⟨1, 1⟩ = reached.toList ∧
        ∀ s, s ∈ reached ↔ Relation.TransGen (misled.Leads group) ⟨1, 1⟩ s := by
  intro p group
  have live : misled.contains ⟨1, 1⟩ = true := by decide +kernel
  have size : misled.worldCount = 2 := by decide +kernel
  have untrue : misled.satisfies p ⟨1, 1⟩ = false := by decide +kernel
  have known : misled.satisfies (.common group p) ⟨1, 1⟩ = true := by decide +kernel
  obtain ⟨truth, -, searches⟩ := evaluate_iff_holds misled ⟨1, 1⟩ live
  rw [size] at searches
  have pointed : misled.contextAt ⟨1, 1⟩ = .ok (.pointed misled ⟨1, 1⟩ live) :=
    contextAt_of_contains live
  have decided : ∀ {f b}, misled.satisfies f ⟨1, 1⟩ = b →
      f.evaluateIn (.pointed misled ⟨1, 1⟩ live) = .ok b ∧ (b = true ↔ misled.Holds f ⟨1, 1⟩) := by
    rintro f _ rfl
    obtain ⟨c, b, there, found, value, holds⟩ := truth f
    cases pointed.symm.trans there
    cases value
    exact ⟨found, holds⟩
  obtain ⟨valueUntrue, failing⟩ := decided untrue
  obtain ⟨valueKnown, holding⟩ := decided known
  refine ⟨live, ⟨_, pointed, valueUntrue, valueKnown⟩, ?_, holding.1 rfl, (searches group).2⟩
  rw [← failing]
  exact Bool.false_ne_true

end Model

/-! ## (3) Announcements -/

namespace Model

variable {m n : Model}

/-- Announce a formula: point at all worlds, then remove those at which it is false one by one. -/
def announceIn (m : Model) (f : Formula) : Except EvaluationError (List WorldRef × Model) := do
  let refuted ← m.view.refuting f m.refs
  return (refuted, refuted.foldl removeWorld m)

/-- Among worlds of the model those at which a formula is false are found. -/
theorem refuting_view (f : Formula) {rs : List WorldRef}
    (live : ∀ r ∈ rs, m.contains r = true) :
    m.view.refuting f rs = .ok (rs.filter fun r => !m.satisfies f r) := by
  induction rs with
  | nil => rfl
  | cons r rest ih =>
    have here := live r List.mem_cons_self
    have found := ih fun s hs => live s (List.mem_cons_of_mem _ hs)
    rw [View.refuting, pointAt_view here, found, List.filter_cons]
    show (m.view.evaluate f (Context.pointed m r here).point >>= _) = _
    rw [evaluate_view]
    cases m.satisfies f r <;> rfl

/-- Models are equal when they have the same worlds, free slots and relations. -/
theorem ext_of_live (live : m.worlds.live = n.worlds.live)
    (freed : m.worlds.freed = n.worlds.freed) (relations : m.relations = n.relations) : m = n := by
  obtain ⟨⟨_, _, _⟩, _, _⟩ := m
  obtain ⟨⟨_, _, _⟩, _, _⟩ := n
  cases live
  cases freed
  cases relations
  rfl

/-- Of a list without repetitions the members that are in a sublist are the sublist. -/
theorem filter_mem_of_sublist {rs gone : List WorldRef} (distinct : rs.Nodup)
    (sub : gone.Sublist rs) : (rs.filter fun r => r ∈ gone) = gone := by
  induction sub with
  | slnil => rfl
  | cons r sub ih =>
    obtain ⟨new, distinct⟩ := List.nodup_cons.1 distinct
    rw [List.filter_cons, if_neg fun mem => new (sub.subset (of_decide_eq_true mem)), ih distinct]
  | cons_cons r sub ih =>
    obtain ⟨new, distinct⟩ := List.nodup_cons.1 distinct
    rw [List.filter_cons, if_pos (decide_eq_true List.mem_cons_self)]
    refine congrArg (r :: ·) (Eq.trans (List.filter_congr fun x hx => ?_) (ih distinct))
    have other : x ≠ r := fun same => new (same ▸ hx)
    simp [other]

/-- Keeping every world changes nothing. -/
theorem keep_all (m : Model) {p : WorldRef → Bool} (all : ∀ r, p r = true) : m.keep p = m := by
  have whole : ∀ r : Relation, r.restrict p = r := fun r =>
    Relation.ext fun arc => by simp [Relation.mem_restrict, all]
  refine ext_of_live ?_ ?_ ?_
  · refine ExtTreeMap.ext_getElem? fun r => ?_
    show (m.worlds.live.filter fun r _ => p r)[r]? = _
    rw [ExtTreeMap.getElem?_filter']
    cases m.worlds.live[r]? <;> simp [all]
  · simp [keep, WorldTable.keep, all]
  · refine ExtTreeMap.ext_getElem? fun a => ?_
    simp [keep, whole]

/-- The slots of worlds that are not kept come free in the order of the worlds. -/
theorem freed_keep_notMem {gone : List WorldRef} (sub : gone.Sublist m.refs) :
    (m.keep fun r => r ∉ gone).worlds.freed = gone.reverse ++ m.worlds.freed := by
  have lost : (m.refs.filter fun r => !decide (r ∉ gone)) = gone := by
    simpa using filter_mem_of_sublist m.nodup_refs sub
  show (m.refs.filter fun r => !decide (r ∉ gone)).reverse ++ m.worlds.freed = _
  rw [lost]

/-- Without some worlds of the model, the later ones are still listed in their order. -/
theorem sublist_refs_keep {first later : List WorldRef} (sub : (first ++ later).Sublist m.refs) :
    later.Sublist (m.keep fun r => r ∉ first).refs := by
  have refs : (m.keep fun r => r ∉ first).refs = m.refs.filter fun r => r ∉ first :=
    ExtTreeMap.keys_filter_key
  have apart := (List.nodup_append.1 (sub.nodup m.nodup_refs)).2.2
  have kept : (later.filter fun r => r ∉ first) = later :=
    List.filter_eq_self.2 fun x hx => decide_eq_true fun early => apart x early x hx rfl
  rw [refs, ← kept]
  exact ((List.sublist_append_right first later).trans sub).filter _

/-- The worlds that are kept without some and then without others are those kept without all. -/
theorem keep_notMem_append {first later : List WorldRef}
    (sub : (first ++ later).Sublist m.refs) :
    (m.keep fun r => r ∉ first).keep (fun r => r ∉ later) = m.keep fun r => r ∉ first ++ later := by
  have early := (List.sublist_append_left first later).trans sub
  refine ext_of_live ?_ ?_ ?_
  · refine ExtTreeMap.ext_getElem? fun r => ?_
    simp [keep, WorldTable.keep, Option.filter_filter]
  · rw [freed_keep_notMem (sublist_refs_keep sub), freed_keep_notMem early, freed_keep_notMem sub,
      List.reverse_append, List.append_assoc]
  · have both : ∀ r : Relation, (r.restrict fun x => x ∉ first).restrict (fun x => x ∉ later)
        = r.restrict fun x => x ∉ first ++ later := fun r => Relation.ext fun arc => by
      simp only [Relation.mem_restrict, decide_eq_true_eq, List.mem_append, not_or]
      tauto
    simp only [keep, ExtTreeMap.map_map, both]

/-- Removing worlds of the model one by one in their order keeps the others. -/
theorem foldl_removeWorld {gone : List WorldRef} (sub : gone.Sublist m.refs) :
    gone.foldl removeWorld m = m.keep fun r => r ∉ gone := by
  induction gone generalizing m with
  | nil => exact (m.keep_all fun _ => by simp).symm
  | cons r rest ih =>
    have alone : m.removeWorld r = m.keep fun x => x ∉ [r] :=
      congrArg m.keep (funext fun x => by rw [Bool.eq_iff_iff]; simp)
    rw [List.foldl_cons, alone, ih (sublist_refs_keep sub)]
    exact keep_notMem_append sub

/-- What is left when the worlds that refute a formula are removed one by one is what the
announcement leaves. -/
theorem foldl_removeWorld_refuting (m : Model) (f : Formula) :
    (m.refuting f).foldl removeWorld m = (m.announce f).2 := by
  have sub : (m.refuting f).Sublist m.refs := List.filter_sublist
  rw [foldl_removeWorld sub]
  refine congrArg m.keep (funext fun r => ?_)
  simp

/-- Of all worlds of the model those at which a formula is false are found. -/
theorem refuting_view_refs (m : Model) (f : Formula) :
    m.view.refuting f m.refs = .ok (m.refuting f) :=
  refuting_view f fun _ hr => contains_iff.2 hr

/-- An announcement points at worlds of the model only, and removes them one by one. -/
theorem announceIn_eq (m : Model) (f : Formula) : m.announceIn f = .ok (m.announce f) := by
  rw [announceIn, refuting_view_refs]
  show Except.ok (m.refuting f, (m.refuting f).foldl removeWorld m) = _
  rw [foldl_removeWorld_refuting]
  rfl

end Model

end KnowledgePrograms
