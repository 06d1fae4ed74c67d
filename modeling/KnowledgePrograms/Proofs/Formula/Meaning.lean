import KnowledgePrograms.Proofs.Formula.Truth

/-! # The meaning of a formula on every context

A valuation alone decides a formula only as far as no modality is read. Where it does, every world
with this valuation gives the same truth value, and on a formula without modalities it always does.
So what holds of truth at worlds carries over to valuations.

* `evaluateOn_found_or_modal`: on a valuation the truth value at any such world is found, or else a
  modality is read.
* `satisfies_of_evaluateOn`, `evaluateOn_eq_satisfies`: what is found is the truth value at any such
  world, and without modalities it is found.
* `evaluate_simplify_normalise_negate`: the passes keep the meaning of a formula, and negation
  inverts it, on every context. -/

namespace KnowledgePrograms

/-- The world gives every atom the value that the valuation gives it. -/
def Model.HasValuation (m : Model) (r : WorldRef) (v : Valuation) : Prop :=
  ∀ p, m.valueOf r p = v.valueOf p

/-- The model of a single world, with the valuation, and of no agents. -/
def Model.lone (v : Valuation) : Model := Model.empty.addWorld ⟨"", v⟩

/-- The only world of a lone model has the valuation. -/
theorem Model.hasValuation_lone (v : Valuation) :
    (Model.lone v).HasValuation Model.empty.fresh v := by
  intro p
  rw [valueOf, lone, world?_addWorld, if_pos rfl]

namespace Formula

/-! ## (1) Tests that may fail -/

section Tests

variable {ε α γ : Type} {test test' : α → Except ε Bool} {passes flagged : α → Bool} {e : ε}
  {xs : List α}

/-- What goes on from a result, and has a result itself, goes on from one that was found. -/
theorem exists_of_bind_eq_ok {x : Except ε α} {next : α → Except ε γ} {c : γ}
    (done : x >>= next = .ok c) : ∃ a, x = .ok a ∧ next a = .ok c := by
  cases x with
  | ok a => exact ⟨a, rfl, done⟩
  | error e => cases done

/-- The images of the members of a list are all tested by testing each member. -/
theorem allM_map (f : α → γ) (test : γ → Except ε Bool) (xs : List α) :
    (xs.map f).allM test = xs.allM fun x => test (f x) := by
  induction xs with
  | nil => rfl
  | cons x xs ih => rw [List.map_cons, List.allM, List.allM, ih]

/-- Some image of the members of a list is found by testing each member. -/
theorem anyM_map (f : α → γ) (test : γ → Except ε Bool) (xs : List α) :
    (xs.map f).anyM test = xs.anyM fun x => test (f x) := by
  induction xs with
  | nil => rfl
  | cons x xs ih => rw [List.map_cons, List.anyM, List.anyM, ih]

/-- Whether all members of a list pass depends on what the test says of the members. -/
theorem allM_congr (same : ∀ x ∈ xs, test x = test' x) :
    xs.allM test = xs.allM test' := by
  have results := congrArg (List.allM id) (List.map_congr_left same)
  rwa [allM_map, allM_map] at results

/-- Whether some member of a list passes depends on what the test says of the members. -/
theorem anyM_congr (same : ∀ x ∈ xs, test x = test' x) :
    xs.anyM test = xs.anyM test' := by
  have results := congrArg (List.anyM id) (List.map_congr_left same)
  rwa [anyM_map, anyM_map] at results

/-- A test that has a result for each member of a list is passed by all or not. -/
theorem allM_eq_ok (h : ∀ x ∈ xs, test x = .ok (passes x)) :
    xs.allM test = .ok (xs.all passes) :=
  (allM_congr h).trans List.allM_pure

/-- A test that has a result for each member of a list is passed by some or not. -/
theorem anyM_eq_ok (h : ∀ x ∈ xs, test x = .ok (passes x)) :
    xs.anyM test = .ok (xs.any passes) :=
  (anyM_congr h).trans List.anyM_pure

/-- If a test has a result for each member of a list or else fails on it, for a reason that the
member is flagged with, it finds out whether all members pass or fails for this reason. -/
theorem allM_eq_ok_or_error
    (each : ∀ x ∈ xs, test x = .ok (passes x) ∨ test x = .error e ∧ flagged x = true) :
    xs.allM test = .ok (xs.all passes) ∨ xs.allM test = .error e ∧ xs.any flagged = true := by
  induction xs with
  | nil => exact .inl rfl
  | cons x xs ih =>
    obtain ⟨first, others⟩ := List.forall_mem_cons.1 each
    rw [List.allM, List.all_cons, List.any_cons]
    rcases first with result | ⟨failed, flag⟩
    · rw [result]
      cases passes x with
      | true => exact (ih others).imp_right fun h => ⟨h.1, by rw [h.2, Bool.or_true]⟩
      | false => exact .inl rfl
    · rw [failed, flag]
      exact .inr ⟨rfl, rfl⟩

/-- If a test has a result for each member of a list or else fails on it, for a reason that the
member is flagged with, it finds out whether some member passes or fails for this reason. -/
theorem anyM_eq_ok_or_error
    (each : ∀ x ∈ xs, test x = .ok (passes x) ∨ test x = .error e ∧ flagged x = true) :
    xs.anyM test = .ok (xs.any passes) ∨ xs.anyM test = .error e ∧ xs.any flagged = true := by
  induction xs with
  | nil => exact .inl rfl
  | cons x xs ih =>
    obtain ⟨first, others⟩ := List.forall_mem_cons.1 each
    rw [List.anyM, List.any_cons, List.any_cons]
    rcases first with result | ⟨failed, flag⟩
    · rw [result]
      cases passes x with
      | true => exact .inl rfl
      | false => exact (ih others).imp_right fun h => ⟨h.1, by rw [h.2, Bool.or_true]⟩
    · rw [failed, flag]
      exact .inr ⟨rfl, rfl⟩

end Tests

/-! ## (2) From a valuation to a world -/

variable {m : Model} {r : WorldRef} {v : Valuation}

/-- Whether all operands are true on a valuation is found by evaluating them one by one. -/
@[simp] theorem evaluateAllOn_eq (v : Valuation) (fs : List Formula) :
    evaluateAllOn v fs = fs.allM (evaluateOn v) := by
  induction fs with
  | nil => rw [evaluateAllOn, List.allM]
  | cons f fs ih =>
    rw [evaluateAllOn, ih, List.allM]
    refine bind_congr fun b => ?_
    cases b <;> rfl

/-- Whether some operand is true on a valuation is found by evaluating them one by one. -/
@[simp] theorem evaluateAnyOn_eq (v : Valuation) (fs : List Formula) :
    evaluateAnyOn v fs = fs.anyM (evaluateOn v) := by
  induction fs with
  | nil => rw [evaluateAnyOn, List.anyM]
  | cons f fs ih =>
    rw [evaluateAnyOn, ih, List.anyM]
    refine bind_congr fun b => ?_
    cases b <;> rfl

/-- On a valuation alone the truth value at any world that has it is found, or else a modality of
the formula is read without a world to read it at. -/
theorem evaluateOn_found_or_modal (same : m.HasValuation r v) (f : Formula) :
    f.evaluateOn v = .ok (m.satisfies f r) ∨
      f.evaluateOn v = .error .unpointedModality ∧ f.isModal = true := by
  induction f with
  | atom p =>
    left
    rw [evaluateOn, Model.satisfies, same p]
  | not f ih =>
    rw [evaluateOn, Model.satisfies, isModal]
    rcases ih with found | ⟨failed, modal⟩
    · rw [found]
      exact .inl rfl
    · rw [failed]
      exact .inr ⟨rfl, modal⟩
  | and fs ih =>
    rw [evaluateOn, evaluateAllOn_eq, Model.satisfies, Model.satisfiesAll_eq, isModal, anyModal_eq]
    exact allM_eq_ok_or_error ih
  | or fs ih =>
    rw [evaluateOn, evaluateAnyOn_eq, Model.satisfies, Model.satisfiesAny_eq, isModal, anyModal_eq]
    exact anyM_eq_ok_or_error ih
  | imp f g ihf ihg =>
    rw [evaluateOn, Model.satisfies, isModal]
    rcases ihf with found | ⟨failed, modal⟩
    · rw [found]
      -- The second part is read only if the first is true.
      cases m.satisfies f r with
      | false => exact .inl rfl
      | true => exact ihg.imp_right fun h => ⟨h.1, by rw [h.2, Bool.or_true]⟩
    · rw [failed, modal]
      exact .inr ⟨rfl, rfl⟩
  | iff f g ihf ihg =>
    rw [evaluateOn, Model.satisfies, isModal]
    rcases ihf with found | ⟨failed, modal⟩
    · rw [found]
      rcases ihg with found' | ⟨failed, modal⟩
      · rw [found']
        exact .inl rfl
      · rw [failed, modal]
        exact .inr ⟨rfl, Bool.or_true _⟩
    · rw [failed, modal]
      exact .inr ⟨rfl, rfl⟩
  | knows a f ih | possible a f ih | everyone group f ih | common group f ih =>
    exact .inr ⟨by rw [evaluateOn], by rw [isModal]⟩

/-- A truth value found on a valuation alone is the truth value at every world that has it. -/
theorem satisfies_of_evaluateOn (same : m.HasValuation r v) (f : Formula) (b : Bool)
    (h : f.evaluateOn v = .ok b) : m.satisfies f r = b := by
  rcases evaluateOn_found_or_modal same f with found | ⟨failed, -⟩
  · exact Except.ok.inj (found.symm.trans h)
  · cases failed.symm.trans h

/-- Without modalities the truth value on a valuation is the one at any world that has it. -/
theorem evaluateOn_eq_satisfies (same : m.HasValuation r v) {f : Formula}
    (plain : f.isModal = false) : f.evaluateOn v = .ok (m.satisfies f r) := by
  rcases evaluateOn_found_or_modal same f with found | ⟨-, modal⟩
  · exact found
  · cases plain.symm.trans modal

/-! ## (3) The passes -/

/-- If at every world the truth of `g` follows in some way from that of `f`, then truth values of
the two that are found on one valuation are related in this way. -/
theorem evaluateOn_related {f g : Formula} (k : Bool → Bool)
    (related : ∀ (m : Model) (r : WorldRef), m.satisfies g r = k (m.satisfies f r)) {b c : Bool}
    (hf : f.evaluateOn v = .ok b) (hg : g.evaluateOn v = .ok c) : c = k b := by
  -- Both truth values are those at the world of the lone model.
  have same := Model.hasValuation_lone v
  rw [← satisfies_of_evaluateOn same g c hg, related, satisfies_of_evaluateOn same f b hf]

/-- **Simplification, normalisation and negation keep the meaning of a formula.** At a world of a
model the formula has a truth value, its simplified form and its normalised form have the same, and
its negation has the other. On a valuation alone this is so of all truth values that are found; of
a formula without modalities they are all found. -/
theorem evaluate_simplify_normalise_negate (f : Formula) (limit : Nat) :
    (∀ (m : Model) (r : WorldRef) (live : m.contains r = true), ∃ b : Bool,
      f.evaluate (.pointed m r live) = .ok b ∧
      f.simplify.evaluate (.pointed m r live) = .ok b ∧
      (f.normalise limit).evaluate (.pointed m r live) = .ok b ∧
      f.negate.evaluate (.pointed m r live) = .ok !b) ∧
    (∀ (v : Valuation) (b c : Bool), f.evaluate (.bare v) = .ok b →
      (f.simplify.evaluate (.bare v) = .ok c → c = b) ∧
      ((f.normalise limit).evaluate (.bare v) = .ok c → c = b) ∧
      (f.negate.evaluate (.bare v) = .ok c → c = !b)) ∧
    (f.isModal = false → ∀ v : Valuation, ∃ b : Bool,
      f.evaluate (.bare v) = .ok b ∧
      f.simplify.evaluate (.bare v) = .ok b ∧
      (f.normalise limit).evaluate (.bare v) = .ok b ∧
      f.negate.evaluate (.bare v) = .ok !b) := by
  have simplified := fun (m : Model) (r : WorldRef) => m.satisfies_simplify f r
  have normalised := fun (m : Model) (r : WorldRef) => m.satisfies_normalise limit f r
  have negated := fun (m : Model) (r : WorldRef) => m.satisfies_negate f r
  refine ⟨?_, ?_, ?_⟩
  · intro m r live
    refine ⟨m.satisfies f r, rfl, ?_, ?_, ?_⟩
    · rw [evaluate, simplified]
    · rw [evaluate, normalised]
    · rw [evaluate, negated]
  · intro v b c hf
    exact ⟨evaluateOn_related id simplified hf, evaluateOn_related id normalised hf,
      evaluateOn_related Bool.not negated hf⟩
  · intro plain v
    have same := Model.hasValuation_lone v
    refine ⟨(Model.lone v).satisfies f Model.empty.fresh, ?_, ?_, ?_, ?_⟩
    · exact evaluateOn_eq_satisfies same plain
    · rw [evaluate, evaluateOn_eq_satisfies same (f.isModal_simplify.trans plain), simplified]
    · rw [evaluate, evaluateOn_eq_satisfies same ((f.isModal_normalise limit).trans plain),
        normalised]
    · rw [evaluate, evaluateOn_eq_satisfies same (f.isModal_negate.trans plain), negated]

/-- On a valuation with `p` true, `p ∨ K[a] q` and its negation are decided before knowledge is
read; `p ↔ ¬q` and its negation, which has no modality either, are decided on every valuation. -/
theorem evaluate_simplify_normalise_negate_bare :
    let p : Formula := .atom ⟨"p"⟩
    let q : Formula := .atom ⟨"q"⟩
    let v : Valuation := .set .empty ⟨"p"⟩ true
    let known : Formula := .or [p, .knows ⟨"a"⟩ q]
    let apart : Formula := .iff p (.not q)
    known.evaluate (.bare v) = .ok true ∧
    known.negate.evaluate (.bare v) = .ok false ∧
    (∀ c, known.simplify.evaluate (.bare v) = .ok c → c = true) ∧
    (∀ c, known.negate.evaluate (.bare v) = .ok c → c = false) ∧
    apart.isModal = false ∧
    ∃ b : Bool, apart.evaluate (.bare v) = .ok b ∧
      apart.simplify.evaluate (.bare v) = .ok b ∧
      (apart.normalise 16).evaluate (.bare v) = .ok b ∧
      apart.negate.evaluate (.bare v) = .ok !b := by
  intro p q v known apart
  have decided : known.evaluate (.bare v) = .ok true := rfl
  have plain : apart.isModal = false := rfl
  have found := fun c => (evaluate_simplify_normalise_negate known 16).2.1 v true c decided
  exact ⟨decided, rfl, fun c => (found c).1, fun c => (found c).2.2, plain,
    (evaluate_simplify_normalise_negate apart 16).2.2 plain v⟩

end Formula

end KnowledgePrograms
