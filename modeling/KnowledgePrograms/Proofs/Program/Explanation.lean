import KnowledgePrograms.Proofs.Formula.Meaning
import KnowledgePrograms.Proofs.Program.Vocabulary

/-! # Explanations invert selection

The explanation of an action is true exactly where the program selects an action of its name,
through whichever rule or through the default. At a world of a model this follows by induction on
the rules, where the negated conditions of the rules passed so far are carried along
(`any_cases`); on a valuation alone it is carried over from a world with this valuation.

* `satisfies_explain`, `picks_of_explain_eq_none`: explanations at the worlds of a model.
* `explain_inverts_select`: explanations on every context that decides the conditions. -/

namespace KnowledgePrograms

namespace Program

/-- Whether something is selected, and its action has the name. -/
def picks (name : String) (selection : Option Selection) : Bool :=
  selection.any fun x => x.action.name = name

/-- Some rule or the default has an action of the name. -/
def HasAction (p : Program) (name : String) : Prop :=
  (∃ rule ∈ p.rules, rule.action.name = name) ∨ ∃ action ∈ p.default, action.name = name

variable {p : Program} {name : String} {limit : Nat} {e : Formula}

/-! ## (1) The places of an action -/

/-- There is a place for an action of the name iff some rule or the default has one. -/
theorem cases_ne_nil_iff (default : Option Action) (excluded : List Formula) (rules : List Rule) :
    cases name default excluded rules ≠ [] ↔
      (∃ rule ∈ rules, rule.action.name = name) ∨ ∃ action ∈ default, action.name = name := by
  induction rules generalizing excluded with
  | nil =>
    cases default with
    | none => simp [cases]
    | some action => simp [cases]
  | cons rule rest ih =>
    rw [cases]
    by_cases same : rule.action.name = name
    · rw [if_pos same]
      exact iff_of_true (List.cons_ne_nil _ _) (.inl ⟨rule, List.mem_cons_self, same⟩)
    · rw [if_neg same, ih]
      simp [same]

/-- A program explains an action iff it has one of the name. -/
theorem isSome_explain_iff : (p.explain name limit).isSome ↔ p.HasAction name := by
  rw [HasAction, ← cases_ne_nil_iff p.default [] p.rules, explain]
  split
  · next empty => simp [empty]
  · next nonempty => exact iff_of_true rfl nonempty

/-- Some place of an action is true at a world iff the conditions excluded so far are all true
there, and the remaining rules, or else the default, select an action of the name. -/
theorem any_cases (name : String) (m : Model) (r : WorldRef) (default : Option Action)
    (excluded : List Formula) (index : Nat) (rules : List Rule) :
    (cases name default excluded rules).any (fun f => m.satisfies f r) =
      ((excluded.all fun f => m.satisfies f r) &&
        picks name ((firstRule (fun f => m.satisfies f r) index rules).or
          (default.map fun action => ⟨action, .default⟩))) := by
  induction rules generalizing excluded index with
  | nil =>
    cases default with
    | none => simp [cases, firstRule, picks]
    | some action =>
      by_cases same : action.name = name
      · simp [cases, firstRule, picks, same, Model.satisfies_conjunction]
      · simp [cases, firstRule, picks, same]
  | cons rule rest ih =>
    -- The rule is passed over where its condition is false, and then its negation is excluded too.
    have later := ih (excluded ++ [rule.condition.negate]) (index + 1)
    rw [List.all_append, List.all_cons, List.all_nil, Model.satisfies_negate] at later
    rw [cases, firstRule]
    cases holds : m.satisfies rule.condition r with
    | true =>
      rw [holds] at later
      by_cases same : rule.action.name = name
      · simp [same, later, picks, Model.satisfies_conjunction, holds]
      · simp [same, later, picks]
    | false =>
      rw [holds] at later
      by_cases same : rule.action.name = name
      · simp [same, later, Model.satisfies_conjunction, holds]
      · simp [same, later]

/-! ## (2) At the worlds of a model -/

/-- An explanation is true where the program selects an action of the name. -/
theorem satisfies_explain (h : p.explain name limit = some e) (m : Model) (r : WorldRef) :
    m.satisfies e r = picks name (p.chooseAt m r) := by
  have places := any_cases name m r p.default [] 0 p.rules
  rw [explain] at h
  split at h
  · cases h
  · obtain rfl := Option.some.inj h
    rw [Model.satisfies_normalise, Model.satisfies_disjunction, places]
    rfl

/-- What a program does not explain it selects nowhere. -/
theorem picks_of_explain_eq_none (h : p.explain name limit = none) (m : Model) (r : WorldRef) :
    picks name (p.chooseAt m r) = false := by
  have places := any_cases name m r p.default [] 0 p.rules
  rw [explain] at h
  split at h
  · next empty =>
    rw [empty] at places
    exact places.symm
  · cases h

/-- What a program selects somewhere it explains, and the explanation is true there. -/
theorem exists_explain_of_chooseAt {m : Model} {r : WorldRef} {x : Selection}
    (h : p.chooseAt m r = some x) (limit : Nat) :
    ∃ e, p.explain x.action.name limit = some e ∧ m.satisfies e r = true := by
  have picked : picks x.action.name (p.chooseAt m r) = true := by
    simp [h, picks]
  cases explained : p.explain x.action.name limit with
  | none =>
    rw [picks_of_explain_eq_none explained] at picked
    cases picked
  | some e => exact ⟨e, rfl, (satisfies_explain explained m r).trans picked⟩

/-! ## (3) On a valuation alone -/

/-- Without modalities in the conditions the first true one on a valuation is the first one true at
a world that has it. -/
theorem firstRuleOn_bare {m : Model} {r : WorldRef} {v : Valuation} (same : m.HasValuation r v)
    (index : Nat) (rules : List Rule)
    (plain : ∀ rule ∈ rules, rule.condition.isModal = false) :
    firstRuleOn (.bare v) index rules
      = .ok (firstRule (fun f => m.satisfies f r) index rules) := by
  induction rules generalizing index with
  | nil => rfl
  | cons rule rest ih =>
    have condition := Formula.evaluateOn_eq_satisfies same (plain rule List.mem_cons_self)
    rw [firstRuleOn, firstRule, Formula.evaluate, condition]
    cases m.satisfies rule.condition r with
    | false => exact ih (index + 1) fun other hOther => plain other (List.mem_cons_of_mem _ hOther)
    | true => rfl

/-- On a valuation a program without modalities selects what it selects at a world that has it. -/
theorem select_bare {m : Model} {r : WorldRef} {v : Valuation} (same : m.HasValuation r v)
    (plain : p.Plain) : p.select (.bare v) = .ok (p.chooseAt m r) := by
  rw [select, firstRuleOn_bare same 0 p.rules plain]
  rfl

end Program

/-! ## (4) On every context -/

/-- The context decides every condition of the program: it has a world to read modalities at, or
there is none to be read. -/
def Context.Decides (c : Context) (p : Program) : Prop :=
  match c with
  | .bare _ => p.Plain
  | .pointed _ _ _ => True

namespace Program

variable {p : Program} {name : String} {limit : Nat} {e : Formula}

/-- A context that decides a program is like some world of a model: the program selects what it
selects there, and explanations have the truth value that they have there. -/
theorem exists_world_of_decides {c : Context} (decided : c.Decides p) :
    ∃ (m : Model) (r : WorldRef), p.select c = .ok (p.chooseAt m r) ∧
      ∀ (name : String) (limit : Nat) (e : Formula), p.explain name limit = some e →
        e.evaluate c = .ok (m.satisfies e r) := by
  cases c with
  | bare v =>
    have same := Model.hasValuation_lone v
    refine ⟨Model.lone v, Model.empty.fresh, select_bare same decided, ?_⟩
    intro name limit e explained
    exact Formula.evaluateOn_eq_satisfies same (isModal_explain decided explained)
  | pointed m r live =>
    exact ⟨m, r, p.select_pointed m r live, fun _ _ _ _ => rfl⟩

/-- **Explanation inverts selection.** A program explains the actions that it has. On a context
that decides its conditions it selects without an error, and the explanation of a name has a truth
value: it is true when an action of the name is selected, and false otherwise. Of a name that is
not explained no action is selected. -/
theorem explain_inverts_select (p : Program) (name : String) (limit : Nat) (c : Context)
    (decided : c.Decides p) :
    ((p.explain name limit).isSome ↔ p.HasAction name) ∧
    ∃ selection : Option Selection, p.select c = .ok selection ∧
      (∀ e, p.explain name limit = some e → e.evaluate c = .ok (picks name selection)) ∧
      (p.explain name limit = none → picks name selection = false) := by
  obtain ⟨m, r, selected, evaluated⟩ := exists_world_of_decides decided
  refine ⟨isSome_explain_iff, p.chooseAt m r, selected, ?_, ?_⟩
  · intro e explained
    rw [evaluated name limit e explained, satisfies_explain explained]
  · intro unexplained
    exact picks_of_explain_eq_none unexplained m r

/-- Of three rules the first and the third have one action. On a valuation with only the third
condition true the explanation of that action is true, and that of the second rule's is false,
though it is also the default. -/
theorem explain_inverts_select_third_rule :
    let act : Action := .utterance "act" ""
    let other : Action := .utterance "other" ""
    let p : Program :=
      ⟨[⟨.atom ⟨"p"⟩, act⟩, ⟨.not (.atom ⟨"r"⟩), other⟩, ⟨.atom ⟨"r"⟩, act⟩], some other⟩
    let c : Context := .bare (.set .empty ⟨"r"⟩ true)
    c.Decides p ∧ p.HasAction "act" ∧ p.HasAction "other" ∧
      (∃ e, p.explain "act" 1 = some e ∧ e.evaluate c = .ok true) ∧
      ∃ e, p.explain "other" 0 = some e ∧ e.evaluate c = .ok false := by
  intro act other p c
  have decided : c.Decides p := by
    intro rule hRule
    simp only [p, List.mem_cons, List.not_mem_nil, or_false] at hRule
    rcases hRule with rfl | rfl | rfl <;> rfl
  have third : p.select c = .ok (some ⟨act, .rule 2⟩) := rfl
  obtain ⟨hasAct, x, selected, explained, -⟩ := explain_inverts_select p "act" 1 c decided
  obtain ⟨hasOther, y, selected', explained', -⟩ := explain_inverts_select p "other" 0 c decided
  -- Both times the selection is that of the third rule.
  obtain rfl := Except.ok.inj (third.symm.trans selected)
  obtain rfl := Except.ok.inj (third.symm.trans selected')
  have isAct : p.HasAction "act" := .inl ⟨_, List.mem_cons_self, rfl⟩
  have isOther : p.HasAction "other" := .inr ⟨other, rfl, rfl⟩
  obtain ⟨e, he⟩ := Option.isSome_iff_exists.1 (hasAct.2 isAct)
  obtain ⟨e', he'⟩ := Option.isSome_iff_exists.1 (hasOther.2 isOther)
  exact ⟨decided, isAct, isOther, ⟨e, he, explained e he⟩, e', he', explained' e' he'⟩

end Program

end KnowledgePrograms
