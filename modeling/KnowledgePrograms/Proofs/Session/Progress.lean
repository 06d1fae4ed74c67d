import KnowledgePrograms.Proofs.Session.Member

/-! # How far a session has come

What a session is asked about its progress depends on the models of its agents only. Where a model
stands in the way of an answer, the agent named is the least that has such a model.

* `Session.IsFirst`: the agent is the least whose model has a property.
* `firstWithout?_eq_some_iff`, `firstEmpty?_eq_some_iff`: which agent is named.
* `isFinishedAt_eq_error_iff`, `isFinished_eq_error_iff`: when a query has no answer.
* `status_eq_exhausted_iff`, `status_eq_converged_iff`, `status_eq_running_iff`: the status by the
  numbers of worlds. -/

namespace KnowledgePrograms

open Std (ExtTreeMap ExtTreeSet)

namespace Session

variable {s : Session} {a : Agent} {r : WorldRef}

/-- The agents are those that have a model. -/
theorem keys_models (s : Session) : s.models.keys = s.agents := ExtTreeMap.keys_map

/-- The model of an agent is that of its member. -/
theorem getElem?_models (s : Session) (a : Agent) :
    s.models[a]? = s.members[a]?.map Member.model := s.model?_eq a

/-- The members are listed with their models. -/
theorem exists_mem_toList_members {m : Model} :
    (∃ x, (a, x) ∈ s.members.toList ∧ x.model = m) ↔ s.models[a]? = some m := by
  simp only [ExtTreeMap.mem_toList_iff_getElem?_eq_some, getElem?_models, Option.map_eq_some_iff]

/-! ## (1) The least agent with such a model -/

/-- The agent is the least whose model has a property. -/
def IsFirst (s : Session) (P : Model → Prop) (a : Agent) : Prop :=
  (∃ m, s.models[a]? = some m ∧ P m) ∧
    ∀ b n, compare b a = .lt → s.models[b]? = some n → ¬ P n

/-- In a list in the order of the agents that its entries are of, the first found is the least that
passes. -/
theorem find?_eq_some_iff_of_ordered {α : Type} (agent : α → Agent) {l : List α}
    (ordered : l.Pairwise fun x y => compare (agent x) (agent y) = .lt) {p : α → Bool} {e : α} :
    l.find? p = some e ↔
      (e ∈ l ∧ p e = true) ∧
        ∀ x ∈ l, compare (agent x) (agent e) = .lt → ¬ p x = true := by
  induction l with
  | nil => simp
  | cons y l ih =>
    obtain ⟨below, rest⟩ := List.pairwise_cons.1 ordered
    by_cases passes : p y = true
    · rw [List.find?_cons_of_pos passes, Option.some.injEq]
      constructor
      · rintro rfl
        refine ⟨⟨List.mem_cons_self, passes⟩, ?_⟩
        intro x hx less
        rcases List.mem_cons.1 hx with rfl | late
        · exact absurd less (Std.OrientedCmp.not_lt_of_lt less)
        · exact absurd less (Std.OrientedCmp.not_lt_of_lt (below x late))
      · -- Whatever comes later is greater than the head, which passes.
        rintro ⟨⟨he, -⟩, least⟩
        rcases List.mem_cons.1 he with rfl | late
        · rfl
        · exact absurd passes (least y List.mem_cons_self (below e late))
    · rw [List.find?_cons_of_neg passes, ih rest]
      constructor
      · rintro ⟨⟨he, pe⟩, least⟩
        refine ⟨⟨List.mem_cons_of_mem _ he, pe⟩, ?_⟩
        intro x hx less
        rcases List.mem_cons.1 hx with rfl | late
        · exact passes
        · exact least x late less
      · rintro ⟨⟨he, pe⟩, least⟩
        refine ⟨⟨?_, pe⟩, fun x hx => least x (List.mem_cons_of_mem _ hx)⟩
        rcases List.mem_cons.1 he with rfl | late
        · exact absurd pe passes
        · exact late

/-- No member is found by a test of models iff no model passes it. -/
theorem find?_members_eq_none_iff {p : Model → Bool} :
    (s.members.toList.find? fun e => p e.2.model).map Prod.fst = none ↔
      ∀ (a : Agent) (m : Model), s.models[a]? = some m → ¬ p m = true := by
  rw [Option.map_eq_none_iff, List.find?_eq_none]
  constructor
  · intro none a m hm
    obtain ⟨x, hx, rfl⟩ := exists_mem_toList_members.2 hm
    exact none (a, x) hx
  · rintro none ⟨a, x⟩ hx
    exact none a x.model (exists_mem_toList_members.1 ⟨x, hx, rfl⟩)

/-- The agent found by a test of models is the least whose model passes it. -/
theorem find?_members_eq_some_iff {p : Model → Bool} :
    (s.members.toList.find? fun e => p e.2.model).map Prod.fst = some a ↔
      s.IsFirst (fun m => p m = true) a := by
  rw [Option.map_eq_some_iff]
  simp only [find?_eq_some_iff_of_ordered Prod.fst s.members.ordered_keys_toList]
  constructor
  · rintro ⟨⟨a, x⟩, ⟨⟨hx, passes⟩, least⟩, rfl⟩
    refine ⟨⟨x.model, exists_mem_toList_members.1 ⟨x, hx, rfl⟩, passes⟩, ?_⟩
    intro b n less hn
    obtain ⟨y, hy, rfl⟩ := exists_mem_toList_members.2 hn
    exact least (b, y) hy less
  · rintro ⟨⟨m, hm, passes⟩, least⟩
    obtain ⟨x, hx, rfl⟩ := exists_mem_toList_members.2 hm
    refine ⟨(a, x), ⟨⟨hx, passes⟩, ?_⟩, rfl⟩
    rintro ⟨b, y⟩ hy less
    exact least b y.model less (exists_mem_toList_members.1 ⟨y, hy, rfl⟩)

/-- The first agent without a world is the least whose model lacks it. -/
theorem firstWithout?_eq_some_iff :
    s.firstWithout? r = some a ↔ s.IsFirst (fun m => m.contains r = false) a := by
  rw [firstWithout?, find?_members_eq_some_iff (p := fun m => !m.contains r)]
  simp only [Bool.not_eq_true']

/-- The first empty agent is the least whose model has no world. -/
theorem firstEmpty?_eq_some_iff :
    s.firstEmpty? = some a ↔ s.IsFirst (fun m => m.worldCount = 0) a := by
  rw [firstEmpty?, find?_members_eq_some_iff (p := fun m => m.worldCount == 0)]
  simp only [beq_iff_eq]

/-- No agent is empty iff every model has a world. -/
theorem firstEmpty?_eq_none_iff :
    s.firstEmpty? = none ↔
      ∀ (a : Agent) (m : Model), s.models[a]? = some m → m.worldCount ≠ 0 := by
  rw [firstEmpty?, find?_members_eq_none_iff (p := fun m => m.worldCount == 0)]
  simp only [beq_iff_eq, ne_eq]

/-! ## (2) The queries -/

/-- An announcement is made to every member, whether or not it leaves a member without worlds. -/
theorem fst_announce (s : Session) (f : Formula) : (s.announce f).1 = s.tellAll f := by
  rw [announce]
  split <;> rfl

/-- An announcement fails iff it leaves some model empty. -/
theorem snd_announce_eq_error_iff {f : Formula} {e : RunError} :
    (s.announce f).2 = .error e ↔
      ∃ a, (s.tellAll f).firstEmpty? = some a ∧ e = .noConvergence a := by
  rw [announce]
  split
  · next a empty => simp [empty, eq_comm]
  · next none => simp [none]

/-- Whether a session is finished at a world has no answer iff the world is missing. -/
theorem isFinishedAt_eq_error_iff {e : RunError} :
    s.isFinishedAt r = .error e ↔ ∃ a, s.firstWithout? r = some a ∧ e = .invalidModel a r := by
  rw [isFinishedAt]
  split
  · next a missing => simp [missing, eq_comm]
  · next none => simp [none]

/-- Whether a session is finished has no answer iff some model is empty. -/
theorem isFinished_eq_error_iff {e : RunError} :
    s.isFinished = .error e ↔ ∃ a, s.firstEmpty? = some a ∧ e = .noConvergence a := by
  rw [isFinished]
  split
  · next a empty => simp [empty, eq_comm]
  · next none => simp [none]

/-- Every model is single iff it has one world. -/
theorem allSingle_iff :
    s.allSingle = true ↔
      ∀ (a : Agent) (m : Model), s.models[a]? = some m → m.worldCount = 1 := by
  rw [allSingle, List.all_eq_true]
  constructor
  · intro single a m hm
    obtain ⟨x, hx, rfl⟩ := exists_mem_toList_members.2 hm
    simpa using single (a, x) hx
  · rintro single ⟨a, x⟩ hx
    simpa using single a x.model (exists_mem_toList_members.1 ⟨x, hx, rfl⟩)

/-- A session is exhausted iff some model has no world. -/
theorem status_eq_exhausted_iff :
    s.status = .exhausted ↔
      ∃ (a : Agent) (m : Model), s.models[a]? = some m ∧ m.worldCount = 0 := by
  cases empty : s.firstEmpty? with
  | some a =>
    obtain ⟨⟨m, hm, none⟩, -⟩ := firstEmpty?_eq_some_iff.1 empty
    simp only [status, isFinished, empty, true_iff]
    exact ⟨a, m, hm, none⟩
  | none =>
    have worlds := firstEmpty?_eq_none_iff.1 empty
    have going : s.status ≠ .exhausted := by
      simp only [status, isFinished, empty]
      cases s.allSingle <;> simp
    refine iff_of_false going ?_
    rintro ⟨a, m, hm, none⟩
    exact worlds a m hm none

/-- A session is converged iff every model has one world. -/
theorem status_eq_converged_iff :
    s.status = .converged ↔
      ∀ (a : Agent) (m : Model), s.models[a]? = some m → m.worldCount = 1 := by
  rw [← allSingle_iff]
  cases empty : s.firstEmpty? with
  | some a =>
    have several : s.allSingle ≠ true := by
      obtain ⟨⟨m, hm, none⟩, -⟩ := firstEmpty?_eq_some_iff.1 empty
      intro single
      have one := allSingle_iff.1 single a m hm
      omega
    refine iff_of_false ?_ several
    simp only [status, isFinished, empty]
    simp
  | none =>
    simp only [status, isFinished, empty]
    cases s.allSingle <;> simp

/-- A session is running iff every model has a world and some model has several. -/
theorem status_eq_running_iff :
    s.status = .running ↔
      (∀ (a : Agent) (m : Model), s.models[a]? = some m → m.worldCount ≠ 0) ∧
      ∃ (a : Agent) (m : Model), s.models[a]? = some m ∧ m.worldCount ≠ 1 := by
  have others : s.status = .running ↔ ¬ s.status = .exhausted ∧ ¬ s.status = .converged := by
    cases s.status <;> simp
  rw [others, status_eq_exhausted_iff, status_eq_converged_iff]
  simp only [not_exists, not_and, Classical.not_forall, exists_prop, ne_eq]

end Session

end KnowledgePrograms
