import KnowledgePrograms.Proofs.Session.Hearing
import KnowledgePrograms.Proofs.Session.History
import KnowledgePrograms.Proofs.Session.Protocol
import KnowledgePrograms.Proofs.Session.Report

/-! # Hearing more

An agent that may hear more agents is told more in a round, and as all that it is told is announced
as one conjunction, it is left with fewer worlds, or the same. Explanations are not kept by removals
in general, but all are found before any is heard. So nothing else changes: the others are left with
the same models, and all select the same. A round can fail then that would not fail otherwise, never
the other way round.

* `Session.HearsWithin`: sessions that differ in whom one agent hears.
* `Session.NarrowerFor`: what becomes of them.
* `Session.round_narrows`: rounds of the two. -/

namespace KnowledgePrograms

open Std (ExtTreeMap ExtTreeSet)

/-- The members differ in whom they hear: the first hears no one that the second does not. -/
structure Member.HearsWithin (x y : Member) : Prop where
  /-- The actors are the same. -/
  actor_eq : x.actor = y.actor
  /-- The models are the same. -/
  model_eq : x.model = y.model
  /-- Whom the first hears the second hears. -/
  heard : ∀ b ∈ x.heard, b ∈ y.heard

namespace Session

/-- The sessions differ in whom one agent hears: in the first it hears no one that it does not hear
in the second. -/
structure HearsWithin (s t : Session) (a : Agent) : Prop where
  /-- The settings are the same. -/
  settings_eq : s.settings = t.settings
  /-- The agent hears no one in the first that it does not in the second. -/
  member : Option.Rel Member.HearsWithin s.members[a]? t.members[a]?
  /-- The other members are the same. -/
  others : ∀ b, b ≠ a → s.members[b]? = t.members[b]?

/-- In the second session the agent is left with fewer worlds than in the first, or the same, and
nothing else differs in the models and selections. -/
structure NarrowerFor (s t : Session) (a : Agent) : Prop where
  /-- The model of the agent in the second is what is left of that in the first. -/
  model : Option.Rel (fun m n => n.IsLeftOf m) (s.model? a) (t.model? a)
  /-- The other models are the same. -/
  others : ∀ b, b ≠ a → s.model? b = t.model? b
  /-- The actors, with what they have selected, are the same. -/
  actors : ∀ b, s.actor? b = t.actor? b

variable {s t : Session} {a b : Agent} {r : WorldRef}

/-! ## (1) Whom an agent hears -/

/-- After an agent is let hear exactly some agents it hears these, and the other members are as they
were. -/
theorem getElem?_members_setHeard {agents : List Agent} (done : s.setHeard a agents = .ok t)
    (b : Agent) : t.members[b]?
      = if a = b then s.members[a]?.map fun x => x.withHeard (.ofList agents)
        else s.members[b]? := by
  rw [setHeard] at done
  rw [eq_of_change_eq_ok done, withMembers, ExtTreeMap.getElem?_modify]
  simp only [Std.LawfulEqCmp.compare_eq_iff_eq]

/-- Letting an agent hear some agents leaves the settings. -/
theorem settings_setHeard {agents : List Agent} (done : s.setHeard a agents = .ok t) :
    t.settings = s.settings := by
  rw [setHeard] at done
  rw [eq_of_change_eq_ok done, withMembers]

/-- Two sessions that come from one when an agent is let hear some agents, and when it is let hear
more, differ in whom the agent hears. -/
theorem hearsWithin_setHeard {u : Session} {less more : List Agent} (sub : ∀ b ∈ less, b ∈ more)
    (hs : u.setHeard a less = .ok s) (ht : u.setHeard a more = .ok t) : s.HearsWithin t a where
  settings_eq := (settings_setHeard hs).trans (settings_setHeard ht).symm
  member := by
    rw [getElem?_members_setHeard hs, getElem?_members_setHeard ht, if_pos rfl, if_pos rfl]
    cases u.members[a]? with
    | none => exact .none
    | some x =>
      refine .some ⟨rfl, rfl, fun b heard => ?_⟩
      have given : b ∈ (ExtTreeSet.ofList less : ExtTreeSet Agent) := heard
      show b ∈ (ExtTreeSet.ofList more : ExtTreeSet Agent)
      rw [ExtTreeSet.mem_ofList, List.contains_iff_mem] at given ⊢
      exact sub b given
  others b other := by
    rw [getElem?_members_setHeard hs, getElem?_members_setHeard ht, if_neg other.symm,
      if_neg other.symm]

/-! ## (2) What is announced -/

/-- An announcement to all leaves sessions that differ in whom the agent hears. -/
theorem HearsWithin.tellAll (h : s.HearsWithin t a) (f : Formula) :
    (s.tellAll f).HearsWithin (t.tellAll f) a where
  settings_eq := h.settings_eq
  member := by
    rw [getElem?_members_tellAll, getElem?_members_tellAll]
    refine rel_map h.member fun x y within => ⟨within.actor_eq, ?_, within.heard⟩
    rw [Member.withModel, Member.withModel, within.model_eq]
  others b other := by
    rw [getElem?_members_tellAll, getElem?_members_tellAll, h.others b other]

/-- What is read of a member, save of whom it hears, is read alike in the two sessions. -/
theorem HearsWithin.bind_eq {α : Type} (h : s.HearsWithin t a) {g : Member → Option α}
    (read : ∀ x y : Member, x.HearsWithin y → g x = g y) (b : Agent) :
    s.members[b]?.bind g = t.members[b]?.bind g := by
  by_cases own : b = a
  · subst own
    exact bind_eq_of_rel h.member read
  · rw [h.others b own]

/-- What is found of a member, save of whom it hears, is found alike in the two sessions. -/
theorem HearsWithin.map_eq {α : Type} (h : s.HearsWithin t a) {g : Member → α}
    (read : ∀ x y : Member, x.HearsWithin y → g x = g y) (b : Agent) :
    s.members[b]?.map g = t.members[b]?.map g := by
  rw [Option.map_eq_bind, Option.map_eq_bind]
  exact h.bind_eq (fun x y within => congrArg some (read x y within)) b

/-- The same is explained in the two sessions. -/
theorem HearsWithin.explanations_eq (h : s.HearsWithin t a) (r : WorldRef) :
    (s.selectAll r).explanations = (t.selectAll r).explanations := by
  refine ExtTreeMap.ext_getElem? fun b => ?_
  rw [getElem?_explanations_selectAll, getElem?_explanations_selectAll, h.settings_eq]
  refine h.bind_eq (fun x y within => ?_) b
  rw [within.actor_eq, within.model_eq]

/-- What the agent hears in the first session it hears in the second. -/
theorem HearsWithin.mem_heardBy (h : s.HearsWithin t a) {x y : Member} (within : x.HearsWithin y)
    {e : Formula} (heard : e ∈ s.heardBy (s.selectAll r).explanations a x) :
    e ∈ t.heardBy (t.selectAll r).explanations a y := by
  rw [Session.mem_heardBy] at heard ⊢
  obtain ⟨b, permitted, other, explained⟩ := heard
  refine ⟨b, within.heard b permitted, ?_, ?_⟩
  · rw [← h.settings_eq]
    exact other
  · rw [← h.explanations_eq]
    exact explained

/-! ## (3) What becomes of the models -/

/-- As long as nothing is explained, what the agent hears makes no difference. -/
theorem HearsWithin.narrowerFor (h : s.HearsWithin t a) : s.NarrowerFor t a where
  model := by
    rw [model?_eq, model?_eq]
    refine rel_map h.member fun x y within => ?_
    rw [within.model_eq]
    exact y.model.isLeftOf_self
  others b other := by rw [model?_eq, model?_eq, h.others b other]
  actors b := by
    rw [actor?, actor?]
    exact h.map_eq (fun x y within => within.actor_eq) b

/-- Of its model a member is left with what the explanations that it hears leave. -/
theorem model?_inform (s : Session) (r : WorldRef) (b : Agent) :
    (s.inform r).model? b = s.members[b]?.map fun x =>
      (x.model.announceEach (s.newsFor r b x)).2 := by
  rw [model?_eq, getElem?_members_inform, Option.map_map]
  rfl

/-- Each actor has selected at the world of its model. -/
theorem actor?_inform (s : Session) (r : WorldRef) (b : Agent) :
    (s.inform r).actor? b = s.members[b]?.map fun x => x.actor.selectAt x.model r := by
  rw [actor?, getElem?_members_inform, Option.map_map]
  rfl

/-- When the explanations are heard, as one conjunction each, the agent is left with fewer worlds in
the second session, or the same. -/
theorem HearsWithin.inform (h : s.HearsWithin t a)
    (conjoined : s.settings.redistribution.value = .conjoined) (r : WorldRef) :
    (s.inform r).NarrowerFor (t.inform r) a where
  model := by
    rw [model?_inform, model?_inform]
    refine rel_map h.member fun x y within => ?_
    have left := isSubmodel_announceEach_conjoined y.model
      (s.heardBy (s.selectAll r).explanations a x)
    have left' := isSubmodel_announceEach_conjoined y.model
      (t.heardBy (t.selectAll r).explanations a y)
    rw [newsFor, newsFor, ← h.settings_eq, conjoined, within.model_eq]
    exact (left'.of_imp left fun v _ all e heard => all e (h.mem_heardBy within heard)).isLeftOf
  others b other := by
    rw [model?_inform, model?_inform, h.others b other]
    simp only [newsFor, heardBy, h.settings_eq, h.explanations_eq]
  actors b := by
    rw [actor?_inform, actor?_inform]
    refine h.map_eq (fun x y within => ?_) b
    rw [within.actor_eq, within.model_eq]

/-! ## (4) Rounds -/

/-- The first agent without the world is the same. -/
theorem HearsWithin.firstWithout?_eq (h : s.HearsWithin t a) (r : WorldRef) :
    s.firstWithout? r = t.firstWithout? r := by
  have found : (s.members.map fun _ x => x.model.contains r)
      = t.members.map fun _ x => x.model.contains r := by
    refine ExtTreeMap.ext_getElem? fun b => ?_
    rw [ExtTreeMap.getElem?_map, ExtTreeMap.getElem?_map]
    refine h.map_eq (fun x y within => ?_) b
    rw [within.model_eq]
  rw [Session.firstWithout?_eq, Session.firstWithout?_eq, found]

/-- What an agent is left with in the second session is left of what it is left with in the
first. -/
theorem NarrowerFor.exists_model (h : s.NarrowerFor t a) {m : Model} (hm : s.model? b = some m) :
    ∃ n, t.model? b = some n ∧ n.IsLeftOf m := by
  by_cases own : b = a
  · subst own
    have narrower := h.model
    rw [hm] at narrower
    generalize t.model? b = left at narrower ⊢
    cases narrower with
    | some isLeft => exact ⟨_, rfl, isLeft⟩
  · exact ⟨m, (h.others b own).symm.trans hm, m.isLeftOf_self⟩

/-- If the world is left to every member in the second session, then it is in the first. -/
theorem NarrowerFor.firstWithout?_eq_none (h : s.NarrowerFor t a)
    (present : t.firstWithout? r = none) : s.firstWithout? r = none := by
  rw [firstWithout?_eq_none_iff] at present ⊢
  intro b x hx
  obtain ⟨n, hn, left⟩ := h.exists_model (b := b) (by rw [model?_eq, hx, Option.map_some])
  rw [model?_eq] at hn
  obtain ⟨y, hy, rfl⟩ := Option.map_eq_some_iff.1 hn
  exact left.contains (present b y hy)

/-- What becomes of sessions shows in their members. -/
theorem NarrowerFor.of_members_eq {s' t' : Session} (h : s.NarrowerFor t a)
    (hs : s'.members = s.members) (ht : t'.members = t.members) : s'.NarrowerFor t' a where
  model := by
    rw [model?, model?, models, models, hs, ht]
    exact h.model
  others b other := by
    rw [model?, model?, models, models, hs, ht]
    exact h.others b other
  actors b := by
    rw [actor?, actor?, hs, ht]
    exact h.actors b

/-- **Hearing more never narrows less.** Let two sessions differ in whom one agent hears, with
explanations conjoined. Then whether or not their rounds fail, what the agent is left with where it
hears more is left of what it is left with where it hears less, the other agents are left with the
same models, and all agents with the same selections. If the round succeeds where the agent hears
more, it succeeds where it hears less. This holds of the rounds as runs through the agents too. -/
theorem round_narrows (h : s.HearsWithin t a)
    (conjoined : s.settings.redistribution.value = .conjoined) (f : Formula) (r : WorldRef) :
    runOn (protocol f r) s = ((s.round f r).1, (s.round f r).2.mapError .run) ∧
    runOn (protocol f r) t = ((t.round f r).1, (t.round f r).2.mapError .run) ∧
    (s.round f r).1.NarrowerFor (t.round f r).1 a ∧
    ((∃ report, (t.round f r).2 = .ok report) → ∃ report, (s.round f r).2 = .ok report) := by
  have told := h.tellAll f
  have informed := told.inform conjoined r
  have first := told.firstWithout?_eq r
  refine ⟨runOn_protocol s f r, runOn_protocol t f r, ?_⟩
  rcases round_cases t f r with ⟨b, missing, ended⟩ | ⟨present, b, -, ended⟩ |
    ⟨present, present', report, ended⟩
  · -- Both rounds fail before anything is explained.
    have ended' : s.round f r = (s.tellAll f, .error (.invalidModel b r)) := by
      rw [round_eq, first, missing]
    rw [ended, ended']
    exact ⟨told.narrowerFor, fun succeeds => by simp at succeeds⟩
  · have ended' := members_round f (firstWithout?_eq_none_iff.1 (first.trans present))
    rw [ended]
    exact ⟨informed.of_members_eq ended' rfl, fun succeeds => by simp at succeeds⟩
  · have ended' := round_eq_ok (first.trans present) (informed.firstWithout?_eq_none present')
    rw [ended, ended']
    exact ⟨informed.of_members_eq rfl rfl, fun _ => ⟨_, rfl⟩⟩

/-- With the second world for the real one, the hearer is left with both worlds where it hears no
one, and with the second where it hears the seer say "yes". -/
theorem round_narrows_eavesdropping :
    let hearer : Agent := ⟨"hearer"⟩
    ∃ s t : Session, eavesdropping.setHeard hearer [] = .ok s ∧
      eavesdropping.setHeard hearer [⟨"seer"⟩] = .ok t ∧
      s.HearsWithin t hearer ∧ s.settings.redistribution.value = .conjoined ∧
      (s.round .top ⟨2, 1⟩).1.NarrowerFor (t.round .top ⟨2, 1⟩).1 hearer ∧
      (∃ report, (t.round .top ⟨2, 1⟩).2 = .ok report) ∧
      (∃ report, (s.round .top ⟨2, 1⟩).2 = .ok report) ∧
      ((s.round .top ⟨2, 1⟩).1.model? hearer).map Model.refs = some [⟨1, 1⟩, ⟨2, 1⟩] ∧
      ((t.round .top ⟨2, 1⟩).1.model? hearer).map Model.refs = some [⟨2, 1⟩] := by
  intro hearer
  have checked : ∀ (agents : List Agent) (refs : List WorldRef),
      ((eavesdropping.setHeard hearer agents).toOption.any fun s =>
        let ended := s.round .top ⟨2, 1⟩
        ended.2.toOption.any (fun _ => true) &&
          (ended.1.model? hearer).map Model.refs == some refs) = true →
      ∃ s, eavesdropping.setHeard hearer agents = .ok s ∧
        (∃ report, (s.round .top ⟨2, 1⟩).2 = .ok report) ∧
        ((s.round .top ⟨2, 1⟩).1.model? hearer).map Model.refs = some refs := by
    intro agents refs check
    obtain ⟨s, done, passes⟩ := exists_ok_of_any check
    obtain ⟨succeeds, left⟩ := (Bool.and_eq_true _ _).mp passes
    obtain ⟨report, ended, -⟩ := exists_ok_of_any succeeds
    exact ⟨s, done, ⟨report, ended⟩, eq_of_beq left⟩
  obtain ⟨s, hs, -, left⟩ := checked [] [⟨1, 1⟩, ⟨2, 1⟩] (by decide +kernel)
  obtain ⟨t, ht, succeeds, left'⟩ := checked [⟨"seer"⟩] [⟨2, 1⟩] (by decide +kernel)
  have within : s.HearsWithin t hearer := hearsWithin_setHeard (by simp) hs ht
  have conjoined : s.settings.redistribution.value = .conjoined := by
    rw [settings_setHeard hs]
    rfl
  obtain ⟨-, -, narrower, both⟩ := round_narrows within conjoined .top ⟨2, 1⟩
  exact ⟨s, t, hs, ht, within, conjoined, narrower, succeeds, both succeeds, left, left'⟩

end Session

end KnowledgePrograms
