import KnowledgePrograms.Proofs.Session.Registry

/-! # Rounds on tables

When everything is on file for the agents of a session, a round on the tables looks up nothing in
vain. So it comes to what the round comes to as a run through the agents of the session, and fails
only where this fails. The same is true of announcements.

* `Registry.Simulates`: a run on the tables of any session comes to what a run on the session does.
* `Registry.simulates_announceTo`, `Registry.simulates_consult`, `Registry.simulates_hear`: what is
  done for one agent.
* `Registry.runOn_round`, `Registry.runOn_announce`: what rounds and announcements come to. -/

namespace KnowledgePrograms

open Std (ExtTreeMap ExtTreeSet)
open Session (Findings observationIn)

namespace Registry

variable {s : Session} {a : Agent}

/-! ## (1) Runs that simulate each other -/

/-- On the tables of any session that has some agents, the first run comes to what the second does
on the session, which goes on to have these agents. -/
def Simulates {α : Type} (known : List Agent) (p : Run Registry Fault α) (q : Run Session Fault α) :
    Prop :=
  ∀ s : Session, (∀ a ∈ known, a ∈ s.agents) →
    runOn p (of s) = (of (runOn q s).1, (runOn q s).2) ∧ ∀ a ∈ known, a ∈ (runOn q s).1.agents

section Simulates

variable {α β : Type} {known : List Agent} {p : Run Registry Fault α} {q : Run Session Fault α}

/-- Runs that simulate each other and then go on to simulate each other do so altogether. -/
theorem Simulates.bind {k : α → Run Registry Fault β} {l : α → Run Session Fault β}
    (h : Simulates known p q) (rest : ∀ a, Simulates known (k a) (l a)) :
    Simulates known (p >>= k) (q >>= l) := by
  intro s present
  obtain ⟨same, present'⟩ := h s present
  cases ended : runOn q s with
  | mk t result =>
    rw [ended] at same present'
    cases result with
    | error e =>
      rw [runOn_bind_of_error same, runOn_bind_of_error ended]
      exact ⟨rfl, present'⟩
    | ok a =>
      rw [runOn_bind_of_ok same, runOn_bind_of_ok ended]
      exact rest a t present'

/-- To go on with the same is simulated. -/
theorem simulates_pure (known : List Agent) (a : α) : Simulates known (pure a) (pure a) :=
  fun _ present => ⟨rfl, present⟩

/-- A loop over agents is simulated if each step for a known agent is. -/
theorem Simulates.foldlM {k : β → Agent → Run Registry Fault β}
    {l : β → Agent → Run Session Fault β} {agents : List Agent}
    (each : ∀ b, ∀ a ∈ agents, Simulates known (k b a) (l b a)) (b : β) :
    Simulates known (agents.foldlM k b) (agents.foldlM l b) := by
  induction agents generalizing b with
  | nil => exact simulates_pure known b
  | cons a rest ih =>
    rw [List.foldlM_cons, List.foldlM_cons]
    apply (each b a List.mem_cons_self).bind
    intro c
    exact ih (fun b a ha => each b a (List.mem_cons_of_mem _ ha)) c

/-- A loop that goes on with nothing is simulated if each step is. -/
theorem Simulates.forM {γ : Type} {k : γ → Run Registry Fault Unit}
    {l : γ → Run Session Fault Unit} {items : List γ}
    (each : ∀ i ∈ items, Simulates known (k i) (l i)) :
    Simulates known (items.forM k) (items.forM l) := by
  induction items with
  | nil => exact simulates_pure known ()
  | cons i rest ih =>
    rw [List.forM_eq_forM, List.forM_eq_forM, List.forM_cons, List.forM_cons]
    apply (each i List.mem_cons_self).bind
    intro _
    exact ih fun i hi => each i (List.mem_cons_of_mem _ hi)

end Simulates

/-! ## (2) One agent -/

variable {known : List Agent}

/-- Announcing to a known agent finds its model. -/
theorem simulates_announceTo (f : Formula) (mem : a ∈ known) :
    Simulates known (announceTo f a) (Session.announceTo f a) := by
  intro s present
  obtain ⟨x, hx⟩ := Session.mem_agents.1 (present a mem)
  have told := Session.runOn_announceTo hx f
  refine ⟨?_, fun b hb => ?_⟩
  · rw [told, Session.tellOne_singleton hx, of_insert_withModel hx, announceTo,
      runOn_get_bind]
    simp only [getElem?_models_of hx, Model.announceIn_eq]
    rfl
  · rw [told, Session.tellOne, Session.agents_tell]
    exact present b hb

/-- Noting whether a known agent is the first without a world left reads its model. -/
theorem simulates_announceNoting (f : Formula) (emptied : Option Agent) (mem : a ∈ known) :
    Simulates known (announceNoting f emptied a) (Session.announceNoting f emptied a) := by
  apply (simulates_announceTo f mem).bind
  intro _ s present
  obtain ⟨x, hx⟩ := Session.mem_agents.1 (present a mem)
  refine ⟨?_, present⟩
  show (of s, Except.ok (if emptied.isNone
      && (of s).models[a]?.any (fun m => m.worldCount == 0) then _ else _))
    = (of s, Except.ok (if emptied.isNone
      && s.members[a]?.any (fun x => x.model.worldCount == 0) then _ else _))
  rw [getElem?_models_of hx, hx]
  rfl

/-- Requiring the world looks at the same models. -/
theorem simulates_requireWorld (known : List Agent) (r : WorldRef) :
    Simulates known (requireWorld r) (Session.requireWorld r) := by
  intro s present
  have listed : (of s).models.toList = s.members.toList.map fun e => (e.1, e.2.model) :=
    ExtTreeMap.toList_map
  have first : s.firstWithout? r
      = (((of s).models.toList.find? fun e => !e.2.contains r)).map Prod.fst := by
    rw [listed, List.find?_map, Option.map_map]
    rfl
  rw [Session.runOn_requireWorld, requireWorld, runOn_get_bind, first]
  cases (of s).models.toList.find? fun e => !e.2.contains r with
  | none | some e => exact ⟨rfl, present⟩

/-- An agent of a session is still there after the member of some agent is put in. -/
theorem mem_agents_insert {b : Agent} (present : b ∈ s.agents) (a : Agent) (y : Member) :
    b ∈ (s.withMembers (s.members.insert a y)).agents := by
  obtain ⟨z, hz⟩ := Session.mem_agents.1 present
  rw [Session.mem_agents, Session.withMembers, Agent.getElem?_insert]
  by_cases same : a = b
  · exact ⟨y, if_pos same⟩
  · exact ⟨z, (if_neg same).trans hz⟩

/-- Consulting a known agent finds its model and its actor, and the atoms that it observes. -/
theorem simulates_consult (r : WorldRef) (found : Findings) (mem : a ∈ known) :
    Simulates known (consult r found a) (Session.consult r found a) := by
  intro s present
  obtain ⟨x, hx⟩ := Session.mem_agents.1 (present a mem)
  rw [consult, runOn_get_bind, Session.consult,
    runOn_bind_of_ok (Session.runOn_lookUp hx)]
  simp only [getElem?_models_of hx, getElem?_actors_of hx, getElem?_observed_of hx,
    Option.getD_some]
  cases observationIn x.model r a x.observed with
  | error e => exact ⟨rfl, present⟩
  | ok observed =>
    cases x.model.contextAt r with
    | error e => exact ⟨rfl, present⟩
    | ok c =>
      cases selected : x.actor.select c with
      | mk y result =>
        -- The actor is filed whether or not its selection fails.
        have filed := of_insert_withActor hx y
        have present' : ∀ b ∈ known,
            b ∈ (s.withMembers (s.members.insert a (x.withActor y))).agents :=
          fun b hb => mem_agents_insert (present b hb) a _
        simp only [attempt, pure_bind, selected]
        cases result with
        | error e => exact ⟨congrArg (·, Except.error (Fault.evaluation e)) filed.symm, present'⟩
        | ok action => exact ⟨congrArg (·, Except.ok _) filed.symm, present'⟩

/-- What a known agent hears is found and announced to it. -/
theorem simulates_hear (explanations : ExtTreeMap Agent Formula) (mem : a ∈ known) :
    Simulates known (hear explanations a) (Session.hear explanations a) := by
  intro s present
  obtain ⟨x, hx⟩ := Session.mem_agents.1 (present a mem)
  rw [hear_eq, runOn_get_bind, Session.hear,
    runOn_get_bind,
    runOn_bind_of_ok (Session.runOn_lookUp hx), getElem?_heard_of hx,
    Option.elim_some]
  have told : Simulates known
      ((Session.redistributed s.settings.redistribution.value
        (s.heardBy explanations a x)).forM (announceTo · a))
      ((Session.redistributed s.settings.redistribution.value
        (s.heardBy explanations a x)).forM (Session.announceTo · a)) :=
    Simulates.forM fun e _ => simulates_announceTo e mem
  exact told s present

/-! ## (3) All agents -/

/-- What is reported of the tables is what the session reports. -/
theorem report_of (s : Session) (found : Findings) :
    (of s).report found = s.report found.observations found.explanations := by
  rw [report, Session.report]
  congr 1
  · refine ExtTreeMap.ext_getElem? fun a => ?_
    simp only [ExtTreeMap.getElem?_filterMap', of, ExtTreeMap.getElem?_map, Option.map_map]
    rfl
  · simp only [of, Session.models, ExtTreeMap.map_map]

/-- Counting a round and reporting it is simulated. -/
theorem simulates_report (known : List Agent) (found : Findings) :
    Simulates known
      (do
        countRound
        return (← get).report found)
      (do
        modify Session.countRound
        return (← get).report found.observations found.explanations) := by
  intro s present
  have reported := report_of s.countRound found
  exact ⟨congrArg (fun report => (of s.countRound, Except.ok report)) reported, present⟩

/-- Failing for the first agent without a world is simulated. -/
theorem simulates_noConvergence (known : List Agent) (emptied : Option Agent) :
    Simulates known
      (match emptied with
        | some a => throw (.run (.noConvergence a))
        | none => return ())
      (match emptied with
        | some a => throw (.run (.noConvergence a))
        | none => return ()) := by
  cases emptied with
  | none => exact simulates_pure known ()
  | some a => exact fun _ present => ⟨rfl, present⟩

/-- **Rounds.** A round on the tables of a session looks up no agent in vain, and comes to what the
round of the session gives. -/
theorem runOn_round (s : Session) (f : Formula) (r : WorldRef) :
    runOn (round f r) (of s) = (of (s.round f r).1, (s.round f r).2.mapError .run) := by
  have ended := Session.runOn_protocol s f r
  rw [Session.protocol, runOn_get_bind] at ended
  rw [round, runOn_get_bind, keys_actors_of]
  have told : Simulates s.agents _ _ := Simulates.forM fun a mem => simulates_announceTo f mem
  have heard (found : Findings) : Simulates s.agents _ _ :=
    Simulates.forM fun a mem => simulates_hear found.explanations mem
  have whole := told.bind fun _ => (simulates_requireWorld s.agents r).bind fun _ =>
    (Simulates.foldlM (fun found a mem => simulates_consult r found mem) ⟨∅, ∅⟩).bind fun found =>
      (heard found).bind fun _ => (simulates_requireWorld s.agents r).bind fun _ =>
        simulates_report s.agents found
  obtain ⟨same, -⟩ := whole s fun _ mem => mem
  exact same.trans (congrArg (fun e => (of e.1, e.2)) ended)

/-- **Announcements.** An announcement on the tables of a session looks up no agent in vain, and
comes to what the announcement of the session gives. -/
theorem runOn_announce (s : Session) (f : Formula) :
    runOn (announce f) (of s) = (of (s.announce f).1, (s.announce f).2.mapError .run) := by
  have ended := Session.runOn_broadcast s f
  rw [Session.broadcast, runOn_get_bind] at ended
  rw [announce, runOn_get_bind, keys_actors_of]
  have noted : Simulates s.agents _ _ :=
    Simulates.foldlM (fun emptied a mem => simulates_announceNoting f emptied mem) none
  have whole := noted.bind fun emptied => simulates_noConvergence s.agents emptied
  obtain ⟨same, -⟩ := whole s fun _ mem => mem
  exact same.trans (congrArg (fun e => (of e.1, e.2)) ended)

end Registry

end KnowledgePrograms
