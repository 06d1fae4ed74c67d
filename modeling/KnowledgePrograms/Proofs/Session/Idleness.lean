import Mathlib.Algebra.Order.BigOperators.Group.List
import Mathlib.Algebra.Order.Ring.Nat
import KnowledgePrograms.Proofs.Session.Conservation
import KnowledgePrograms.Proofs.Session.Secrecy

/-! # Idle rounds

A round is idle if it succeeds and removes no world. What a round does and reports depends on what
it finds in the members, save for what they have selected last, and not on what was counted so far.
These are the only things that an idle round changes, so the round after it is idle again. A round
that succeeds and is not idle removes a world, and each agent keeps the real one. So in a run of
rounds that succeed those that remove worlds come first, and there are no more of them than there
are worlds besides one for each agent.

* `Session.Alike`: sessions that differ in selections and counters only.
* `Session.Alike.round`: rounds of them do and report the same.
* `Session.alike_round`, `Session.alike_callAll`: what removes nothing changes nothing else.
* `Session.Idle`, `Session.Repeats`: rounds that remove nothing, and that report as one before.
* `Session.idle_round_repeats`: what follows an idle round, and how many are not idle. -/

namespace KnowledgePrograms

open Std (ExtTreeMap ExtTreeSet)

/-! ## (1) Announcements that remove nothing -/

namespace Model

variable {m : Model}

/-- An announcement that refutes no world leaves the model. -/
theorem snd_announce_of_nil {f : Formula} (none : (m.announce f).1 = []) :
    (m.announce f).2 = m := by
  have refuting : m.refuting f = [] := none
  show m.keep _ = m
  rw [refuting]
  exact m.keep_all fun r => by simp

/-- Announcements that remove no world leave the model. -/
theorem snd_announceEach_of_zero {fs : List Formula} (none : (m.announceEach fs).1 = 0) :
    (m.announceEach fs).2 = m := by
  induction fs with
  | nil => rfl
  | cons f rest ih =>
    have parts : (m.announce f).1.length + ((m.announce f).2.announceEach rest).1 = 0 := none
    obtain ⟨first, later⟩ := Nat.add_eq_zero_iff.1 parts
    have left := snd_announce_of_nil (List.length_eq_zero_iff.1 first)
    show ((m.announce f).2.announceEach rest).2 = m
    rw [left] at later ⊢
    exact ih later

end Model

/-! ## (2) Sessions that differ in selections and counters only -/

/-- The members differ in what they have selected last only. -/
structure Member.Alike (x y : Member) : Prop where
  /-- The members have the same mind. -/
  mind : x.SameMind y
  /-- The members hear the same agents. -/
  heard_eq : x.heard = y.heard
  /-- The members observe the same atoms. -/
  observed_eq : x.observed = y.observed

/-- What came of a round, whatever its number. -/
def Round.findings (report : Round) : ExtTreeMap Agent Outcome × ExtTreeMap Agent Nat :=
  (report.outcomes, report.worldCounts)

namespace Session

/-- The sessions differ in what the agents have selected last and in what was counted only. -/
structure Alike (s t : Session) : Prop where
  /-- The settings are the same. -/
  settings_eq : s.settings = t.settings
  /-- Actions are performed on the same arguments. -/
  bound_eq : s.bound = t.bound
  /-- The members are alike. -/
  members_rel : ∀ a : Agent, Option.Rel Member.Alike s.members[a]? t.members[a]?

variable {s t u : Session} {a : Agent} {x y : Member} {f : Formula} {r : WorldRef}

/-- A session in which every member has become one that it is alike is alike. -/
theorem alike_of_map (settings : t.settings = s.settings) (bound : t.bound = s.bound)
    (g : Agent → Member → Member) (members : ∀ a, t.members[a]? = s.members[a]?.map (g a))
    (alike : ∀ (a : Agent) (x : Member), s.members[a]? = some x → x.Alike (g a x)) :
    s.Alike t where
  settings_eq := settings.symm
  bound_eq := bound.symm
  members_rel a := by
    rw [members]
    cases here : s.members[a]? with
    | none => exact .none
    | some x => exact .some (alike a x here)

/-- A session is alike itself. -/
theorem alike_self (s : Session) : s.Alike s := by
  apply alike_of_map (t := s) rfl rfl fun _ x => x
  · intro a
    rw [Option.map_id_fun', id]
  · intro a x _
    exact ⟨⟨Model.sameAs_self _, rfl⟩, rfl, rfl⟩

/-- Sessions that are alike one and the same are alike. -/
theorem Alike.trans (h : s.Alike t) (h' : t.Alike u) : s.Alike u where
  settings_eq := h.settings_eq.trans h'.settings_eq
  bound_eq := h.bound_eq.trans h'.bound_eq
  members_rel a := rel_trans (h.members_rel a) (h'.members_rel a) fun _ _ _ first second =>
    { mind :=
        { model_same := Model.sameAs_iff.2 <|
            (Model.sameAs_iff.1 first.mind.model_same).trans
              (Model.sameAs_iff.1 second.mind.model_same)
          program_eq := first.mind.program_eq.trans second.mind.program_eq }
      heard_eq := first.heard_eq.trans second.heard_eq
      observed_eq := first.observed_eq.trans second.observed_eq }

/-- There is nothing between sessions that are alike that an agent may learn of. -/
theorem Alike.rel_alikeFor (h : s.Alike t) (a : Agent) :
    Option.Rel (s.AlikeFor t a) s.members[a]? t.members[a]? :=
  rel_of_some (h.members_rel a) fun _ _ hx hy alike =>
    { settings_eq := h.settings_eq
      bound_eq := h.bound_eq
      member_left := hx
      member_right := hy
      mind := alike.mind
      heard_eq := alike.heard_eq
      observed_eq := alike.observed_eq
      minds_heard := fun b _ => rel_of_some (h.members_rel b) fun _ _ _ _ alike => alike.mind }

/-- The models of sessions that are alike are the same. -/
theorem Alike.models_rel (h : s.Alike t) (a : Agent) :
    Option.Rel Model.Same (s.model? a) (t.model? a) := by
  rw [model?_eq, model?_eq]
  exact rel_map (h.members_rel a) fun x y alike => Model.sameAs_iff.1 alike.mind.model_same

/-- What is read alike of models that are the same is read alike of sessions that are alike. -/
theorem Alike.map_models_eq (h : s.Alike t) {β : Type} {g : Model → β}
    (read : ∀ m n : Model, m.Same n → g m = g n) :
    (s.members.map fun _ x => g x.model) = t.members.map fun _ x => g x.model := by
  apply map_members_eq_of_rel h.members_rel
  intro x y alike
  exact read x.model y.model (Model.sameAs_iff.1 alike.mind.model_same)

/-- Sessions that are alike have the same first agent without the world. -/
theorem Alike.firstWithout?_eq (h : s.Alike t) (r : WorldRef) :
    s.firstWithout? r = t.firstWithout? r := by
  rw [Session.firstWithout?_eq, Session.firstWithout?_eq,
    h.map_models_eq fun m n same => same.contains_eq r]

/-- Sessions that are alike have as many worlds left. -/
theorem Alike.worldsLeft_eq (h : s.Alike t) : s.worldsLeft = t.worldsLeft := by
  have counts := h.map_models_eq fun m n same => same.worldCount_eq
  have listed : ∀ u : Session, u.worldsLeft
      = ((u.members.map fun _ x => x.model.worldCount).toList.map Prod.snd).sum := by
    intro u
    simp only [worldsLeft, models, ExtTreeMap.toList_map, List.map_map]
    rfl
  rw [listed, listed, counts]

/-! ## (3) Rounds of sessions that are alike -/

/-- Sessions that are alike still are after the same announcement. -/
theorem Alike.tellAll (h : s.Alike t) (f : Formula) : (s.tellAll f).Alike (t.tellAll f) where
  settings_eq := h.settings_eq
  bound_eq := h.bound_eq
  members_rel a := by
    rw [getElem?_members_tellAll, getElem?_members_tellAll]
    apply rel_map (h.members_rel a)
    intro x y alike
    exact ⟨alike.mind.announce f, alike.heard_eq, alike.observed_eq⟩

/-- Sessions that are alike still are after explanations are heard. -/
theorem Alike.inform (h : s.Alike t) (r : WorldRef) : (s.inform r).Alike (t.inform r) where
  settings_eq := h.settings_eq
  bound_eq := h.bound_eq
  members_rel a := by
    rw [getElem?_members_inform, getElem?_members_inform]
    apply rel_map (h.rel_alikeFor a)
    intro x y alike
    rw [← alike.newsFor_eq r]
    have models := (Model.sameAs_iff.1 alike.mind.model_same).announceEach (s.newsFor r a x)
    exact ⟨⟨Model.sameAs_iff.2 models.2, alike.mind.program_eq⟩, alike.heard_eq,
      alike.observed_eq⟩

/-- Sessions are alike whatever rounds were counted. -/
theorem Alike.countRound (h : s.Alike t) : s.countRound.Alike t.countRound :=
  ⟨h.settings_eq, h.bound_eq, h.members_rel⟩

/-- A round of sessions that are alike reports the same if it succeeds. -/
theorem Alike.findings_roundReport (h : s.Alike t) (f : Formula) (r : WorldRef) :
    (s.roundReport f r).findings = (t.roundReport f r).findings := by
  have told := h.tellAll f
  have outcomes : (s.roundReport f r).outcomes = (t.roundReport f r).outcomes := by
    refine ExtTreeMap.ext_getElem? fun a => ?_
    rw [getElem?_outcomes_roundReport, getElem?_outcomes_roundReport]
    apply map_eq_of_rel (told.rel_alikeFor a)
    intro x y alike
    -- What was set for the session is the same before the announcement and after it.
    exact alike.selectedOutcome_eq r
  have counts : (s.roundReport f r).worldCounts = (t.roundReport f r).worldCounts :=
    (told.inform r).map_models_eq fun m n same => same.worldCount_eq
  rw [Round.findings, outcomes, counts, ← Round.findings]

/-- **A round depends on neither selections nor counters.** Rounds of sessions that are alike leave
sessions that are alike, and find the same or fail alike. -/
theorem Alike.round (h : s.Alike t) (f : Formula) (r : WorldRef) :
    (s.round f r).1.Alike (t.round f r).1 ∧
      (s.round f r).2.map Round.findings = (t.round f r).2.map Round.findings := by
  have told := h.tellAll f
  have informed := told.inform r
  have reported := h.findings_roundReport f r
  rw [round_eq, round_eq, told.firstWithout?_eq, informed.firstWithout?_eq]
  split
  · exact ⟨told, rfl⟩
  · split
    · exact ⟨informed, rfl⟩
    · exact ⟨informed.countRound, congrArg Except.ok reported⟩

/-! ## (4) Calls that remove nothing -/

/-- Telling the members removes no fewer worlds than were removed before. -/
theorem removed_le_tell (s : Session) (news : Agent → Member → List Formula) :
    s.counters.removed ≤ (s.tell news).counters.removed := by
  rw [counters_tell]
  exact Nat.le_add_right _ _

/-- Announcing to all removes no fewer worlds than were removed before. -/
theorem removed_le_tellAll (s : Session) (f : Formula) :
    s.counters.removed ≤ (s.tellAll f).counters.removed :=
  s.removed_le_tell _

/-- Hearing explanations removes no fewer worlds than were removed before. -/
theorem removed_le_inform (s : Session) (r : WorldRef) :
    s.counters.removed ≤ (s.inform r).counters.removed :=
  (s.selectAll r).removed_le_tell _

/-- Telling the members what removes nothing leaves them as they are. -/
theorem alike_tell {news : Agent → Member → List Formula}
    (none : (s.tell news).counters.removed = s.counters.removed) : s.Alike (s.tell news) := by
  rw [counters_tell] at none
  have removals : s.removalsOf news = 0 := Nat.add_eq_left.1 none
  apply alike_of_map (s := s) (t := s.tell news) rfl rfl _ (getElem?_members_tell s news)
  intro a x hx
  have listed := ExtTreeMap.mem_toList_iff_getElem?_eq_some.2 hx
  have nothing : (x.model.announceEach (news a x)).1 = 0 :=
    List.sum_eq_zero_iff.1 removals _ (List.mem_map.2 ⟨(a, x), listed, rfl⟩)
  rw [Model.snd_announceEach_of_zero nothing]
  exact ⟨⟨Model.sameAs_self _, rfl⟩, rfl, rfl⟩

/-- Selecting changes selections only. -/
theorem alike_selectAll (s : Session) (r : WorldRef) : s.Alike (s.selectAll r) := by
  apply alike_of_map (s := s) (t := s.selectAll r) rfl rfl _ (getElem?_members_selectAll s r)
  intro a x _
  exact ⟨⟨Model.sameAs_self _, rfl⟩, rfl, rfl⟩

/-- A round that removes nothing changes selections and counters only, also where it fails. -/
theorem alike_round (none : (s.round f r).1.counters.removed = s.counters.removed) :
    s.Alike (s.round f r).1 := by
  have first := s.removed_le_tellAll f
  have second := (s.tellAll f).removed_le_inform r
  -- If no world is missing after both parts, then none is after the first.
  have informed (all : ((s.tellAll f).inform r).counters.removed = s.counters.removed) :
      s.Alike ((s.tellAll f).inform r) := by
    have told : s.Alike (s.tellAll f) := alike_tell (Nat.le_antisymm (second.trans all.le) first)
    have selected := (s.tellAll f).alike_selectAll r
    exact (told.trans selected).trans (alike_tell (Nat.le_antisymm (all.le.trans first) second))
  rcases s.fst_round_cases f r with ended | ended | ended
  · rw [ended] at none ⊢
    exact alike_tell none
  · rw [ended] at none ⊢
    exact informed none
  · rw [ended] at none ⊢
    have same := informed none
    exact ⟨same.settings_eq, same.bound_eq, same.members_rel⟩

/-- A round removes no fewer worlds than were removed before. -/
theorem removed_le_round (s : Session) (f : Formula) (r : WorldRef) :
    s.counters.removed ≤ (s.round f r).1.counters.removed := by
  have first := s.removed_le_tellAll f
  have second := (s.tellAll f).removed_le_inform r
  rcases s.fst_round_cases f r with ended | ended | ended
  · rw [ended]
    exact first
  · rw [ended]
    exact first.trans second
  · rw [ended]
    exact first.trans second

/-- A call removes no fewer worlds than were removed before. -/
theorem removed_le_call (s : Session) (c : Call) :
    s.counters.removed ≤ (s.call c).counters.removed := by
  cases c with
  | announce f =>
    rw [call, fst_announce]
    exact s.removed_le_tellAll f
  | round f r => exact s.removed_le_round f r

/-- Calls remove no fewer worlds than were removed before. -/
theorem removed_le_callAll (s : Session) (calls : List Call) :
    s.counters.removed ≤ (s.callAll calls).counters.removed := by
  induction calls generalizing s with
  | nil => exact Nat.le_refl _
  | cons c rest ih => exact (s.removed_le_call c).trans (ih (s.call c))

/-- A call that removes nothing changes selections and counters only. -/
theorem alike_call {c : Call} (none : (s.call c).counters.removed = s.counters.removed) :
    s.Alike (s.call c) := by
  cases c with
  | announce f =>
    rw [call, fst_announce] at none ⊢
    exact alike_tell none
  | round f r => exact alike_round none

/-- Calls that remove nothing change selections and counters only. -/
theorem alike_callAll {calls : List Call}
    (none : (s.callAll calls).counters.removed = s.counters.removed) :
    s.Alike (s.callAll calls) := by
  induction calls generalizing s with
  | nil => exact s.alike_self
  | cons c rest ih =>
    have first := s.removed_le_call c
    have later := (s.call c).removed_le_callAll rest
    have last : ((s.call c).callAll rest).counters.removed = s.counters.removed := none
    have here : s.Alike (s.call c) := alike_call (by omega)
    exact here.trans (ih (by omega))

/-! ## (5) Idle rounds -/

/-- The round succeeds and removes no world. -/
structure Idle (s : Session) (f : Formula) (r : WorldRef) : Prop where
  /-- The round succeeds. -/
  succeeds : ∃ report, (s.round f r).2 = .ok report
  /-- The round removes no world. -/
  removed_eq : (s.round f r).1.counters.removed = s.counters.removed

/-- The round succeeds with the outcomes and numbers of worlds that are reported, removes no world
and leaves each agent with the same model. -/
structure Repeats (s : Session) (f : Formula) (r : WorldRef) (report : Round) : Prop where
  /-- The round succeeds, with these outcomes and numbers of worlds. -/
  reports : ∃ report' : Round, (s.round f r).2 = .ok report' ∧
    report'.outcomes = report.outcomes ∧ report'.worldCounts = report.worldCounts
  /-- The round removes no world. -/
  removed_eq : (s.round f r).1.counters.removed = s.counters.removed
  /-- The models stay the same. -/
  models_rel : ∀ a, Option.Rel (fun m n => m.sameAs n = true) (s.model? a)
    ((s.round f r).1.model? a)

/-- Sessions that are alike remove as many worlds in a round. -/
theorem Alike.removed_round (h : s.Alike t) (f : Formula) (r : WorldRef) :
    (s.round f r).1.counters.removed + t.counters.removed
      = (t.round f r).1.counters.removed + s.counters.removed := by
  -- As many worlds are left to both before the round, and as many after it.
  have conserved := (s.shrinksTo_round f r).conserved
  have conserved' := (t.shrinksTo_round f r).conserved
  have before := h.worldsLeft_eq
  have after := (h.round f r).1.worldsLeft_eq
  omega

/-- A round that sessions which are alike hold succeeds in both, and finds the same. -/
theorem Alike.exists_round_ok (h : s.Alike t) {report : Round}
    (ok : (s.round f r).2 = .ok report) :
    ∃ report', (t.round f r).2 = .ok report' ∧ report'.findings = report.findings := by
  have found := (h.round f r).2
  rw [ok] at found
  cases result : (t.round f r).2 with
  | error e =>
    rw [result] at found
    cases found
  | ok report' =>
    rw [result] at found
    exact ⟨report', rfl, (Except.ok.inj found).symm⟩

/-- A round that is idle in a session is idle in a session that is alike. -/
theorem Idle.of_alike (h : s.Idle f r) (alike : s.Alike t) : t.Idle f r where
  succeeds := by
    obtain ⟨report, ok⟩ := h.succeeds
    obtain ⟨report', ok', -⟩ := alike.exists_round_ok ok
    exact ⟨report', ok'⟩
  removed_eq := by
    have same := alike.removed_round f r
    have none := h.removed_eq
    omega

/-- What an idle round reports is repeated in a session that is alike. -/
theorem Idle.repeats_of_alike (h : s.Idle f r) {report : Round} (ok : (s.round f r).2 = .ok report)
    (alike : s.Alike t) : t.Repeats f r report := by
  have again : t.Idle f r := h.of_alike alike
  obtain ⟨report', ok', found⟩ := alike.exists_round_ok ok
  refine ⟨⟨report', ok', congrArg Prod.fst found, congrArg Prod.snd found⟩, again.removed_eq, ?_⟩
  intro a
  have models := (alike_round again.removed_eq).models_rel a
  exact rel_of_some models fun m n _ _ same => Model.sameAs_iff.2 same

/-- After an idle round the session is alike, so that the round is idle once more. -/
theorem Idle.round (h : s.Idle f r) : (s.round f r).1.Idle f r :=
  h.of_alike (alike_round h.removed_eq)

/-- However often a round is repeated that is idle, the session stays alike. -/
theorem Idle.alike_callAll (h : s.Idle f r) {calls : List Call}
    (repeated : ∀ c ∈ calls, c = .round f r) : s.Alike (s.callAll calls) := by
  induction calls generalizing s with
  | nil => exact s.alike_self
  | cons c rest ih =>
    obtain ⟨rfl, others⟩ := List.forall_mem_cons.1 repeated
    exact (alike_round h.removed_eq).trans (ih h.round others)

/-! ## (6) Runs of rounds -/

/-- The session after a round is held some number of times. -/
def rounds (s : Session) (f : Formula) (r : WorldRef) (n : Nat) : Session :=
  (fun t : Session => (t.round f r).1)^[n] s

/-- The session after one more round. -/
theorem rounds_succ (s : Session) (f : Formula) (r : WorldRef) (n : Nat) :
    s.rounds f r (n + 1) = ((s.rounds f r n).round f r).1 :=
  Function.iterate_succ_apply' _ n s

/-- After a round that is idle every round is. -/
theorem idle_rounds_of_le {i j : Nat} (idle : (s.rounds f r i).Idle f r) (later : i ≤ j) :
    (s.rounds f r j).Idle f r := by
  induction j, later using Nat.le_induction with
  | base => exact idle
  | succ j _ ih =>
    rw [rounds_succ]
    exact ih.round

/-- Rounds that remove a world each remove as many worlds as there are such rounds. -/
theorem add_le_removed_rounds {k : Nat}
    (each : ∀ i < k,
      (s.rounds f r i).counters.removed < (s.rounds f r (i + 1)).counters.removed) :
    s.counters.removed + k ≤ (s.rounds f r k).counters.removed := by
  induction k with
  | zero => exact Nat.le_refl _
  | succ k ih =>
    have before := ih fun i hi => each i (Nat.lt_succ_of_lt hi)
    have last := each k (Nat.lt_succ_self k)
    omega

/-- A run of rounds shrinks a session. -/
theorem shrinksTo_rounds (s : Session) (f : Formula) (r : WorldRef) (n : Nat) :
    s.ShrinksTo (s.rounds f r n) := by
  induction n with
  | zero => exact .of_models_eq rfl rfl
  | succ n ih =>
    rw [rounds_succ]
    exact ih.trans ((s.rounds f r n).shrinksTo_round f r)

/-- How many worlds the models have besides one for each agent. -/
def surplus (s : Session) : Nat := (s.models.toList.map fun e => e.2.worldCount - 1).sum

/-- No more worlds are left than there are agents and worlds besides. -/
theorem worldsLeft_le (s : Session) : s.worldsLeft ≤ s.surplus + s.agents.length := by
  have parts : s.surplus + s.agents.length
      = (s.models.toList.map fun e => e.2.worldCount - 1 + 1).sum := by
    rw [List.sum_map_add, surplus, List.map_const', List.sum_replicate_nat, Nat.mul_one,
      length_toList_models]
  rw [parts]
  apply List.sum_le_sum
  intro e _
  omega

/-- After a round that succeeds at least one world is left for each agent. -/
theorem length_agents_le_worldsLeft (ok : ∃ report, (s.round f r).2 = .ok report) :
    s.agents.length ≤ (s.round f r).1.worldsLeft := by
  have present : (s.round f r).1.firstWithout? r = none := by
    obtain ⟨report, ok⟩ := ok
    rcases round_cases s f r with ⟨a, -, ended⟩ | ⟨-, a, -, ended⟩ | ⟨-, left, _, ended⟩
    · rw [ended] at ok
      cases ok
    · rw [ended] at ok
      cases ok
    · rw [ended]
      exact left
  have same := (s.shrinksTo_round f r).agents_eq
  rw [← same, ← length_toList_models, worldsLeft, ← List.length_map]
  apply List.length_le_sum_of_one_le
  intro n hn
  obtain ⟨e, he, rfl⟩ := List.mem_map.1 hn
  obtain ⟨x, hx, model⟩ := exists_mem_toList_members.2
    (ExtTreeMap.mem_toList_iff_getElem?_eq_some.1 he)
  have live := firstWithout?_eq_none_iff.1 present _ x
    (ExtTreeMap.mem_toList_iff_getElem?_eq_some.1 hx)
  rw [model, Model.contains_iff] at live
  rw [← Model.length_refs]
  exact List.length_pos_of_mem live

/-- Of rounds that succeed no more remove a world each than there are worlds besides one for each
agent. -/
theorem le_surplus {k : Nat}
    (succeed : ∀ i < k, ∃ report, ((s.rounds f r i).round f r).2 = .ok report)
    (each : ∀ i < k,
      (s.rounds f r i).counters.removed < (s.rounds f r (i + 1)).counters.removed) :
    k ≤ s.surplus := by
  cases k with
  | zero => exact Nat.zero_le _
  | succ k =>
    have removed := add_le_removed_rounds each
    have conserved := (s.shrinksTo_rounds f r (k + 1)).conserved
    have before := s.worldsLeft_le
    have after := length_agents_le_worldsLeft (succeed k (Nat.lt_succ_self k))
    rw [(s.shrinksTo_rounds f r k).agents_eq, ← rounds_succ] at after
    omega

/-- A round that succeeds is idle unless it removes a world. -/
theorem idle_of_not_lt {i : Nat} (ok : ∃ report, ((s.rounds f r i).round f r).2 = .ok report)
    (none : ¬ (s.rounds f r i).counters.removed < (s.rounds f r (i + 1)).counters.removed) :
    (s.rounds f r i).Idle f r where
  succeeds := ok
  removed_eq := by
    have more := (s.rounds f r i).removed_le_round f r
    rw [rounds_succ] at none
    omega

/-- In a run of rounds that succeed those that remove a world come first. -/
theorem exists_lt_iff {n : Nat}
    (succeed : ∀ i < n, ∃ report, ((s.rounds f r i).round f r).2 = .ok report) :
    ∃ k ≤ n, ∀ i < n,
      ((s.rounds f r i).counters.removed < (s.rounds f r (i + 1)).counters.removed ↔ i < k) := by
  induction n with
  | zero => exact ⟨0, Nat.le_refl 0, fun i hi => absurd hi (Nat.not_lt_zero i)⟩
  | succ n ih =>
    obtain ⟨k, le, first⟩ := ih fun i hi => succeed i (Nat.lt_succ_of_lt hi)
    by_cases more :
        (s.rounds f r n).counters.removed < (s.rounds f r (n + 1)).counters.removed
    · -- No earlier round was idle, else this one would be.
      have all : k = n := by
        by_contra earlier
        have before : k < n := by omega
        have idle := idle_of_not_lt (succeed k (by omega)) fun less =>
          absurd ((first k before).1 less) (Nat.lt_irrefl k)
        have none := (idle_rounds_of_le idle le).removed_eq
        rw [rounds_succ] at more
        omega
      refine ⟨n + 1, Nat.le_refl _, fun i hi => iff_of_true ?_ hi⟩
      rcases Nat.lt_succ_iff_lt_or_eq.1 hi with before | rfl
      · exact (first i before).2 (by omega)
      · exact more
    · refine ⟨k, by omega, fun i hi => ?_⟩
      rcases Nat.lt_succ_iff_lt_or_eq.1 hi with before | rfl
      · exact first i before
      · exact iff_of_false more (by omega)

/-- **Idle rounds repeat.** Let a round of a session succeed and remove no world. However often the
round is held again, what it reported is repeated the next time: it succeeds with the same outcomes
and numbers of worlds, removes no world and leaves each agent with the same model. It is also
repeated after any other calls, if these remove no world. So whenever a round is held some number of
times and succeeds each time, the rounds that remove a world come first, and there are no more of
them than the models have worlds besides one for each agent. -/
theorem idle_round_repeats (s : Session) (f : Formula) (r : WorldRef) :
    (∀ report : Round, (s.round f r).2 = .ok report →
      (s.round f r).1.counters.removed = s.counters.removed →
      let t := (s.round f r).1
      (∀ calls : List Call, (∀ c ∈ calls, c = .round f r) →
        (t.callAll calls).Repeats f r report) ∧
      ∀ calls : List Call, (t.callAll calls).counters.removed = s.counters.removed →
        (t.callAll calls).Repeats f r report) ∧
    ∀ n, (∀ i < n, ∃ report, ((s.rounds f r i).round f r).2 = .ok report) →
      ∃ k ≤ n, k ≤ (s.models.toList.map fun e => e.2.worldCount - 1).sum ∧
        ∀ i < n, ((s.rounds f r i).counters.removed < (s.rounds f r (i + 1)).counters.removed ↔
          i < k) := by
  constructor
  · intro report ok none t
    have idle : s.Idle f r := ⟨⟨report, ok⟩, none⟩
    have here : s.Alike t := alike_round none
    constructor
    · intro calls repeated
      exact idle.repeats_of_alike ok (here.trans (idle.round.alike_callAll repeated))
    · intro calls quiet
      exact idle.repeats_of_alike ok (here.trans (alike_callAll (quiet.trans none.symm)))
  · intro n succeed
    obtain ⟨k, le, first⟩ := exists_lt_iff succeed
    refine ⟨k, le, ?_, first⟩
    apply le_surplus (fun i hi => succeed i (by omega))
    intro i hi
    exact (first i (by omega)).2 hi

/-- Once the hearer has heard the seer, which takes one round and one of its two worlds, nothing
more is learnt: the second round is idle, and so are all that repeat it, also after something
trivial is announced. -/
theorem idle_round_repeats_eavesdropping :
    let after := eavesdropping.rounds .top ⟨2, 1⟩
    (after 0).counters.removed < (after 1).counters.removed ∧
    (after 2).counters.removed = (after 1).counters.removed ∧
    (∃ report : Round, ((after 1).round .top ⟨2, 1⟩).2 = .ok report ∧
      (∀ n, ((after 2).callAll (List.replicate n (.round .top ⟨2, 1⟩))).Repeats .top ⟨2, 1⟩
        report) ∧
      ((after 2).callAll [.announce .top]).Repeats .top ⟨2, 1⟩ report) ∧
    (∀ i < 4, ∃ report, ((after i).round .top ⟨2, 1⟩).2 = .ok report) ∧
    ∃ k ≤ 4, k ≤ 2 ∧
      ∀ i < 4, ((after i).counters.removed < (after (i + 1)).counters.removed ↔ i < k) := by
  intro after
  have first : (after 0).counters.removed < (after 1).counters.removed := by decide +kernel
  have second : (after 2).counters.removed = (after 1).counters.removed := by decide +kernel
  have besides : (eavesdropping.models.toList.map fun e => e.2.worldCount - 1).sum = 2 := by
    decide +kernel
  have checked : ∀ i < 4, ((after i).round .top ⟨2, 1⟩).2.toOption.any (fun _ => true) = true := by
    decide +kernel
  have succeed : ∀ i < 4, ∃ report, ((after i).round .top ⟨2, 1⟩).2 = .ok report := by
    intro i hi
    obtain ⟨report, ok, -⟩ := exists_ok_of_any (checked i hi)
    exact ⟨report, ok⟩
  obtain ⟨report, ok⟩ := succeed 1 (by omega)
  obtain ⟨k, le, few, come_first⟩ := (idle_round_repeats eavesdropping .top ⟨2, 1⟩).2 4 succeed
  obtain ⟨rounds, others⟩ := (idle_round_repeats (after 1) .top ⟨2, 1⟩).1 report ok second
  refine ⟨first, second, ⟨report, ok, fun n => ?_, ?_⟩, succeed, k, le, besides ▸ few, come_first⟩
  · exact rounds _ fun c hc => List.eq_of_mem_replicate hc
  · exact others [.announce .top] (by decide +kernel)

end Session

end KnowledgePrograms
