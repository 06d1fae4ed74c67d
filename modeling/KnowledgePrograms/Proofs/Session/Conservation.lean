import KnowledgePrograms.Proofs.Session.Hearing
import KnowledgePrograms.Proofs.Session.History
import KnowledgePrograms.Proofs.Session.Progress
import KnowledgePrograms.Proofs.Session.Telling

/-! # What a run removes

Whatever is done to a session, and whether or not it fails, the models of its agents only lose
worlds. The session counts each loss when it happens, so that the number of removed worlds and the
worlds still there always come to the same total, and the session only moves on, from running to
converged to exhausted.

* `Deed`, `Session.actAll`: all that may be done to a session, edits and calls in any order.
* `Session.ShrinksTo`: the models lose worlds and the losses are counted.
* `Session.shrinksTo_act`, `Session.shrinksTo_actAll`: a deed does no more, and so does no run.
* `Session.worlds_conserved`: what a run leaves of the model that all agents start with. -/

namespace KnowledgePrograms

open Std (ExtTreeMap ExtTreeSet)

/-- Something done to a session. -/
inductive Deed where
  /-- Change something about the members. -/
  | edit (e : Edit)
  /-- Ask for an announcement or a round. -/
  | call (c : Call)

namespace Session

/-- The session after a deed, whether or not it fails. -/
def act (s : Session) : Deed → Session
  | .edit e => s.edit e
  | .call c => s.call c

/-- The session after some deeds. -/
def actAll (s : Session) (deeds : List Deed) : Session := deeds.foldl act s

/-- How many worlds there are in all models together. -/
def worldsLeft (s : Session) : Nat := (s.models.toList.map fun e => e.2.worldCount).sum

variable {s t u : Session}

/-- There are as many models as agents. -/
theorem length_toList_models (s : Session) : s.models.toList.length = s.agents.length := by
  rw [← keys_models, ExtTreeMap.length_toList, ExtTreeMap.length_keys]

/-- If all models have as many worlds, so many are left for each agent. -/
theorem worldsLeft_eq {n : Nat}
    (each : ∀ (a : Agent) (m : Model), s.models[a]? = some m → m.worldCount = n) :
    s.worldsLeft = s.agents.length * n := by
  have same : (s.models.toList.map fun e => e.2.worldCount) = s.models.toList.map fun _ => n := by
    refine List.map_congr_left fun e he => ?_
    exact each e.1 e.2 (ExtTreeMap.mem_toList_iff_getElem?_eq_some.1 he)
  rw [worldsLeft, same, List.map_const', List.sum_replicate_nat, length_toList_models]

/-! ## (1) Shrinking -/

/-- The first session becomes the second as its models lose worlds, which are counted. -/
structure ShrinksTo (s t : Session) : Prop where
  /-- The agents stay. -/
  agents_eq : t.agents = s.agents
  /-- The model of an agent is what is left of the model it had. -/
  isLeftOf : ∀ (a : Agent) (n : Model), t.models[a]? = some n →
    ∃ m, s.models[a]? = some m ∧ n.IsLeftOf m
  /-- The worlds removed and the worlds left come to the same total. -/
  conserved : t.counters.removed + t.worldsLeft = s.counters.removed + s.worldsLeft

/-- A session shrinks to any that has the same models and has counted the same removals. -/
theorem ShrinksTo.of_models_eq (models : t.models = s.models)
    (removed : t.counters.removed = s.counters.removed) : s.ShrinksTo t where
  agents_eq := by rw [← keys_models, models, keys_models]
  isLeftOf a n hn := ⟨n, by rw [← models, hn], n.isLeftOf_self⟩
  conserved := by rw [worldsLeft, worldsLeft, models, removed]

/-- Shrinking twice is shrinking. -/
theorem ShrinksTo.trans (h : s.ShrinksTo t) (h' : t.ShrinksTo u) : s.ShrinksTo u where
  agents_eq := h'.agents_eq.trans h.agents_eq
  isLeftOf a l hl := by
    obtain ⟨n, hn, left'⟩ := h'.isLeftOf a l hl
    obtain ⟨m, hm, left⟩ := h.isLeftOf a n hn
    exact ⟨m, hm, left'.trans left⟩
  conserved := h'.conserved.trans h.conserved

/-- The models that an agent has before and after are one what is left of the other. -/
theorem ShrinksTo.isLeftOf_of_models (h : s.ShrinksTo t) {a : Agent} {m n : Model}
    (hm : s.models[a]? = some m) (hn : t.models[a]? = some n) : n.IsLeftOf m := by
  obtain ⟨m', hm', left⟩ := h.isLeftOf a n hn
  rw [hm] at hm'
  obtain rfl := Option.some.inj hm'
  exact left

/-- The model that an agent had is still there, with the worlds that are left of it. -/
theorem ShrinksTo.exists_model (h : s.ShrinksTo t) {a : Agent} {m : Model}
    (hm : s.models[a]? = some m) : ∃ n, t.models[a]? = some n ∧ n.IsLeftOf m := by
  have there : a ∈ t.models := by
    rw [← ExtTreeMap.mem_keys, keys_models, h.agents_eq, ← keys_models, ExtTreeMap.mem_keys,
      ExtTreeMap.mem_iff_isSome_getElem?, hm, Option.isSome_some]
  obtain ⟨n, hn⟩ := Option.isSome_iff_exists.1 (ExtTreeMap.mem_iff_isSome_getElem?.1 there)
  exact ⟨n, hn, h.isLeftOf_of_models hm hn⟩

/-! ## (2) What one deed does -/

/-- Announcements to the members remove worlds from their models, and count them. -/
theorem shrinksTo_tell (s : Session) (news : Agent → Member → List Formula) :
    s.ShrinksTo (s.tell news) where
  agents_eq := by rw [agents, members_tell, ExtTreeMap.keys_map, agents]
  isLeftOf a n hn := by
    rw [getElem?_models, getElem?_members_tell, Option.map_map] at hn
    obtain ⟨x, hx, rfl⟩ := Option.map_eq_some_iff.1 hn
    refine ⟨x.model, ?_, x.model.isLeftOf_announceEach (news a x)⟩
    rw [getElem?_models, hx, Option.map_some]
  conserved := by
    -- For each member, what its news removes and what they leave come to what was there.
    have left : (s.tell news).worldsLeft
        = (s.members.toList.map fun e => (informed news e.1 e.2).model.worldCount).sum := by
      simp only [worldsLeft, models, members_tell, ExtTreeMap.toList_map, List.map_map]
      rfl
    have before : s.worldsLeft = s.removalsOf news + (s.tell news).worldsLeft := by
      rw [left, removalsOf, ← List.sum_map_add, worldsLeft, models, ExtTreeMap.toList_map,
        List.map_map]
      refine congrArg List.sum (List.map_congr_left fun e _ => ?_)
      exact (e.2.model.announceEach_add_worldCount (news e.1 e.2)).symm
    rw [counters_tell, before, Nat.add_assoc]

/-- Hearing the explanations of what was selected shrinks a session. -/
theorem shrinksTo_inform (s : Session) (r : WorldRef) : s.ShrinksTo (s.inform r) := by
  have selected : s.ShrinksTo (s.selectAll r) := by
    refine .of_models_eq ?_ rfl
    simp only [models, selectAll, withMembers, ExtTreeMap.map_map]
    rfl
  exact selected.trans (shrinksTo_tell (s.selectAll r) _)

/-- What a round does after its announcement shrinks a session, also where it fails. -/
theorem tellAll_shrinksTo_round (s : Session) (f : Formula) (r : WorldRef) :
    (s.tellAll f).ShrinksTo (s.round f r).1 := by
  have informed := (s.tellAll f).shrinksTo_inform r
  rcases round_cases s f r with ⟨a, -, ended⟩ | ⟨-, a, -, ended⟩ | ⟨-, -, report, ended⟩
  · rw [ended]
    exact .of_models_eq rfl rfl
  · rw [ended]
    exact informed
  · rw [ended]
    exact informed.trans (.of_models_eq rfl rfl)

/-- A round shrinks a session, also where it fails. -/
theorem shrinksTo_round (s : Session) (f : Formula) (r : WorldRef) :
    s.ShrinksTo (s.round f r).1 :=
  (s.shrinksTo_tell fun _ _ => [f]).trans (s.tellAll_shrinksTo_round f r)

/-- An edit leaves the models. -/
theorem models_edit (s : Session) (e : Edit) : (s.edit e).models = s.models := by
  refine ExtTreeMap.ext_getElem? fun a => ?_
  obtain ⟨g, core, members⟩ := exists_getElem?_members_edit s e a
  rw [models, models, ExtTreeMap.getElem?_map, ExtTreeMap.getElem?_map, members, Option.map_map]
  exact Option.map_congr fun x _ => (core x).1

/-- An edit leaves what was counted. -/
theorem counters_edit (s : Session) (e : Edit) : (s.edit e).counters = s.counters := by
  rcases edit_cases s e with same | ⟨action, arguments, bound⟩ | ⟨a, others, f, -, changed⟩
  · rw [same]
  · rw [bound, bind]
  · rw [eq_of_change_eq_ok changed, withMembers]

/-- A deed shrinks a session. -/
theorem shrinksTo_act (s : Session) (d : Deed) : s.ShrinksTo (s.act d) := by
  cases d with
  | edit e => exact .of_models_eq (s.models_edit e) (by rw [act, counters_edit])
  | call c =>
    cases c with
    | announce f =>
      rw [act, call, fst_announce]
      exact s.shrinksTo_tell _
    | round f r => exact s.shrinksTo_round f r

/-- A run of deeds shrinks a session. -/
theorem shrinksTo_actAll (s : Session) (deeds : List Deed) : s.ShrinksTo (s.actAll deeds) := by
  induction deeds generalizing s with
  | nil => exact .of_models_eq rfl rfl
  | cons d rest ih => exact (s.shrinksTo_act d).trans (ih (s.act d))

/-! ## (3) The status -/

/-- How far along a status is. -/
def Status.stage : Status → Nat
  | .running => 0
  | .converged => 1
  | .exhausted => 2

/-- As a session shrinks, its status moves on or stays. -/
theorem ShrinksTo.stage_le (h : s.ShrinksTo t) : s.status.stage ≤ t.status.stage := by
  cases before : s.status with
  | running => exact Nat.zero_le _
  | converged =>
    -- Every model had one world, so that it has one or none now.
    have single := status_eq_converged_iff.1 before
    by_cases emptied : ∃ (a : Agent) (n : Model), t.models[a]? = some n ∧ n.worldCount = 0
    · rw [status_eq_exhausted_iff.2 emptied]
      exact Nat.le_succ 1
    · have after : t.status = .converged := by
        refine status_eq_converged_iff.2 fun a n hn => ?_
        obtain ⟨m, hm, left⟩ := h.isLeftOf a n hn
        have one := single a m hm
        have fewer := left.worldCount_le
        have some : n.worldCount ≠ 0 := fun none => emptied ⟨a, n, hn, none⟩
        omega
      exact Nat.le_of_eq (congrArg Status.stage after.symm)
  | exhausted =>
    -- The model that had no world has none now.
    obtain ⟨a, m, hm, none⟩ := status_eq_exhausted_iff.1 before
    obtain ⟨n, hn, left⟩ := h.exists_model hm
    have after : t.status = .exhausted := by
      have fewer := left.worldCount_le
      refine status_eq_exhausted_iff.2 ⟨a, n, hn, ?_⟩
      omega
    exact Nat.le_of_eq (congrArg Status.stage after.symm)

/-! ## (4) Runs from the start -/

variable {settings : Settings} {base : Model} {actors : List Actor}

/-- How many worlds of a model are missing from the models of the session together. -/
def missing (s : Session) (base : Model) : Nat :=
  (s.models.toList.map fun e => base.worldCount - e.2.worldCount).sum

/-- The worlds that are left and those that are missing are the worlds of the model, once for each
agent. -/
theorem worldsLeft_add_missing
    (fewer : ∀ (a : Agent) (m : Model), s.models[a]? = some m →
      m.worldCount ≤ base.worldCount) :
    s.worldsLeft + s.missing base = s.agents.length * base.worldCount := by
  have parts : s.worldsLeft + s.missing base
      = (s.models.toList.map fun e =>
          e.2.worldCount + (base.worldCount - e.2.worldCount)).sum :=
    List.sum_map_add.symm
  have whole : (s.models.toList.map fun e =>
        e.2.worldCount + (base.worldCount - e.2.worldCount))
      = s.models.toList.map fun _ => base.worldCount := by
    refine List.map_congr_left fun e he => ?_
    exact Nat.add_sub_cancel' (fewer e.1 e.2 (ExtTreeMap.mem_toList_iff_getElem?_eq_some.1 he))
  rw [parts, whole, List.map_const', List.sum_replicate_nat, length_toList_models]

/-- Every agent of a session that is started has the model given. -/
theorem models_start (started : start settings base actors = .ok s) {a : Agent} {m : Model}
    (hm : s.models[a]? = some m) : m = base := by
  rw [getElem?_models] at hm
  obtain ⟨x, hx, rfl⟩ := Option.map_eq_some_iff.1 hm
  exact forall_members_start started a x hx

/-- A session that is started has removed nothing. -/
theorem removed_start (started : start settings base actors = .ok s) :
    s.counters.removed = 0 := by
  obtain ⟨-, members, -, rfl⟩ := eq_of_start_eq_ok started
  rfl

/-- **Conservation.** Let a session be started on a model, and any deeds be done to it, failing
ones included. Then each agent still has a model, which is what is left of the one given; the
number of removed worlds is that of the worlds missing from the models; and whatever is done later,
the models only lose worlds, and the status moves on or stays. -/
theorem worlds_conserved {settings : Settings} {base : Model} {actors : List Actor} {s : Session}
    (started : start settings base actors = .ok s) (deeds : List Deed) :
    let t := s.actAll deeds
    t.models.keys = s.agents ∧
    (∀ (a : Agent) (m : Model), t.models[a]? = some m →
      m.IsLeftOf base ∧ m.worldCount ≤ base.worldCount) ∧
    t.counters.removed
      = (t.models.toList.map fun e => base.worldCount - e.2.worldCount).sum ∧
    ∀ later : List Deed,
      (∀ (a : Agent) (m n : Model), t.models[a]? = some m →
        (t.actAll later).models[a]? = some n → n.IsLeftOf m) ∧
      t.status.stage ≤ (t.actAll later).status.stage := by
  intro t
  have shrunk : s.ShrinksTo t := s.shrinksTo_actAll deeds
  have left : ∀ (a : Agent) (m : Model), t.models[a]? = some m → m.IsLeftOf base := by
    intro a n hn
    obtain ⟨m, hm, left⟩ := shrunk.isLeftOf a n hn
    rwa [models_start started hm] at left
  refine ⟨?_, fun a m hm => ⟨left a m hm, (left a m hm).worldCount_le⟩, ?_, ?_⟩
  · rw [keys_models, shrunk.agents_eq]
  · show t.counters.removed = t.missing base
    have whole := worldsLeft_add_missing fun a m hm => (left a m hm).worldCount_le
    -- At the start no world is missing and none is removed.
    have before : s.worldsLeft + s.missing base = s.agents.length * base.worldCount :=
      worldsLeft_add_missing fun a m hm => (models_start started hm ▸ Nat.le_refl _)
    have none : s.missing base = 0 := by
      refine List.sum_eq_zero fun n hn => ?_
      obtain ⟨e, he, rfl⟩ := List.mem_map.1 hn
      rw [models_start started (ExtTreeMap.mem_toList_iff_getElem?_eq_some.1 he), Nat.sub_self]
    have conserved := shrunk.conserved
    rw [removed_start started] at conserved
    rw [shrunk.agents_eq] at whole
    omega
  · intro later
    have shrinks := t.shrinksTo_actAll later
    exact ⟨fun a m n hm hn => shrinks.isLeftOf_of_models hm hn, shrinks.stage_le⟩

/-- The hearer learns in a round from what the seer says, and the seer in the next, which fails,
from what is announced; a stranger may hear nobody. So two worlds are removed and each agent has
one left, until a contradiction is announced. -/
theorem worlds_conserved_two_listeners :
    let actors : List Actor := [answering ⟨"seer"⟩, answering ⟨"hearer"⟩]
    let deeds : List Deed :=
      [.edit (.permit ⟨"hearer"⟩ ⟨"seer"⟩), .call (.round .top ⟨2, 1⟩),
        .call (.round (.atom ⟨"p"⟩) ⟨1, 1⟩), .edit (.permit ⟨"stranger"⟩ ⟨"seer"⟩)]
    ∃ s : Session, start .standard unequalSight actors = .ok s ∧
      let t := s.actAll deeds
      (t.models.keys = s.agents ∧
      (∀ (a : Agent) (m : Model), t.models[a]? = some m →
        m.IsLeftOf unequalSight ∧ m.worldCount ≤ unequalSight.worldCount) ∧
      t.counters.removed
        = (t.models.toList.map fun e => unequalSight.worldCount - e.2.worldCount).sum ∧
      ∀ later : List Deed,
        (∀ (a : Agent) (m n : Model), t.models[a]? = some m →
          (t.actAll later).models[a]? = some n → n.IsLeftOf m) ∧
        t.status.stage ≤ (t.actAll later).status.stage) ∧
      t.counters.removed = 2 ∧ s.status = .running ∧ t.status = .converged ∧
      (t.actAll [.call (.announce .bottom)]).status = .exhausted := by
  intro actors deeds
  have checked : ((start .standard unequalSight actors).toOption.any fun s =>
      let t := s.actAll deeds
      t.counters.removed == 2 && s.status == .running && t.status == .converged &&
        (t.actAll [.call (.announce .bottom)]).status == .exhausted) = true := by
    decide +kernel
  cases started : start .standard unequalSight actors with
  | error e =>
    rw [started] at checked
    cases checked
  | ok s =>
    rw [started] at checked
    simp only [Except.toOption, Option.any_some, Bool.and_eq_true, beq_iff_eq] at checked
    obtain ⟨⟨⟨removed, running⟩, converged⟩, exhausted⟩ := checked
    exact ⟨s, rfl, worlds_conserved started deeds, removed, running, converged, exhausted⟩

end Session

end KnowledgePrograms
