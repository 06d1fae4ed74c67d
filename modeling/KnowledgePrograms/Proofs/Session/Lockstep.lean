import KnowledgePrograms.Proofs.Kripke.Sameness
import KnowledgePrograms.Proofs.Session.Hearing
import KnowledgePrograms.Proofs.Session.History

/-! # Sessions in lockstep

When all members hear the same agents and also themselves, and explanations are conjoined, the
members stay alike: each announcement and each conjunction of explanations is made to all of them.
As each explanation is true at the real world in the model it was given in, which is the model of
all, hearing explanations never removes the real world. Only the formula that opens a round can.

* `InLockstep`: every member has one model and hears the same agents.
* `InLockstep.call`, `InLockstep.callAll`: a call keeps a session in lockstep, and so does a run.
* `InLockstep.round_isOk_iff`: which rounds succeed.
* `lockstep_run`: sessions that are started, edited and called upon. -/

namespace KnowledgePrograms

open Std (ExtTreeMap ExtTreeSet)

namespace Session

variable {s : Session} {m : Model} {heard : ExtTreeSet Agent} {r : WorldRef}

/-- The members have one model and hear the same agents, themselves included, by conjunction. -/
structure InLockstep (s : Session) (m : Model) (heard : ExtTreeSet Agent) : Prop where
  /-- The explanations that a member hears are conjoined. -/
  conjoined : s.settings.redistribution.value = .conjoined
  /-- A member may hear its own explanation. -/
  selfHearing : s.settings.selfHearing.value = true
  /-- There is a member. -/
  inhabited : ∃ (a : Agent) (x : Member), s.members[a]? = some x
  /-- Every member has the model. -/
  model_eq : ∀ (a : Agent) (x : Member), s.members[a]? = some x → x.model = m
  /-- Every member hears the agents. -/
  heard_eq : ∀ (a : Agent) (x : Member), s.members[a]? = some x → x.heard = heard

/-- A session stays in lockstep when every member is changed alike: the settings stay, and each
member has the new model and hears whom it heard. -/
theorem InLockstep.of_map {t : Session} {m' : Model} (h : s.InLockstep m heard)
    (settings : t.settings = s.settings) (g : Agent → Member → Member)
    (members : ∀ a, t.members[a]? = s.members[a]?.map (g a))
    (model : ∀ (a : Agent) (x : Member), s.members[a]? = some x → (g a x).model = m')
    (hears : ∀ a x, (g a x).heard = x.heard) : t.InLockstep m' heard where
  conjoined := by rw [settings, h.conjoined]
  selfHearing := by rw [settings, h.selfHearing]
  inhabited := by
    obtain ⟨a, x, hx⟩ := h.inhabited
    exact ⟨a, g a x, by rw [members, hx, Option.map_some]⟩
  model_eq a y hy := by
    rw [members] at hy
    obtain ⟨x, hx, rfl⟩ := Option.map_eq_some_iff.1 hy
    exact model a x hx
  heard_eq a y hy := by
    rw [members] at hy
    obtain ⟨x, hx, rfl⟩ := Option.map_eq_some_iff.1 hy
    rw [hears, h.heard_eq a x hx]

/-! ## (1) The parts of a round -/

/-- An announcement to every member keeps a session in lockstep. -/
theorem InLockstep.tellAll (h : s.InLockstep m heard) (f : Formula) :
    (s.tellAll f).InLockstep (m.announce f).2 heard := by
  refine h.of_map rfl (fun _ x => x.withModel (x.model.announce f).2)
    (getElem?_members_tellAll s f) ?_ fun _ _ => rfl
  intro a x hx
  rw [Member.withModel, h.model_eq a x hx]

/-- The explanations that every member hears after selecting at the world. -/
def sharedNews (s : Session) (heard : ExtTreeSet Agent) (r : WorldRef) : List Formula :=
  heard.toList.filterMap fun b => (s.selectAll r).explanations[b]?

/-- Every member hears the same explanations. -/
theorem InLockstep.heardBy_eq (h : s.InLockstep m heard) {a : Agent} {x : Member}
    (hx : s.members[a]? = some x) :
    s.heardBy (s.selectAll r).explanations a x = s.sharedNews heard r := by
  have everyone : (x.heard.toList.filter fun b => s.settings.selfHearing.value || b != a)
      = heard.toList := by
    rw [h.selfHearing, h.heard_eq a x hx]
    exact List.filter_eq_self.2 fun _ _ => rfl
  rw [heardBy, everyone, sharedNews]

/-- What the explanations that every member hears leave of the model. -/
def informedModel (s : Session) (m : Model) (heard : ExtTreeSet Agent) (r : WorldRef) : Model :=
  (m.announceEach (redistributed .conjoined (s.sharedNews heard r))).2

/-- Hearing explanations keeps a session in lockstep. -/
theorem InLockstep.inform (h : s.InLockstep m heard) (r : WorldRef) :
    (s.inform r).InLockstep (s.informedModel m heard r) heard := by
  refine h.of_map rfl _ (getElem?_members_inform s r) ?_ fun _ _ => rfl
  intro a x hx
  rw [Member.withModel, newsFor, h.conjoined, h.heardBy_eq hx, h.model_eq a x hx, informedModel]

/-- The explanations that the members hear are true at the world at which they have selected. -/
theorem InLockstep.satisfies_of_mem_sharedNews (h : s.InLockstep m heard) {e : Formula}
    (news : e ∈ s.sharedNews heard r) : m.satisfies e r = true := by
  obtain ⟨a, x, hx⟩ := h.inhabited
  rw [← h.heardBy_eq hx] at news
  obtain ⟨b, -, z, hz, selection, chosen, explained⟩ := mem_heardBy_selectAll.1 news
  -- The explanation is true where `b` has selected, which is in the model of all.
  rw [h.model_eq b z hz] at chosen
  rw [Program.satisfies_explain explained, chosen, Program.picks, Option.any_some]
  exact decide_eq_true rfl

/-- Hearing explanations does not remove the world at which the members have selected. -/
theorem InLockstep.contains_informedModel (h : s.InLockstep m heard) (live : m.contains r = true) :
    (s.informedModel m heard r).contains r = true := by
  have left := isSubmodel_announceEach_conjoined m (s.sharedNews heard r)
  exact left.contains_iff.2 ⟨live, fun e news => h.satisfies_of_mem_sharedNews news⟩

/-- No member lacks a world iff the model of all has it. -/
theorem InLockstep.firstWithout?_eq_none_iff (h : s.InLockstep m heard) :
    s.firstWithout? r = none ↔ m.contains r = true := by
  rw [Session.firstWithout?_eq_none_iff]
  constructor
  · intro present
    obtain ⟨a, x, hx⟩ := h.inhabited
    rw [← h.model_eq a x hx]
    exact present a x hx
  · intro live a x hx
    rw [h.model_eq a x hx]
    exact live

/-! ## (2) Calls -/

/-- A call keeps a session in lockstep, whether or not it fails. -/
theorem InLockstep.call (h : s.InLockstep m heard) (c : Call) :
    ∃ m', (s.call c).InLockstep m' heard := by
  cases c with
  | announce f =>
    refine ⟨(m.announce f).2, ?_⟩
    rw [Session.call, Session.announce]
    split
    · exact h.tellAll f
    · exact h.tellAll f
  | round f r =>
    rw [Session.call]
    rcases round_cases s f r with ⟨a, -, ended⟩ | ⟨-, a, -, ended⟩ | ⟨-, -, report, ended⟩
    · rw [ended]
      exact ⟨_, h.tellAll f⟩
    · rw [ended]
      exact ⟨_, (h.tellAll f).inform r⟩
    · -- Counting the round changes neither the settings nor the members.
      rw [ended]
      obtain ⟨conjoined, selfHearing, inhabited, model, hears⟩ := (h.tellAll f).inform r
      exact ⟨_, conjoined, selfHearing, inhabited, model, hears⟩

/-- A run of calls keeps a session in lockstep. -/
theorem InLockstep.callAll (h : s.InLockstep m heard) (calls : List Call) :
    ∃ m', (s.callAll calls).InLockstep m' heard := by
  induction calls generalizing s m with
  | nil => exact ⟨m, h⟩
  | cons c rest ih =>
    obtain ⟨m', h'⟩ := h.call c
    exact ih h'

/-- A round succeeds in lockstep iff the world is in the model of all and the formula is true
there. -/
theorem InLockstep.round_isOk_iff (h : s.InLockstep m heard) (f : Formula) (r : WorldRef) :
    (∃ report, (s.round f r).2 = .ok report) ↔
      m.contains r = true ∧ m.satisfies f r = true := by
  have told := h.tellAll f
  rw [← (m.isSubmodel_announce f).contains_iff, ← told.firstWithout?_eq_none_iff]
  rcases round_cases s f r with ⟨a, missing, ended⟩ | ⟨first, a, missing, ended⟩ |
    ⟨first, -, report, ended⟩
  · rw [ended, missing]
    simp
  · -- The explanations cannot have removed the world, as the first announcement has left it.
    have live := told.firstWithout?_eq_none_iff.1 first
    have left := (told.inform r).firstWithout?_eq_none_iff.2 (told.contains_informedModel live)
    rw [left] at missing
    cases missing
  · rw [ended]
    exact iff_of_true ⟨report, rfl⟩ first

/-! ## (3) Runs -/

/-- A session that is started is in lockstep once all members hear the same agents. -/
theorem inLockstep_editAll {settings : Settings} {base : Model} {actors : List Actor}
    {edits : List Edit} (started : start settings base actors = .ok s)
    (conjoined : settings.redistribution.value = .conjoined)
    (selfHearing : settings.selfHearing.value = true)
    (alike : ∀ (a : Agent) (x : Member), (s.editAll edits).members[a]? = some x →
      x.heard = heard) :
    (s.editAll edits).InLockstep base heard := by
  obtain ⟨-, rfl, -⟩ := exists_enroll_of_start started
  refine ⟨?_, ?_, ?_, ?_, alike⟩
  · rw [settings_editAll, conjoined]
  · rw [settings_editAll, selfHearing]
  · obtain ⟨a, x, hx⟩ := exists_member_start started
    obtain ⟨g, -, members⟩ := exists_getElem?_members_editAll s edits a
    exact ⟨a, g x, by rw [members, hx, Option.map_some]⟩
  · intro a y hy
    obtain ⟨g, core, members⟩ := exists_getElem?_members_editAll s edits a
    rw [members] at hy
    obtain ⟨x, hx, rfl⟩ := Option.map_eq_some_iff.1 hy
    rw [(core x).1, forall_members_start started a x hx]

/-- **Lockstep.** Let a session be started with explanations conjoined and heard by those who give
them, and edited until all members hear the same agents. Then after any run of announcements and
rounds, failing ones included, there are members, their models are the same, and the rounds that
succeed are those in which the world is in these models and the formula is true there. -/
theorem lockstep_run {settings : Settings} {base : Model} {actors : List Actor}
    {edits : List Edit} {heard : ExtTreeSet Agent} {s : Session}
    (started : start settings base actors = .ok s)
    (conjoined : settings.redistribution.value = .conjoined)
    (selfHearing : settings.selfHearing.value = true)
    (alike : ∀ (a : Agent) (x : Member), (s.editAll edits).members[a]? = some x →
      x.heard = heard) (calls : List Call) :
    let t := (s.editAll edits).callAll calls
    (∃ (a : Agent) (x : Member), t.members[a]? = some x) ∧
    (∀ (a b : Agent) (x y : Member), t.members[a]? = some x → t.members[b]? = some y →
      x.model.sameAs y.model = true) ∧
    ∀ (a : Agent) (x : Member), t.members[a]? = some x → ∀ (f : Formula) (r : WorldRef),
      (∃ report, (t.round f r).2 = .ok report) ↔
        ∃ live : x.model.contains r = true, f.evaluate (.pointed x.model r live) = .ok true := by
  intro t
  obtain ⟨m, ran⟩ := (inLockstep_editAll started conjoined selfHearing alike).callAll calls
  refine ⟨ran.inhabited, ?_, ?_⟩
  · intro a b x y hx hy
    rw [ran.model_eq a x hx, ran.model_eq b y hy]
    exact m.sameAs_self
  · intro a x hx f r
    rw [ran.round_isOk_iff, ran.model_eq a x hx]
    simp only [Formula.evaluate, Except.ok.injEq, exists_prop]

/-- Two agents hear each other and themselves. A round at the world without `p` fails, as `p` is
announced in it, and leaves both with the world with `p`, at which the next round succeeds. -/
theorem lockstep_run_after_failure :
    let settings : Settings :=
      ⟨Settings.standard.redistribution, Settings.standard.selfHearing.assign true,
        Settings.standard.simplificationLimit, Settings.standard.roundLimit⟩
    let both : List Agent := [⟨"seer"⟩, ⟨"hearer"⟩]
    let edits : List Edit := both.map fun a => .setHeard a both
    let calls : List Call := [.announce .top, .round (.atom ⟨"p"⟩) ⟨1, 1⟩]
    settings.redistribution.value = .conjoined ∧ settings.selfHearing.value = true ∧
    ∃ s : Session, start settings unequalSight (both.map answering) = .ok s ∧
      (∀ (a : Agent) (x : Member), (s.editAll edits).members[a]? = some x →
        x.heard = .ofList both) ∧
      let t := (s.editAll edits).callAll calls
      (∃ (a : Agent) (x : Member), t.members[a]? = some x) ∧
      (∀ (a b : Agent) (x y : Member), t.members[a]? = some x → t.members[b]? = some y →
        x.model.sameAs y.model = true) ∧
      (∀ (a : Agent) (x : Member), t.members[a]? = some x → ∀ (f : Formula) (r : WorldRef),
        (∃ report, (t.round f r).2 = .ok report) ↔
          ∃ live : x.model.contains r = true, f.evaluate (.pointed x.model r live) = .ok true) ∧
      (t.round .top ⟨1, 1⟩).2.isOk = false ∧ (t.round .top ⟨2, 1⟩).2.isOk = true := by
  intro settings both edits calls
  have checked : ((start settings unequalSight (both.map answering)).toOption.any fun s =>
      let t := (s.editAll edits).callAll calls
      (s.editAll edits).members.toList.all (fun e => e.2.heard == .ofList both) &&
        !(t.round .top ⟨1, 1⟩).2.isOk && (t.round .top ⟨2, 1⟩).2.isOk) = true := by
    decide +kernel
  refine ⟨rfl, rfl, ?_⟩
  cases started : start settings unequalSight (both.map answering) with
  | error e =>
    rw [started] at checked
    cases checked
  | ok s =>
    rw [started] at checked
    simp only [Except.toOption, Option.any_some, Bool.and_eq_true, Bool.not_eq_true',
      List.all_eq_true, beq_iff_eq] at checked
    obtain ⟨⟨heard, fails⟩, succeeds⟩ := checked
    have alike : ∀ (a : Agent) (x : Member), (s.editAll edits).members[a]? = some x →
        x.heard = .ofList both := by
      intro a x hx
      exact heard (a, x) (ExtTreeMap.mem_toList_iff_getElem?_eq_some.2 hx)
    obtain ⟨inhabited, same, rounds⟩ := lockstep_run started rfl rfl alike calls
    exact ⟨s, rfl, alike, inhabited, same, rounds, fails, succeeds⟩

end Session

end KnowledgePrograms
