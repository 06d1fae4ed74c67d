import KnowledgePrograms.Proofs.Kripke.Persistence
import KnowledgePrograms.Proofs.Session.Hearing
import KnowledgePrograms.Proofs.Session.Report
import KnowledgePrograms.Proofs.Session.Telling

/-! # Ways of redistribution

The explanations that a member hears are announced to it as one conjunction, or one after the other.
In the latter way each is read on what the earlier ones have left, and with modalities it may be
read otherwise there. Without modalities it is read the same at a world, whatever is left around it.
So when the conditions of all programs have no modalities the two ways come to the same, up to the
number of announcements that are made.

* `Model.isSubmodel_announceEach_plain`: what formulas without modalities leave of a model.
* `Session.Resembles`: sessions with the same actors, and with models that are the same.
* `Session.Resembles.round`: rounds whose parts resemble each other report the same.
* `Session.conjoined_eq_successive`: the two ways of redistribution. -/

namespace KnowledgePrograms

open Std (ExtTreeMap ExtTreeSet)

/-! ## (1) Announcements without modalities -/

namespace Model

/-- Formulas without modalities that are announced one after the other leave the worlds at which all
are true. -/
theorem isSubmodel_announceEach_plain (m : Model) {fs : List Formula}
    (plain : ∀ f ∈ fs, f.isModal = false) :
    (m.announceEach fs).2.IsSubmodel m fun v => ∀ f ∈ fs, m.satisfies f v = true := by
  induction fs generalizing m with
  | nil => exact m.isSubmodel_self.congr fun v _ => by simp
  | cons f rest ih =>
    have plainRest : ∀ g ∈ rest, g.isModal = false := fun g hg =>
      plain g (List.mem_cons_of_mem _ hg)
    have first := m.isSubmodel_announce f
    refine ((ih (m.announce f).2 plainRest).trans first).congr fun v live => ?_
    rw [List.forall_mem_cons]
    refine and_congr_right fun holds => forall₂_congr fun g hg => ?_
    -- The later formulas are read at the worlds that the first one has left.
    have left : (m.announce f).2.contains v = true := first.contains_iff.2 ⟨live, holds⟩
    rw [first.satisfies_plain left (plainRest g hg)]

end Model

namespace Session

/-- What is heard is announced as it is when it is announced one after the other. -/
theorem redistributed_successive (heard : List Formula) :
    redistributed .successive heard = heard := by
  cases heard <;> rfl

/-- Explanations without modalities leave the same of a model in either way. -/
theorem same_announceEach_redistributed (m : Model) {heard : List Formula}
    (plain : ∀ e ∈ heard, e.isModal = false) :
    (m.announceEach (redistributed .conjoined heard)).2.Same
      (m.announceEach (redistributed .successive heard)).2 := by
  rw [redistributed_successive]
  exact m.same_self.submodel (isSubmodel_announceEach_conjoined m heard)
    (m.isSubmodel_announceEach_plain plain) fun _ _ => Iff.rfl

end Session

/-! ## (2) Sessions that resemble each other -/

/-- The members have the same actor, and models that are the same. -/
structure Member.Resembles (x y : Member) : Prop where
  /-- The actors are the same, with what they selected last. -/
  actor_eq : x.actor = y.actor
  /-- The models are the same. -/
  model_same : x.model.Same y.model

namespace Session

/-- The sessions count the same rounds and removed worlds, perform actions on the same arguments,
and have members that resemble each other. -/
structure Resembles (s t : Session) : Prop where
  /-- The same rounds are counted. -/
  rounds_eq : s.counters.rounds = t.counters.rounds
  /-- The same removed worlds are counted. -/
  removed_eq : s.counters.removed = t.counters.removed
  /-- Actions are performed on the same arguments. -/
  bound_eq : s.bound = t.bound
  /-- The members resemble each other. -/
  members_rel : ∀ a : Agent, Option.Rel Member.Resembles s.members[a]? t.members[a]?

variable {s t : Session} {f : Formula} {r : WorldRef}

/-- A session resembles itself. -/
theorem resembles_self (s : Session) : s.Resembles s where
  rounds_eq := rfl
  removed_eq := rfl
  bound_eq := rfl
  members_rel a := by
    cases s.members[a]? with
    | some x => exact .some ⟨rfl, x.model.same_self⟩
    | none => exact .none

/-- Sessions resemble each other whatever their settings. -/
theorem Resembles.withSettings (h : s.Resembles t) (settings settings' : Settings) :
    (s.withSettings settings).Resembles (t.withSettings settings') :=
  ⟨h.rounds_eq, h.removed_eq, h.bound_eq, h.members_rel⟩

/-- Sessions still resemble each other when one more round is counted. -/
theorem Resembles.countRound (h : s.Resembles t) : s.countRound.Resembles t.countRound :=
  ⟨congrArg (· + 1) h.rounds_eq, h.removed_eq, h.bound_eq, h.members_rel⟩

/-- What is read alike of members that resemble each other is read alike of sessions that do. -/
theorem Resembles.map_members_eq (h : s.Resembles t) {β : Type} {g : Member → β}
    (alike : ∀ x y, Member.Resembles x y → g x = g y) :
    (s.members.map fun _ x => g x) = t.members.map fun _ x => g x :=
  map_members_eq_of_rel h.members_rel alike

/-- Sessions that resemble each other have the same first agent without the world. -/
theorem Resembles.firstWithout?_eq (h : s.Resembles t) (r : WorldRef) :
    s.firstWithout? r = t.firstWithout? r := by
  rw [Session.firstWithout?_eq, Session.firstWithout?_eq,
    h.map_members_eq fun x y alike => alike.model_same.contains_eq r]

/-- Sessions that resemble each other report the same of the same observations and explanations. -/
theorem Resembles.report_eq (h : s.Resembles t)
    (observations explanations : ExtTreeMap Agent Formula) :
    s.report observations explanations = t.report observations explanations := by
  have outcomes : ∀ (o : Formula) (e : Option Formula) (x y : Member), Member.Resembles x y →
      s.outcome o e x = t.outcome o e y := by
    intro o e x y alike
    simp only [outcome, arguments, alike.actor_eq, h.bound_eq]
  rw [report, report, h.rounds_eq, h.map_members_eq fun x y alike => alike.model_same.worldCount_eq]
  congr 2
  funext a o
  exact map_eq_of_rel (h.members_rel a) (outcomes o _)

/-- A session that is told news that leave the same models resembles itself told other news. -/
theorem resembles_tell {news news' : Agent → Member → List Formula}
    (same : ∀ (a : Agent) (x : Member), s.members[a]? = some x →
      (x.model.announceEach (news a x)).2.Same (x.model.announceEach (news' a x)).2) :
    (s.tell news).Resembles (s.tell news') where
  rounds_eq := rfl
  removed_eq := by
    rw [counters_tell, counters_tell]
    refine congrArg (s.counters.removed + ·) ?_
    refine congrArg List.sum (List.map_congr_left fun e he => ?_)
    have here := ExtTreeMap.mem_toList_iff_getElem?_eq_some.1 he
    -- As many worlds are left, so as many have been removed.
    have left := (same e.1 e.2 here).worldCount_eq
    have counted := e.2.model.announceEach_add_worldCount (news e.1 e.2)
    have counted' := e.2.model.announceEach_add_worldCount (news' e.1 e.2)
    omega
  bound_eq := rfl
  members_rel a := by
    rw [getElem?_members_tell, getElem?_members_tell]
    cases here : s.members[a]? with
    | some x => exact .some ⟨rfl, same a x here⟩
    | none => exact .none

/-- Rounds with the same observations and explanations report the same, or fail alike, if the
sessions resemble each other after the first announcement and after the explanations are heard. -/
theorem Resembles.round (told : (s.tellAll f).Resembles (t.tellAll f))
    (observations : (s.tellAll f).observations r = (t.tellAll f).observations r)
    (explanations : ((s.tellAll f).selectAll r).explanations
      = ((t.tellAll f).selectAll r).explanations)
    (informed : ((s.tellAll f).inform r).Resembles ((t.tellAll f).inform r)) :
    (s.round f r).1.Resembles (t.round f r).1 ∧ (s.round f r).2 = (t.round f r).2 := by
  have reported : s.roundReport f r = t.roundReport f r := by
    rw [roundReport, roundReport, observations, explanations]
    exact informed.countRound.report_eq _ _
  rw [round_eq, round_eq, told.firstWithout?_eq, informed.firstWithout?_eq, reported]
  split
  · exact ⟨told, rfl⟩
  · split
    · exact ⟨informed, rfl⟩
    · exact ⟨informed.countRound, rfl⟩

/-! ## (3) Rounds -/

/-- The session with another way of redistribution. -/
def redistributing (s : Session) (mode : Redistribution) : Session :=
  s.withSettings
    { redistribution := s.settings.redistribution.assign mode
      selfHearing := s.settings.selfHearing
      simplificationLimit := s.settings.simplificationLimit
      roundLimit := s.settings.roundLimit }

/-- No condition of a program of the session has modalities. -/
def IsPlain (s : Session) : Prop :=
  ∀ (a : Agent) (x : Member), s.members[a]? = some x → x.actor.program.Plain

/-- If no program has modalities, what is heard in a round has none. -/
theorem isModal_of_mem_heardBy (plain : s.IsPlain) {a : Agent} {x : Member} {e : Formula}
    (h : e ∈ s.heardBy (s.selectAll r).explanations a x) : e.isModal = false := by
  obtain ⟨b, -, z, hz, selection, -, explained⟩ := mem_heardBy_selectAll.1 h
  exact Program.isModal_explain (plain b z hz) explained

/-- If no program has modalities, the explanations of a round leave sessions that resemble each
other in either way. -/
theorem IsPlain.resembles_inform (plain : s.IsPlain) (r : WorldRef) :
    ((s.redistributing .conjoined).inform r).Resembles
      ((s.redistributing .successive).inform r) := by
  let selected := s.selectAll r
  let news := fun (mode : Redistribution) a x =>
    redistributed mode (selected.heardBy selected.explanations a x)
  have informed : ∀ mode, (s.redistributing mode).inform r
      = (selected.tell (news mode)).redistributing mode := fun _ => rfl
  have told : (selected.tell (news .conjoined)).Resembles (selected.tell (news .successive)) :=
    resembles_tell fun a x _ => same_announceEach_redistributed x.model fun _ heard =>
      isModal_of_mem_heardBy plain heard
  rw [informed, informed]
  exact told.withSettings _ _

/-- The programs of a session are those it has after an announcement. -/
theorem IsPlain.tellAll (plain : s.IsPlain) (f : Formula) : (s.tellAll f).IsPlain := by
  intro a x hx
  rw [getElem?_members_tellAll] at hx
  obtain ⟨y, hy, rfl⟩ := Option.map_eq_some_iff.1 hx
  exact plain a y hy

/-- **Redistribution.** If no condition of a program has modalities, then a round in which
explanations are conjoined and one in which they are announced one after the other report the same,
or fail alike. They leave every agent with the same model and the same actor, and count the same
rounds and removed worlds. -/
theorem conjoined_eq_successive (s : Session) (f : Formula) (r : WorldRef) (plain : s.IsPlain) :
    let c := (s.redistributing .conjoined).round f r
    let d := (s.redistributing .successive).round f r
    c.2 = d.2 ∧
    (∀ a, Option.Rel (fun m n => m.sameAs n = true) (c.1.model? a) (d.1.model? a)) ∧
    (∀ a, c.1.actor? a = d.1.actor? a) ∧
    c.1.counters.rounds = d.1.counters.rounds ∧ c.1.counters.removed = d.1.counters.removed := by
  have told := (s.tellAll f).resembles_self
  have informed := (plain.tellAll f).resembles_inform r
  obtain ⟨left, reported⟩ := Resembles.round (s := s.redistributing .conjoined)
    (t := s.redistributing .successive) (told.withSettings _ _) rfl rfl informed
  refine ⟨reported, fun a => ?_, fun a => ?_, left.rounds_eq, left.removed_eq⟩
  · rw [model?_eq, model?_eq]
    exact rel_map (left.members_rel a) fun x y alike => Model.sameAs_iff.2 alike.model_same
  · exact map_eq_of_rel (left.members_rel a) fun x y alike => alike.actor_eq

/-- An actor that says "yes" where `p` is true and "no" elsewhere. -/
def telling (a : Agent) : Actor :=
  .new a ⟨[⟨.atom ⟨"p"⟩, .utterance "yes" ""⟩], some (.utterance "no" "")⟩

/-- The session of a listener, which hears two others, with the worlds without and with `p`. -/
def listening : Session where
  settings := .standard
  counters := ⟨0, 0, 0⟩
  members :=
    let base := (Model.fromObservability (World.allValuations [⟨"p"⟩])
      ((∅ : ExtTreeMap Agent (ExtTreeSet Atom)).insert ⟨"listener"⟩ ∅)).2
    (∅ : ExtTreeMap Agent Member)
      |>.insert ⟨"one"⟩ ⟨telling ⟨"one"⟩, base, ∅, ∅⟩
      |>.insert ⟨"other"⟩ ⟨telling ⟨"other"⟩, base, ∅, ∅⟩
      |>.insert ⟨"listener"⟩ ⟨telling ⟨"listener"⟩, base, {(⟨"one"⟩ : Agent), ⟨"other"⟩}, ∅⟩
  bound := ∅

/-- After it is announced that the listener does not know `p`, it hears `p` from both. Conjoined,
the explanations are one announcement, else two. Either way they remove the world without `p`. -/
theorem conjoined_eq_successive_listening :
    let unknown : Formula := .not (.knows ⟨"listener"⟩ (.atom ⟨"p"⟩))
    let c := (listening.redistributing .conjoined).round unknown ⟨2, 1⟩
    let d := (listening.redistributing .successive).round unknown ⟨2, 1⟩
    listening.IsPlain ∧ unknown.isModal = true ∧
    c.2 = d.2 ∧ c.2.isOk = true ∧
    c.1.counters = ⟨1, 4, 1⟩ ∧ d.1.counters = ⟨1, 5, 1⟩ ∧
    Option.Rel (fun m n => m.sameAs n = true) (c.1.model? ⟨"listener"⟩)
      (d.1.model? ⟨"listener"⟩) := by
  intro unknown c d
  have checked : (listening.members.toList.all fun e => e.2.actor.program.rules.all fun rule =>
      !rule.condition.isModal) = true := by decide +kernel
  have plain : listening.IsPlain := by
    intro a x hx rule hr
    have ofMember := List.all_eq_true.1 checked _ (ExtTreeMap.mem_toList_iff_getElem?_eq_some.2 hx)
    simpa using List.all_eq_true.1 ofMember rule hr
  obtain ⟨reported, models, -⟩ := conjoined_eq_successive listening unknown ⟨2, 1⟩ plain
  have succeeds : c.2.isOk = true := by decide +kernel
  have counted : c.1.counters = ⟨1, 4, 1⟩ := by decide +kernel
  have counted' : d.1.counters = ⟨1, 5, 1⟩ := by decide +kernel
  exact ⟨plain, rfl, reported, succeeds, counted, counted', models _⟩

end Session

end KnowledgePrograms
