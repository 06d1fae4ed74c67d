import KnowledgePrograms.Session.Round

/-! # The members of a session

What a session does to its members, one member at a time: `Session.tell` replaces the model of each
by what its announcements leave, selection replaces the actor of each, and both leave the rest. So
the members after a round are given by the members before it.

* `getElem?_members_tell`, `getElem?_members_selectAll`: the members after a part of a round.
* `Session.inform` is the part of a round from the observations to the explanations heard, and
  `getElem?_members_inform` gives the members after it.
* `round_eq`, `round_cases`: the three ways in which a round ends. -/

namespace KnowledgePrograms

open Std (ExtTreeMap ExtTreeSet)

section Related

variable {α β γ δ : Type} {rel : α → β → Prop} {o : Option α} {p : Option β}

/-- Options of related values are taken to options of related values. -/
theorem rel_map {rel' : γ → δ → Prop} {g : α → γ} {h : β → δ} (related : Option.Rel rel o p)
    (kept : ∀ x y, rel x y → rel' (g x) (h y)) : Option.Rel rel' (o.map g) (p.map h) := by
  cases related with
  | some here => exact .some (kept _ _ here)
  | none => exact .none

/-- Options of related values are related in any way in which these values then are. -/
theorem rel_of_some {rel' : α → β → Prop} (related : Option.Rel rel o p)
    (kept : ∀ x y, o = some x → p = some y → rel x y → rel' x y) : Option.Rel rel' o p := by
  cases related with
  | some here => exact .some (kept _ _ rfl rfl here)
  | none => exact .none

/-- Options of values that are related through others are related. -/
theorem rel_trans {rel' : β → γ → Prop} {rel'' : α → γ → Prop} {q : Option γ}
    (related : Option.Rel rel o p) (related' : Option.Rel rel' p q)
    (through : ∀ x y z, rel x y → rel' y z → rel'' x z) : Option.Rel rel'' o q := by
  cases related with
  | some here =>
    cases related' with
    | some there => exact .some (through _ _ _ here there)
  | none =>
    cases related'
    exact .none

/-- What is read alike of related values is read alike of options of them. -/
theorem map_eq_of_rel {g : α → γ} {h : β → γ} (related : Option.Rel rel o p)
    (alike : ∀ x y, rel x y → g x = h y) : o.map g = p.map h := by
  cases related with
  | some here => exact congrArg some (alike _ _ here)
  | none => rfl

/-- What related values lead to alike is what options of them lead to. -/
theorem bind_eq_of_rel {g : α → Option γ} {h : β → Option γ} (related : Option.Rel rel o p)
    (alike : ∀ x y, rel x y → g x = h y) : o.bind g = p.bind h := by
  cases related with
  | some here => exact alike _ _ here
  | none => rfl

end Related

/-- A result that passes a test has a value that does. -/
theorem exists_ok_of_any {ε α : Type} {x : Except ε α} {p : α → Bool}
    (passes : x.toOption.any p = true) : ∃ v, x = .ok v ∧ p v = true := by
  cases x with
  | error e => cases passes
  | ok v => exact ⟨v, rfl, passes⟩

namespace Session

variable {s : Session} {a : Agent} {r : WorldRef}

/-! ## (1) Announcements -/

/-- The model of an agent is that of its member. -/
theorem model?_eq (s : Session) (a : Agent) : s.model? a = s.members[a]?.map Member.model := by
  rw [model?, models, ExtTreeMap.getElem?_map]

/-- Each member is left with what the announcements made to it leave of its model. -/
theorem getElem?_members_tell (s : Session) (news : Agent → Member → List Formula) (a : Agent) :
    (s.tell news).members[a]?
      = s.members[a]?.map fun x => x.withModel (x.model.announceEach (news a x)).2 := by
  rw [tell, ExtTreeMap.getElem?_map, ExtTreeMap.getElem?_map, Option.map_map]
  rfl

/-- Each member is left with what the announcement leaves of its model. -/
theorem getElem?_members_tellAll (s : Session) (f : Formula) (a : Agent) :
    (s.tellAll f).members[a]? = s.members[a]?.map fun x => x.withModel (x.model.announce f).2 := by
  rw [tellAll, getElem?_members_tell]
  rfl

/-- What is read alike of related members is read alike of sessions of them. -/
theorem map_members_eq_of_rel {t : Session} {rel : Member → Member → Prop}
    (related : ∀ a : Agent, Option.Rel rel s.members[a]? t.members[a]?) {β : Type}
    {g : Member → β} (alike : ∀ x y, rel x y → g x = g y) :
    (s.members.map fun _ x => g x) = t.members.map fun _ x => g x := by
  refine ExtTreeMap.ext_getElem? fun a => ?_
  rw [ExtTreeMap.getElem?_map, ExtTreeMap.getElem?_map]
  exact map_eq_of_rel (related a) alike

/-- The first agent without the world is found among the models of all. -/
theorem firstWithout?_eq (s : Session) (r : WorldRef) :
    s.firstWithout? r = ((s.members.map fun _ x => x.model.contains r).toList.find?
      fun e => !e.2).map Prod.fst := by
  rw [firstWithout?, ExtTreeMap.toList_map, List.find?_map, Option.map_map]
  rfl

/-- No member lacks the world iff every member has it. -/
theorem firstWithout?_eq_none_iff :
    s.firstWithout? r = none ↔
      ∀ (a : Agent) (x : Member), s.members[a]? = some x → x.model.contains r = true := by
  rw [firstWithout?, Option.map_eq_none_iff, List.find?_eq_none]
  constructor
  · intro h a x hx
    simpa using h (a, x) (ExtTreeMap.mem_toList_iff_getElem?_eq_some.2 hx)
  · rintro h ⟨a, x⟩ hx
    simpa using h a x (ExtTreeMap.mem_toList_iff_getElem?_eq_some.1 hx)

/-! ## (2) Selections and explanations -/

/-- Each member has selected at the world of its own model. -/
theorem getElem?_members_selectAll (s : Session) (r : WorldRef) (a : Agent) :
    (s.selectAll r).members[a]?
      = s.members[a]?.map fun x => x.withActor (x.actor.selectAt x.model r) := by
  rw [selectAll, withMembers, ExtTreeMap.getElem?_map]

/-- The explanation of an agent is that of the action its program selects at the world of its
model. -/
theorem getElem?_explanations_selectAll (s : Session) (r : WorldRef) (b : Agent) :
    (s.selectAll r).explanations[b]? = s.members[b]?.bind fun z =>
      (z.actor.program.chooseAt z.model r).bind fun selection =>
        z.actor.program.explain selection.action.name s.settings.simplificationLimit.value := by
  rw [explanations, ExtTreeMap.getElem?_filterMap', getElem?_members_selectAll]
  cases s.members[b]? with
  | none => rfl
  | some z =>
    simp only [Option.map_some, Option.bind_some, Member.withActor, Actor.selectAt,
      Actor.explain, Actor.action?, Actor.withSelection, Option.bind_map]
    rfl

/-- A member hears the explanations of the agents that it hears, its own only if the settings say
so. -/
theorem mem_heardBy {explanations : ExtTreeMap Agent Formula} {x : Member} {e : Formula} :
    e ∈ s.heardBy explanations a x ↔
      ∃ b ∈ x.heard, (s.settings.selfHearing.value = true ∨ b ≠ a) ∧
        explanations[b]? = some e := by
  simp only [heardBy, List.mem_filterMap, List.mem_filter, ExtTreeSet.mem_toList, Bool.or_eq_true,
    bne_iff_ne, and_assoc]

/-! ## (3) Rounds -/

/-- The session after every member has selected at the world and has heard the explanations that it
hears. -/
def inform (s : Session) (r : WorldRef) : Session :=
  (s.selectAll r).redistribute (s.selectAll r).explanations

/-- What a member is told in a round after the first announcement. -/
def newsFor (s : Session) (r : WorldRef) (a : Agent) (x : Member) : List Formula :=
  redistributed s.settings.redistribution.value (s.heardBy (s.selectAll r).explanations a x)

/-- A member that may hear nobody is told nothing. -/
theorem newsFor_eq_nil {x : Member} (deaf : x.heard = ∅) : s.newsFor r a x = [] := by
  have nobody : (∅ : ExtTreeSet Agent).toList = [] := by
    rw [List.eq_nil_iff_forall_not_mem]
    exact fun b hb => ExtTreeSet.not_mem_empty (ExtTreeSet.mem_toList.1 hb)
  rw [newsFor, heardBy, deaf, nobody]
  rfl

/-- Each member has selected at the world of its model, of which it is then left with what the
explanations that it hears leave. -/
theorem getElem?_members_inform (s : Session) (r : WorldRef) (a : Agent) :
    (s.inform r).members[a]? = s.members[a]?.map fun x =>
      (x.withActor (x.actor.selectAt x.model r)).withModel
        (x.model.announceEach (s.newsFor r a x)).2 := by
  rw [inform, redistribute, getElem?_members_tell, getElem?_members_selectAll, Option.map_map]
  rfl

/-- The report of a round that succeeds. -/
def roundReport (s : Session) (f : Formula) (r : WorldRef) : Round :=
  let told := s.tellAll f
  (told.inform r).countRound.report (told.observations r) (told.selectAll r).explanations

/-- The world has to be left by the announcement and by the explanations. -/
theorem round_eq (s : Session) (f : Formula) (r : WorldRef) :
    s.round f r =
      match (s.tellAll f).firstWithout? r with
      | some a => (s.tellAll f, .error (.invalidModel a r))
      | none =>
          match ((s.tellAll f).inform r).firstWithout? r with
          | some a => ((s.tellAll f).inform r, .error (.invalidModel a r))
          | none => (((s.tellAll f).inform r).countRound, .ok (s.roundReport f r)) :=
  rfl

/-- A round fails after the first announcement, or after the explanations are heard, when the world
is missing; else it is counted and reported. -/
theorem round_cases (s : Session) (f : Formula) (r : WorldRef) :
    (∃ a, (s.tellAll f).firstWithout? r = some a ∧
      s.round f r = (s.tellAll f, .error (.invalidModel a r))) ∨
    ((s.tellAll f).firstWithout? r = none ∧
      ∃ a, ((s.tellAll f).inform r).firstWithout? r = some a ∧
        s.round f r = ((s.tellAll f).inform r, .error (.invalidModel a r))) ∨
    ((s.tellAll f).firstWithout? r = none ∧ ((s.tellAll f).inform r).firstWithout? r = none ∧
      ∃ report, s.round f r = (((s.tellAll f).inform r).countRound, .ok report)) := by
  rw [round_eq]
  cases (s.tellAll f).firstWithout? r with
  | some a => exact .inl ⟨a, rfl, rfl⟩
  | none =>
    cases ((s.tellAll f).inform r).firstWithout? r with
    | some a => exact .inr (.inl ⟨rfl, a, rfl, rfl⟩)
    | none => exact .inr (.inr ⟨rfl, rfl, _, rfl⟩)

/-- A round leaves the session that was told the formula, or the one that was then informed, counted
if the round succeeds. -/
theorem fst_round_cases (s : Session) (f : Formula) (r : WorldRef) :
    (s.round f r).1 = s.tellAll f ∨ (s.round f r).1 = (s.tellAll f).inform r ∨
      (s.round f r).1 = ((s.tellAll f).inform r).countRound := by
  rcases round_cases s f r with ⟨a, -, ended⟩ | ⟨-, a, -, ended⟩ | ⟨-, -, report, ended⟩
  · exact .inl (congrArg Prod.fst ended)
  · exact .inr (.inl (congrArg Prod.fst ended))
  · exact .inr (.inr (congrArg Prod.fst ended))

end Session

end KnowledgePrograms
