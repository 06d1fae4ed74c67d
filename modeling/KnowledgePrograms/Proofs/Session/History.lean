import KnowledgePrograms.Session.Round

/-! # Histories of a session

A session is started, edited and then called upon to announce and to hold rounds. An edit that is
refused changes nothing; a call that fails keeps what it did.

* `Edit`, `Session.editAll`: what may be changed about the members.
* `Call`, `Session.callAll`: what may be asked of a session.
* `forall_members_start`, `exists_member_start`: every member starts with the model given, and
  there is one.
* `exists_start`, `change_eq_ok`: different agents can be started, and those of the session
  changed.
* `edit_cases`, `exists_getElem?_members_editAll`: edits change neither models nor actors. -/

namespace KnowledgePrograms

open Std (ExtTreeMap ExtTreeSet)

/-- A change to a session. -/
inductive Edit where
  /-- Let an agent hear exactly some agents. -/
  | setHeard (a : Agent) (agents : List Agent)
  /-- Let an agent hear another one too. -/
  | permit (a b : Agent)
  /-- Let an agent observe some atoms too. -/
  | associate (a : Agent) (atoms : List Atom)
  /-- Set the arguments on which actions of a name are performed. -/
  | bind (action : String) (arguments : List Value)

/-- Something asked of a session. -/
inductive Call where
  /-- Announce a formula to every member. -/
  | announce (f : Formula)
  /-- Hold a round in which a formula is announced, with a world taken for the real one. -/
  | round (f : Formula) (r : WorldRef)

namespace Session

/-- The session after an edit, unless the edit is refused. -/
def edit? (s : Session) : Edit → Except SetupError Session
  | .setHeard a agents => s.setHeard a agents
  | .permit a b => s.permit a b
  | .associate a atoms => s.associate a atoms
  | .bind action arguments => .ok (s.bind action arguments)

/-- The session after an edit, the same if the edit is refused. -/
def edit (s : Session) (e : Edit) : Session :=
  match s.edit? e with
  | .ok t => t
  | .error _ => s

/-- The session after some edits. -/
def editAll (s : Session) (edits : List Edit) : Session := edits.foldl edit s

/-- The session after a call, whether or not the call fails. -/
def call (s : Session) : Call → Session
  | .announce f => (s.announce f).1
  | .round f r => (s.round f r).1

/-- The session after some calls. -/
def callAll (s : Session) (calls : List Call) : Session := calls.foldl call s

variable {s t : Session}

/-! ## (1) The start -/

/-- What holds of the members there are, and of those added for some actors, holds of all members
after the actors are enrolled. -/
theorem forall_members_enroll {base : Model} {members members' : ExtTreeMap Agent Member}
    {actors : List Actor} {P : Agent → Member → Prop}
    (enrolled : enroll base members actors = .ok members')
    (before : ∀ (a : Agent) (x : Member), members[a]? = some x → P a x)
    (added : ∀ x : Actor, P x.agent (newMember base x)) :
    ∀ (a : Agent) (x : Member), members'[a]? = some x → P a x := by
  induction actors generalizing members with
  | nil =>
    obtain rfl := Except.ok.inj enrolled
    exact before
  | cons actor rest ih =>
    rw [enroll] at enrolled
    split at enrolled
    · cases enrolled
    · -- The member of the first actor joins those of whom the property is known.
      refine ih enrolled ?_
      intro a x hx
      rw [ExtTreeMap.getElem?_insert] at hx
      split at hx
      · next same =>
        obtain rfl := Option.some.inj hx
        exact Std.LawfulEqCmp.eq_of_compare same ▸ added actor
      · exact before a x hx

/-- The agents after enrolling are those that were there and those of the actors. -/
theorem contains_enroll {base : Model} {members members' : ExtTreeMap Agent Member}
    {actors : List Actor} (enrolled : enroll base members actors = .ok members') (a : Agent) :
    members'.contains a = (members.contains a || actors.any fun x => x.agent == a) := by
  induction actors generalizing members with
  | nil =>
    obtain rfl := Except.ok.inj enrolled
    simp
  | cons actor rest ih =>
    rw [enroll] at enrolled
    split at enrolled
    · cases enrolled
    · have same : (compare actor.agent a == .eq) = (actor.agent == a) := by
        rw [Bool.eq_iff_iff, beq_iff_eq, beq_iff_eq, Std.LawfulEqCmp.compare_eq_iff_eq]
      rw [ih enrolled, ExtTreeMap.contains_insert, same, List.any_cons, Bool.or_left_comm,
        Bool.or_assoc]

variable {settings : Settings} {base : Model} {actors : List Actor}

/-- A session that is started has counted nothing and has the members of the actors enrolled. -/
theorem eq_of_start_eq_ok (started : start settings base actors = .ok s) :
    actors ≠ [] ∧ ∃ members, enroll base ∅ actors = .ok members ∧
      s = ⟨settings, ⟨0, 0, 0⟩, members, ∅⟩ := by
  cases actors with
  | nil => cases started
  | cons actor rest =>
    simp only [start] at started
    cases enrolled : enroll base ∅ (actor :: rest) with
    | error e =>
      rw [enrolled] at started
      cases started
    | ok members =>
      rw [enrolled] at started
      exact ⟨List.cons_ne_nil _ _, members, rfl, (Except.ok.inj started).symm⟩

/-- A session that is started has the settings and the members of the actors enrolled. -/
theorem exists_enroll_of_start (started : start settings base actors = .ok s) :
    actors ≠ [] ∧ s.settings = settings ∧ enroll base ∅ actors = .ok s.members := by
  obtain ⟨nonempty, members, enrolled, rfl⟩ := eq_of_start_eq_ok started
  exact ⟨nonempty, rfl, enrolled⟩

/-- Every member of a session that is started has the model given. -/
theorem forall_members_start (started : start settings base actors = .ok s) :
    ∀ (a : Agent) (x : Member), s.members[a]? = some x → x.model = base := by
  obtain ⟨-, -, enrolled⟩ := exists_enroll_of_start started
  exact forall_members_enroll enrolled (by simp) fun _ => rfl

/-- A session that is started has a member. -/
theorem exists_member_start (started : start settings base actors = .ok s) :
    ∃ (a : Agent) (x : Member), s.members[a]? = some x := by
  obtain ⟨nonempty, -, enrolled⟩ := exists_enroll_of_start started
  obtain ⟨actor, rest, rfl⟩ := List.exists_cons_of_ne_nil nonempty
  have there := contains_enroll enrolled actor.agent
  rw [List.any_cons, beq_self_eq_true, Bool.true_or, Bool.or_true,
    ExtTreeMap.contains_eq_isSome_getElem?, Option.isSome_iff_exists] at there
  exact ⟨actor.agent, there⟩

/-- Different agents that are new are enrolled, each with its own copy of the model. -/
theorem exists_enroll (base : Model) (members : ExtTreeMap Agent Member) {actors : List Actor}
    (distinct : (actors.map Actor.agent).Nodup)
    (new : ∀ x ∈ actors, members.contains x.agent = false) :
    ∃ members', enroll base members actors = .ok members' ∧
      (∀ x ∈ actors, members'[x.agent]? = some (newMember base x)) ∧
      ∀ a, (∀ x ∈ actors, x.agent ≠ a) → members'[a]? = members[a]? := by
  -- Each agent that is enrolled joins the members, to which the later ones must still be new.
  induction actors generalizing members with
  | nil => exact ⟨members, rfl, by simp, fun _ _ => rfl⟩
  | cons actor rest ih =>
    obtain ⟨other, distinctRest⟩ := List.nodup_cons.1 distinct
    have apart : ∀ x ∈ rest, x.agent ≠ actor.agent := by
      intro x hx same
      exact other (same ▸ List.mem_map_of_mem hx)
    have stillNew : ∀ x ∈ rest,
        (members.insert actor.agent (newMember base actor)).contains x.agent = false := by
      intro x hx
      rw [ExtTreeMap.contains_insert, new x (List.mem_cons_of_mem _ hx), Bool.or_false,
        beq_eq_false_iff_ne]
      intro same
      exact apart x hx (Std.LawfulEqCmp.eq_of_compare same).symm
    obtain ⟨members', enrolled, added, kept⟩ := ih _ distinctRest stillNew
    refine ⟨members', ?_, ?_, ?_⟩
    · rw [enroll, if_neg]
      · exact enrolled
      · rw [new actor List.mem_cons_self]
        exact Bool.false_ne_true
    · intro x hx
      rcases List.mem_cons.1 hx with rfl | hx
      · rw [kept _ apart, ExtTreeMap.getElem?_insert_self]
      · exact added x hx
    · intro a others
      rw [kept a fun x hx => others x (List.mem_cons_of_mem _ hx), ExtTreeMap.getElem?_insert,
        if_neg]
      intro same
      exact others actor List.mem_cons_self (Std.LawfulEqCmp.eq_of_compare same)

/-- A session of different agents is started, and each has its own copy of the model. -/
theorem exists_start (settings : Settings) (base : Model) {actors : List Actor}
    (nonempty : actors ≠ []) (distinct : (actors.map Actor.agent).Nodup) :
    ∃ s, start settings base actors = .ok s ∧ s.settings = settings ∧ s.counters = ⟨0, 0, 0⟩ ∧
      (∀ x ∈ actors, s.members[x.agent]? = some (newMember base x)) ∧
      ∀ (a : Agent) (y : Member), s.members[a]? = some y → ∃ x ∈ actors, x.agent = a := by
  obtain ⟨members, enrolled, added, kept⟩ :=
    exists_enroll base ∅ distinct fun _ _ => ExtTreeMap.contains_empty
  refine ⟨⟨settings, ⟨0, 0, 0⟩, members, ∅⟩, ?_, rfl, rfl, added, ?_⟩
  · cases actors with
    | nil => exact absurd rfl nonempty
    | cons actor rest =>
      simp only [start, enrolled]
      rfl
  · -- No agent is a member before the first is enrolled.
    intro a y hy
    refine Classical.byContradiction fun strange => ?_
    simp only [not_exists, not_and] at strange
    have new : members[a]? = none := kept a strange
    rw [new] at hy
    cases hy

/-! ## (2) Edits -/

/-- The second member differs from the first at most in whom it hears and what it observes. -/
def SameCore (x y : Member) : Prop := y.model = x.model ∧ y.actor = x.actor

/-- What is left alone is changed by the identity. -/
theorem exists_unchanged (x? : Option Member) :
    ∃ g : Member → Member, (∀ x, SameCore x (g x)) ∧ x? = x?.map g :=
  ⟨id, fun _ => ⟨rfl, rfl⟩, by rw [Option.map_id_fun, id]⟩

/-- A change is made to one member, and leaves the others and the settings as they are. -/
theorem eq_of_change_eq_ok {a : Agent} {others : List Agent} {f : Member → Member}
    (changed : s.change a others f = .ok t) : t = s.withMembers (s.members.modify a f) := by
  rw [change] at changed
  split at changed
  · cases changed
  · exact (Except.ok.inj changed).symm

/-- A change that speaks of agents of the session only is made. -/
theorem change_eq_ok {s : Session} {a : Agent} {others : List Agent} {f : Member → Member}
    (known : ∀ b ∈ a :: others, s.members.contains b = true) :
    s.change a others f = .ok (s.withMembers (s.members.modify a f)) := by
  have none : s.firstUnknown? (a :: others) = none := by
    rw [firstUnknown?, List.find?_eq_none]
    intro b hb
    rw [known b hb]
    simp
  rw [change, none]

/-- A change to whom a member hears or what it observes changes no other part of any member. -/
theorem exists_getElem?_members_change {a : Agent} {others : List Agent} {f : Member → Member}
    (changed : s.change a others f = .ok t) (core : ∀ x, SameCore x (f x)) (b : Agent) :
    ∃ g : Member → Member, (∀ x, SameCore x (g x)) ∧ t.members[b]? = s.members[b]?.map g := by
  rw [eq_of_change_eq_ok changed, withMembers, ExtTreeMap.getElem?_modify]
  split
  · next same =>
    rw [Std.LawfulEqCmp.eq_of_compare same]
    exact ⟨f, core, rfl⟩
  · exact exists_unchanged s.members[b]?

/-- An edit is refused, sets arguments, or changes a member in whom it hears or what it
observes. -/
theorem edit_cases (s : Session) (e : Edit) :
    s.edit e = s ∨ (∃ action arguments, s.edit e = s.bind action arguments) ∨
      ∃ a others f, (∀ x, SameCore x (f x)) ∧ s.change a others f = .ok (s.edit e) := by
  cases edited : s.edit? e with
  | error _ =>
    refine .inl ?_
    rw [edit, edited]
  | ok t =>
    have done : s.edit e = t := by rw [edit, edited]
    rw [done]
    cases e with
    | setHeard a agents =>
      refine .inr (.inr ⟨a, _, _, ?_, edited⟩)
      exact fun _ => ⟨rfl, rfl⟩
    | permit a b =>
      refine .inr (.inr ⟨a, _, _, ?_, edited⟩)
      exact fun _ => ⟨rfl, rfl⟩
    | associate a atoms =>
      refine .inr (.inr ⟨a, _, _, ?_, edited⟩)
      exact fun _ => ⟨rfl, rfl⟩
    | bind action arguments =>
      exact .inr (.inl ⟨action, arguments, (Except.ok.inj edited).symm⟩)

/-- An edit leaves the settings. -/
theorem settings_edit (s : Session) (e : Edit) : (s.edit e).settings = s.settings := by
  rcases edit_cases s e with same | ⟨action, arguments, bound⟩ | ⟨a, others, f, -, changed⟩
  · rw [same]
  · rw [bound, bind]
  · rw [eq_of_change_eq_ok changed, withMembers]

/-- An edit changes of a member at most whom it hears and what it observes. -/
theorem exists_getElem?_members_edit (s : Session) (e : Edit) (b : Agent) :
    ∃ g : Member → Member, (∀ x, SameCore x (g x)) ∧
      (s.edit e).members[b]? = s.members[b]?.map g := by
  rcases edit_cases s e with same | ⟨action, arguments, bound⟩ | ⟨a, others, f, core, changed⟩
  · rw [same]
    exact exists_unchanged s.members[b]?
  · rw [bound]
    exact exists_unchanged s.members[b]?
  · exact exists_getElem?_members_change changed core b

/-- Edits leave the settings. -/
theorem settings_editAll (s : Session) (edits : List Edit) :
    (s.editAll edits).settings = s.settings := by
  induction edits generalizing s with
  | nil => rfl
  | cons e rest ih => rw [editAll, List.foldl_cons, ← editAll, ih, settings_edit]

/-- Edits change of a member at most whom it hears and what it observes. -/
theorem exists_getElem?_members_editAll (s : Session) (edits : List Edit) (b : Agent) :
    ∃ g : Member → Member, (∀ x, SameCore x (g x)) ∧
      (s.editAll edits).members[b]? = s.members[b]?.map g := by
  induction edits generalizing s with
  | nil => exact exists_unchanged s.members[b]?
  | cons e rest ih =>
    obtain ⟨g, core, members⟩ := exists_getElem?_members_edit s e b
    obtain ⟨g', core', members'⟩ := ih (s.edit e)
    -- The rest of the edits starts from the member that the first one has changed.
    refine ⟨g' ∘ g, ?_, ?_⟩
    · intro x
      obtain ⟨model, actor⟩ := core x
      obtain ⟨model', actor'⟩ := core' (g x)
      exact ⟨model'.trans model, actor'.trans actor⟩
    · rw [editAll, List.foldl_cons, ← editAll, members', members, Option.map_map]

end Session

end KnowledgePrograms
