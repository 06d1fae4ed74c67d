import KnowledgePrograms.Proofs.Session.Conservation
import KnowledgePrograms.Proofs.Session.Report
import KnowledgePrograms.Proofs.Session.Simulation

/-! # Consistent tables

The tables of a session are consistent: each has an entry for every agent and for no other, and an
agent hears agents of the session only. They are so from the start and whatever is done, since
entries are changed only after all agents that are named have been looked up. So an edit that names
an agent which is not there changes nothing, and no edit begins an entry.

* `Registry.Blames`, `Registry.EditsOnly`: an edit is refused without effect, for the right agent,
  or changes what it should.
* `Registry.handle`, `Session.handle`: all that may be done, and `Registry.handleAll_of`, that it
  comes to the same on tables and sessions.
* `Session.Filed`: the invariant, and `Session.Filed.handleAll`, that it is kept.
* `Registry.stays_consistent`: tables however they are handled. -/

namespace KnowledgePrograms

open Std (ExtTreeMap ExtTreeSet)

namespace Registry

variable {s : Session} {t : Registry} {a b c : Agent}

/-! ## (1) Whom an edit is refused for -/

/-- The edit of the agent, which names other agents too, is to be refused for this one: it is the
agent itself, or the least of the others that is not on file. -/
def Blames (t : Registry) (a : Agent) (others : List Agent) (c : Agent) : Prop :=
  c ∉ t.actors ∧ (c = a ∨ a ∈ t.actors ∧ c ∈ others ∧
    ∀ b ∈ others, compare b c = .lt → b ∈ t.actors)

/-- The first unknown agent, of one agent and then some in ascending order, is the one blamed. -/
theorem firstUnknown?_eq_some_iff {others : List Agent}
    (ascending : others.Pairwise fun x y => compare x y = .lt) :
    t.firstUnknown? (a :: others) = some c ↔ t.Blames a others c := by
  have unknown : ∀ b, (!t.actors.contains b) = true ↔ b ∉ t.actors := by
    intro b
    rw [Bool.not_eq_true', ← Bool.not_eq_true, ExtTreeMap.mem_iff_contains]
  rw [firstUnknown?, Blames, List.find?_cons]
  by_cases known : a ∈ t.actors
  · -- Whom the agent names is looked up in ascending order.
    rw [ExtTreeMap.mem_iff_contains.1 known, Bool.not_true]
    refine (Session.find?_eq_some_iff_of_ordered id ascending).trans ?_
    simp only [unknown, id, Classical.not_not, known, true_and]
    constructor
    · rintro ⟨⟨mem, out⟩, least⟩
      exact ⟨out, .inr ⟨mem, least⟩⟩
    · rintro ⟨out, rfl | ⟨mem, least⟩⟩
      · exact absurd known out
      · exact ⟨⟨mem, out⟩, least⟩
  · rw [(unknown a).2 known, Option.some.injEq]
    constructor
    · rintro rfl
      exact ⟨known, .inl rfl⟩
    · rintro ⟨-, rfl | ⟨there, -⟩⟩
      · rfl
      · exact absurd there known

/-! ## (2) Edits -/

/-- The edit of an agent, which names some other agents too, is refused without effect if it is to
be refused for some agent, and with this agent for a reason. Otherwise it leaves these tables. -/
structure EditsOnly (t : Registry) (p : Run Registry SetupError Unit) (a : Agent)
    (others : List Agent) (t' : Registry) : Prop where
  /-- The edit is refused for the agent to be blamed. -/
  refused_iff : ∀ e, (runOn p t).2 = .error e ↔ ∃ c, e = .unknownAgent c ∧ t.Blames a others c
  /-- Some agent is to be blamed if one is named that is not on file. -/
  blames_iff : (∃ c, t.Blames a others c) ↔ ∃ c ∈ a :: others, c ∉ t.actors
  /-- An edit that is refused changes nothing. -/
  unchanged : ∀ e, (runOn p t).2 = .error e → (runOn p t).1 = t
  /-- An edit that is not refused leaves these tables. -/
  changed : (runOn p t).2 = .ok () → (runOn p t).1 = t'

/-- Who is to be blamed depends on which agents are named, not on how. -/
theorem blames_congr {others others' : List Agent} (same : ∀ b, b ∈ others ↔ b ∈ others') :
    t.Blames a others c ↔ t.Blames a others' c := by
  simp only [Blames, same]

/-- A change that is made after an agent and some others, in ascending order, are looked up edits
only. -/
theorem editsOnly_checked (t : Registry) (a : Agent) {named others : List Agent}
    (ascending : named.Pairwise fun x y => compare x y = .lt)
    (same : ∀ b, b ∈ named ↔ b ∈ others) (g : Registry → Registry) :
    t.EditsOnly (do (a :: named).forM checkAgent; modify g) a others (g t) := by
  have ended := runOn_checked t (a :: named) g
  have first : ∀ c, t.firstUnknown? (a :: named) = some c ↔ t.Blames a others c := fun c =>
    (firstUnknown?_eq_some_iff ascending).trans (blames_congr same)
  refine ⟨fun e => ?_, ?_, fun e failed => ?_, fun ok => ?_⟩
  · rw [ended]
    simp only [← first]
    cases t.firstUnknown? (a :: named) with
    | none => simp
    | some c => simp [eq_comm]
  · simp only [← first]
    rw [← Option.isSome_iff_exists, firstUnknown?, List.find?_isSome]
    simp only [List.mem_cons, same, Bool.not_eq_true', ← Bool.not_eq_true,
      ExtTreeMap.mem_iff_contains]
  · rw [ended] at failed ⊢
    cases unknown : t.firstUnknown? (a :: named) with
    | none => simp [unknown] at failed
    | some c => rfl
  · rw [ended] at ok ⊢
    cases unknown : t.firstUnknown? (a :: named) with
    | none => rfl
    | some c => simp [unknown] at ok

end Registry

/-! ## (3) All that may be done -/

/-- Something done to a session, or its settings and counters given other values. -/
inductive Handling where
  /-- Change something, or ask for an announcement or a round. -/
  | deed (d : Deed)
  /-- Give the settings and the counters other values. -/
  | assign (settings : Settings) (counters : Counters)

namespace Session

variable {s t : Session} {a : Agent} {x : Member}

/-- The session after it is handled, whether or not this fails. -/
def handle (s : Session) : Handling → Session
  | .deed d => s.act d
  | .assign settings counters => ⟨settings, counters, s.members, s.bound⟩

/-- The session after it is handled in some ways. -/
def handleAll (s : Session) (handlings : List Handling) : Session := handlings.foldl handle s

end Session

namespace Registry

variable {s : Session} {t : Registry} {a : Agent}

/-- The tables after they are handled, whether or not this fails. -/
def handle (t : Registry) : Handling → Registry
  | .deed (.edit e) => (runOn (edit e) t).1
  | .deed (.call (.announce f)) => (runOn (announce f) t).1
  | .deed (.call (.round f r)) => (runOn (round f r) t).1
  | .assign settings counters => { t with settings := settings, counters := counters }

/-- The tables after they are handled in some ways. -/
def handleAll (t : Registry) (handlings : List Handling) : Registry :=
  handlings.foldl handle t

/-- To handle the tables of a session leaves the tables of the session so handled. -/
theorem handle_of (s : Session) (o : Handling) : (of s).handle o = of (s.handle o) := by
  cases o with
  | deed d =>
    cases d with
    | edit e =>
      rw [handle, runOn_edit, Session.handle, Session.act, Session.edit]
      cases s.edit? e <;> rfl
    | call c =>
      cases c with
      | announce f => exact congrArg Prod.fst (runOn_announce s f)
      | round f r => exact congrArg Prod.fst (runOn_round s f r)
  | assign settings counters => rfl

/-- To handle the tables of a session in some ways leaves the tables of the session so handled. -/
theorem handleAll_of (s : Session) (handlings : List Handling) :
    (of s).handleAll handlings = of (s.handleAll handlings) := by
  induction handlings generalizing s with
  | nil => rfl
  | cons o rest ih =>
    show ((of s).handle o).handleAll rest = of ((s.handle o).handleAll rest)
    rw [handle_of, ih]

end Registry

/-! ## (4) The invariant -/

namespace Session

variable {s t : Session} {a : Agent} {x : Member}

/-- Each agent of the session acts for itself and hears agents of the session. -/
structure Filed (s : Session) : Prop where
  /-- The actor of an agent is the agent's. -/
  agent_eq : ∀ (a : Agent) (x : Member), s.members[a]? = some x → x.actor.agent = a
  /-- Whom an agent hears is in the session. -/
  heard_known : ∀ (a : Agent) (x : Member), s.members[a]? = some x →
    ∀ b ∈ x.heard, s.members.contains b = true

/-- What changes each member, but not whom its actor acts for and whom it hears, keeps the
invariant. -/
theorem Filed.of_map (h : s.Filed) (g : Agent → Member → Member)
    (members : ∀ a, t.members[a]? = s.members[a]?.map (g a))
    (agent : ∀ a x, (g a x).actor.agent = x.actor.agent) (heard : ∀ a x, (g a x).heard = x.heard) :
    t.Filed where
  agent_eq a y hy := by
    rw [members] at hy
    obtain ⟨x, hx, rfl⟩ := Option.map_eq_some_iff.1 hy
    rw [agent, h.agent_eq a x hx]
  heard_known a y hy b hb := by
    rw [members] at hy
    obtain ⟨x, hx, rfl⟩ := Option.map_eq_some_iff.1 hy
    rw [heard] at hb
    have known := h.heard_known a x hx b hb
    rw [ExtTreeMap.contains_eq_isSome_getElem?] at known ⊢
    rw [members, Option.isSome_map, known]

/-- Announcements to the members keep the invariant. -/
theorem Filed.tell (h : s.Filed) (news : Agent → Member → List Formula) : (s.tell news).Filed :=
  h.of_map _ (getElem?_members_tell s news) (fun _ _ => rfl) fun _ _ => rfl

/-- Hearing explanations keeps the invariant. -/
theorem Filed.inform (h : s.Filed) (r : WorldRef) : (s.inform r).Filed :=
  h.of_map _ (getElem?_members_inform s r) (fun _ _ => rfl) fun _ _ => rfl

/-- The invariant is one of the members. -/
theorem Filed.of_members_eq (h : s.Filed) (members : t.members = s.members) : t.Filed where
  agent_eq := by
    rw [members]
    exact h.agent_eq
  heard_known := by
    rw [members]
    exact h.heard_known

/-- A change is made only if all agents are known. -/
theorem known_of_change_eq_ok {others : List Agent} {f : Member → Member}
    (changed : s.change a others f = .ok t) : ∀ b ∈ a :: others, s.members.contains b = true := by
  intro b hb
  rw [change] at changed
  split at changed
  · cases changed
  · next none =>
    have known := List.find?_eq_none.1 none b hb
    rwa [Bool.not_eq_true', Bool.not_eq_false] at known

/-- A change of whom a member hears, to agents that are named, keeps the invariant. -/
theorem Filed.change (h : s.Filed) {others : List Agent} {f : Member → Member}
    (changed : s.change a others f = .ok t) (actor : ∀ x, (f x).actor = x.actor)
    (heard : ∀ x, ∀ b ∈ (f x).heard, b ∈ x.heard ∨ b ∈ others) : t.Filed := by
  have known := known_of_change_eq_ok changed
  rw [eq_of_change_eq_ok changed]
  -- A member of the changed session comes from one that was there, by the change if it is its own.
  have from_before : ∀ (b : Agent) (y : Member), (s.members.modify a f)[b]? = some y →
      ∃ x, s.members[b]? = some x ∧ (y = f x ∨ y = x) := by
    intro b y hy
    rw [ExtTreeMap.getElem?_modify] at hy
    split at hy
    · next same =>
      obtain ⟨x, hx, rfl⟩ := Option.map_eq_some_iff.1 hy
      exact ⟨x, by rw [← Std.LawfulEqCmp.eq_of_compare same, hx], .inl rfl⟩
    · exact ⟨y, hy, .inr rfl⟩
  refine ⟨fun b y hy => ?_, fun b y hy c hc => ?_⟩
  · obtain ⟨x, hx, rfl | rfl⟩ := from_before b y hy
    · rw [actor, h.agent_eq b x hx]
    · exact h.agent_eq b y hx
  · show (s.members.modify a f).contains c = true
    rw [ExtTreeMap.contains_modify]
    obtain ⟨x, hx, rfl | rfl⟩ := from_before b y hy
    · rcases heard x c hc with before | named
      · exact h.heard_known b x hx c before
      · exact known c (List.mem_cons_of_mem _ named)
    · exact h.heard_known b y hx c hc

/-- An edit keeps the invariant. -/
theorem Filed.edit (h : s.Filed) (e : Edit) : (s.edit e).Filed := by
  rw [Session.edit]
  cases edited : s.edit? e with
  | error _ => exact h
  | ok t =>
    cases e with
    | setHeard a agents =>
      refine h.change edited (fun _ => rfl) fun x b hb => .inr ?_
      exact ExtTreeSet.mem_toList.2 hb
    | permit a b =>
      refine h.change edited (fun _ => rfl) fun x c hc => ?_
      rcases ExtTreeSet.mem_insert.1 hc with same | before
      · rw [Std.LawfulEqCmp.compare_eq_iff_eq] at same
        exact .inr (List.mem_singleton.2 same.symm)
      · exact .inl before
    | associate a atoms => exact h.change edited (fun _ => rfl) fun _ _ hb => .inl hb
    | bind action arguments =>
      obtain rfl := Except.ok.inj edited
      exact h.of_members_eq rfl

/-- To handle a session keeps the invariant. -/
theorem Filed.handle (h : s.Filed) (o : Handling) : (s.handle o).Filed := by
  cases o with
  | deed d =>
    cases d with
    | edit e => exact h.edit e
    | call c =>
      cases c with
      | announce f =>
        rw [Session.handle, act, call, fst_announce]
        exact h.tell _
      | round f r =>
        show (s.round f r).1.Filed
        have told : (s.tellAll f).Filed := h.tell _
        rcases s.fst_round_cases f r with ended | ended | ended
        · rw [ended]
          exact told
        · rw [ended]
          exact told.inform r
        · rw [ended]
          exact (told.inform r).of_members_eq rfl
  | assign settings counters => exact h.of_members_eq rfl

/-- To handle a session in some ways keeps the invariant. -/
theorem Filed.handleAll (h : s.Filed) (handlings : List Handling) :
    (s.handleAll handlings).Filed := by
  induction handlings generalizing s with
  | nil => exact h
  | cons o rest ih => exact ih (h.handle o)

/-- A session that is started has the invariant. -/
theorem filed_start {settings : Settings} {base : Model} {actors : List Actor}
    (started : start settings base actors = .ok s) : s.Filed := by
  obtain ⟨-, -, enrolled⟩ := exists_enroll_of_start started
  have each := forall_members_enroll
    (P := fun a x => x.actor.agent = a ∧ x.heard = ∅) enrolled (by simp) fun _ => ⟨rfl, rfl⟩
  refine ⟨fun a x hx => (each a x hx).1, fun a x hx b hb => ?_⟩
  rw [(each a x hx).2] at hb
  exact absurd hb ExtTreeSet.not_mem_empty

/-- To handle a session leaves the agents. -/
theorem agents_handleAll (s : Session) (handlings : List Handling) :
    (s.handleAll handlings).agents = s.agents := by
  induction handlings generalizing s with
  | nil => rfl
  | cons o rest ih =>
    refine (ih (s.handle o)).trans ?_
    cases o with
    | deed d => exact (s.shrinksTo_act d).agents_eq
    | assign settings counters => rfl

end Session

/-! ## (5) Consistent tables -/

namespace Registry

variable {s : Session} {t : Registry} {a : Agent}

/-- Each table has an entry for every agent on file and for no other, whose actor is the agent's
own, and an agent hears agents on file. -/
structure Consistent (t : Registry) : Prop where
  /-- The models are those of the agents. -/
  models_keys : t.models.keys = t.actors.keys
  /-- Those who hear are the agents. -/
  heard_keys : t.heard.keys = t.actors.keys
  /-- Those who observe are the agents. -/
  observed_keys : t.observed.keys = t.actors.keys
  /-- The actor of an agent is the agent's. -/
  agent_eq : ∀ (a : Agent) (x : Actor), t.actors[a]? = some x → x.agent = a
  /-- Whom an agent hears is on file. -/
  heard_known : ∀ (a : Agent) (heard : ExtTreeSet Agent), t.heard[a]? = some heard →
    ∀ b ∈ heard, b ∈ t.actors

/-- The tables of a session with the invariant are consistent. -/
theorem consistent_of (h : s.Filed) : (of s).Consistent where
  models_keys := by
    rw [keys_actors_of]
    exact ExtTreeMap.keys_map
  heard_keys := by
    rw [keys_actors_of]
    exact ExtTreeMap.keys_map
  observed_keys := by
    rw [keys_actors_of]
    exact ExtTreeMap.keys_map
  agent_eq a y hy := by
    obtain ⟨x, hx, rfl⟩ := Option.map_eq_some_iff.1 (ExtTreeMap.getElem?_map.symm.trans hy)
    exact h.agent_eq a x hx
  heard_known a heard filed b hb := by
    obtain ⟨x, hx, rfl⟩ := Option.map_eq_some_iff.1 (ExtTreeMap.getElem?_map.symm.trans filed)
    rw [ExtTreeMap.mem_iff_contains, contains_actors_of]
    exact h.heard_known a x hx b hb

/-- Where an agent has an entry, a default for it is not needed. -/
theorem insert_getD_eq_modify {β : Type} {table : ExtTreeMap Agent β} (filed : a ∈ table)
    (default : β) (g : β → β) : table.insert a (g (table[a]?.getD default)) = table.modify a g := by
  obtain ⟨v, hv⟩ := Option.isSome_iff_exists.1 (ExtTreeMap.mem_iff_isSome_getElem?.1 filed)
  refine ExtTreeMap.ext_getElem? fun b => ?_
  rw [ExtTreeMap.getElem?_insert, ExtTreeMap.getElem?_modify, hv, Option.getD_some,
    Option.map_some]

/-- An edit that is made leaves any tables that are the same if the agent is on file. -/
theorem EditsOnly.of_mem {p : Run Registry SetupError Unit} {others : List Agent} {u u' : Registry}
    (h : t.EditsOnly p a others u) (same : a ∈ t.actors → u = u') : t.EditsOnly p a others u' where
  refused_iff := h.refused_iff
  blames_iff := h.blames_iff
  unchanged := h.unchanged
  changed ok := by
    refine (h.changed ok).trans (same ?_)
    by_contra out
    have refused := (h.refused_iff (.unknownAgent a)).2 ⟨a, rfl, out, .inl rfl⟩
    rw [ok] at refused
    cases refused

/-- Letting an agent hear exactly some agents replaces its entry. -/
theorem editsOnly_setHeard (t : Registry) (a : Agent) (agents : List Agent) :
    t.EditsOnly (setHeard a agents) a agents
      { t with heard := t.heard.insert a (.ofList agents) } := by
  rw [setHeard_eq]
  refine editsOnly_checked t a ExtTreeSet.ordered_toList (fun b => ?_) _
  rw [ExtTreeSet.mem_toList, ExtTreeSet.mem_ofList, List.contains_iff_mem]

/-- In consistent tables, letting an agent hear another one extends its entry. -/
theorem Consistent.editsOnly_permit (h : t.Consistent) (a b : Agent) :
    t.EditsOnly (permit a b) a [b] { t with heard := t.heard.modify a fun x => x.insert b } := by
  rw [permit_eq]
  have checked := editsOnly_checked t a (List.pairwise_singleton _ b) (fun _ => Iff.rfl)
    fun t => { t with heard := t.heard.insert a ((t.heard[a]?.getD ∅).insert b) }
  refine checked.of_mem fun known => ?_
  rw [← ExtTreeMap.mem_keys, ← h.heard_keys, ExtTreeMap.mem_keys] at known
  exact congrArg (fun heard => { t with heard := heard })
    (insert_getD_eq_modify known ∅ fun x => x.insert b)

/-- In consistent tables, letting an agent observe some atoms extends its entry. -/
theorem Consistent.editsOnly_associate (h : t.Consistent) (a : Agent) (atoms : List Atom) :
    t.EditsOnly (associate a atoms) a []
      { t with observed := t.observed.modify a fun x => x.insertMany atoms } := by
  rw [associate_eq]
  have checked := editsOnly_checked t a List.Pairwise.nil (fun _ => Iff.rfl)
    fun t => { t with observed := t.observed.insert a ((t.observed[a]?.getD ∅).insertMany atoms) }
  refine checked.of_mem fun known => ?_
  rw [← ExtTreeMap.mem_keys, ← h.observed_keys, ExtTreeMap.mem_keys] at known
  exact congrArg (fun observed => { t with observed := observed })
    (insert_getD_eq_modify known ∅ fun x => x.insertMany atoms)

/-- A round that succeeds has an outcome and a number of worlds for every agent. -/
theorem mem_of_round_eq_ok {f : Formula} {r : WorldRef} {report : Round}
    (ok : (s.round f r).2 = .ok report) (mem : a ∈ s.agents) :
    a ∈ report.outcomes ∧ a ∈ report.worldCounts := by
  obtain ⟨x, hx⟩ := Session.mem_agents.1 mem
  have told : (s.tellAll f).members[a]? = some (x.withModel (x.model.announce f).2) := by
    rw [Session.getElem?_members_tellAll, hx, Option.map_some]
  rw [Session.eq_roundReport ok]
  constructor
  · rw [ExtTreeMap.mem_iff_isSome_getElem?, Session.getElem?_outcomes_roundReport, told,
      Option.isSome_map, Option.isSome_some]
  · -- The numbers are counted in the session that has heard the explanations.
    show a ∈ ((s.tellAll f).inform r).members.map fun _ x => x.model.worldCount
    rw [ExtTreeMap.mem_map, ExtTreeMap.mem_iff_isSome_getElem?, Session.getElem?_members_inform,
      told, Option.isSome_map, Option.isSome_some]

/-- **Tables stay consistent.** Let tables be begun for some actors, of different agents. This
succeeds, and however they are then handled, failures included, they are those of the session that
is handled so. They are consistent, and the agents on file are those of the actors. To let an agent
hear or observe something is refused if and only if an agent is named that is not on file, for the
agent itself or else for the least of the others, and then changes nothing. Otherwise it changes the
entry of the agent only, and replaces or extends it. Edits, announcements and rounds come to what
they do to the session; so no announcement and no round finds an agent missing, nor does a round
that succeeds pass over one. -/
theorem stays_consistent {settings : Settings} {base : Model} {actors : List Actor}
    (nonempty : actors ≠ []) (distinct : (actors.map Actor.agent).Nodup)
    (handlings : List Handling) :
    ∃ (t₀ : Registry) (s₀ : Session), start settings base actors = .ok t₀ ∧
      Session.start settings base actors = .ok s₀ ∧
      let t := t₀.handleAll handlings
      let s := s₀.handleAll handlings
      t = of s ∧ t.Consistent ∧ (∀ a, a ∈ t.actors ↔ ∃ x ∈ actors, x.agent = a) ∧
      (∀ a agents, t.EditsOnly (setHeard a agents) a agents
        { t with heard := t.heard.insert a (.ofList agents) }) ∧
      (∀ a b, t.EditsOnly (permit a b) a [b]
        { t with heard := t.heard.modify a fun x => x.insert b }) ∧
      (∀ a atoms, t.EditsOnly (associate a atoms) a []
        { t with observed := t.observed.modify a fun x => x.insertMany atoms }) ∧
      (∀ e, runOn (edit e) t = match s.edit? e with
        | .ok s' => (of s', .ok ())
        | .error e => (of s, .error e)) ∧
      (∀ f, runOn (announce f) t = (of (s.announce f).1, (s.announce f).2.mapError .run) ∧
        ∀ c, (runOn (announce f) t).2 ≠ .error (.unknownAgent c)) ∧
      ∀ f r, runOn (round f r) t = (of (s.round f r).1, (s.round f r).2.mapError .run) ∧
        (∀ c, (runOn (round f r) t).2 ≠ .error (.unknownAgent c)) ∧
        ∀ report, (runOn (round f r) t).2 = .ok report →
          ∀ a ∈ t.actors, a ∈ report.outcomes ∧ a ∈ report.worldCounts := by
  obtain ⟨s₀, started, -, -, enrolled, only⟩ :=
    Session.exists_start settings base nonempty distinct
  have filed := start_eq settings base actors
  rw [started] at filed
  refine ⟨of s₀, s₀, filed, started, ?_⟩
  intro t s
  have same : t = of s := handleAll_of s₀ handlings
  have consistent : t.Consistent :=
    same ▸ consistent_of ((Session.filed_start started).handleAll handlings)
  have agents : ∀ a, a ∈ t.actors ↔ a ∈ s.agents := by
    intro a
    rw [same, ← ExtTreeMap.mem_keys, keys_actors_of]
  refine ⟨same, consistent, fun a => ?_, editsOnly_setHeard t, consistent.editsOnly_permit,
    consistent.editsOnly_associate, fun e => ?_, fun f => ?_, fun f r => ?_⟩
  · rw [agents, Session.agents_handleAll, Session.mem_agents]
    constructor
    · rintro ⟨y, hy⟩
      exact only a y hy
    · rintro ⟨x, hx, rfl⟩
      exact ⟨_, enrolled x hx⟩
  · rw [same]
    exact runOn_edit s e
  · have ended := same ▸ runOn_announce s f
    refine ⟨ended, fun c => ?_⟩
    rw [ended]
    cases (s.announce f).2 <;> simp [Except.mapError]
  · have ended := same ▸ runOn_round s f r
    refine ⟨ended, fun c => ?_, fun report ok a mem => ?_⟩
    · rw [ended]
      cases (s.round f r).2 <;> simp [Except.mapError]
    · rw [ended] at ok
      cases result : (s.round f r).2 with
      | error e => simp [result, Except.mapError] at ok
      | ok report' =>
        rw [result] at ok
        obtain rfl := Except.ok.inj ok
        exact mem_of_round_eq_ok result ((agents a).1 mem)

/-- A stranger and a zebra are unknown to the seer and the hearer, also after a round and after the
stranger was to be let hear somebody. Of the two the stranger is the lesser, so it is the one for
which the hearer is not let hear them; and the seer may well be let hear the hearer. -/
theorem stays_consistent_stranger :
    let seer : Agent := ⟨"seer"⟩
    let hearer : Agent := ⟨"hearer"⟩
    let stranger : Agent := ⟨"stranger"⟩
    let actors : List Actor := [Session.answering seer, Session.answering hearer]
    let handlings : List Handling :=
      [.deed (.edit (.permit hearer seer)), .deed (.call (.round .top ⟨2, 1⟩)),
        .deed (.edit (.setHeard stranger [seer])), .assign .standard ⟨0, 0, 0⟩]
    actors ≠ [] ∧ (actors.map Actor.agent).Nodup ∧
    ∃ t₀ : Registry, start .standard Session.unequalSight actors = .ok t₀ ∧
      let t := t₀.handleAll handlings
      t.Consistent ∧
      runOn (setHeard hearer [⟨"zebra"⟩, seer, stranger]) t
        = (t, .error (.unknownAgent stranger)) ∧
      (runOn (permit seer hearer) t).1
        = { t with heard := t.heard.modify seer fun x => x.insert hearer } := by
  intro seer hearer stranger actors handlings
  have nonempty : actors ≠ [] := List.cons_ne_nil _ _
  have distinct : (actors.map Actor.agent).Nodup := by decide
  obtain ⟨t₀, -, filed, -, -, consistent, known, hears, permits, -⟩ :=
    @stays_consistent .standard Session.unequalSight actors nonempty distinct handlings
  have seer_known := (known seer).2 ⟨Session.answering seer, by simp [actors], rfl⟩
  have hearer_known := (known hearer).2 ⟨Session.answering hearer, by simp [actors], rfl⟩
  have stranger_unknown : stranger ∉ (t₀.handleAll handlings).actors := by
    rw [known stranger]
    decide
  refine ⟨nonempty, distinct, t₀, filed, consistent, ?_, ?_⟩
  · have edits := hears hearer [⟨"zebra"⟩, seer, stranger]
    have refused := (edits.refused_iff (.unknownAgent stranger)).2 <| by
      refine ⟨stranger, rfl, stranger_unknown, .inr ⟨hearer_known, by simp, fun b hb less => ?_⟩⟩
      obtain rfl | rfl | rfl : b = ⟨"zebra"⟩ ∨ b = seer ∨ b = stranger := by simpa using hb
      · exact absurd less (by decide)
      · exact seer_known
      · exact absurd less (by decide)
    exact Prod.ext (edits.unchanged _ refused) refused
  · have edits := permits seer hearer
    apply edits.changed
    cases result : (runOn (permit seer hearer) (t₀.handleAll handlings)).2 with
    | ok _ => rfl
    | error e =>
      obtain ⟨c, -, unknown, rfl | ⟨-, named, -⟩⟩ := (edits.refused_iff e).1 result
      · exact absurd seer_known unknown
      · exact absurd (List.mem_singleton.1 named ▸ hearer_known) unknown

end Registry

end KnowledgePrograms
