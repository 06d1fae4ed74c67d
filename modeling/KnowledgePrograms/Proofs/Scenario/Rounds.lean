import KnowledgePrograms.Proofs.Scenario.Setup
import KnowledgePrograms.Proofs.Session.Hearing
import KnowledgePrograms.Proofs.Session.Progress
import KnowledgePrograms.Proofs.Session.Report

/-! # The rounds of the muddy children

In a round the father says that some child is muddy, if it is the first, each child answers, and
each child hears the answers of some children. So a round takes what the children hold possible to
something that is given by it and by the muddy children alone: a child goes on to hold possible what
it did hold possible, provided that some child is muddy, if in that case each child that it hears
would have answered as it did.

* `told`, `informed`: what a round makes of what the children hold possible.
* `Plays.forall_heardBy_iff`: what a child hears, if explanations are conjoined.
* `Assembled.round_eq_ok`: a round succeeds if all children hold the actual world possible
  throughout, whatever it is that they hear.
* `Standing.round_eq_ok`, `Standing.round_eq_error`: what it is if explanations are conjoined.
* `Assembled.isFinished_iff`: whether the children hold nothing else possible.
* `runFor_eq`: how long a run goes on. -/

namespace KnowledgePrograms

open Std (ExtTreeMap ExtTreeSet)

/-- A model with a world has no other iff it has one world. -/
theorem Model.worldCount_eq_one_iff {m : Model} {r : WorldRef} (live : m.contains r = true) :
    m.worldCount = 1 ↔ ∀ s, m.contains s = true → s = r := by
  rw [← m.length_refs]
  constructor
  · intro one s there
    obtain ⟨t, only⟩ := List.length_eq_one_iff.1 one
    rw [contains_iff, only, List.mem_singleton] at live there
    rw [live, there]
  · intro only
    have same : m.refs = List.replicate m.refs.length r :=
      List.eq_replicate_of_mem fun s hs => only s (contains_iff.2 hs)
    have nodup := m.nodup_refs
    rw [same, List.nodup_replicate] at nodup
    have nonempty := List.length_pos_of_mem (contains_iff.1 live)
    omega

namespace MuddyChildren

variable {count rounds i : Nat} {hearing : Hearing} {views : Nat → Finset Nat → Bool}
  {possible : Finset Nat → Bool} {muddy : Finset Nat} {s : Session} {model : Model} {r : WorldRef}
  {m : MuddyChildren}

/-! ## (1) What is told -/

/-- What a child holds possible once the father has spoken in a round. -/
def told (rounds : Nat) (views : Nat → Finset Nat → Bool) (i : Nat) (muddy : Finset Nat) : Bool :=
  views i muddy && (rounds != 0 || decide muddy.Nonempty)

/-- After the first round the father has nothing more to say. -/
theorem told_of_pos (views : Nat → Finset Nat → Bool) (later : 0 < rounds) :
    told rounds views = views := by
  funext i x
  have spoken : (rounds != 0) = true := bne_iff_ne.2 later.ne'
  rw [told, spoken, Bool.true_or, Bool.and_true]

/-- The father's words are true where some child is muddy. -/
theorem Shows.satisfies_father (h : Shows count possible model) (live : model.contains r = true) :
    model.satisfies (.disjunction ((numbers count).map fun i => .atom (muddyAtom i))) r
      = decide (muddyAt count r).Nonempty := by
  rw [Model.satisfies_disjunction, List.any_map, Bool.eq_iff_iff, List.any_eq_true,
    decide_eq_true_iff]
  constructor
  · rintro ⟨i, hi, muddy⟩
    rw [Function.comp_apply, Model.satisfies, h.valueOf_muddyAtom hi live] at muddy
    exact ⟨i, of_decide_eq_true muddy⟩
  · rintro ⟨i, hi⟩
    have number := List.mem_toFinset.1 (muddyAt_subset hi)
    refine ⟨i, number, ?_⟩
    rw [Function.comp_apply, Model.satisfies, h.valueOf_muddyAtom number live]
    exact decide_eq_true hi

/-- The children stay gathered when every member is changed alike: each runs its program, hears whom
it heard, and has a model that shows what it holds possible now. -/
theorem Gathered.of_map {t : Session} {views' : Nat → Finset Nat → Bool}
    (h : Gathered count hearing views s) (g : Agent → Member → Member)
    (members : ∀ a, t.members[a]? = s.members[a]?.map (g a))
    (program : ∀ a x, (g a x).actor.program = x.actor.program)
    (heard : ∀ a x, (g a x).heard = x.heard)
    (shows : ∀ i ∈ numbers count, ∀ x, x.heard = .ofList (hears count hearing i) →
      Shows count (views i) x.model → Shows count (views' i) (g (child i) x).model) :
    Gathered count hearing views' t where
  exists_child a y hy := by
    rw [members] at hy
    obtain ⟨x, hx, -⟩ := Option.map_eq_some_iff.1 hy
    exact h.exists_child a x hx
  exists_member i hi := by
    obtain ⟨x, hx, runs, listens, before⟩ := h.exists_member i hi
    refine ⟨g (child i) x, by rw [members, hx, Option.map_some], ?_, ?_,
      shows i hi x listens before⟩
    · rw [program, runs]
    · rw [heard, listens]

/-- Only what is possible of the sets of children counts for what the children hold possible. -/
theorem Gathered.congr {views' : Nat → Finset Nat → Bool} (h : Gathered count hearing views s)
    (same : ∀ i ∈ numbers count, ∀ x ⊆ (numbers count).toFinset, views i x = views' i x) :
    Gathered count hearing views' s :=
  h.of_map (fun _ x => x) (fun _ => by simp) (fun _ _ => rfl) (fun _ _ => rfl)
    fun i hi _ _ shows => shows.congr (same i hi)

/-- An announcement leaves to each child what it holds possible and the formula is true of. -/
theorem Gathered.tellAll (h : Gathered count hearing views s) (f : Formula)
    (meaning : Finset Nat → Bool)
    (truth : ∀ {possible : Finset Nat → Bool} {model : Model} {r : WorldRef},
      Shows count possible model → model.contains r = true →
      model.satisfies f r = meaning (muddyAt count r)) :
    Gathered count hearing (fun i muddy => views i muddy && meaning muddy) (s.tellAll f) := by
  refine h.of_map (fun _ x => x.withModel (x.model.announce f).2)
    (Session.getElem?_members_tellAll s f) (fun _ _ => rfl) (fun _ _ => rfl) ?_
  intro i hi x _ shows
  have kept := (x.model.isSubmodel_announce f).congr fun r live => by rw [truth shows live]
  refine (kept.trans shows).congr fun r _ => ?_
  rw [Bool.and_eq_true]

/-- Every child has a model that shows what it holds possible. -/
theorem Gathered.exists_model (h : Gathered count hearing views s) (hi : i ∈ numbers count) :
    ∃ model, s.model? (child i) = some model ∧ Shows count (views i) model := by
  obtain ⟨x, hx, -, -, shows⟩ := h.exists_member i hi
  refine ⟨x.model, ?_, shows⟩
  rw [Session.model?_eq, hx, Option.map_some]

/-- Every model of the session is that of a child. -/
theorem Gathered.exists_shows (h : Gathered count hearing views s) {a : Agent}
    (found : s.models[a]? = some model) :
    ∃ i ∈ numbers count, child i = a ∧ Shows count (views i) model := by
  rw [Session.getElem?_models] at found
  obtain ⟨x, hx, rfl⟩ := Option.map_eq_some_iff.1 found
  obtain ⟨i, hi, rfl⟩ := h.exists_child a x hx
  obtain ⟨x', hx', -, -, shows⟩ := h.exists_member i hi
  obtain rfl := Option.some.inj (hx.symm.trans hx')
  exact ⟨i, hi, rfl, shows⟩

/-- Every member has the actual world iff every child holds its set possible. -/
theorem Gathered.firstWithout?_eq_none_iff (h : Gathered count hearing views s)
    (live : (base count).contains r = true) :
    s.firstWithout? r = none ↔ ∀ i ∈ numbers count, views i (muddyAt count r) = true := by
  rw [Session.firstWithout?_eq_none_iff]
  constructor
  · intro present i hi
    obtain ⟨x, hx, -, -, shows⟩ := h.exists_member i hi
    exact (shows.contains_iff.1 (present _ x hx)).2
  · intro possible a x hx
    have found : s.models[a]? = some x.model := by
      rw [Session.getElem?_models, hx, Option.map_some]
    obtain ⟨i, hi, -, shows⟩ := h.exists_shows found
    exact shows.contains_iff.2 ⟨live, possible i hi⟩

/-- The father speaks in the first round only. -/
theorem Assembled.tellAll (h : Assembled count hearing muddy rounds views m) :
    Gathered count hearing (told rounds views) (m.session.tellAll m.announcement) := by
  refine h.gathered.tellAll _ (fun muddy => rounds != 0 || decide muddy.Nonempty) ?_
  intro possible model r shows live
  rw [announcement, h.rounds_eq]
  cases rounds with
  | zero =>
    rw [if_pos rfl, h.father_eq, shows.satisfies_father live]
    rfl
  | succ rounds =>
    rw [if_neg (Nat.succ_ne_zero rounds), Formula.top, Model.satisfies, Model.satisfiesAll]
    rfl

/-- Once the father has spoken every member has the actual world if every child holds its set
possible. -/
theorem Assembled.firstWithout?_tellAll (h : Assembled count hearing muddy rounds views m)
    (first : ∀ i ∈ numbers count, told rounds views i muddy = true) :
    (m.session.tellAll m.announcement).firstWithout? m.actual = none := by
  refine (h.tellAll.firstWithout?_eq_none_iff h.contains_actual).2 ?_
  rwa [h.muddyAt_actual]

/-! ## (2) What is heard -/

/-- What a child holds possible once it has heard what it hears. -/
def informed (count : Nat) (hearing : Hearing) (views : Nat → Finset Nat → Bool)
    (actual : Finset Nat) (i : Nat) (muddy : Finset Nat) : Bool :=
  views i muddy && (audible count hearing i).all fun j =>
    answer (views i) j muddy == answer (views j) j actual

/-- A child goes on to hold a set possible iff in its world each child that it hears would have
answered as it did. -/
theorem informed_iff {actual : Finset Nat} : informed count hearing views actual i muddy = true ↔
    views i muddy = true ∧ ∀ j ∈ audible count hearing i,
      answer (views i) j muddy = answer (views j) j actual := by
  rw [informed, Bool.and_eq_true, List.all_eq_true]
  simp only [beq_iff_eq]

/-- The program of a child selects an action of a name iff it is that of its answer. -/
theorem Shows.selectsAt_iff (h : Shows count possible model) (hi : i ∈ numbers count)
    (live : model.contains r = true) {name : String} :
    (program (child i) (muddyAtom i)).SelectsAt model r name ↔
      (answer possible i (muddyAt count r)).action.name = name := by
  have selected := h.action_chooseAt hi live
  obtain ⟨selection, chosen, action⟩ := Option.map_eq_some_iff.1 selected
  rw [Program.selectsAt_iff live, Program.picks, chosen, Option.any_some, decide_eq_true_iff,
    action]

/-- A child that has the world selects the action by which it gives its answer there. -/
theorem Gathered.exists_selection (h : Gathered count hearing views s) (hi : i ∈ numbers count)
    (present : ∀ (a : Agent) (x : Member), s.members[a]? = some x → x.model.contains r = true) :
    ∃ (x : Member) (selection : Selection), s.members[child i]? = some x ∧
      x.actor.program = program (child i) (muddyAtom i) ∧
      (program (child i) (muddyAtom i)).chooseAt x.model r = some selection ∧
      selection.action = (answer (views i) i (muddyAt count r)).action := by
  obtain ⟨x, hx, runs, -, shows⟩ := h.exists_member i hi
  obtain ⟨selection, chosen, action⟩ :=
    Option.map_eq_some_iff.1 (shows.action_chooseAt hi (present _ x hx))
  exact ⟨x, selection, hx, runs, chosen, action⟩

/-- A child may hear the children that it is to hear. -/
theorem mem_heard {x : Member} (heard : x.heard = .ofList (hears count hearing i)) {b : Agent} :
    b ∈ x.heard ↔ ∃ j ∈ audible count hearing i, child j = b := by
  rw [heard, ExtTreeSet.mem_ofList, List.contains_iff_mem, hears_eq, List.mem_map]

/-- A child hears the children that it is to hear, itself among them if it is one. -/
theorem Plays.hears_iff (h : Plays count hearing views s) {x : Member}
    (heard : x.heard = .ofList (hears count hearing i)) {b : Agent} :
    s.Hears (child i) x b ↔ ∃ j ∈ audible count hearing i, child j = b := by
  rw [Session.Hears, mem_heard heard]
  refine and_iff_left_of_imp ?_
  rintro ⟨j, hj, -⟩
  refine .inl (h.selfHearing ?_)
  rintro rfl
  cases hj

/-- What a child hears is true in just those worlds in which each child that it hears would have
answered as it did: what is heard are explanations of actions, and a child acts by its answer. -/
theorem Plays.forall_heardBy_iff (h : Plays count hearing views s)
    (present : ∀ (a : Agent) (x : Member), s.members[a]? = some x → x.model.contains r = true)
    {x : Member} (heard : x.heard = .ofList (hears count hearing i))
    (shows : Shows count (views i) x.model) (hi : i ∈ numbers count) {v : WorldRef}
    (live : x.model.contains v = true) :
    (∀ e ∈ s.heardBy (s.selectAll r).explanations (child i) x, x.model.satisfies e v = true) ↔
      ∀ j ∈ audible count hearing i,
        answer (views i) j (muddyAt count v) = answer (views j) j (muddyAt count r) := by
  rw [Session.forall_heardBy_iff present x live]
  constructor
  · intro same j hj
    have number := mem_numbers_of_mem_audible hi hj
    obtain ⟨z, hz, runs, -, others⟩ := h.exists_member j number
    have agree := same (child j) ((h.hears_iff heard).2 ⟨j, hj, rfl⟩) z hz
    rw [runs] at agree
    have selects := agree _ ((others.selectsAt_iff number (present _ z hz)).2 rfl)
    exact Answer.name_action_inj.1 ((shows.selectsAt_iff number live).1 selects)
  · intro same b hears z hz name selects
    obtain ⟨j, hj, rfl⟩ := (h.hears_iff heard).1 hears
    have number := mem_numbers_of_mem_audible hi hj
    obtain ⟨z', hz', runs, -, others⟩ := h.exists_member j number
    obtain rfl := Option.some.inj (hz.symm.trans hz')
    rw [runs, others.selectsAt_iff number (present _ z hz)] at selects
    rw [runs, shows.selectsAt_iff number live, same j hj, selects]

/-- Hearing the answers given at a world leaves to each child what it holds possible and what the
children that it hears would have answered the same in. -/
theorem Plays.inform (h : Plays count hearing views s)
    (present : ∀ (a : Agent) (x : Member), s.members[a]? = some x → x.model.contains r = true) :
    Gathered count hearing (informed count hearing views (muddyAt count r)) (s.inform r) := by
  refine h.toGathered.of_map _ (Session.getElem?_members_inform s r) (fun _ _ => rfl)
    (fun _ _ => rfl) ?_
  intro i hi x heard shows
  show Shows count _ (x.model.announceEach (s.newsFor r (child i) x)).2
  rw [Session.newsFor, h.conjoined]
  have kept := (Session.isSubmodel_announceEach_conjoined x.model
    (s.heardBy (s.selectAll r).explanations (child i) x)).congr
      fun v live => h.forall_heardBy_iff present heard shows hi live
  exact (kept.trans shows).congr fun v _ => informed_iff.symm

/-! ## (3) Rounds -/

/-- A round succeeds if all children hold the actual set possible when the father has spoken and
when they have heard what they hear. It reports the answers, and is counted. -/
theorem Assembled.round_eq_ok {views' : Nat → Finset Nat → Bool}
    (h : Assembled count hearing muddy rounds views m)
    (first : ∀ i ∈ numbers count, told rounds views i muddy = true)
    (informs : Gathered count hearing views'
      ((m.session.tellAll m.announcement).inform m.actual))
    (second : ∀ i ∈ numbers count, views' i muddy = true) :
    ∃ report, m.round.2 = .ok report ∧
      (∀ i ∈ numbers count, report.action? (child i)
        = some (answer (told rounds views i) i muddy).action.name) ∧
      Assembled count hearing muddy (rounds + 1) views' m.round.1 ∧
      m.round.1.session.settings = m.session.settings := by
  have firstNone := h.firstWithout?_tellAll first
  obtain rfl := h.muddyAt_actual
  have secondNone := (informs.firstWithout?_eq_none_iff h.contains_actual).2 second
  have present := Session.firstWithout?_eq_none_iff.1 firstNone
  have ended := Session.round_eq_ok firstNone secondNone
  refine ⟨m.session.roundReport m.announcement m.actual, ?_, ?_,
    ⟨⟨h.contains_actual, rfl, h.father_eq⟩, ?_, ?_⟩, ?_⟩
  · rw [round, ended]
  · intro i hi
    obtain ⟨x, selection, hx, runs, chosen, action⟩ := h.tellAll.exists_selection hi present
    rw [Session.action?_roundReport, hx, Option.bind_some, runs, chosen, Option.map_some, action]
  · rw [round, ended]
    -- Counting the round does not change the members.
    exact ⟨⟨informs.exists_child⟩, informs.exists_member⟩
  · rw [round, ended, ← h.rounds_eq]
    rfl
  · rw [round, ended]
    rfl

/-- What the children hold possible after a round. -/
def next (count : Nat) (hearing : Hearing) (actual : Finset Nat) (rounds : Nat)
    (views : Nat → Finset Nat → Bool) : Nat → Finset Nat → Bool :=
  informed count hearing (told rounds views) actual

/-- If explanations are conjoined, the children have heard the answers given in the actual world. -/
theorem Standing.inform (h : Standing count hearing muddy rounds views m)
    (first : ∀ i ∈ numbers count, told rounds views i muddy = true) :
    Gathered count hearing (next count hearing muddy rounds views)
      ((m.session.tellAll m.announcement).inform m.actual) := by
  have present := Session.firstWithout?_eq_none_iff.1 (h.firstWithout?_tellAll first)
  obtain rfl := h.muddyAt_actual
  have plays : Plays count hearing (told rounds views) (m.session.tellAll m.announcement) :=
    ⟨h.tellAll, h.toAttends⟩
  exact plays.inform present

/-- A round succeeds if all children hold the actual set possible when the father has spoken and
when they have heard the answers. It reports the answers, and is counted. -/
theorem Standing.round_eq_ok (h : Standing count hearing muddy rounds views m)
    (first : ∀ i ∈ numbers count, told rounds views i muddy = true)
    (second : ∀ i ∈ numbers count, next count hearing muddy rounds views i muddy = true) :
    ∃ report, m.round.2 = .ok report ∧
      (∀ i ∈ numbers count, report.action? (child i)
        = some (answer (told rounds views i) i muddy).action.name) ∧
      Standing count hearing muddy (rounds + 1) (next count hearing muddy rounds views) m.round.1 ∧
      m.round.1.session.settings = m.session.settings := by
  obtain ⟨report, ok, actions, assembled, settings⟩ :=
    h.toAssembled.round_eq_ok first (h.inform first) second
  exact ⟨report, ok, actions, ⟨assembled, settings ▸ h.toAttends⟩, settings⟩

/-- A round fails for want of the actual world if a child no longer holds the actual set possible
when it has heard the answers. -/
theorem Standing.round_eq_error (h : Standing count hearing muddy rounds views m)
    (first : ∀ i ∈ numbers count, told rounds views i muddy = true)
    (lost : ∃ i ∈ numbers count, next count hearing muddy rounds views i muddy = false) :
    ∃ a, m.round.2 = .error (.invalidModel a m.actual) := by
  have firstNone := h.firstWithout?_tellAll first
  have informs := h.inform first
  obtain rfl := h.muddyAt_actual
  rcases Session.round_cases m.session m.announcement m.actual with
    ⟨a, missing, -⟩ | ⟨-, a, -, ended⟩ | ⟨-, secondNone, -⟩
  · rw [firstNone] at missing
    cases missing
  · exact ⟨a, by rw [round, ended]⟩
  · obtain ⟨i, hi, lost⟩ := lost
    have kept := (informs.firstWithout?_eq_none_iff h.contains_actual).1 secondNone i hi
    rw [lost] at kept
    cases kept

/-- The children that hold the actual set possible have finished iff none holds another set
possible. -/
theorem Assembled.isFinished_iff (h : Assembled count hearing muddy rounds views m)
    (possible : ∀ i ∈ numbers count, views i muddy = true) :
    ∃ finished, m.isFinished = .ok finished ∧
      (finished = true ↔ ∀ i ∈ numbers count, ∀ x ⊆ (numbers count).toFinset,
        views i x = true → x = muddy) := by
  obtain rfl := h.muddyAt_actual
  have none := (h.gathered.firstWithout?_eq_none_iff h.contains_actual).2 possible
  refine ⟨m.session.allSingle, by rw [isFinished, Session.isFinishedAt, none], ?_⟩
  rw [Session.allSingle_iff]
  constructor
  · intro single i hi x children hx
    obtain ⟨model, found, shows⟩ := h.gathered.exists_model hi
    have here := shows.contains_iff.2 ⟨h.contains_actual, possible i hi⟩
    obtain ⟨s, there, rfl⟩ := shows.exists_contains children hx
    rw [(Model.worldCount_eq_one_iff here).1 (single _ model found) s there]
  · -- A child has the actual world, so it has no other if there is no other set.
    intro only a model found
    obtain ⟨i, hi, -, shows⟩ := h.gathered.exists_shows found
    have here := shows.contains_iff.2 ⟨h.contains_actual, possible i hi⟩
    refine (Model.worldCount_eq_one_iff here).2 fun s there => ?_
    obtain ⟨start, hs⟩ := shows.contains_iff.1 there
    exact muddyAt_inj start h.contains_actual (only i hi _ muddyAt_subset hs)

/-- Only what is possible of the sets of children counts for how a scenario stands. -/
theorem Standing.congr {views' : Nat → Finset Nat → Bool}
    (h : Standing count hearing muddy rounds views m)
    (same : ∀ i ∈ numbers count, ∀ x ⊆ (numbers count).toFinset, views i x = views' i x) :
    Standing count hearing muddy rounds views' m where
  toPoses := h.toPoses
  gathered := h.gathered.congr same
  rounds_eq := h.rounds_eq
  toAttends := h.toAttends

/-! ## (4) Runs -/

/-- The scenario after some rounds, whether or not they succeed. -/
def after (m : MuddyChildren) : Nat → MuddyChildren
  | 0 => m
  | rounds + 1 => (m.after rounds).round.1

/-- The first round and the later ones. -/
theorem after_round (m : MuddyChildren) (rounds : Nat) :
    m.round.1.after rounds = m.after (rounds + 1) := by
  induction rounds with
  | zero => rfl
  | succ rounds ih => rw [after, ih]; rfl

/-- A run goes on up to the round after which the children have finished, or up to the limit, if
that comes before. It reports just the rounds up to there. -/
theorem runFor_eq {m : MuddyChildren} {last limit : Nat} (positive : 0 < last)
    (succeeds : ∀ r < last, ∃ report, (m.after r).round.2 = .ok report)
    (running : ∀ r, 0 < r → r < last → (m.after r).isFinished = .ok false)
    (finished : last ≤ limit → (m.after last).isFinished = .ok true) :
    ∃ reports, runFor limit m = (m.after (min last limit), .ok reports) ∧
      reports.map .ok = (List.range (min last limit)).map fun r => (m.after r).round.2 := by
  -- Induction on the limit: after the first round the scenario is one round closer to the last.
  induction limit generalizing m last with
  | zero => exact ⟨[], by rw [runFor, Nat.min_zero]; rfl, by rw [Nat.min_zero]; rfl⟩
  | succ limit ih =>
    obtain ⟨report, succeeded⟩ := succeeds 0 positive
    have round : m.round = (m.after 1, .ok report) := by
      rw [← succeeded]
      rfl
    by_cases more : 1 < last
    · obtain ⟨later, rfl⟩ : ∃ later, last = later + 1 := ⟨last - 1, by omega⟩
      have unfinished := running 1 Nat.one_pos more
      obtain ⟨reports, ran, reported⟩ := @ih m.round.1 later (by omega)
        (fun r hr => by rw [after_round]; exact succeeds (r + 1) (by omega))
        (fun r positive hr => by rw [after_round]; exact running (r + 1) (by omega) (by omega))
        (fun within => by rw [after_round]; exact finished (by omega))
      simp only [after_round] at reported
      refine ⟨report :: reports, ?_, ?_⟩
      · simp only [runFor, round, unfinished]
        have ran' : runFor limit (m.after 1) = _ := ran
        rw [ran', after_round, Nat.succ_min_succ]
        rfl
      · rw [Nat.succ_min_succ, List.range_succ_eq_map, List.map_cons, List.map_cons, List.map_map,
          reported, ← succeeded]
        rfl
    · obtain rfl : last = 1 := by omega
      have one : min 1 (limit + 1) = 1 := by omega
      refine ⟨[report], ?_, ?_⟩
      · simp only [runFor, round, finished (by omega), one]
      · rw [one, List.map_singleton, ← succeeded]
        rfl

/-- A run in which no round fails and the children never finish goes on up to the limit. -/
theorem runFor_of_unfinished (succeeds : ∀ r, ∃ report, (m.after r).round.2 = .ok report)
    (running : ∀ r, 0 < r → (m.after r).isFinished = .ok false) (limit : Nat) :
    ∃ reports, runFor limit m = (m.after limit, .ok reports) ∧
      reports.map .ok = (List.range limit).map fun r => (m.after r).round.2 := by
  -- The round after which all have finished is none of those up to the limit.
  have never : limit + 1 ≤ limit → (m.after (limit + 1)).isFinished = .ok true :=
    fun within => absurd within (Nat.not_succ_le_self limit)
  have ran := runFor_eq limit.succ_pos (fun r _ => succeeds r)
    (fun r positive _ => running r positive) never
  rwa [Nat.min_eq_right limit.le_succ] at ran

end MuddyChildren

end KnowledgePrograms
