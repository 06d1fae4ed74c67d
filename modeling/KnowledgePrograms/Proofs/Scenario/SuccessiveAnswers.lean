import KnowledgePrograms.Proofs.Scenario.PublicAnswers
import KnowledgePrograms.Proofs.Session.Failure
import KnowledgePrograms.Proofs.Session.Redistribution

/-! # Muddy children who hear one answer after the other

When several children are muddy, all say in the first round that they do not know. If these answers
are announced one after the other, each is read on what the earlier ones have left, as if the child
had said so then. The first leaves the sets with a muddy child besides the one that has spoken; the
next leaves those with a muddy child besides these two, as the child would have known otherwise, and
so on. When the last has spoken there would have to be a muddy child besides all, and nothing is
left, whatever the order is in which the children have spoken.

* `SaysUnknown`: what it is for a formula to say that a child does not know.
* `Shows.announce_unknown`, `Shows.announceEach_unknown`: what one such formula leaves, and what
  several leave in any order.
* `Gathered.inform_successive`: what hearing the answers leaves.
* `compare_child_ne_lt`: the child that is named when the actual world is lost.
* `successive_answers_leave_nothing`: what becomes of the first round. -/

namespace KnowledgePrograms

open Std (ExtTreeMap ExtTreeSet)

namespace MuddyChildren

variable {count i j : Nat} {hearing : Hearing} {said x : Finset Nat} {e : Formula} {n : Model}
  {r : WorldRef} {s : Session} {m : MuddyChildren}

/-! ## (1) Saying that one does not know -/

/-- Wherever it is read, the formula says that the child does not know whether it is muddy. -/
def SaysUnknown (count j : Nat) (e : Formula) : Prop :=
  ∀ (possible : Finset Nat → Bool) (n : Model) (r : WorldRef), Shows count possible n →
    n.contains r = true →
    (n.satisfies e r = true ↔ answer possible j (muddyAt count r) = .unknown)

/-- The explanation of the answer says so. -/
theorem saysUnknown_of_explain (hj : j ∈ numbers count) {limit : Nat}
    (explained : (program (child j) (muddyAtom j)).explain Answer.unknown.action.name limit
      = some e) : SaysUnknown count j e := by
  intro possible n r shows live
  rw [Program.satisfies_explain explained, ← Program.selectsAt_iff live,
    shows.selectsAt_iff hj live, Answer.name_action_inj]

/-- Some child is muddy besides those that have spoken. -/
def muddyBesides (said : Finset Nat) (muddy : Finset Nat) : Bool := decide (muddy \ said).Nonempty

/-- What is possible becomes less when another child has spoken. -/
theorem muddyBesides_of_insert (h : muddyBesides (insert j said) x = true) :
    muddyBesides said x = true := by
  rw [muddyBesides, decide_eq_true_iff] at h ⊢
  exact h.mono (Finset.sdiff_subset_sdiff (Finset.Subset.refl x) (Finset.subset_insert j said))

/-- A child does not know just if some child is muddy besides it and those that have spoken. -/
theorem answer_muddyBesides :
    answer (muddyBesides said) j x = .unknown ↔ muddyBesides (insert j said) x = true := by
  have without : muddyBesides said (x.erase j) = muddyBesides (insert j said) x := by
    rw [muddyBesides, muddyBesides, Finset.erase_sdiff_comm, Finset.sdiff_insert]
  rw [answer_eq_unknown_iff, without]
  refine and_iff_left_of_imp fun besides => ?_
  have before := muddyBesides_of_insert besides
  rw [muddyBesides, decide_eq_true_iff] at before ⊢
  exact before.mono (Finset.sdiff_subset_sdiff (Finset.subset_insert j x) (Finset.Subset.refl said))

/-- Hearing that another child does not know leaves the sets with a muddy child besides it too. -/
theorem Shows.announce_unknown (h : Shows count (muddyBesides said) n)
    (spoken : SaysUnknown count j e) :
    Shows count (muddyBesides (insert j said)) (n.announce e).2 := by
  have kept := (n.isSubmodel_announce e).congr fun r live =>
    (spoken _ n r h live).trans answer_muddyBesides
  refine (kept.trans h).congr fun r _ => ?_
  exact and_iff_right_of_imp muddyBesides_of_insert

/-- Hearing one after the other that some children do not know leaves the sets with a muddy child
besides them, in whatever order they speak. -/
theorem Shows.announceEach_unknown {js : List Nat} {es : List Formula}
    (spoken : List.Forall₂ (SaysUnknown count) js es) (h : Shows count (muddyBesides said) n) :
    Shows count (muddyBesides (js.toFinset ∪ said)) (n.announceEach es).2 := by
  -- Induction on the formulas: the children that have spoken are joined by the next.
  induction spoken generalizing n said with
  | nil =>
    rw [List.toFinset_nil, Finset.empty_union]
    exact h
  | cons first _ ih =>
    rw [List.toFinset_cons, Finset.insert_union, ← Finset.union_insert]
    exact ih (h.announce_unknown first)

/-! ## (2) Hearing that nobody knows -/

/-- If no child knows, the answer of each is explained by a formula that says so. -/
theorem Gathered.exists_explanation {views : Nat → Finset Nat → Bool}
    (h : Gathered count hearing views s)
    (present : ∀ (a : Agent) (x : Member), s.members[a]? = some x → x.model.contains r = true)
    (hj : j ∈ numbers count) (unknown : answer (views j) j (muddyAt count r) = .unknown) :
    ∃ e, (s.selectAll r).explanations[child j]? = some e ∧ SaysUnknown count j e := by
  obtain ⟨x, selection, hx, runs, chosen, action⟩ := h.exists_selection hj present
  rw [unknown] at action
  obtain ⟨e, explained, -⟩ :=
    Program.exists_explain_of_chooseAt chosen s.settings.simplificationLimit.value
  rw [action] at explained
  refine ⟨e, ?_, saysUnknown_of_explain hj explained⟩
  rw [Session.getElem?_explanations_selectAll, hx, Option.bind_some, runs, chosen, Option.bind_some,
    action, explained]

/-- If the answer of each child is so explained, the explanations found for some of them say in
order that they do not know. -/
theorem exists_numbers {explanations : ExtTreeMap Agent Formula} {bs : List Agent}
    (children : ∀ b ∈ bs, ∃ j ∈ numbers count, child j = b)
    (explained : ∀ j ∈ numbers count, ∃ e,
      explanations[child j]? = some e ∧ SaysUnknown count j e) :
    ∃ js : List Nat, js.map child = bs ∧
      List.Forall₂ (SaysUnknown count) js (bs.filterMap fun b => explanations[b]?) := by
  induction bs with
  | nil => exact ⟨[], rfl, .nil⟩
  | cons b rest ih =>
    obtain ⟨⟨j, hj, rfl⟩, others⟩ := List.forall_mem_cons.1 children
    obtain ⟨e, found, spoken⟩ := explained j hj
    obtain ⟨js, rfl, later⟩ := ih others
    refine ⟨j :: js, rfl, ?_⟩
    rw [List.filterMap_cons_some found]
    exact .cons spoken later

/-- Who hears every child hears of each, one after the other, that it does not know. -/
theorem Gathered.exists_newsFor {views : Nat → Finset Nat → Bool}
    (h : Gathered count .all views s)
    (successive : s.settings.redistribution.value = .successive)
    (selfHearing : s.settings.selfHearing.value = true)
    (present : ∀ (a : Agent) (x : Member), s.members[a]? = some x → x.model.contains r = true)
    (unknown : ∀ j ∈ numbers count, answer (views j) j (muddyAt count r) = .unknown)
    {a : Agent} {x : Member} (heard : x.heard = .ofList (hears count .all i)) :
    ∃ js : List Nat, (numbers count).toFinset ⊆ js.toFinset ∧
      List.Forall₂ (SaysUnknown count) js (s.newsFor r a x) := by
  have mem {b : Agent} : b ∈ x.heard.toList ↔ ∃ j ∈ numbers count, child j = b :=
    ExtTreeSet.mem_toList.trans (mem_heard heard)
  have everyone : (x.heard.toList.filter fun b => s.settings.selfHearing.value || b != a)
      = x.heard.toList := by
    rw [selfHearing]
    exact List.filter_true _
  obtain ⟨js, children, spoken⟩ := exists_numbers (fun b hb => mem.1 hb)
    fun j hj => h.exists_explanation present hj (unknown j hj)
  refine ⟨js, fun j hj => ?_, ?_⟩
  · have there := mem.2 ⟨j, List.mem_toFinset.1 hj, rfl⟩
    rw [← children, List.mem_map] at there
    obtain ⟨l, hl, same⟩ := there
    rw [List.mem_toFinset, ← child_inj.1 same]
    exact hl
  · rw [Session.newsFor, successive, Session.redistributed_successive, Session.heardBy, everyone]
    exact spoken

/-- Hearing of each child in turn that it does not know leaves no set. -/
theorem Gathered.inform_successive (h : Gathered count .all (fun _ => muddyBesides ∅) s)
    (successive : s.settings.redistribution.value = .successive)
    (selfHearing : s.settings.selfHearing.value = true)
    (present : ∀ (a : Agent) (x : Member), s.members[a]? = some x → x.model.contains r = true)
    (unknown : ∀ j ∈ numbers count, answer (muddyBesides ∅) j (muddyAt count r) = .unknown) :
    Gathered count .all (fun _ _ => false) (s.inform r) := by
  refine h.of_map _ (Session.getElem?_members_inform s r) (fun _ _ => rfl) (fun _ _ => rfl) ?_
  intro i hi x heard shows
  obtain ⟨js, all, spoken⟩ := h.exists_newsFor successive selfHearing present unknown heard
  refine (shows.announceEach_unknown spoken).congr fun y children => ?_
  rw [muddyBesides, decide_eq_false_iff_not, Finset.not_nonempty_iff_eq_empty,
    Finset.sdiff_eq_empty_iff_subset, Finset.union_empty]
  exact children.trans all

/-! ## (3) The child that is named -/

/-- A digit other than zero does not come before one. -/
theorem digitChar_not_lt : ∀ d < 10, 0 < d → ¬ Nat.digitChar d < '1' := by decide

/-- A number other than zero is written with such a digit first. -/
theorem exists_toDigits (positive : 0 < i) :
    ∃ first rest, Nat.toDigits 10 i = first :: rest ∧ ¬ first < '1' := by
  induction i using Nat.strong_induction_on with
  | _ i ih =>
    by_cases small : i < 10
    · exact ⟨i.digitChar, [], Nat.toDigits_of_lt_base small, digitChar_not_lt i small positive⟩
    · -- The first digit is that of the number without its last one.
      obtain ⟨first, rest, digits, large⟩ := ih (i / 10) (by omega) (by omega)
      refine ⟨first, rest ++ Nat.toDigits 10 (i % 10), ?_, large⟩
      rw [← List.cons_append, ← digits, Nat.toDigits_append_toDigits (by decide) (by omega)
        (Nat.mod_lt i (by decide)), Nat.div_add_mod]

/-- Texts with the same beginning are in the order of what follows. -/
theorem lt_of_append_lt_append (start : List Char) {cs ds : List Char}
    (h : start ++ cs < start ++ ds) : cs < ds := by
  induction start with
  | nil => exact h
  | cons c rest ih =>
    rcases List.cons_lt_cons_iff.1 h with less | ⟨-, later⟩
    · exact absurd less (Std.Irrefl.irrefl c)
    · exact ih later

/-- No child comes before the first, though some come before the second. -/
theorem compare_child_ne_lt (positive : 0 < i) : compare (child i) (child 1) ≠ .lt := by
  intro before
  have less : (child i).name < (child 1).name := compareOfLessAndEq_eq_lt.1 before
  obtain ⟨first, rest, digits, large⟩ := exists_toDigits positive
  have written : (toString i).toList = first :: rest := by
    rw [Nat.toString_eq_repr, Nat.repr_eq_ofList_toDigits, digits, String.toList_ofList]
  have one : (toString 1).toList = ['1'] := rfl
  rw [child, child, String.lt_iff, String.toList_append, String.toList_append] at less
  have later := lt_of_append_lt_append _ less
  rw [written, one] at later
  rcases List.cons_lt_cons_iff.1 later with smaller | ⟨-, shorter⟩
  · exact large smaller
  · exact List.not_lt_nil _ shorter

/-- When the children hold nothing possible, the first is named. -/
theorem Gathered.firstWithout?_eq_some (h : Gathered count hearing (fun _ _ => false) s)
    (positive : 0 < count) : s.firstWithout? r = some (child 1) := by
  obtain ⟨model, found, shows⟩ := h.exists_model (mem_numbers.2 ⟨Nat.le_refl 1, positive⟩)
  refine Session.firstWithout?_eq_some_iff.2 ⟨⟨model, found, ?_⟩, ?_⟩
  · refine Bool.eq_false_iff.2 fun live => ?_
    exact Bool.false_ne_true (shows.contains_iff.1 live).2
  · intro b n before hn
    obtain ⟨i, hi, rfl, -⟩ := h.exists_shows hn
    exact absurd before (compare_child_ne_lt (mem_numbers.1 hi).1)

/-! ## (4) The first round -/

/-- There are as many agents as children. -/
theorem Gathered.length_agents {views : Nat → Finset Nat → Bool}
    (h : Gathered count hearing views s) : s.agents.length = count := by
  have distinct : ((numbers count).map child).Nodup :=
    (nodup_numbers count).map fun _ _ same => child_inj.1 same
  have same : s.agents.Perm ((numbers count).map child) := by
    refine (List.perm_ext_iff_of_nodup s.nodup_agents distinct).2 fun a => ?_
    rw [Session.mem_agents, List.mem_map]
    constructor
    · rintro ⟨x, hx⟩
      exact h.exists_child a x hx
    · rintro ⟨i, hi, rfl⟩
      obtain ⟨x, hx, -⟩ := h.exists_member i hi
      exact ⟨x, hx⟩
  rw [same.length_eq, List.length_map, numbers, List.length_range']

/-- If all children hold the same possible, as many worlds are left to each. -/
theorem Gathered.worldsLeft_eq {possible : Finset Nat → Bool}
    (h : Gathered count hearing (fun _ => possible) s) : s.worldsLeft = count *
      ((numbers count).toFinset.powerset.filter fun x => possible x = true).card := by
  rw [Session.worldsLeft_eq fun a n hn => ?_, h.length_agents]
  obtain ⟨i, -, -, shows⟩ := h.exists_shows hn
  exact shows.worldCount_eq

/-- When the father has spoken, each child holds the sets with some muddy child possible. -/
theorem IsNew.gathered_tellAll {muddy : Finset Nat} {settings : Settings}
    (h : IsNew count hearing muddy settings m) :
    Gathered count hearing (fun _ => muddyBesides ∅) (m.session.tellAll m.announcement) := by
  refine h.assembled.tellAll.congr fun i _ x _ => ?_
  rw [told, muddyBesides, Finset.sdiff_empty]
  rfl

/-- If several children are muddy and hear one answer after the other, the first round leaves them
nothing, and names the first of them. -/
theorem IsNew.round_successive {muddy : Finset Nat} {settings : Settings}
    (h : IsNew count .all muddy settings m)
    (successive : settings.redistribution.value = .successive) (several : 2 ≤ muddy.card)
    (positive : 0 < count) :
    m.round.2 = .error (.invalidModel (child 1) m.actual) ∧
      Gathered count .all (fun _ _ => false) m.round.1.session := by
  have told := h.gathered_tellAll
  have first : (m.session.tellAll m.announcement).firstWithout? m.actual = none := by
    refine (told.firstWithout?_eq_none_iff h.contains_actual).2 fun i _ => ?_
    rw [h.muddyAt_actual, muddyBesides, Finset.sdiff_empty, decide_eq_true_iff]
    exact Finset.card_pos.1 (by omega)
  have unknown : ∀ j ∈ numbers count,
      answer (muddyBesides ∅) j (muddyAt count m.actual) = .unknown := by
    intro j _
    rw [answer_muddyBesides, h.muddyAt_actual, muddyBesides, decide_eq_true_iff,
      Finset.sdiff_insert, Finset.sdiff_empty, ← Finset.card_pos]
    have others := Finset.pred_card_le_card_erase (s := muddy) (a := j)
    omega
  have mode : m.session.settings.redistribution.value = .successive := by
    rw [h.settings_eq]
    exact successive
  have informs := told.inform_successive mode (h.selfHearing nofun)
    (Session.firstWithout?_eq_none_iff.1 first) unknown
  have lost := informs.firstWithout?_eq_some (r := m.actual) positive
  have ended : m.session.round m.announcement m.actual
      = ((m.session.tellAll m.announcement).inform m.actual,
        .error (.invalidModel (child 1) m.actual)) := by
    rw [Session.round_eq, first, lost]
  constructor
  · rw [round, ended]
  · rw [round, ended]
    exact informs

/-- **Hearing one answer after the other leaves nothing.** Let several of the children be muddy, let
each hear every answer, and let the answers be announced one after the other. Then the scenario is
set up, with just these children muddy in the actual world, and the first round fails, naming the
first child, as each child has lost all worlds. No round is counted, and the worlds removed are all
that all children started with. -/
theorem successive_answers_leave_nothing (count : Nat) (muddy : ExtTreeSet Nat)
    (settings : Settings) (several : 2 ≤ muddy.size) (inRange : ∀ i ∈ muddy, 1 ≤ i ∧ i ≤ count)
    (successive : settings.redistribution.value = .successive) :
    ∃ m, setup count muddy .all settings = .ok m ∧
      (base count).contains m.actual = true ∧
      (∀ i, i ∈ muddyAt count m.actual ↔ i ∈ muddy) ∧
      m.round.2 = .error (.invalidModel (child 1) m.actual) ∧
      (∀ i ∈ numbers count, ∃ model, m.round.1.session.model? (child i) = some model ∧
        model.worldCount = 0) ∧
      m.round.1.session.counters.rounds = 0 ∧
      m.round.1.session.counters.removed = count * 2 ^ count := by
  rw [← card_numberSet] at several
  have positive : 0 < count := by
    obtain ⟨i, hi⟩ := Finset.card_pos.1 (by omega : 0 < (numberSet muddy).card)
    have range := inRange i (mem_numberSet.1 hi)
    omega
  obtain ⟨m, ok, new⟩ := exists_isNew .all settings positive inRange
  obtain ⟨failed, emptied⟩ := new.round_successive successive several positive
  have empty : ((numbers count).toFinset.powerset.filter fun _ => false = true).card = 0 := by
    simp
  refine ⟨m, ok, new.contains_actual, fun i => by rw [new.muddyAt_actual, mem_numberSet], failed,
    fun i hi => ?_, ?_, ?_⟩
  · obtain ⟨model, found, shows⟩ := emptied.exists_model hi
    exact ⟨model, found, shows.worldCount_eq.trans empty⟩
  · have counted : m.round.1.session.counters.rounds = m.session.counters.rounds :=
      Session.rounds_of_error failed
    rw [counted, new.counters_eq]
  · -- All worlds were there at first, and none is left.
    have removed : m.session.counters.removed = 0 := by rw [new.counters_eq]
    have before := new.assembled.gathered.worldsLeft_eq
    have after := emptied.worldsLeft_eq
    have conserved : m.round.1.session.counters.removed + m.round.1.session.worldsLeft
        = m.session.counters.removed + m.session.worldsLeft :=
      (m.session.shrinksTo_round m.announcement m.actual).conserved
    rw [before, after, removed, empty, card_sets, Nat.mul_zero, Nat.zero_add] at conserved
    exact conserved

/-- The standard settings, but explanations are announced one after the other. -/
def oneByOne : Settings where
  redistribution := Settings.standard.redistribution.assign .successive
  selfHearing := Settings.standard.selfHearing
  simplificationLimit := Settings.standard.simplificationLimit
  roundLimit := Settings.standard.roundLimit

/-- Of eleven children the second and the tenth are muddy, and the tenth is heard before the second.
All 2048 worlds of each are removed. -/
theorem successive_answers_leave_nothing_two_of_eleven :
    let muddy : ExtTreeSet Nat := .ofList [2, 10]
    2 ≤ muddy.size ∧ (∀ i ∈ muddy, 1 ≤ i ∧ i ≤ 11) ∧
      oneByOne.redistribution.value = .successive ∧
      compare (child 10) (child 2) = .lt ∧
      ∃ m, setup 11 muddy .all oneByOne = .ok m ∧
        m.round.2 = .error (.invalidModel (child 1) m.actual) ∧
        m.round.1.session.counters.removed = 22528 := by
  intro muddy
  have size : muddy.size = 2 := ExtTreeSet.size_ofList (by decide)
  have inRange : ∀ i ∈ muddy, 1 ≤ i ∧ i ≤ 11 := by
    intro i hi
    rcases mem_ofList_pair.1 hi with rfl | rfl <;> decide
  obtain ⟨m, ok, -, -, failed, -, -, removed⟩ :=
    successive_answers_leave_nothing 11 muddy oneByOne size.ge inRange rfl
  exact ⟨size.ge, inRange, rfl, by decide, m, ok, failed, removed⟩

end MuddyChildren

end KnowledgePrograms
