import Mathlib.Algebra.BigOperators.Group.List.Basic
import Mathlib.Algebra.Ring.Nat
import KnowledgePrograms.Proofs.Kripke.Removal
import KnowledgePrograms.Proofs.Session.Member

/-! # Telling the members

All members are told what is announced to them at once. As what one member is told changes neither
another member nor what another is told, this comes to the same as telling one member after the
other, and telling a member several formulas to telling them one after the other.

* `Session.tell_eq`: what telling the members leaves of a session.
* `Session.tell_congr`, `Session.tell_nothing`, `Session.tell_tell`: telling in two parts.
* `Session.tellOne`, `Session.tellOne_singleton`: telling one member.
* `Session.getElem?_members_tellOne_self`, `Session.getElem?_members_tellOne_of_ne`: the members
  after one is told. -/

namespace KnowledgePrograms

open Std (ExtTreeMap ExtTreeSet)

namespace Session

variable {s : Session} {news news' : Agent → Member → List Formula} {a b : Agent} {x : Member}

/-! ## (1) What telling leaves -/

/-- How many announcements are made when the members are told some news. -/
def announcementsOf (s : Session) (news : Agent → Member → List Formula) : Nat :=
  (s.members.toList.map fun e => (news e.1 e.2).length).sum

/-- How many worlds are removed when the members are told some news. -/
def removalsOf (s : Session) (news : Agent → Member → List Formula) : Nat :=
  (s.members.toList.map fun e => (e.2.model.announceEach (news e.1 e.2)).1).sum

/-- The member after it is told its news. -/
def informed (news : Agent → Member → List Formula) (a : Agent) (x : Member) : Member :=
  x.withModel (x.model.announceEach (news a x)).2

/-- Telling the members changes their models and what is counted. -/
theorem tell_eq (s : Session) (news : Agent → Member → List Formula) :
    s.tell news =
      { settings := s.settings
        counters := ⟨s.counters.rounds, s.counters.announcements + s.announcementsOf news,
          s.counters.removed + s.removalsOf news⟩
        members := s.members.map (informed news)
        bound := s.bound } := by
  simp only [tell, ExtTreeMap.toList_map, List.map_map, ExtTreeMap.map_map]
  rfl

/-- Telling the members counts what was announced and what was removed. -/
theorem counters_tell (s : Session) (news : Agent → Member → List Formula) :
    (s.tell news).counters = ⟨s.counters.rounds,
      s.counters.announcements + s.announcementsOf news,
      s.counters.removed + s.removalsOf news⟩ := by rw [tell_eq]

/-- Telling the members informs each. -/
theorem members_tell (s : Session) (news : Agent → Member → List Formula) :
    (s.tell news).members = s.members.map (informed news) := by rw [tell_eq]

/-- Only what the members of the session are told counts. -/
theorem tell_congr
    (same : ∀ (a : Agent) (x : Member), s.members[a]? = some x → news a x = news' a x) :
    s.tell news = s.tell news' := by
  have listed : ∀ e ∈ s.members.toList, news e.1 e.2 = news' e.1 e.2 := fun e he =>
    same e.1 e.2 (ExtTreeMap.mem_toList_iff_getElem?_eq_some.1 he)
  have made : s.announcementsOf news = s.announcementsOf news' :=
    congrArg List.sum (List.map_congr_left fun e he => by rw [listed e he])
  have removed : s.removalsOf news = s.removalsOf news' :=
    congrArg List.sum (List.map_congr_left fun e he => by rw [listed e he])
  have members : s.members.map (informed news) = s.members.map (informed news') := by
    refine ExtTreeMap.ext_getElem? fun a => ?_
    rw [ExtTreeMap.getElem?_map, ExtTreeMap.getElem?_map]
    refine Option.map_congr fun x hx => ?_
    rw [informed, informed, same a x hx]
  rw [tell_eq, tell_eq, made, removed, members]

/-- Telling the members nothing leaves the session. -/
theorem tell_nothing (s : Session) : s.tell (fun _ _ => []) = s := by
  have made : s.announcementsOf (fun _ _ => []) = 0 := by simp [announcementsOf]
  have removed : s.removalsOf (fun _ _ => []) = 0 := by simp [removalsOf, Model.announceEach]
  have members : s.members.map (informed fun _ _ => []) = s.members := by
    refine ExtTreeMap.ext_getElem? fun a => ?_
    rw [ExtTreeMap.getElem?_map]
    cases s.members[a]? <;> rfl
  rw [tell_eq, made, removed, members]
  rfl

/-- Telling the members twice is telling them the news of both times. -/
theorem tell_tell (s : Session) (news news' : Agent → Member → List Formula) :
    (s.tell news).tell news'
      = s.tell fun a x => news a x ++ news' a (informed news a x) := by
  have listed : (s.tell news).members.toList
      = s.members.toList.map fun e => (e.1, informed news e.1 e.2) := by
    rw [members_tell, ExtTreeMap.toList_map]
  have made : s.announcementsOf (fun a x => news a x ++ news' a (informed news a x))
      = s.announcementsOf news + (s.tell news).announcementsOf news' := by
    simp only [announcementsOf, listed, List.map_map, List.length_append, List.sum_map_add]
    rfl
  have removed : s.removalsOf (fun a x => news a x ++ news' a (informed news a x))
      = s.removalsOf news + (s.tell news).removalsOf news' := by
    simp only [removalsOf, listed, List.map_map, Model.announceEach_append, List.sum_map_add]
    rfl
  have members : s.members.map (informed fun a x => news a x ++ news' a (informed news a x))
      = (s.members.map (informed news)).map (informed news') := by
    rw [ExtTreeMap.map_map]
    refine congrArg s.members.map (funext fun a => funext fun x => ?_)
    simp only [informed, Model.announceEach_append]
    rfl
  rw [tell_eq (s.tell news), counters_tell, members_tell,
    tell_eq s fun a x => news a x ++ news' a (informed news a x), made, removed, members,
    Nat.add_assoc, Nat.add_assoc]
  rfl

/-! ## (2) Telling one member -/

/-- The session after one agent is told some formulas. -/
def tellOne (s : Session) (a : Agent) (fs : List Formula) : Session :=
  s.tell fun b _ => if b = a then fs else []

/-- The agent that is told is left with what the formulas leave of its model. -/
theorem getElem?_members_tellOne_self (hx : s.members[a]? = some x) (fs : List Formula) :
    (s.tellOne a fs).members[a]? = some (x.withModel (x.model.announceEach fs).2) := by
  rw [tellOne, getElem?_members_tell, hx, Option.map_some, if_pos rfl]

/-- The other agents are as they were. -/
theorem getElem?_members_tellOne_of_ne (other : b ≠ a) (fs : List Formula) :
    (s.tellOne a fs).members[b]? = s.members[b]? := by
  rw [tellOne, getElem?_members_tell]
  simp only [other, if_false]
  cases s.members[b]? <;> rfl

/-- A sum over the members to which only one of them contributes is what this one contributes. -/
theorem sum_members_eq (g : Agent → Member → Nat) (hx : s.members[a]? = some x)
    (others : ∀ b y, b ≠ a → g b y = 0) :
    (s.members.toList.map fun e => g e.1 e.2).sum = g a x := by
  have mem := ExtTreeMap.mem_toList_iff_getElem?_eq_some.2 hx
  obtain ⟨before, after, split⟩ := List.append_of_mem mem
  have distinct : s.members.toList.Pairwise fun e f => e.1 ≠ f.1 := by
    refine s.members.distinct_keys_toList.imp fun apart same => apart ?_
    exact Std.LawfulEqCmp.compare_eq_iff_eq.2 same
  rw [split, List.pairwise_append] at distinct
  have first : (before.map fun e => g e.1 e.2).sum = 0 := by
    refine List.sum_eq_zero fun n hn => ?_
    obtain ⟨e, he, rfl⟩ := List.mem_map.1 hn
    exact others e.1 e.2 (distinct.2.2 e he (a, x) List.mem_cons_self)
  have last : (after.map fun e => g e.1 e.2).sum = 0 := by
    refine List.sum_eq_zero fun n hn => ?_
    obtain ⟨e, he, rfl⟩ := List.mem_map.1 hn
    exact others e.1 e.2 ((List.pairwise_cons.1 distinct.2.1).1 e he).symm
  rw [split, List.map_append, List.sum_append, List.map_cons, List.sum_cons, first, last,
    Nat.add_zero, Nat.zero_add]

/-- Telling one agent nothing leaves the session. -/
theorem tellOne_nil (s : Session) (a : Agent) : s.tellOne a [] = s := by
  simp only [tellOne, ite_self, tell_nothing]

/-- An agent may be told some formulas one after the other. -/
theorem tellOne_append (s : Session) (a : Agent) (fs gs : List Formula) :
    (s.tellOne a fs).tellOne a gs = s.tellOne a (fs ++ gs) := by
  rw [tellOne, tellOne, tell_tell, tellOne]
  refine tell_congr fun b x _ => ?_
  split <;> rfl

/-- Telling an agent a formula counts one announcement and what it removes from the agent's
model. -/
theorem tellOne_singleton (hx : s.members[a]? = some x) (f : Formula) :
    s.tellOne a [f] =
      { settings := s.settings
        counters := ⟨s.counters.rounds, s.counters.announcements + 1,
          s.counters.removed + (x.model.announce f).1.length⟩
        members := s.members.insert a (x.withModel (x.model.announce f).2)
        bound := s.bound } := by
  let news : Agent → Member → List Formula := fun b _ => if b = a then [f] else []
  have made : s.announcementsOf news = 1 := by
    have alone : s.announcementsOf news = (news a x).length :=
      sum_members_eq (fun b y => (news b y).length) hx fun b y other => by simp [news, other]
    simpa [news] using alone
  have removed : s.removalsOf news = (x.model.announce f).1.length := by
    have alone : s.removalsOf news = (x.model.announceEach (news a x)).1 :=
      sum_members_eq (fun b y => (y.model.announceEach (news b y)).1) hx fun b y other => by
        simp [news, other, Model.announceEach]
    simpa [news, Model.announceEach] using alone
  have members : s.members.map (informed news)
      = s.members.insert a (x.withModel (x.model.announce f).2) := by
    refine ExtTreeMap.ext_getElem? fun b => ?_
    rw [← members_tell, Agent.getElem?_insert]
    by_cases same : a = b
    · subst same
      rw [if_pos rfl]
      exact getElem?_members_tellOne_self hx [f]
    · rw [if_neg same]
      exact getElem?_members_tellOne_of_ne (Ne.symm same) [f]
  rw [tellOne, tell_eq, made, removed, members]

end Session

end KnowledgePrograms
