import KnowledgePrograms.Proofs.Kripke.Drafting
import KnowledgePrograms.Proofs.Kripke.Store

/-! # Histories of a store

A model is begun empty, by a builder, or from what agents observe, and then worlds, agents and arcs
are added, relations are closed and worlds are removed, in any order. Some of this may fail. A
history is the store of the model with the references that were handed out for its worlds.

Every step keeps the store intact and the references those that the arena has handed out, and so
does every run of steps. What a step does to worlds is one of two things: a world is put in, or some
worlds, most often none, are taken out.

* `Operation`, `Store.History.perform`: a step of a history.
* `Store.Builder`, `Origin`: how a history begins.
* `Store.History.perform_cases`: what a step does to worlds.
* `Store.History.Sound`, `Sound.perform`, `Sound.performAll`: what a history keeps. -/

namespace KnowledgePrograms

open Std (ExtTreeMap ExtTreeSet)

/-- Something done to a model, whether or not it succeeds. -/
inductive Operation where
  /-- Add a world. -/
  | addWorld (w : World)
  /-- Add an agent. -/
  | addAgent (a : Agent)
  /-- Add an arc of an agent. -/
  | addArc (a : Agent) (x y : WorldRef)
  /-- Make any two of some worlds indistinguishable to an agent. -/
  | relateAll (a : Agent) (xs : List WorldRef)
  /-- Add a loop of every agent at every world. -/
  | addLoops
  /-- Add the converse of every arc. -/
  | addConverses
  /-- Remove a world. -/
  | removeWorld (r : WorldRef)
  /-- Announce a formula. -/
  | announce (f : Formula)

/-- How a model can come to be. -/
inductive Origin where
  /-- It has nothing at first. -/
  | empty
  /-- It is drafted and finished. -/
  | drafted (entries : List Entry)
  /-- It is made from worlds and what agents observe. -/
  | observability (worlds : List World) (observed : ExtTreeMap Agent (ExtTreeSet Atom))

/-- The operation removes the world from the store. -/
def Operation.Drops {τ : Type} [Arena τ] (s : Store τ) (r : WorldRef) : Operation → Prop
  | .removeWorld x => r = x
  | .announce f => ∃ refuted, s.view.refuting f s.keys = .ok refuted ∧ r ∈ refuted
  | _ => False

namespace Store

/-! ## (1) Steps and origins -/

/-- A store with the references that it has handed out, the latest first. -/
structure History (τ : Type) where
  /-- The store as it is now. -/
  store : Store τ
  /-- The references handed out so far. -/
  handed : List WorldRef

variable {τ : Type} [Arena τ]

namespace History

/-- The history of the empty store. -/
def empty : History τ := ⟨.empty, []⟩

/-- The history after an operation. -/
def perform (h : History τ) : Operation → History τ
  | .addWorld w =>
      let (r, s) := h.store.addWorld w
      ⟨s, r :: h.handed⟩
  | .addAgent a => ⟨h.store.addAgent a, h.handed⟩
  | .addArc a x y => ⟨(runOn (addArc a x y) h.store).1, h.handed⟩
  | .relateAll a xs => ⟨(runOn (relateAll a xs) h.store).1, h.handed⟩
  | .addLoops => ⟨h.store.addLoops, h.handed⟩
  | .addConverses => ⟨h.store.addConverses, h.handed⟩
  | .removeWorld r => ⟨(h.store.removeWorld r).2, h.handed⟩
  | .announce f => ⟨(runOn (announce f) h.store).1, h.handed⟩

/-- The history after some operations. -/
def performAll (h : History τ) (operations : List Operation) : History τ :=
  operations.foldl perform h

end History

/-- A store under construction. -/
structure Builder (τ : Type) where
  /-- The history of the store so far. -/
  history : History τ
  /-- Whether the arcs are vouched to be reflexive. -/
  reflexive : Bool
  /-- Whether the arcs are vouched to be symmetric. -/
  symmetric : Bool

namespace Builder

/-- The builder of the empty store, of which nothing is vouched for. -/
def empty : Builder τ := ⟨.empty, false, false⟩

/-- The builder after an operation on its store. -/
def perform (b : Builder τ) (op : Operation) : Builder τ :=
  ⟨b.history.perform op, b.reflexive, b.symmetric⟩

/-- The builder after an entry. -/
def enter (b : Builder τ) : Entry → Builder τ
  | .world w => b.perform (.addWorld w)
  | .agent a => b.perform (.addAgent a)
  | .arc a x y => b.perform (.addArc a x y)
  | .related a xs => b.perform (.relateAll a xs)
  | .reflexive => ⟨b.history, true, b.symmetric⟩
  | .symmetric => ⟨b.history, b.reflexive, true⟩

/-- Close the relations, except for what is vouched for. -/
def build (b : Builder τ) : History τ :=
  let looped := if b.reflexive then b.history else b.history.perform .addLoops
  if b.symmetric then looped else looped.perform .addConverses

end Builder

end Store

/-- The history of a store when it has come to be. -/
def Origin.history {τ : Type} [Arena τ] : Origin → Store.History τ
  | .empty => .empty
  | .drafted entries => (entries.foldl Store.Builder.enter Store.Builder.empty).build
  | .observability worlds observed =>
      let (keys, s) := Store.fromObservability worlds observed
      ⟨s, keys.reverse⟩

/-! ## (2) What a step does to worlds -/

namespace Store

variable {τ : Type} [Arena τ] {version : τ → Nat → Nat}

namespace History

variable {h : History τ} {r : WorldRef}

/-- An operation puts in a world, or takes out those that it drops and hands out nothing. -/
theorem perform_cases (h : History τ) (op : Operation) :
    (∃ w, op = .addWorld w) ∨ ∃ gone : List WorldRef, (∀ r, op.Drops h.store r ↔ r ∈ gone) ∧
      (h.perform op).store.worlds = Arena.removeAll h.store.worlds gone ∧
      (h.perform op).handed = h.handed := by
  -- Most operations drop nothing, so they take out no world.
  have none : ∀ r, False ↔ r ∈ ([] : List WorldRef) := fun r => by simp
  cases op with
  | addWorld w => exact .inl ⟨w, rfl⟩
  | addAgent a => exact .inr ⟨[], none, rfl, rfl⟩
  | addArc a x y => exact .inr ⟨[], none, h.store.worlds_runOn_addArc a x y, rfl⟩
  | relateAll a xs => exact .inr ⟨[], none, h.store.worlds_runOn_relateAll a xs, rfl⟩
  | addLoops | addConverses => exact .inr ⟨[], none, rfl, rfl⟩
  | removeWorld x =>
    exact .inr ⟨[x], fun r => List.mem_singleton.symm, h.store.worlds_removeWorld x, rfl⟩
  | announce f =>
    have ended := h.store.runOn_announce f
    cases found : h.store.view.refuting f h.store.keys with
    | error e =>
      rw [found] at ended
      refine .inr ⟨[], fun r => ?_, congrArg (fun p => p.1.worlds) ended, rfl⟩
      simp [Operation.Drops, found]
    | ok refuted =>
      rw [found] at ended
      refine .inr ⟨refuted, fun r => ?_, ?_, rfl⟩
      · simp [Operation.Drops, found]
      · show (runOn (announce f) h.store).1.worlds = _
        rw [ended, worlds_foldl_removeWorld]

/-- At a reference to a world there is nothing after an operation that drops the world, and the same
world after any other. -/
theorem world?_perform (laws : Arena.Lawful version) {handed : List WorldRef}
    (issued : Arena.Issued version h.store.worlds handed) (op : Operation)
    (live : h.store.contains r = true) :
    (op.Drops h.store r → (h.perform op).store.world? r = none) ∧
      (¬ op.Drops h.store r → (h.perform op).store.world? r = h.store.world? r) := by
  rcases h.perform_cases op with ⟨w, rfl⟩ | ⟨gone, drops, worlds, -⟩
  · refine ⟨nofun, fun _ => ?_⟩
    show Arena.get? (Arena.insert h.store.worlds w).2 r = _
    have other : r ≠ (Arena.insert h.store.worlds w).1 := by
      rintro rfl
      exact issued.notMem laws w (issued.of_live _ live)
    rw [laws.get?_insert, if_neg other]
    rfl
  · rw [drops, world?, worlds, laws.get?_removeAll]
    exact ⟨fun there => if_pos there, fun apart => if_neg apart⟩

/-! ## (3) What a history keeps -/

/-- What holds throughout a history. -/
structure Sound (version : τ → Nat → Nat) (h : History τ) : Prop where
  /-- Arcs join worlds, and no row is empty. -/
  intact : h.store.Intact
  /-- The references handed out are those that the arena has handed out. -/
  issued : Arena.Issued version h.store.worlds h.handed

/-- The history of the empty store is sound. -/
theorem sound_empty (laws : Arena.Lawful version) : (empty : History τ).Sound version :=
  ⟨intact_empty, laws.issued_empty⟩

/-- An operation keeps a history sound. -/
theorem Sound.perform (sound : h.Sound version) (laws : Arena.Lawful version) (op : Operation) :
    (h.perform op).Sound version := by
  constructor
  · cases op with
    | addWorld w => exact sound.intact.addWorld laws w
    | addAgent a => exact sound.intact.addAgent a
    | addArc a x y => exact sound.intact.runOn_addArc a x y
    | relateAll a xs => exact sound.intact.runOn_relateAll a xs
    | addLoops => exact sound.intact.addLoops laws
    | addConverses => exact sound.intact.addConverses
    | removeWorld r => exact sound.intact.removeWorld laws r
    | announce f => exact sound.intact.runOn_announce laws f
  · rcases h.perform_cases op with ⟨w, rfl⟩ | ⟨gone, -, worlds, handed⟩
    · exact sound.issued.insert laws w
    · rw [worlds, handed]
      exact sound.issued.removeAll laws gone

/-- A run of operations keeps a history sound. -/
theorem Sound.performAll (sound : h.Sound version) (laws : Arena.Lawful version)
    (operations : List Operation) : (h.performAll operations).Sound version := by
  induction operations generalizing h with
  | nil => exact sound
  | cons op rest ih => exact ih (sound.perform laws op)

/-- A reference that was handed out and is dead stays so through an operation. -/
theorem Sound.dead_perform (sound : h.Sound version) (laws : Arena.Lawful version)
    (old : r ∈ h.handed) (dead : h.store.contains r = false) (op : Operation) :
    r ∈ (h.perform op).handed ∧ (h.perform op).store.contains r = false := by
  rcases h.perform_cases op with ⟨w, rfl⟩ | ⟨gone, -, worlds, handed⟩
  · -- The reference that is handed out was not handed out before, so it is another one.
    refine ⟨List.mem_cons_of_mem _ old, ?_⟩
    have other : r ≠ (Arena.insert h.store.worlds w).1 := by
      rintro rfl
      exact sound.issued.notMem laws w old
    show (Arena.get? (Arena.insert h.store.worlds w).2 r).isSome = false
    rw [laws.get?_insert, if_neg other]
    exact dead
  · refine ⟨handed ▸ old, ?_⟩
    rw [contains, world?, worlds, laws.get?_removeAll]
    split
    · rfl
    · exact dead

/-- A reference that was handed out and is dead stays so for good. -/
theorem Sound.dead_performAll (sound : h.Sound version) (laws : Arena.Lawful version)
    (old : r ∈ h.handed) (dead : h.store.contains r = false) (later : List Operation) :
    (h.performAll later).store.contains r = false := by
  induction later generalizing h with
  | nil => exact dead
  | cons op rest ih =>
    obtain ⟨old', dead'⟩ := sound.dead_perform laws old dead op
    exact ih (sound.perform laws op) old' dead'

end History

/-! ## (4) What a history begins with -/

/-- An entry keeps the history of a builder sound. -/
theorem Builder.sound_enter (laws : Arena.Lawful version) {b : Builder τ}
    (sound : b.history.Sound version) (e : Entry) : (b.enter e).history.Sound version := by
  cases e with
  | world w => exact sound.perform laws (.addWorld w)
  | agent a => exact sound.perform laws (.addAgent a)
  | arc a x y => exact sound.perform laws (.addArc a x y)
  | related a xs => exact sound.perform laws (.relateAll a xs)
  | reflexive | symmetric => exact sound

/-- Closing the relations keeps the history of a builder sound. -/
theorem Builder.sound_build (laws : Arena.Lawful version) {b : Builder τ}
    (sound : b.history.Sound version) : b.build.Sound version := by
  have looped : (if b.reflexive then b.history else b.history.perform .addLoops).Sound version := by
    split
    · exact sound
    · exact sound.perform laws _
  rw [build]
  split
  · exact looped
  · exact looped.perform laws _

/-- The references of worlds that are added one after the other are handed out in their order. -/
theorem issued_addAll (laws : Arena.Lawful version) {s : Store τ} {handed : List WorldRef}
    (issued : Arena.Issued version s.worlds handed) (ws : List World) :
    Arena.Issued version (s.addAll ws).2.worlds ((s.addAll ws).1.reverse ++ handed) := by
  induction ws generalizing s handed with
  | nil => exact issued
  | cons w rest ih =>
    have given : Arena.Issued version (s.addWorld w).2.worlds ((s.addWorld w).1 :: handed) :=
      issued.insert laws w
    have later := ih given
    simpa [addAll] using later

/-- What agents observe leaves the worlds. -/
theorem worlds_foldl_observe (keys : List WorldRef) (sights : List (Agent × ExtTreeSet Atom))
    (s : Store τ) : (sights.foldl (observe keys) s).worlds = s.worlds := by
  induction sights generalizing s with
  | nil => rfl
  | cons sight rest ih => exact ih (s.observe keys sight)

end Store

/-- However a store comes to be, its history is sound. -/
theorem Origin.sound_history {τ : Type} [Arena τ] {version : τ → Nat → Nat}
    (laws : Arena.Lawful version) (o : Origin) : (o.history : Store.History τ).Sound version := by
  cases o with
  | empty => exact Store.History.sound_empty laws
  | drafted entries =>
    -- Induction on the entries, over all builders that are sound so far.
    have entered (b : Store.Builder τ) (sound : b.history.Sound version) :
        (entries.foldl Store.Builder.enter b).history.Sound version := by
      induction entries generalizing b with
      | nil => exact sound
      | cons e rest ih => exact ih _ (Store.Builder.sound_enter laws sound e)
    exact Store.Builder.sound_build laws (entered _ (Store.History.sound_empty laws))
  | observability worlds observed =>
    refine ⟨Store.Intact.fromObservability laws worlds observed, ?_⟩
    have given := Store.issued_addAll laws (s := Store.empty) laws.issued_empty worlds
    rw [List.append_nil] at given
    show Arena.Issued version (List.foldl _ _ _ : Store τ).worlds _
    rw [Store.worlds_foldl_observe]
    exact given

end KnowledgePrograms
