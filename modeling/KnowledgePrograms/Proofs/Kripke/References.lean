import KnowledgePrograms.Proofs.Kripke.Stored

/-! # References and arcs

The references that are handed out for the worlds of a model are good for its whole history, in
whatever arena the worlds are kept. A reference that is handed out is none of those handed out
before, and one to a removed world stays dead. As arcs only ever join worlds, a new world has none,
even in a slot used before.

* `references_stay_apart`: what holds after every history. -/

namespace KnowledgePrograms

/-- **References stay apart.** Let the worlds of a model be kept in any lawful arena, let the model
come to be in any way, and let any operations follow, failing ones included. Then every arc joins
two live worlds and no row of a relation is empty. No reference was handed out twice, every live one
was handed out, and one that was handed out and is dead is dead for good. An operation leaves the
live worlds that it does not drop at their references. A world that is added is at a new reference,
which no arc touches, and adding an arc fails just when one of its ends is dead, and leaves the
store as it was. In a table of worlds all this is what becomes of the model itself, which an arc
that fails leaves as it was, too. -/
theorem references_stay_apart {τ : Type} [Arena τ] {version : τ → Nat → Nat}
    (laws : Arena.Lawful version) (o : Origin) (operations : List Operation) :
    let h : Store.History τ := o.history.performAll operations
    let m : History := o.modelled.performAll operations
    (∀ (a : Agent) (t : RowTable), h.store.relations[a]? = some t →
      (∀ arc ∈ t.pairs,
        h.store.contains arc.source = true ∧ h.store.contains arc.target = true) ∧
      ∀ x : WorldRef, t.rows[x]? ≠ some ∅) ∧
    h.handed.Nodup ∧
    (∀ r, h.store.contains r = true → r ∈ h.handed) ∧
    (∀ r ∈ h.handed, h.store.contains r = false →
      ∀ later, (h.performAll later).store.contains r = false) ∧
    (∀ op r, h.store.contains r = true →
      (op.Drops h.store r → (h.perform op).store.world? r = none) ∧
        (¬ op.Drops h.store r → (h.perform op).store.world? r = h.store.world? r)) ∧
    (∀ w, ∃ r s, h.store.addWorld w = (r, s) ∧ h.perform (.addWorld w) = ⟨s, r :: h.handed⟩ ∧
      s.world? r = some w ∧ r ∉ h.handed ∧
      ∀ (a : Agent) (t : RowTable), s.relations[a]? = some t →
        ∀ arc ∈ t.pairs, arc.source ≠ r ∧ arc.target ≠ r) ∧
    (∀ a x y, (h.store.contains x = true ∧ h.store.contains y = true ∧
        (runOn (Store.addArc a x y) h.store).2 = .ok ()) ∨
      ((h.store.contains x = false ∨ h.store.contains y = false) ∧
        ∃ e, runOn (Store.addArc a x y) h.store = (h.store, .error e))) ∧
    m.store = (o.history.performAll operations : Store.History WorldTable) ∧
    ∀ a x y, (m.model.addArc a x y).2 ≠ none → (m.model.addArc a x y).1 = m.model := by
  intro h m
  have sound : h.Sound version := (o.sound_history laws).performAll laws operations
  refine ⟨fun a t filed => ?_, sound.issued.nodup, sound.issued.of_live, ?_, ?_, fun w => ?_, ?_,
    ?_, fun a x y failed => ?_⟩
  · obtain ⟨r, rfl, joins⟩ := sound.intact a t filed
    exact ⟨fun arc mem => joins arc (Relation.mem_pairs.1 mem), r.occupied⟩
  · intro r old dead later
    exact sound.dead_performAll laws old dead later
  · intro op r live
    exact Store.History.world?_perform laws sound.issued op live
  · refine ⟨_, _, rfl, rfl, ?_, sound.issued.notMem laws w, ?_⟩
    · exact (laws.get?_insert h.store.worlds w _).trans (if_pos rfl)
    · -- The arcs are those from before, when the new reference was dead.
      intro a t filed arc mem
      obtain ⟨r, rfl, joins⟩ := sound.intact a t filed
      obtain ⟨source, target⟩ := joins arc (Relation.mem_pairs.1 mem)
      have live : ∀ x, h.store.contains x = true → x ≠ (h.store.addWorld w).1 := by
        rintro x live rfl
        exact sound.issued.notMem laws w (sound.issued.of_live _ live)
      exact ⟨live _ source, live _ target⟩
  · intro a x y
    rcases h.store.runOn_addArc a x y with ⟨hx, hy, added⟩ | ⟨missing, refused⟩
    · exact .inl ⟨hx, hy, by rw [added]⟩
    · exact .inr ⟨missing, _, refused⟩
  · rw [History.store_performAll, o.store_modelled]
  · rcases m.model.addArc_eq a x y with ⟨-, _, added⟩ | ⟨-, refused⟩
    · rw [added] at failed
      exact absurd rfl failed
    · rw [refused]

/-- A draft of two worlds that an agent cannot tell apart, of which the first is removed. The world
that is added then is in its slot with the next version, alone, and an arc from the dead reference
is refused. -/
theorem references_stay_apart_reused_slot :
    let a : Agent := ⟨"a"⟩
    let u : World := ⟨"u", .empty⟩
    let o : Origin := .drafted [.world u, .world u, .related a [⟨1, 1⟩, ⟨2, 1⟩]]
    let operations : List Operation := [.removeWorld ⟨1, 1⟩, .addWorld u]
    let h : Store.History WorldTable := o.history.performAll operations
    h.handed = [⟨1, 3⟩, ⟨2, 1⟩, ⟨1, 1⟩] ∧ h.store.keys = [⟨1, 3⟩, ⟨2, 1⟩] ∧
      (h.store.table a).pairs = [⟨⟨2, 1⟩, ⟨2, 1⟩⟩] ∧
      (∃ e, runOn (Store.addArc a ⟨1, 1⟩ ⟨2, 1⟩) h.store = (h.store, .error e)) ∧
      (∀ later, (h.performAll later).store.contains ⟨1, 1⟩ = false) ∧
      (o.modelled.performAll operations).store = h ∧
      let m := (o.modelled.performAll operations).model
      (m.addArc a ⟨1, 1⟩ ⟨2, 1⟩).2 = some (.unknownWorld ⟨1, 1⟩) ∧
        (m.addArc a ⟨1, 1⟩ ⟨2, 1⟩).1 = m := by
  intro a u o operations h
  have handed : h.handed = [⟨1, 3⟩, ⟨2, 1⟩, ⟨1, 1⟩] := by decide +kernel
  have live : h.store.keys = [⟨1, 3⟩, ⟨2, 1⟩] := by decide +kernel
  have arcs : (h.store.table a).pairs = [⟨⟨2, 1⟩, ⟨2, 1⟩⟩] := by decide +kernel
  have dead : h.store.contains ⟨1, 1⟩ = false := by decide +kernel
  have fails : ((o.modelled.performAll operations).model.addArc a ⟨1, 1⟩ ⟨2, 1⟩).2
      = some (.unknownWorld ⟨1, 1⟩) := by decide +kernel
  obtain ⟨-, -, -, stays, -, -, joined, modelled, unchanged⟩ :=
    references_stay_apart WorldTable.lawful o operations
  have old : ⟨1, 1⟩ ∈ h.handed := by simp [handed]
  refine ⟨handed, live, arcs, ?_, stays _ old dead, modelled, fails, unchanged _ _ _ ?_⟩
  · rcases joined a ⟨1, 1⟩ ⟨2, 1⟩ with ⟨alive, -⟩ | ⟨-, refused⟩
    · rw [dead] at alive
      cases alive
    · exact refused
  · rw [fails]
    exact nofun

end KnowledgePrograms
