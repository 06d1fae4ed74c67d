import KnowledgePrograms.Proofs.Kripke.AllValuations
import KnowledgePrograms.Proofs.Kripke.Submodel

/-! # Pairing worlds up

Worlds may be joined by comparing each with itself and with those that come after it in a list, and
joining both ways the two that agree. As to agree is symmetric, this joins any two worlds of the
list that agree, so that sorting the worlds into groups gives an agent the same arcs.

* `Relation.pairUp`, `Relation.mem_pairUp`: what is joined by comparing pairs.
* `Model.relations_fromObservability`: the relations of a model made from what agents observe. -/

namespace KnowledgePrograms

open Std (ExtTreeMap ExtTreeSet)

namespace Relation

variable {r : Relation} {x : WorldRef} {xs : List WorldRef} {arc : Arc}

/-- Join a world both ways to those of a list that agree with it. -/
def joinTo (agrees : WorldRef → Bool) (x : WorldRef) (r : Relation) (ys : List WorldRef) :
    Relation :=
  ys.foldl (fun r y => if agrees y then (r.add ⟨x, y⟩).add ⟨y, x⟩ else r) r

/-- Join each world of a list both ways to itself and to those after it, where they agree. -/
def pairUp (agree : WorldRef → WorldRef → Bool) (r : Relation) : List WorldRef → Relation
  | [] => r
  | x :: rest => pairUp agree (r.joinTo (agree x) x (x :: rest)) rest

/-- A world is joined both ways to those of the list that agree with it. -/
theorem mem_joinTo {agrees : WorldRef → Bool} :
    arc ∈ r.joinTo agrees x xs ↔
      (∃ y ∈ xs, agrees y = true ∧ (arc = ⟨x, y⟩ ∨ arc = ⟨y, x⟩)) ∨ arc ∈ r := by
  induction xs generalizing r with
  | nil => simp [joinTo]
  | cons y rest ih =>
    rw [joinTo, List.foldl_cons, ← joinTo, ih]
    by_cases agreed : agrees y = true
    · rw [if_pos agreed, mem_add, mem_add]
      simp only [List.mem_cons, exists_eq_or_imp, agreed, true_and]
      grind
    · rw [if_neg agreed]
      simp only [List.mem_cons, exists_eq_or_imp, agreed, Bool.false_eq_true, false_and, false_or]

/-- Pairing up joins any two worlds of the list that agree. -/
theorem mem_pairUp {agree : WorldRef → WorldRef → Bool}
    (symmetric : ∀ x y, agree x y = agree y x) :
    arc ∈ r.pairUp agree xs ↔
      (arc.source ∈ xs ∧ arc.target ∈ xs ∧ agree arc.source arc.target = true) ∨ arc ∈ r := by
  induction xs generalizing r with
  | nil => simp [pairUp]
  | cons x rest ih =>
    rw [pairUp, ih, mem_joinTo]
    obtain ⟨s, t⟩ := arc
    constructor
    · rintro (⟨hs, ht, agreed⟩ | ⟨y, hy, agreed, same⟩ | old)
      · exact .inl ⟨List.mem_cons_of_mem _ hs, List.mem_cons_of_mem _ ht, agreed⟩
      · rcases same with same | same <;> cases same
        · exact .inl ⟨List.mem_cons_self, hy, agreed⟩
        · exact .inl ⟨hy, List.mem_cons_self, (symmetric _ _).trans agreed⟩
      · exact .inr old
    · rintro (⟨hs, ht, agreed⟩ | old)
      · -- Whichever of the two comes first was compared with the other.
        rcases List.mem_cons.1 hs with rfl | hs'
        · exact .inr (.inl ⟨t, ht, agreed, .inl rfl⟩)
        · rcases List.mem_cons.1 ht with rfl | ht'
          · exact .inr (.inl ⟨s, hs, (symmetric _ _).trans agreed, .inr rfl⟩)
          · exact .inl ⟨hs', ht', agreed⟩
      · exact .inr (.inr old)

end Relation

namespace WorldTable

variable {t : WorldTable} {ws : List World} {r : WorldRef}

/-- A world added to a table is at the reference handed out for it. -/
theorem contains_add {w : World} :
    (t.add w).contains r = true ↔ r = t.fresh ∨ t.contains r = true := by
  rw [contains_eq_isSome, get?_add, contains_eq_isSome]
  by_cases same : t.fresh = r
  · simp [same]
  · simp [same, Ne.symm same]

/-- The worlds added to a table are at the references told. -/
theorem contains_addAll :
    (t.addAll ws).2.contains r = true ↔ r ∈ (t.addAll ws).1 ∨ t.contains r = true := by
  induction ws generalizing t with
  | nil => simp [addAll]
  | cons w rest ih =>
    show ((t.add w).addAll rest).2.contains r = true
      ↔ r ∈ t.fresh :: ((t.add w).addAll rest).1 ∨ _
    rw [ih, contains_add, List.mem_cons]
    grind

end WorldTable

namespace World

variable {world? : WorldRef → Option World} {atoms : ExtTreeSet Atom} {r s : WorldRef}

/-- Whether there are worlds at both references, and they give the atoms the same values. -/
def agreeAt (world? : WorldRef → Option World) (atoms : ExtTreeSet Atom) (r s : WorldRef) : Bool :=
  match world? r, world? s with
  | some w, some v => atoms.toList.all fun p => w.valuation.valueOf p == v.valuation.valueOf p
  | _, _ => false

/-- References agree iff there are worlds at them that give the atoms the same values. -/
theorem agreeAt_iff :
    agreeAt world? atoms r s = true ↔ ∃ w v, world? r = some w ∧ world? s = some v ∧
      w.valuesOf atoms.toList = v.valuesOf atoms.toList := by
  rw [agreeAt]
  cases world? r with
  | none => simp
  | some w =>
    cases world? s with
    | none => simp
    | some v => simp [valuesOf]

/-- To agree is symmetric. -/
theorem agreeAt_comm (world? : WorldRef → Option World) (atoms : ExtTreeSet Atom)
    (r s : WorldRef) : agreeAt world? atoms r s = agreeAt world? atoms s r := by
  have turn : ∀ r s, agreeAt world? atoms r s = true → agreeAt world? atoms s r = true := by
    intro r s agreed
    obtain ⟨w, v, hw, hv, same⟩ := agreeAt_iff.1 agreed
    exact agreeAt_iff.2 ⟨v, w, hv, hw, same.symm⟩
  exact Bool.eq_iff_iff.2 ⟨turn r s, turn s r⟩

end World

namespace Model

/-- Whether there are worlds of the model at both references, and they give the atoms the same
values. -/
def agreeOn (m : Model) : ExtTreeSet Atom → WorldRef → WorldRef → Bool := World.agreeAt m.world?

/-- References agree iff there are worlds at them that give the atoms the same values. -/
theorem agreeOn_iff {m : Model} {atoms : ExtTreeSet Atom} {r s : WorldRef} :
    m.agreeOn atoms r s = true ↔ ∃ w v, m.world? r = some w ∧ m.world? s = some v ∧
      w.valuesOf atoms.toList = v.valuesOf atoms.toList :=
  World.agreeAt_iff

/-- To agree is symmetric. -/
theorem agreeOn_comm (m : Model) (atoms : ExtTreeSet Atom) (r s : WorldRef) :
    m.agreeOn atoms r s = m.agreeOn atoms s r :=
  World.agreeAt_comm m.world? atoms r s

variable {worlds : List World} {observed : ExtTreeMap Agent (ExtTreeSet Atom)}

/-- The worlds of a model made from what agents observe are at the references told. -/
theorem mem_fst_fromObservability {r : WorldRef} {w : World}
    (hw : (fromObservability worlds observed).2.world? r = some w) :
    r ∈ (fromObservability worlds observed).1 := by
  have live : (WorldTable.empty.addAll worlds).2.contains r = true :=
    contains_iff_exists.2 ⟨w, hw⟩
  rcases WorldTable.contains_addAll.1 live with told | old
  · exact told
  · exact absurd old (by simp [WorldTable.contains, WorldTable.empty])

/-- **Grouping is pairing up.** In a model made from worlds and from what agents observe, the
relation of each agent is the one made by comparing the worlds pair by pair. -/
theorem relations_fromObservability (worlds : List World)
    (observed : ExtTreeMap Agent (ExtTreeSet Atom)) :
    (fromObservability worlds observed).2.relations = observed.map fun _ atoms =>
      Relation.empty.pairUp ((fromObservability worlds observed).2.agreeOn atoms)
        (fromObservability worlds observed).1 := by
  refine congrArg observed.map (funext fun a => funext fun atoms => Relation.ext fun arc => ?_)
  rw [Relation.mem_ofObserved, Relation.mem_pairUp (agreeOn_comm _ atoms), agreeOn_iff]
  constructor
  · rintro ⟨w, v, hw, hv, same⟩
    exact .inl ⟨mem_fst_fromObservability hw, mem_fst_fromObservability hv, w, v, hw, hv, same⟩
  · rintro (⟨-, -, joined⟩ | none)
    · exact joined
    · exact absurd none (Relation.notMem_empty arc)

/-- An agent that observes some atoms has an arc from one world to another iff they agree. -/
theorem mem_relation_iff_agreeOn {a : Agent} {atoms : ExtTreeSet Atom}
    (sight : observed[a]? = some atoms) {arc : Arc} :
    arc ∈ (fromObservability worlds observed).2.relation a ↔
      (fromObservability worlds observed).2.agreeOn atoms arc.source arc.target = true := by
  rw [relation, relations_fromObservability, ExtTreeMap.getElem?_map, sight, Option.map_some,
    Option.getD_some, Relation.mem_pairUp (agreeOn_comm _ atoms)]
  constructor
  · rintro (⟨-, -, agreed⟩ | none)
    · exact agreed
    · exact absurd none (Relation.notMem_empty arc)
  · intro agreed
    obtain ⟨w, v, hw, hv, -⟩ := agreeOn_iff.1 agreed
    exact .inl ⟨mem_fst_fromObservability hw, mem_fst_fromObservability hv, agreed⟩

end Model

end KnowledgePrograms
