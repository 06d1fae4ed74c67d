import Mathlib.Data.List.Nodup
import KnowledgePrograms.Kripke.Observability

/-! # Models of all valuations

`World.allValuations` lists a world for each row of truth values of some atoms. A row is read back
from the world in two ways: its name writes the row, and its valuation gives the atoms the values of
the row. So the model of these worlds has one world for each row, the world of a row is found by its
name, and agents are related to worlds by the values of the atoms that they observe.

* `get?_addAll`: what a table holds after worlds are added.
* `World.valueOf_ofRow`, `World.rowName_inj`: the two ways to read a row.
* `Model.mem_relation_fromObservability`: who is related to what by observation.
* `Model.exists_findWorld`: finding a world by name. -/

namespace KnowledgePrograms

open Std (ExtTreeMap ExtTreeSet)

universe u v

/-- In the map of a list that pairs each key once, a key has the value that it is paired with. -/
theorem getElem?_ofList_iff {α : Type u} {β : Type v} [DecidableEq α] [Ord α]
    [Std.TransOrd α] [Std.LawfulEqOrd α] {pairs : List (α × β)}
    (distinct : (pairs.map Prod.fst).Nodup) {k : α} {x : β} :
    (ExtTreeMap.ofList pairs)[k]? = some x ↔ (k, x) ∈ pairs := by
  have apart : pairs.Pairwise fun e e' => ¬ compare e.1 e'.1 = .eq := by
    refine (List.pairwise_map.1 distinct).imp fun different same => ?_
    exact different (Std.LawfulEqCmp.eq_of_compare same)
  constructor
  · intro h
    have key : k ∈ ExtTreeMap.ofList pairs := by
      rw [ExtTreeMap.mem_iff_isSome_getElem?, h]
      rfl
    rw [ExtTreeMap.mem_ofList, List.contains_iff_mem, List.mem_map] at key
    obtain ⟨⟨_, y⟩, mem, rfl⟩ := key
    rw [ExtTreeMap.getElem?_ofList_of_mem Std.ReflCmp.compare_self apart mem] at h
    obtain rfl := Option.some.inj h
    exact mem
  · intro h
    exact ExtTreeMap.getElem?_ofList_of_mem Std.ReflCmp.compare_self apart h

/-! ## (1) Adding worlds -/

namespace WorldTable

/-- Worlds added to a table without free slots are put into the slots after those in use, in the
order of the list. -/
theorem get?_addAll {t : WorldTable} (unused : t.freed = []) (ws : List World) (r : WorldRef) :
    (t.addAll ws).2.get? r =
      if r.version = 1 ∧ t.size < r.slot ∧ r.slot ≤ t.size + ws.length then
        ws[r.slot - t.size - 1]?
      else t.get? r := by
  -- Induction on the worlds, over all tables: after the first is added the slots are one further.
  induction ws generalizing t with
  | nil =>
    rw [addAll, if_neg]
    simp only [List.length_nil, Nat.add_zero]
    omega
  | cons w ws ih =>
    have fresh : t.fresh = ⟨t.size + 1, 1⟩ := by rw [WorldTable.fresh, unused]; rfl
    have size : (t.add w).size = t.size + 1 := by
      show (t.live.insert t.fresh w).size = t.size + 1
      rw [ExtTreeMap.size_insert, if_neg]
      · rfl
      · exact fun old => t.fresh_notMem (ExtTreeMap.mem_iff_contains.2 old)
    have unused' : (t.add w).freed = [] := by
      show t.freed.tail = []
      rw [unused]
      rfl
    obtain ⟨slot, version⟩ := r
    show ((t.add w).addAll ws).2.get? ⟨slot, version⟩ = _
    rw [ih unused', size, get?_add, fresh, List.length_cons]
    dsimp only
    -- The reference is that of the first world, or that of a later one, or of neither.
    by_cases first : version = 1 ∧ slot = t.size + 1
    · obtain ⟨rfl, rfl⟩ := first
      rw [if_neg (by simp), if_pos rfl, if_pos (by simp)]
      simp
    · by_cases later : version = 1 ∧ t.size + 1 < slot ∧ slot ≤ t.size + 1 + ws.length
      · obtain ⟨index, rfl⟩ : ∃ index, slot = t.size + 1 + index + 1 :=
          ⟨slot - t.size - 2, by omega⟩
        rw [if_pos later, if_pos (by omega)]
        have shift : t.size + 1 + index + 1 - t.size - 1 = index + 1 := by omega
        have shift' : t.size + 1 + index + 1 - (t.size + 1) - 1 = index := by omega
        rw [shift, shift', List.getElem?_cons_succ]
      · have other : ¬ (⟨t.size + 1, 1⟩ : WorldRef) = ⟨slot, version⟩ := by
          rw [WorldRef.mk.injEq]
          omega
        rw [if_neg later, if_neg other, if_neg (by omega)]

/-- Worlds added to the empty table are in the slots from the first on. -/
theorem get?_addAll_empty {ws : List World} {r : WorldRef} {w : World} :
    (empty.addAll ws).2.get? r = some w ↔
      ∃ index, r = ⟨index + 1, 1⟩ ∧ ws[index]? = some w := by
  have nothing : empty.get? r = none := ExtTreeMap.getElem?_empty
  obtain ⟨slot, version⟩ := r
  rw [get?_addAll rfl, nothing]
  show (if version = 1 ∧ 0 < slot ∧ slot ≤ 0 + ws.length then ws[slot - 0 - 1]? else none) = _ ↔ _
  constructor
  · intro h
    split at h
    · next used =>
      obtain ⟨rfl, positive, -⟩ := used
      refine ⟨slot - 1, ?_, h⟩
      rw [Nat.sub_add_cancel positive]
    · cases h
  · rintro ⟨index, same, h⟩
    cases same
    obtain ⟨inside, -⟩ := List.getElem?_eq_some_iff.1 h
    rw [if_pos (by omega)]
    exact h

/-- Worlds added to the empty table are those of the table. -/
theorem exists_get?_addAll_empty {ws : List World} {w : World} :
    (∃ r, (empty.addAll ws).2.get? r = some w) ↔ w ∈ ws := by
  rw [List.mem_iff_getElem?]
  constructor
  · rintro ⟨r, h⟩
    obtain ⟨index, -, listed⟩ := get?_addAll_empty.1 h
    exact ⟨index, listed⟩
  · rintro ⟨index, h⟩
    exact ⟨_, get?_addAll_empty.2 ⟨index, rfl, h⟩⟩

/-- Of different worlds added to the empty table no two are at one reference. -/
theorem get?_addAll_empty_inj {ws : List World} (distinct : ws.Nodup) {r s : WorldRef} {w : World}
    (hr : (empty.addAll ws).2.get? r = some w) (hs : (empty.addAll ws).2.get? s = some w) :
    r = s := by
  obtain ⟨i, rfl, hi⟩ := get?_addAll_empty.1 hr
  obtain ⟨j, rfl, hj⟩ := get?_addAll_empty.1 hs
  obtain ⟨inside, -⟩ := List.getElem?_eq_some_iff.1 hi
  rw [(List.getElem?_inj inside distinct).1 (hi.trans hj.symm)]

end WorldTable

/-! ## (2) Rows of truth values -/

namespace World

/-- The rows of a length. -/
theorem mem_binaryRows {n : Nat} {row : List Bool} : row ∈ binaryRows n ↔ row.length = n := by
  induction n generalizing row with
  | zero => simp [binaryRows]
  | succ n ih =>
    rw [binaryRows, List.mem_append, List.mem_map, List.mem_map]
    cases row with
    | nil => simp
    | cons b rest =>
      cases b <;> simp [ih]

/-- No row is listed twice. -/
theorem nodup_binaryRows (n : Nat) : (binaryRows n).Nodup := by
  induction n with
  | zero => simp [binaryRows]
  | succ n ih =>
    have inj (b : Bool) : Function.Injective (List.cons b) := fun _ _ same => (List.cons.inj same).2
    rw [binaryRows, List.nodup_append]
    refine ⟨ih.map (inj false), ih.map (inj true), ?_⟩
    intro x hx y hy same
    obtain ⟨_, _, rfl⟩ := List.mem_map.1 hx
    obtain ⟨_, _, rfl⟩ := List.mem_map.1 hy
    cases same

/-- Different rows have different names. -/
theorem rowName_inj {row row' : List Bool} : rowName row = rowName row' ↔ row = row' := by
  have inj : Function.Injective digit := by
    intro b c
    cases b <;> cases c <;> decide
  rw [rowName, rowName, String.append_right_inj, String.ofList_inj]
  exact (List.map_injective_iff.2 inj).eq_iff

/-- The world of a row of values of some atoms. -/
def ofRow (atoms : List Atom) (row : List Bool) : World := ⟨rowName row, .ofList (atoms.zip row)⟩

/-- There is a world for every row. -/
theorem mem_allValuations {atoms : List Atom} {w : World} :
    w ∈ allValuations atoms ↔
      ∃ row : List Bool, row.length = atoms.length ∧ ofRow atoms row = w := by
  rw [allValuations, List.mem_map]
  simp only [mem_binaryRows, ofRow]

/-- Different rows have different worlds. -/
theorem ofRow_inj {atoms : List Atom} {row row' : List Bool} :
    ofRow atoms row = ofRow atoms row' ↔ row = row' := by
  constructor
  · intro same
    exact rowName_inj.1 (congrArg World.name same)
  · rintro rfl
    rfl

/-- No world is listed twice. -/
theorem nodup_allValuations (atoms : List Atom) : (allValuations atoms).Nodup :=
  (nodup_binaryRows atoms.length).map fun _ _ same => ofRow_inj.1 same

/-- The world of a row of values gives each atom its value of the row. -/
theorem valueOf_ofRow {atoms : List Atom} (distinct : atoms.Nodup) {row : List Bool}
    (full : row.length = atoms.length) {index : Nat} {p : Atom} (here : atoms[index]? = some p) :
    row[index]? = some ((ofRow atoms row).valuation.valueOf p) := by
  obtain ⟨inside, rfl⟩ := List.getElem?_eq_some_iff.1 here
  have keys : ((atoms.zip row).map Prod.fst).Nodup := by
    rwa [List.map_fst_zip (Nat.le_of_eq full.symm)]
  have inside' : index < (atoms.zip row).length := by
    rwa [List.length_zip, full, Nat.min_self]
  -- No atom is paired twice, so the value recorded for it is the one it is paired with.
  have paired : (atoms[index], row[index]) ∈ atoms.zip row := by
    have mem := List.getElem_mem inside'
    rwa [List.getElem_zip] at mem
  have recorded : (ofRow atoms row).valuation.recorded? atoms[index] = some row[index] :=
    (getElem?_ofList_iff keys).2 paired
  rw [Valuation.valueOf, recorded]
  exact List.getElem?_eq_getElem _

end World

/-! ## (3) Observation and names -/

namespace Model

variable {worlds : List World} {observed : ExtTreeMap Agent (ExtTreeSet Atom)}

/-- What is at a reference in a model from observability. -/
theorem world?_fromObservability (r : WorldRef) :
    (fromObservability worlds observed).2.world? r
      = (WorldTable.empty.addAll worlds).2.get? r :=
  rfl

/-- Two worlds are indistinguishable to an agent that observes some atoms if they give the same
values to these atoms. -/
theorem mem_relation_fromObservability {a : Agent} {atoms : ExtTreeSet Atom}
    (sight : observed[a]? = some atoms) {r s : WorldRef} :
    (⟨r, s⟩ : Arc) ∈ (fromObservability worlds observed).2.relation a ↔
      ∃ w v, (fromObservability worlds observed).2.world? r = some w ∧
        (fromObservability worlds observed).2.world? s = some v ∧
        ∀ p ∈ atoms, w.valuation.valueOf p = v.valuation.valueOf p := by
  have relation : (fromObservability worlds observed).2.relation a
      = .ofObserved (WorldTable.empty.addAll worlds).2 atoms.toList := by
    show (observed.map _)[a]?.getD Relation.empty = _
    rw [ExtTreeMap.getElem?_map, sight]
    rfl
  rw [relation, Relation.mem_ofObserved]
  simp only [World.valuesOf, List.map_inj_left, ExtTreeSet.mem_toList, world?_fromObservability]

/-- If there is a world of a name then a world of the name is found. -/
theorem exists_findWorld {m : Model} {name : String}
    (h : ∃ r w, m.world? r = some w ∧ w.name = name) :
    ∃ r w, m.findWorld name = .ok r ∧ m.world? r = some w ∧ w.name = name := by
  obtain ⟨r, w, hw, named⟩ := h
  rw [findWorld]
  split
  · next e found =>
    refine ⟨e.1, e.2, rfl, ?_, ?_⟩
    · exact ExtTreeMap.mem_toList_iff_getElem?_eq_some.1 (List.mem_of_find?_eq_some found)
    · simpa using List.find?_some found
  · next missing =>
    have here : (r, w) ∈ m.worlds.live.toList := ExtTreeMap.mem_toList_iff_getElem?_eq_some.2 hw
    have unnamed := List.find?_eq_none.1 missing (r, w) here
    rw [named] at unnamed
    simp at unnamed

end Model

end KnowledgePrograms
