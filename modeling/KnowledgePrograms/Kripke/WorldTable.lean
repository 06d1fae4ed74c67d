import Std.Data.ExtTreeMap
import KnowledgePrograms.Kripke.World

/-! # Tables of worlds

Worlds are kept in numbered slots and referred to by slot and version. A removed world leaves its
slot free; a new world takes the slot freed last, with the version raised by two, or else a new
slot with version one. So a reference to a removed world never comes to refer to a later one.

The slots of the live and of the freed references are together the numbers from one on, each
once. This is kept as a field of the type: it is why the reference handed out next is new.

That references stay apart is proved of any arena with the laws of `Arena.Lawful`, of which tables
are one (`WorldTable.lawful`): which slot a world is put in, and by how much a version is raised,
does not matter there. -/

namespace KnowledgePrograms

open Std (ExtTreeMap)

/-- A reference to a world in a table. -/
structure WorldRef where
  /-- The number of the slot, counted from one. -/
  slot : Nat
  /-- Which of the worlds that have been in the slot is meant. -/
  version : Nat
deriving DecidableEq, Inhabited, Hashable

namespace WorldRef

/-- References are ordered by slot and then by version. -/
instance : Ord WorldRef :=
  ⟨fun r s => (compare r.slot s.slot).then (compare r.version s.version)⟩

instance : Std.TransOrd WorldRef :=
  inferInstanceAs (Std.TransCmp (compareLex (compareOn slot) (compareOn version)))

instance : Std.LawfulEqOrd WorldRef where
  eq_of_compare {r s} h := by
    obtain ⟨slot, version⟩ := r
    obtain ⟨hs, hv⟩ := Ordering.then_eq_eq.1 h
    cases (Std.LawfulEqOrd.eq_of_compare hs : slot = s.slot)
    cases (Std.LawfulEqOrd.eq_of_compare hv : version = s.version)
    rfl

end WorldRef

/-- Worlds in numbered slots. -/
structure WorldTable where
  /-- The worlds of the table, in the order of their slots. -/
  live : ExtTreeMap WorldRef World
  /-- The last references to the slots that are free, the one freed last first. -/
  freed : List WorldRef
  /-- The slots in use and the free slots are the numbers from one on, each once. -/
  slots : ((live.keys ++ freed).map WorldRef.slot).Perm
    (List.range' 1 (live.size + freed.length))

namespace WorldTable

/-- The table without worlds. -/
def empty : WorldTable := ⟨∅, [], by simp⟩

instance : Inhabited WorldTable := ⟨empty⟩

/-- The references to the worlds of the table, in order. -/
def refs (t : WorldTable) : List WorldRef := t.live.keys

/-- The world referred to, if it is in the table. -/
def get? (t : WorldTable) (r : WorldRef) : Option World := t.live[r]?

/-- Whether the table has a world at the reference. -/
def contains (t : WorldTable) (r : WorldRef) : Bool := t.live.contains r

/-- The number of worlds. -/
def size (t : WorldTable) : Nat := t.live.size

/-- The reference to the world added next. -/
def fresh (t : WorldTable) : WorldRef :=
  match t.freed with
  | [] => ⟨t.live.size + 1, 1⟩
  | r :: _ => ⟨r.slot, r.version + 2⟩

/-- A reference is to a world of the table iff it is among its references. -/
theorem contains_iff {t : WorldTable} {r : WorldRef} : t.contains r = true ↔ r ∈ t.refs := by
  rw [contains, refs, ExtTreeMap.mem_keys, ExtTreeMap.mem_iff_contains]

/-- A reference is to a world of the table iff there is a world that it refers to. -/
theorem contains_eq_isSome (t : WorldTable) (r : WorldRef) : t.contains r = (t.get? r).isSome :=
  ExtTreeMap.contains_eq_isSome_getElem?

/-- No reference is listed twice. -/
theorem nodup_keys (live : ExtTreeMap WorldRef World) : live.keys.Nodup :=
  live.distinct_keys.imp fun apart same => apart (Std.LawfulEqCmp.compare_eq_iff_eq.2 same)

/-- The reference handed out next refers to nothing yet. -/
theorem fresh_notMem (t : WorldTable) : t.fresh ∉ t.live := by
  intro mem
  have slot : t.fresh.slot ∈ t.live.keys.map WorldRef.slot :=
    List.mem_map_of_mem (ExtTreeMap.mem_keys.2 mem)
  obtain ⟨live, freed, slots⟩ := t
  cases freed with
  | nil =>
    -- No slot is free, so those in use end just below the new one.
    simp only [List.append_nil, List.length_nil, Nat.add_zero] at slots
    have := List.mem_range'_1.1 (slots.mem_iff.1 slot)
    simp only [fresh] at this
    omega
  | cons r rest =>
    -- The slot freed last is free, so it is not in use.
    have nodup := slots.nodup_iff.2 List.nodup_range'
    rw [List.map_append, List.nodup_append] at nodup
    exact nodup.2.2 _ slot _ List.mem_cons_self rfl

/-- Putting a world at the reference handed out next adds this reference to the others. -/
theorem keys_insert_fresh (t : WorldTable) (w : World) :
    (t.live.insert t.fresh w).keys.Perm (t.fresh :: t.live.keys) := by
  have distinct : (t.fresh :: t.live.keys).Nodup :=
    List.nodup_cons.2 ⟨fun mem => t.fresh_notMem (ExtTreeMap.mem_keys.1 mem), nodup_keys t.live⟩
  refine (List.perm_ext_iff_of_nodup (nodup_keys _) distinct).2 fun r => ?_
  rw [ExtTreeMap.mem_keys, ExtTreeMap.mem_insert, List.mem_cons, ExtTreeMap.mem_keys,
    Std.LawfulEqCmp.compare_eq_iff_eq, eq_comm]

/-- The table with a world added, at the reference `fresh`. -/
def add (t : WorldTable) (w : World) : WorldTable where
  live := t.live.insert t.fresh w
  freed := t.freed.tail
  slots := by
    have keys := t.keys_insert_fresh w
    rw [← ExtTreeMap.length_keys, keys.length_eq, List.length_cons, ExtTreeMap.length_keys]
    refine (keys.append_right _).map _ |>.trans ?_
    obtain ⟨live, freed, slots⟩ := t
    cases freed with
    | nil =>
      simp only [List.append_nil, List.length_nil, Nat.add_zero, List.tail_nil,
        List.map_cons] at slots ⊢
      rw [List.range'_concat]
      refine (slots.cons _).trans ?_
      rw [Nat.one_mul, Nat.add_comm 1]
      exact (List.perm_append_singleton _ _).symm
    | cons r rest =>
      have count : live.size + 1 + rest.length = live.size + (r :: rest).length := by
        simp only [List.length_cons]
        omega
      show List.Perm _ (List.range' 1 (live.size + 1 + rest.length))
      rw [count]
      refine List.Perm.trans ?_ slots
      simp only [List.tail_cons, List.map_append, List.map_cons, List.cons_append]
      exact List.perm_middle.symm

/-- The worlds that pass a test. The slots of the others become free, in their order. -/
def keep (t : WorldTable) (p : WorldRef → Bool) : WorldTable where
  live := t.live.filter fun r _ => p r
  freed := (t.refs.filter fun r => !p r).reverse ++ t.freed
  slots := by
    rw [← ExtTreeMap.length_keys, ExtTreeMap.keys_filter_key, refs]
    let kept := t.live.keys.filter p
    let gone := t.live.keys.filter fun r => !p r
    have parts : (kept ++ (gone.reverse ++ t.freed)).Perm (t.live.keys ++ t.freed) := by
      rw [← List.append_assoc]
      refine List.Perm.append_right _ ?_
      exact ((List.reverse_perm _).append_left _).trans (List.filter_append_perm p t.live.keys)
    have count := parts.length_eq
    simp only [List.length_append, ExtTreeMap.length_keys, kept, gone] at count ⊢
    rw [count]
    exact (parts.map _).trans t.slots

/-- Add the worlds of a list one after the other, and tell their references. -/
def addAll (t : WorldTable) : List World → List WorldRef × WorldTable
  | [] => ([], t)
  | w :: ws =>
      let (refs, t') := (t.add w).addAll ws
      (t.fresh :: refs, t')

/-- After `add` the new reference refers to the new world and every other to what it did. -/
theorem get?_add (t : WorldTable) (w : World) (r : WorldRef) :
    (t.add w).get? r = if t.fresh = r then some w else t.get? r := by
  simp only [get?, add, ExtTreeMap.getElem?_insert, Std.LawfulEqCmp.compare_eq_iff_eq]

/-- After `keep` a reference that passes the test refers to what it did, any other to nothing. -/
theorem get?_keep (t : WorldTable) (p : WorldRef → Bool) (r : WorldRef) :
    (t.keep p).get? r = if p r then t.get? r else none := by
  rw [get?, keep, ExtTreeMap.getElem?_filter', ← get?]
  cases t.get? r <;> simp [Option.filter]

end WorldTable

end KnowledgePrograms
