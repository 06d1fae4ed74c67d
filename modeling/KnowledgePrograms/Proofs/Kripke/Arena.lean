import Mathlib.Data.List.Nodup
import KnowledgePrograms.Proofs.Kripke.Pairing

/-! # Arenas

Worlds are kept in an arena, of which nothing is relied on but this: a world that is put in is given
a reference, at which it is found until it is taken out, and which leads to nothing else. References
number a slot and a version of it. The version of a slot goes up when a world is put there, and is
never lowered, so that a reference has a later version than all that were handed out before it for
its slot. The references to what is there are listed by slot.

Versions are natural numbers, so none is ever the last one.

* `Arena`, `Arena.Lawful`: what can be done with an arena, and what is relied on.
* `Arena.Issued`: the references that an arena has handed out, which stays so (`Issued.insert`,
  `Issued.remove`) and tells that the next one is new (`Issued.notMem`).
* `WorldTable.lawful`: a table of worlds is such an arena. -/

namespace KnowledgePrograms

open Std (ExtTreeMap ExtTreeSet)

/-- What can be done with worlds that are kept at references. -/
class Arena (τ : Type) where
  /-- The arena without worlds. -/
  empty : τ
  /-- The world at a reference, if there is one. -/
  get? : τ → WorldRef → Option World
  /-- The references to worlds. -/
  keys : τ → List WorldRef
  /-- Put in a world: the reference that it is given, and the arena then. -/
  insert : τ → World → WorldRef × τ
  /-- Take out the world at a reference, if there is one: that world, and the arena then. -/
  remove : τ → WorldRef → Option World × τ

namespace Arena

/-- What is relied on, where `version` tells the version of each slot of an arena. -/
structure Lawful {τ : Type} [Arena τ] (version : τ → Nat → Nat) : Prop where
  /-- The empty arena has no world. -/
  get?_empty : ∀ r, get? (empty : τ) r = none
  /-- The references that are listed are those to worlds. -/
  mem_keys : ∀ (t : τ) (r : WorldRef), r ∈ keys t ↔ (get? t r).isSome = true
  /-- References are listed by slot. -/
  keys_ordered : ∀ t : τ, (keys t).Pairwise fun r s => r.slot < s.slot
  /-- A world that is put in is at the reference it is given, and others are where they were. -/
  get?_insert : ∀ (t : τ) (w : World) (r : WorldRef),
    get? (insert t w).2 r = if r = (insert t w).1 then some w else get? t r
  /-- A reference that is handed out has a later version than its slot. -/
  version_lt_insert : ∀ (t : τ) (w : World),
    version t (insert t w).1.slot < (insert t w).1.version
  /-- The slot has no earlier version then than the reference. -/
  insert_le_version : ∀ (t : τ) (w : World),
    (insert t w).1.version ≤ version (insert t w).2 (insert t w).1.slot
  /-- Putting in a world lowers no version. -/
  version_le_insert : ∀ (t : τ) (w : World) (i : Nat), version t i ≤ version (insert t w).2 i
  /-- The world that is taken out is the one that was at the reference. -/
  fst_remove : ∀ (t : τ) (r : WorldRef), (remove t r).1 = get? t r
  /-- Nothing is left at the reference, and other worlds are where they were. -/
  get?_remove : ∀ (t : τ) (r s : WorldRef),
    get? (remove t r).2 s = if s = r then none else get? t s
  /-- Taking out a world lowers no version. -/
  version_le_remove : ∀ (t : τ) (r : WorldRef) (i : Nat), version t i ≤ version (remove t r).2 i

/-- Take out the worlds at some references one after the other. -/
def removeAll {τ : Type} [Arena τ] (t : τ) (gone : List WorldRef) : τ :=
  gone.foldl (fun t r => (remove t r).2) t

/-! ## (1) The references that an arena has handed out -/

variable {τ : Type} [Arena τ] {version : τ → Nat → Nat} {t : τ} {handed : List WorldRef}
  {r : WorldRef}

/-- The references handed out: none of them twice, those to worlds among them, and none with a later
version than its slot. -/
structure Issued (version : τ → Nat → Nat) (t : τ) (handed : List WorldRef) : Prop where
  /-- No reference was handed out twice. -/
  nodup : handed.Nodup
  /-- References to worlds were handed out. -/
  of_live : ∀ r, (get? t r).isSome = true → r ∈ handed
  /-- The versions handed out for a slot are no later than its own. -/
  version_le : ∀ r ∈ handed, r.version ≤ version t r.slot

/-- Of the empty arena nothing was handed out. -/
theorem Lawful.issued_empty (laws : Lawful version) : Issued version (empty : τ) [] where
  nodup := List.nodup_nil
  of_live r live := by simp [laws.get?_empty] at live
  version_le r mem := absurd mem List.not_mem_nil

/-- A reference that is handed out was not handed out before. -/
theorem Issued.notMem (issued : Issued version t handed) (laws : Lawful version) (w : World) :
    (insert t w).1 ∉ handed := fun old =>
  absurd (issued.version_le _ old) (Nat.not_le_of_lt (laws.version_lt_insert t w))

/-- When a world is put in, the reference it is given is handed out besides the others. -/
theorem Issued.insert (issued : Issued version t handed) (laws : Lawful version) (w : World) :
    Issued version (insert t w).2 ((insert t w).1 :: handed) where
  nodup := List.nodup_cons.2 ⟨issued.notMem laws w, issued.nodup⟩
  of_live r live := by
    rw [laws.get?_insert] at live
    split at live
    · next same => exact same ▸ List.mem_cons_self
    · exact List.mem_cons_of_mem _ (issued.of_live r live)
  version_le r mem := by
    rcases List.mem_cons.1 mem with rfl | old
    · exact laws.insert_le_version t w
    · exact Nat.le_trans (issued.version_le r old) (laws.version_le_insert t w r.slot)

/-- When a world is taken out, nothing is handed out. -/
theorem Issued.remove (issued : Issued version t handed) (laws : Lawful version) (x : WorldRef) :
    Issued version (remove t x).2 handed where
  nodup := issued.nodup
  of_live r live := by
    rw [laws.get?_remove] at live
    split at live
    · cases live
    · exact issued.of_live r live
  version_le r old := Nat.le_trans (issued.version_le r old) (laws.version_le_remove t x r.slot)

/-- When worlds are taken out one after the other, nothing is handed out. -/
theorem Issued.removeAll (issued : Issued version t handed) (laws : Lawful version)
    (gone : List WorldRef) : Issued version (removeAll t gone) handed := by
  induction gone generalizing t with
  | nil => exact issued
  | cons x rest ih => exact ih (issued.remove laws x)

/-- When worlds are taken out one after the other, the others stay where they were. -/
theorem Lawful.get?_removeAll (laws : Lawful version) (t : τ) (gone : List WorldRef)
    (r : WorldRef) : get? (Arena.removeAll t gone) r = if r ∈ gone then none else get? t r := by
  induction gone generalizing t with
  | nil => rfl
  | cons x rest ih =>
    rw [Arena.removeAll, List.foldl_cons, ← Arena.removeAll, ih, laws.get?_remove]
    by_cases same : r = x <;> by_cases later : r ∈ rest <;> simp [same, later]

end Arena

/-! ## (2) Tables of worlds -/

namespace WorldTable

variable {t t' : WorldTable} {r s : WorldRef} {i : Nat}

instance : Arena WorldTable where
  empty := empty
  get? := get?
  keys := refs
  insert t w := (t.fresh, t.add w)
  remove t r := (t.get? r, t.keep (· != r))

/-- The reference is to a live world or is the last one to a free slot. -/
def Current (t : WorldTable) (r : WorldRef) : Prop := r ∈ t.refs ++ t.freed

/-- The version of a slot is that of its current reference, and `0` before there is one. -/
def version (t : WorldTable) (i : Nat) : Nat :=
  ((t.refs ++ t.freed).find? fun r => r.slot == i).elim 0 WorldRef.version

/-- The slot of a current reference is one of those that are in use or free. -/
theorem Current.slot_le (h : t.Current r) : r.slot ≤ t.size + t.freed.length := by
  have slot := List.mem_map_of_mem (f := WorldRef.slot) h
  have range := List.mem_range'_1.1 (t.slots.mem_iff.1 slot)
  have size : t.size = t.live.size := rfl
  omega

/-- There is one current reference to a slot. -/
theorem Current.eq_of_slot_eq (hr : t.Current r) (hs : t.Current s) (same : r.slot = s.slot) :
    r = s :=
  List.inj_on_of_nodup_map (t.slots.nodup_iff.2 List.nodup_range') hr hs same

/-- The version of a slot is that of the current reference to it. -/
theorem Current.version_eq (h : t.Current r) : t.version r.slot = r.version := by
  rw [version]
  cases found : (t.refs ++ t.freed).find? fun s => s.slot == r.slot with
  | none => exact absurd (List.find?_eq_none.1 found r h) (by simp)
  | some s =>
    have same := List.find?_some found
    rw [h.eq_of_slot_eq (List.mem_of_find?_eq_some found) (beq_iff_eq.1 same).symm]
    rfl

/-- A slot to which there is no current reference has version `0`. -/
theorem version_eq_zero (none : ∀ r, t.Current r → r.slot ≠ i) : t.version i = 0 := by
  rw [version, List.find?_eq_none.2 fun r hr same => none r hr (beq_iff_eq.1 same)]
  rfl

/-- Versions are not lowered when slots keep a current reference, or get one of a later version. -/
theorem version_le (later : ∀ r, t.Current r →
    ∃ s, t'.Current s ∧ s.slot = r.slot ∧ r.version ≤ s.version) (i : Nat) :
    t.version i ≤ t'.version i := by
  by_cases used : ∃ r, t.Current r ∧ r.slot = i
  · obtain ⟨r, current, rfl⟩ := used
    obtain ⟨s, current', slot, version⟩ := later r current
    rw [current.version_eq, ← slot, current'.version_eq]
    exact version
  · rw [version_eq_zero fun r current slot => used ⟨r, current, slot⟩]
    exact Nat.zero_le _

/-- The reference handed out for a world is to a world then. -/
theorem current_fresh (t : WorldTable) (w : World) : (t.add w).Current t.fresh :=
  List.mem_append_left _ (contains_iff.1 (contains_add.2 (.inl rfl)))

/-- After a world is added the slot of each current reference has that reference or a later one. -/
theorem exists_current_add (t : WorldTable) (w : World) (current : t.Current r) :
    ∃ s, (t.add w).Current s ∧ s.slot = r.slot ∧ r.version ≤ s.version := by
  rcases List.mem_append.1 current with live | free
  · refine ⟨r, List.mem_append_left _ ?_, rfl, Nat.le_refl _⟩
    exact contains_iff.1 (contains_add.2 (.inr (contains_iff.2 live)))
  · -- A free slot is used again if it is the one freed last.
    cases freed : t.freed with
    | nil => simp [freed] at free
    | cons last rest =>
      rw [freed] at free
      rcases List.mem_cons.1 free with rfl | free
      · have fresh : t.fresh = ⟨r.slot, r.version + 2⟩ := by rw [WorldTable.fresh, freed]
        refine ⟨t.fresh, t.current_fresh w, by rw [fresh], ?_⟩
        simp only [fresh]
        omega
      · refine ⟨r, List.mem_append_right _ ?_, rfl, Nat.le_refl _⟩
        show r ∈ t.freed.tail
        rwa [freed]

/-- The reference handed out for a world has a later version than its slot. -/
theorem version_lt_fresh (t : WorldTable) : t.version t.fresh.slot < t.fresh.version := by
  cases freed : t.freed with
  | nil =>
    -- The new slot is past all slots.
    have fresh : t.fresh = ⟨t.size + 1, 1⟩ := by rw [WorldTable.fresh, freed]; rfl
    rw [fresh, version_eq_zero fun r current slot => ?_]
    · exact Nat.one_pos
    · have bound := current.slot_le
      simp only [freed, List.length_nil] at slot bound
      omega
  | cons last rest =>
    -- The slot is that of `last`, whose version is earlier.
    have fresh : t.fresh = ⟨last.slot, last.version + 2⟩ := by rw [WorldTable.fresh, freed]
    have current : t.Current last := List.mem_append_right _ (by simp [freed])
    simp only [fresh, current.version_eq]
    omega

/-- A table that keeps some of its worlds has the current references that it had. -/
theorem current_keep (p : WorldRef → Bool) : (t.keep p).Current r ↔ t.Current r := by
  have live : r ∈ (t.keep p).refs ↔ r ∈ t.refs ∧ p r = true := by
    show r ∈ (t.live.filter fun r _ => p r).keys ↔ _
    rw [ExtTreeMap.keys_filter_key, List.mem_filter, refs]
  have free : r ∈ (t.keep p).freed ↔ (r ∈ t.refs ∧ p r = false) ∨ r ∈ t.freed := by
    simp [keep]
  rw [Current, Current, List.mem_append, List.mem_append, live, free]
  cases p r <;> simp

/-- The references of a table are listed by slot. -/
theorem refs_ordered (t : WorldTable) : t.refs.Pairwise fun r s => r.slot < s.slot := by
  have distinct := t.slots.nodup_iff.2 List.nodup_range'
  rw [List.map_append, List.nodup_append] at distinct
  refine (t.live.ordered_keys.and (List.pairwise_map.1 distinct.1)).imp fun {r s} h => ?_
  -- Of two references in order the first has the lower slot, unless they have the same one.
  obtain ⟨below, apart⟩ := h
  rcases Nat.lt_trichotomy r.slot s.slot with less | same | more
  · exact less
  · exact absurd same apart
  · have above : compare r.slot s.slot = .gt := Nat.compare_eq_gt.2 more
    have order : (compare r.slot s.slot).then (compare r.version s.version) = .lt := below
    rw [above] at order
    cases order

/-- **Tables are arenas.** A table of worlds is an arena as it is relied on. -/
theorem lawful : Arena.Lawful version where
  get?_empty r := by
    show empty.live[r]? = none
    simp [empty]
  mem_keys t r := by
    show r ∈ t.refs ↔ _
    rw [← contains_iff, contains_eq_isSome]
    rfl
  keys_ordered t := t.refs_ordered
  get?_insert t w r := by
    show (t.add w).get? r = if r = t.fresh then some w else t.get? r
    by_cases same : r = t.fresh
    · rw [get?_add, if_pos same.symm, if_pos same]
    · rw [get?_add, if_neg (Ne.symm same), if_neg same]
  version_lt_insert t _ := t.version_lt_fresh
  insert_le_version t w := Nat.le_of_eq (t.current_fresh w).version_eq.symm
  version_le_insert t w := version_le fun _ current => t.exists_current_add w current
  fst_remove _ _ := rfl
  get?_remove t r s := by
    show (t.keep (· != r)).get? s = if s = r then none else t.get? s
    rw [get?_keep]
    by_cases same : s = r <;> simp [same]
  version_le_remove t x := version_le fun r current =>
    ⟨r, (current_keep _).2 current, rfl, Nat.le_refl _⟩

end WorldTable

end KnowledgePrograms
