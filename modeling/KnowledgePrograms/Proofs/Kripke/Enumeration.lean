import Mathlib.Data.Nat.Digits.Lemmas
import Mathlib.Data.Nat.Bitwise
import KnowledgePrograms.Proofs.Kripke.Indistinguishability

/-! # Worlds numbered by their valuations

The worlds of all valuations of some atoms can be had by counting: a number written in base two
values the atoms by its digits, the highest for the first atom, and writes the name of the world as
well. So the worlds are as many as the numbers of that many digits, each valuation is at one of
them, and the world of a valuation is found by the name that the valuation spells.

* `World.enumerate`: the worlds by counting in machine words, with the digits taken by shift and
  mask.
* `World.bits`, `World.numeral`: the digits of a number, as its bits and as it is written.
* `World.IsNumbered`: what the world of a number is.
* `World.allValuations_enumerates`: counting lists the worlds of all valuations, each once. -/

namespace KnowledgePrograms

open Std (ExtTreeMap ExtTreeSet)

namespace World

/-! ## (1) Counting -/

/-- The world with an atom valued and the digit of the value written at the end of the name. -/
def withValue (w : World) (p : Atom) (b : Bool) : World :=
  ⟨w.name.push (digit b), w.valuation.set p b⟩

/-- The digit of a word in base two at a place, counted from the lowest. -/
def bitAt (word place : UInt64) : Bool := (word >>> place) &&& 1 == 1

/-- The world of a word: each atom has the digit at its place, which for the last atom is the
lowest. -/
def ofWord (atoms : List Atom) (word : UInt64) : World :=
  atoms.zipIdx.foldl
    (fun w (p, position) => w.withValue p (bitAt word (.ofNat (atoms.length - 1 - position))))
    ⟨"w", .empty⟩

/-- The worlds of the words below the one with a single digit, of the place after the first
atom's. -/
def enumerate (atoms : List Atom) : List World :=
  (List.range ((1 : UInt64) <<< UInt64.ofNat atoms.length).toNat).map fun i =>
    ofWord atoms (.ofNat i)

/-- The world after atoms are valued one by one. -/
theorem foldl_withValue (pairs : List (Atom × Bool)) (w : World) :
    pairs.foldl (fun w e => w.withValue e.1 e.2) w =
      ⟨w.name ++ String.ofList (pairs.map fun e => digit e.2),
        ⟨w.valuation.recorded.insertMany pairs⟩⟩ := by
  induction pairs generalizing w with
  | nil => simp
  | cons e rest ih =>
    rw [List.foldl_cons, ih, ExtTreeMap.insertMany_cons, List.map_cons]
    have name : w.name.push (digit e.2) = w.name ++ String.singleton (digit e.2) :=
      String.push_eq_append _
    simp only [withValue, Valuation.set, name, String.ofList_cons, String.append_assoc]

/-! ## (2) The digits of a number -/

/-- The lowest digits of a number in base two, as truth values, the highest of them first. -/
def bits (n i : Nat) : List Bool := (List.range n).map fun j => i.testBit (n - 1 - j)

/-- A number written in base two, the highest digit first, with zeros in front up to a width. -/
def numeral (width i : Nat) : List Nat := (Nat.digits 2 i).reverse.leftpad width 0

variable {n i j : Nat}

/-- There are as many digits as asked for. -/
theorem length_bits (n i : Nat) : (bits n i).length = n := by
  rw [bits, List.length_map, List.length_range]

/-- One more digit at the high end. -/
theorem bits_succ (n i : Nat) : bits (n + 1) i = i.testBit n :: bits n i := by
  rw [bits, List.range_succ_eq_map, List.map_cons, List.map_map, bits]
  refine congrArg _ (List.map_congr_left fun j _ => ?_)
  show i.testBit (n + 1 - 1 - (j + 1)) = _
  congr 1
  omega

/-- One more digit at the low end. -/
theorem bits_succ' (n i : Nat) : bits (n + 1) i = bits n (i / 2) ++ [i.testBit 0] := by
  induction n with
  | zero => rfl
  | succ n ih => rw [bits_succ, ih, bits_succ, Nat.testBit_succ, List.cons_append]

/-- A digit above those counted does not show. -/
theorem bits_two_pow_add (n i : Nat) : bits n (2 ^ n + i) = bits n i := by
  refine List.map_congr_left fun j inside => ?_
  rw [List.mem_range] at inside
  exact Nat.testBit_two_pow_add_gt (by omega) i

/-- The rows are the digits of the numbers in turn. -/
theorem binaryRows_eq (n : Nat) : binaryRows n = (List.range (2 ^ n)).map (bits n) := by
  induction n with
  | zero => rfl
  | succ n ih =>
    -- The numbers of one more digit are those without it, and then the same with it.
    have low : (List.range (2 ^ n)).map (bits (n + 1))
        = (List.range (2 ^ n)).map fun i => false :: bits n i := by
      refine List.map_congr_left fun i small => ?_
      rw [bits_succ, Nat.testBit_lt_two_pow (List.mem_range.1 small)]
    have high : (List.range (2 ^ n)).map (fun i => bits (n + 1) (2 ^ n + i))
        = (List.range (2 ^ n)).map fun i => true :: bits n i := by
      refine List.map_congr_left fun i small => ?_
      rw [bits_succ, bits_two_pow_add, Nat.testBit_two_pow_add_eq,
        Nat.testBit_lt_two_pow (List.mem_range.1 small), Bool.not_false]
    rw [binaryRows, ih, Nat.pow_succ, Nat.mul_two, List.range_add, List.map_append, List.map_map,
      List.map_map, List.map_map, low]
    exact congrArg _ high.symm

/-- A numeral one digit wider is that of the half, and the last digit. -/
theorem numeral_succ (n i : Nat) : numeral (n + 1) i = numeral n (i / 2) ++ [i % 2] := by
  rcases Nat.eq_zero_or_pos i with rfl | positive
  · -- Zero has no digits of its own, so both numerals are zeros put in front.
    simp [numeral, List.leftpad, List.replicate_succ']
  · rw [numeral, Nat.digits_def' (by decide) positive]
    simp [numeral, List.leftpad]

/-- A numeral that is wide enough writes the digits of the number. -/
theorem numeral_eq (small : i < 2 ^ n) : numeral n i = (bits n i).map Bool.toNat := by
  induction n generalizing i with
  | zero =>
    obtain rfl : i = 0 := by simpa using small
    rfl
  | succ n ih =>
    have half : i / 2 < 2 ^ n := by omega
    rw [numeral_succ, bits_succ', ih half, List.map_append, Nat.testBit_zero]
    cases Nat.mod_two_eq_zero_or_one i with
    | inl even => simp [even]
    | inr odd => simp [odd]

/-- The name of the world of a row of digits is written with the numeral. -/
theorem rowName_bits (small : i < 2 ^ n) :
    rowName (bits n i) = "w" ++ String.ofList ((numeral n i).map Nat.digitChar) := by
  rw [numeral_eq small, List.map_map, rowName]
  congr 3
  funext b
  cases b <;> rfl

/-! ## (3) The worlds by counting -/

variable {atoms : List Atom} {f : Atom → Bool} {w : World}

/-- The digit of a word is that of the number. -/
theorem bitAt_ofNat (small : i < 2 ^ 64) (h : j < 64) :
    bitAt (.ofNat i) (.ofNat j) = i.testBit j := by
  have place : (UInt64.ofNat j).toNat = j :=
    UInt64.toNat_ofNat_of_lt' (Nat.lt_trans h (by decide))
  have word : (UInt64.ofNat i).toNat = i := UInt64.toNat_ofNat_of_lt' small
  have masked : ((UInt64.ofNat i >>> UInt64.ofNat j) &&& 1).toNat = i / 2 ^ j % 2 := by
    rw [UInt64.toNat_and, UInt64.toNat_shiftRight, word, place, Nat.mod_eq_of_lt h,
      Nat.shiftRight_eq_div_pow]
    exact Nat.and_one_is_mod _
  rw [bitAt, Nat.testBit_eq_decide_div_mod_eq, beq_eq_decide, decide_eq_decide, ← masked,
    ← UInt64.toNat_inj]
  rfl

/-- The world of a row of values is had by valuing the atoms one by one. -/
theorem foldl_withValue_zip {row : List Bool} (full : row.length = atoms.length) :
    (atoms.zip row).foldl (fun w e => w.withValue e.1 e.2) ⟨"w", .empty⟩ = ofRow atoms row := by
  have digits : (atoms.zip row).map (fun e => digit e.2) = row.map digit := by
    rw [← congrArg (List.map digit) (List.map_snd_zip (Nat.le_of_eq full)), List.map_map]
    rfl
  have recorded : Valuation.empty.recorded.insertMany (atoms.zip row)
      = ExtTreeMap.ofList (atoms.zip row) := ExtTreeMap.ofList_eq_insertMany_empty.symm
  rw [foldl_withValue, digits, recorded]
  rfl

/-- The world of a word is that of its digits. -/
theorem ofWord_eq (few : atoms.length ≤ 63) (small : i < 2 ^ atoms.length) :
    ofWord atoms (.ofNat i) = ofRow atoms (bits atoms.length i) := by
  have word : i < 2 ^ 64 :=
    Nat.lt_of_lt_of_le small (Nat.pow_le_pow_right (by decide) (by omega))
  -- Each atom is valued by the digit that it is paired with.
  have pairs : atoms.zipIdx.map (fun e =>
      (e.1, bitAt (.ofNat i) (.ofNat (atoms.length - 1 - e.2))))
        = atoms.zip (bits atoms.length i) := by
    refine List.ext_getElem ?_ fun j inside inside' => ?_
    · rw [List.length_map, List.length_zipIdx, List.length_zip, length_bits, Nat.min_self]
    · rw [List.length_map, List.length_zipIdx] at inside
      rw [List.getElem_map, List.getElem_zipIdx, List.getElem_zip, Nat.zero_add,
        bitAt_ofNat word (by omega)]
      simp [bits]
  rw [← foldl_withValue_zip (length_bits atoms.length i), ← pairs, List.foldl_map]
  rfl

/-- Counting lists the worlds of all valuations. -/
theorem enumerate_eq (few : atoms.length ≤ 63) : enumerate atoms = allValuations atoms := by
  -- The bound fits in a word, as there are fewer atoms than a word has digits.
  have word : 2 ^ atoms.length < 2 ^ 64 := Nat.pow_lt_pow_right (by decide) (by omega)
  have place : (UInt64.ofNat atoms.length).toNat = atoms.length :=
    UInt64.toNat_ofNat_of_lt' (Nat.lt_of_le_of_lt few (by decide))
  have bound : ((1 : UInt64) <<< UInt64.ofNat atoms.length).toNat = 2 ^ atoms.length := by
    rw [UInt64.toNat_shiftLeft, place, Nat.mod_eq_of_lt (show atoms.length < 64 by omega),
      Nat.shiftLeft_eq]
    show 1 * _ % _ = _
    rw [Nat.one_mul, Nat.mod_eq_of_lt word]
  rw [enumerate, bound, allValuations, binaryRows_eq, List.map_map]
  refine List.map_congr_left fun i small => ?_
  exact ofWord_eq few (List.mem_range.1 small)

/-! ## (4) The world of a number -/

/-- The world of a number is named by the numeral, gives each atom the digit at its place, and
records no other atom. -/
structure IsNumbered (atoms : List Atom) (i : Nat) (w : World) : Prop where
  /-- The name is the numeral after a letter. -/
  name_eq : w.name = "w" ++ String.ofList ((numeral atoms.length i).map Nat.digitChar)
  /-- An atom is true if its digit is one. -/
  valueOf_iff : ∀ (j : Nat) (p : Atom), atoms[j]? = some p →
    (w.valuation.valueOf p = true ↔ (numeral atoms.length i)[j]? = some 1)
  /-- The atoms with a recorded value are those of the list. -/
  recorded_iff : ∀ p, (w.valuation.recorded? p).isSome ↔ p ∈ atoms

/-- The world at a place is that of the digits of its number. -/
theorem getElem?_allValuations {i : Nat} :
    (allValuations atoms)[i]? = some w ↔
      i < 2 ^ atoms.length ∧ ofRow atoms (bits atoms.length i) = w := by
  rw [allValuations, binaryRows_eq, List.map_map, List.getElem?_map, Option.map_eq_some_iff]
  simp only [List.getElem?_eq_some_iff, List.length_range, List.getElem_range]
  constructor
  · rintro ⟨_, ⟨small, rfl⟩, same⟩
    exact ⟨small, same⟩
  · rintro ⟨small, same⟩
    exact ⟨i, ⟨small, rfl⟩, same⟩

/-- There are as many worlds as numbers of as many digits as there are atoms. -/
theorem length_allValuations (atoms : List Atom) :
    (allValuations atoms).length = 2 ^ atoms.length := by
  rw [allValuations, binaryRows_eq, List.length_map, List.length_map, List.length_range]

/-- No name is given twice. -/
theorem nodup_names (atoms : List Atom) : ((allValuations atoms).map World.name).Nodup := by
  rw [allValuations, List.map_map]
  exact (nodup_binaryRows _).map fun _ _ same => rowName_inj.1 same

/-- A row has a value for every atom. -/
theorem recorded?_ofRow {row : List Bool} (full : row.length = atoms.length) {p : Atom} :
    ((ofRow atoms row).valuation.recorded? p).isSome ↔ p ∈ atoms := by
  have keys : (atoms.zip row).map Prod.fst = atoms := List.map_fst_zip (Nat.le_of_eq full.symm)
  show ((ExtTreeMap.ofList (atoms.zip row))[p]?).isSome ↔ _
  rw [← ExtTreeMap.mem_iff_isSome_getElem?, ExtTreeMap.mem_ofList, keys, List.contains_iff_mem]

/-- The world of the digits of a number is the world of the number. -/
theorem isNumbered_ofRow (distinct : atoms.Nodup) {i : Nat} (small : i < 2 ^ atoms.length) :
    IsNumbered atoms i (ofRow atoms (bits atoms.length i)) where
  name_eq := rowName_bits small
  valueOf_iff j p here := by
    rw [numeral_eq small, List.getElem?_map,
      valueOf_ofRow distinct (length_bits atoms.length i) here]
    cases (ofRow atoms (bits atoms.length i)).valuation.valueOf p <;> decide
  recorded_iff p := recorded?_ofRow (length_bits atoms.length i)

/-- A row of values is that of an assignment if its world agrees with the assignment. -/
theorem forall_valueOf_ofRow (distinct : atoms.Nodup) {row : List Bool}
    (full : row.length = atoms.length) :
    (∀ p ∈ atoms, (ofRow atoms row).valuation.valueOf p = f p) ↔ row = atoms.map f := by
  have read (j : Nat) (p : Atom) (here : atoms[j]? = some p) :=
    valueOf_ofRow distinct full here
  constructor
  · intro agree
    refine List.ext_getElem? fun j => ?_
    rw [List.getElem?_map]
    cases here : atoms[j]? with
    | none =>
      rw [List.getElem?_eq_none_iff, ← full] at here
      exact List.getElem?_eq_none here
    | some p => rw [read j p here, agree p (List.mem_of_getElem? here), Option.map_some]
  · rintro rfl p mem
    obtain ⟨j, here⟩ := List.mem_iff_getElem?.1 mem
    have paired := read j p here
    rw [List.getElem?_map, here, Option.map_some, Option.some.injEq] at paired
    exact paired.symm

/-- The digits of one number are the values of the atoms. -/
theorem exists_bits (atoms : List Atom) (f : Atom → Bool) :
    ∃ i < 2 ^ atoms.length, bits atoms.length i = atoms.map f := by
  have mem : atoms.map f ∈ binaryRows atoms.length := mem_binaryRows.2 (List.length_map _)
  rw [binaryRows_eq, List.mem_map] at mem
  obtain ⟨i, small, same⟩ := mem
  exact ⟨i, List.mem_range.1 small, same⟩

end World

/-! ## (5) The world of an assignment -/

/-- If no name is given twice, each world of the list is found by its name, at its reference. -/
theorem Model.findWorld_fromObservability {worlds : List World}
    (distinct : (worlds.map World.name).Nodup) (observed : ExtTreeMap Agent (ExtTreeSet Atom))
    {i : Nat} {w : World} (here : worlds[i]? = some w) :
    ∃ r, (fromObservability worlds observed).1[i]? = some r ∧
      (fromObservability worlds observed).2.world? r = some w ∧
      (fromObservability worlds observed).2.findWorld w.name = .ok r := by
  have told := congrArg (·[i]?) (WorldTable.empty.map_get?_addAll worlds)
  simp only [List.getElem?_map, here, Option.map_some, Option.map_eq_some_iff] at told
  obtain ⟨r, listed, at_r⟩ := told
  obtain ⟨s, v, found, at_s, named⟩ := exists_findWorld
    (m := (fromObservability worlds observed).2) ⟨r, w, at_r, rfl⟩
  have mem : v ∈ worlds := WorldTable.exists_get?_addAll_empty.1 ⟨s, at_s⟩
  obtain rfl : v = w :=
    List.inj_on_of_nodup_map distinct mem (List.mem_of_getElem? here) named
  obtain rfl : s = r := WorldTable.get?_addAll_empty_inj distinct.of_map at_s at_r
  exact ⟨s, listed, at_s, found⟩

namespace World

variable {atoms : List Atom} {f : Atom → Bool}

/-- Just one of the worlds agrees with an assignment of values to the atoms, and its name spells the
assignment. -/
theorem exists_agreeing (distinct : atoms.Nodup) (f : Atom → Bool) :
    ∃ (i : Nat) (w : World), (allValuations atoms)[i]? = some w ∧ w.name = rowName (atoms.map f) ∧
      ∀ (j : Nat) (v : World), (allValuations atoms)[j]? = some v →
        ((∀ p ∈ atoms, v.valuation.valueOf p = f p) ↔ j = i) := by
  obtain ⟨i, small, spelled⟩ := exists_bits atoms f
  refine ⟨i, _, getElem?_allValuations.2 ⟨small, rfl⟩, congrArg rowName spelled, ?_⟩
  rintro j v listed
  obtain ⟨small', rfl⟩ := getElem?_allValuations.1 listed
  rw [forall_valueOf_ofRow distinct (length_bits _ _), ← spelled]
  constructor
  · -- Rows with the same values are the same row, and no row is listed twice.
    intro same
    have listed' : (allValuations atoms)[i]? = some (ofRow atoms (bits atoms.length i)) :=
      getElem?_allValuations.2 ⟨small, rfl⟩
    rw [← same] at listed'
    have inside : j < (allValuations atoms).length := by rwa [length_allValuations]
    exact (List.getElem?_inj inside (nodup_allValuations atoms)).1 (listed.trans listed'.symm)
  · rintro rfl
    rfl

/-- The worlds of all valuations of different atoms, no more than a word can count, are had by
counting. There is one for each number of as many digits as there are atoms. The name of the world
of a number writes the digits, and its valuation gives each atom its digit. Just one of the worlds
agrees with an assignment of values to the atoms, and in a model of the worlds it is found by the
name that the assignment spells. -/
theorem allValuations_enumerates (distinct : atoms.Nodup) (few : atoms.length ≤ 63) :
    enumerate atoms = allValuations atoms ∧
    (allValuations atoms).length = 2 ^ atoms.length ∧
    ((allValuations atoms).map World.name).Nodup ∧
    (∀ i < 2 ^ atoms.length, (numeral atoms.length i).length = atoms.length ∧
      ∃ w, (allValuations atoms)[i]? = some w ∧ IsNumbered atoms i w) ∧
    ∀ f : Atom → Bool, ∃ (i : Nat) (w : World), (allValuations atoms)[i]? = some w ∧
      (∀ (j : Nat) (v : World), (allValuations atoms)[j]? = some v →
        ((∀ p ∈ atoms, v.valuation.valueOf p = f p) ↔ j = i)) ∧
      ∀ observed : ExtTreeMap Agent (ExtTreeSet Atom), ∃ r,
        (Model.fromObservability (allValuations atoms) observed).1[i]? = some r ∧
        (Model.fromObservability (allValuations atoms) observed).2.world? r = some w ∧
        (Model.fromObservability (allValuations atoms) observed).2.findWorld
          ("w" ++ String.ofList (atoms.map fun p => if f p then '1' else '0')) = .ok r := by
  refine ⟨enumerate_eq few, length_allValuations atoms, nodup_names atoms, ?_, ?_⟩
  · intro i small
    refine ⟨?_, _, getElem?_allValuations.2 ⟨small, rfl⟩, isNumbered_ofRow distinct small⟩
    rw [numeral_eq small, List.length_map, length_bits]
  · intro f
    obtain ⟨i, w, listed, named, agreeing⟩ := exists_agreeing distinct f
    have spelled : rowName (atoms.map f)
        = "w" ++ String.ofList (atoms.map fun p => if f p then '1' else '0') := by
      rw [rowName, List.map_map]
      rfl
    refine ⟨i, w, listed, agreeing, fun observed => ?_⟩
    rw [← spelled, ← named]
    exact Model.findWorld_fromObservability (nodup_names atoms) observed listed

/-- Of two atoms the first is true and the second false at the world of number two, and the name
`w10` leads to the third reference. -/
theorem allValuations_enumerates_two_atoms :
    let p : Atom := ⟨"p"⟩
    let q : Atom := ⟨"q"⟩
    let m := (Model.fromObservability (allValuations [p, q]) ∅).2
    [p, q].Nodup ∧ [p, q].length ≤ 63 ∧ enumerate [p, q] = allValuations [p, q] ∧
    (allValuations [p, q]).map World.name = ["w00", "w01", "w10", "w11"] ∧
    (∃ w, (allValuations [p, q])[2]? = some w ∧ IsNumbered [p, q] 2 w ∧
      w.valuation.valueOf p = true ∧ w.valuation.valueOf q = false) ∧
    m.findWorld "w10" = .ok ⟨3, 1⟩ := by
  intro p q m
  have distinct : [p, q].Nodup := by decide
  have few : [p, q].length ≤ 63 := by decide
  obtain ⟨counted, -, -, numbered, found⟩ := allValuations_enumerates distinct few
  obtain ⟨-, w, listed, world⟩ := numbered 2 (by decide)
  have first : w.valuation.valueOf p = true := (world.valueOf_iff 0 p rfl).2 (by decide)
  have second : w.valuation.valueOf q = false := by
    refine Bool.eq_false_iff.2 fun h => ?_
    exact absurd ((world.valueOf_iff 1 q rfl).1 h) (by decide)
  refine ⟨distinct, few, counted, by decide, ⟨w, listed, world, first, second⟩, ?_⟩
  obtain ⟨i, _, -, agreeing, model⟩ := found (· == p)
  have agrees : ∀ a ∈ [p, q], w.valuation.valueOf a = (a == p) := by
    rintro _ (_ | ⟨_, _ | ⟨_, ⟨⟩⟩⟩)
    · exact first
    · exact second
  obtain rfl : 2 = i := (agreeing 2 w listed).1 agrees
  obtain ⟨r, told, -, spelled⟩ := model ∅
  have third : (Model.fromObservability (allValuations [p, q]) ∅).1[2]? = some ⟨3, 1⟩ := by
    decide +kernel
  obtain rfl : r = ⟨3, 1⟩ := Option.some.inj (told.symm.trans third)
  exact spelled

end World

end KnowledgePrograms
