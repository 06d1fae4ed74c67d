import Mathlib.Data.List.InsertIdx
import Mathlib.Data.List.Nodup
import KnowledgePrograms.Program.Basic

/-! # Editing programs

A program begins empty and its rules and default are amended, over and over. An amendment that is
refused leaves the program as it was. As a rule that is given takes the place of one with the same
condition, no condition is ever written twice, and the rules with other conditions keep their order.

The same can be done in place: the position of the old rule is looked up, the rule is cut out there,
and the new rule is put in. The index asked for is one among the rules that remain, but it has to
be checked before any of them is cut out.

* `Amendment`, `Program.amend`: what may be done to a program, and what comes of it.
* `Program.revise`: the same in place.
* `Program.eraseIdx_of_positionOf`: to cut out the rule of a condition leaves the others.
* `Program.revise_eq`, `Program.HasDistinctConditions.amend`: one amendment, and what it keeps.
* `Program.amended_edits`: how programs are after any amendments, and what the next one does. -/

namespace KnowledgePrograms

/-! ## (1) Amendments -/

/-- A change to a program. -/
inductive Amendment where
  /-- Give a rule of lowest priority. -/
  | push (c : Formula) (action : Action)
  /-- Give a rule at an index among the others. -/
  | insert (index : Nat) (c : Formula) (action : Action)
  /-- Take a rule away. -/
  | remove (c : Formula)
  /-- Give a default. -/
  | setDefault (action : Action)
  /-- Take the default away. -/
  | clearDefault

namespace Program

/-- The program after a change, the same if the change is refused, and the action that was taken
away, if there was one. -/
def amend (p : Program) : Amendment → Program × Except EditError (Option Action)
  | .push c action => (p.push c action, .ok none)
  | .insert index c action =>
      match p.insert index c action with
      | .ok q => (q, .ok none)
      | .error e => (p, .error e)
  | .remove c =>
      match p.remove c with
      | .ok (action, q) => (q, .ok (some action))
      | .error e => (p, .error e)
  | .setDefault action => (p.setDefault (some action), .ok p.default)
  | .clearDefault => (p.setDefault none, .ok p.default)

/-- The empty program after some changes. -/
def amended (amendments : List Amendment) : Program :=
  amendments.foldl (fun p e => (p.amend e).1) empty

/-! ## (2) Editing in place -/

/-- The program without the rule at a position, if there is one. -/
def cut (p : Program) (position : Option Nat) : Program :=
  ⟨position.elim p.rules p.rules.eraseIdx, p.default⟩

/-- The program after a change made in place, at positions in its rules, and what the change results
in. An index is checked against the rules that will be left when the old rule is cut out, and
nothing is cut out if it is past them. -/
def revise (p : Program) : Amendment → Program × Except EditError (Option Action)
  | .push c action =>
      let q := p.cut (p.positionOf c)
      (⟨q.rules ++ [⟨c, action⟩], q.default⟩, .ok none)
  | .insert index c action =>
      let position := p.positionOf c
      let len := p.rules.length - position.isSome.toNat
      if len < index then (p, .error (.indexOutOfBounds index len))
      else
        let q := p.cut position
        (⟨q.rules.insertIdx index ⟨c, action⟩, q.default⟩, .ok none)
  | .remove c =>
      match p.positionOf c with
      | some position => (p.cut (some position), .ok (p.rules[position]?.map Rule.action))
      | none => (p, .error .missingRule)
  | .setDefault action => (⟨p.rules, some action⟩, .ok p.default)
  | .clearDefault => (⟨p.rules, none⟩, .ok p.default)

/-- The empty program after some changes made in place. -/
def revised (amendments : List Amendment) : Program :=
  amendments.foldl (fun p e => (p.revise e).1) empty

variable {p : Program} {c : Formula} {action : Action} {position index : Nat}

/-! ## (3) Positions and conditions -/

/-- No two rules have one condition. -/
def HasDistinctConditions (p : Program) : Prop := (p.rules.map Rule.condition).Nodup

/-- At the position of a condition there is a rule with the condition. -/
theorem exists_getElem?_of_positionOf (h : p.positionOf c = some position) :
    ∃ old, p.rules[position]? = some ⟨c, old⟩ := by
  obtain ⟨inside, here, -⟩ := List.findIdx?_eq_some_iff_getElem.1 h
  have same : p.rules[position].condition = c := of_decide_eq_true here
  exact ⟨p.rules[position].action, by rw [List.getElem?_eq_getElem inside, ← same]⟩

/-- A condition without a position is that of no rule. -/
theorem positionOf_eq_none_iff : p.positionOf c = none ↔ ∀ rule ∈ p.rules, rule.condition ≠ c := by
  simp [positionOf, List.findIdx?_eq_none_iff]

/-- Where a condition is that of no rule, all rules have others. -/
theorem others_of_positionOf_eq_none (h : p.positionOf c = none) : p.others c = p.rules := by
  rw [others, List.filter_eq_self]
  simpa using positionOf_eq_none_iff.1 h

/-- In a list with distinct conditions just one rule has a condition, the one that is cut out. -/
theorem eraseP_condition {rules : List Rule} (distinct : (rules.map Rule.condition).Nodup) :
    rules.eraseP (fun rule => rule.condition = c)
      = rules.filter fun rule => rule.condition ≠ c := by
  induction rules with
  | nil => rfl
  | cons rule rest ih =>
    obtain ⟨new, distinct⟩ := List.nodup_cons.1 distinct
    by_cases same : rule.condition = c
    · -- The rule is cut out, and no later one has its condition.
      have others : rest.filter (fun rule => rule.condition ≠ c) = rest := by
        rw [List.filter_eq_self]
        intro rule' mem
        have different : rule'.condition ≠ c := by
          rintro rfl
          exact new (same ▸ List.mem_map_of_mem mem)
        simpa using different
      rw [List.eraseP_cons_of_pos (by simpa using same),
        List.filter_cons_of_neg (by simpa using same), others]
    · rw [List.eraseP_cons_of_neg (by simpa using same),
        List.filter_cons_of_pos (by simpa using same), ih distinct]

/-- To cut out the rule of a condition leaves the others. -/
theorem eraseIdx_of_positionOf (distinct : p.HasDistinctConditions)
    (h : p.positionOf c = some position) : p.rules.eraseIdx position = p.others c := by
  rw [others, ← eraseP_condition distinct, List.eraseP_eq_eraseIdx, ← positionOf, h]

/-- The rules with other conditions are all but the one with the condition. -/
theorem length_others (distinct : p.HasDistinctConditions) (c : Formula) :
    (p.others c).length = p.rules.length - (p.positionOf c).isSome.toNat := by
  cases h : p.positionOf c with
  | none => rw [others_of_positionOf_eq_none h]; rfl
  | some position =>
    obtain ⟨old, here⟩ := exists_getElem?_of_positionOf h
    obtain ⟨inside, -⟩ := List.getElem?_eq_some_iff.1 here
    rw [← eraseIdx_of_positionOf distinct h, List.length_eraseIdx_of_lt inside]
    rfl

/-- The other rules have distinct conditions, none of them the one left out. -/
theorem nodup_cons_others (distinct : p.HasDistinctConditions) (c : Formula) :
    (c :: (p.others c).map Rule.condition).Nodup := by
  refine List.nodup_cons.2 ⟨?_, distinct.sublist (List.filter_sublist.map _)⟩
  intro mem
  obtain ⟨rule, left, same⟩ := List.mem_map.1 mem
  have other := (List.mem_filter.1 left).2
  simp [same] at other

/-- The rules with other conditions have distinct conditions. -/
theorem HasDistinctConditions.others (distinct : p.HasDistinctConditions) (c : Formula)
    (default : Option Action) : HasDistinctConditions ⟨p.others c, default⟩ :=
  (nodup_cons_others distinct c).of_cons

/-- A rule put anywhere among the rules with other conditions leaves the conditions distinct. -/
theorem hasDistinctConditions_of_perm (distinct : p.HasDistinctConditions) {rules : List Rule}
    (same : rules.Perm (⟨c, action⟩ :: p.others c)) (default : Option Action) :
    HasDistinctConditions ⟨rules, default⟩ :=
  (same.map Rule.condition).nodup_iff.2 (nodup_cons_others distinct c)

/-- A rule put at an index among the rules with other conditions is at that position. -/
theorem positionOf_insertIdx (inside : index ≤ (p.others c).length) (default : Option Action) :
    positionOf ⟨(p.others c).insertIdx index ⟨c, action⟩, default⟩ c = some index := by
  have bound : index < ((p.others c).insertIdx index ⟨c, action⟩).length := by
    rw [List.length_insertIdx_of_le_length inside]
    omega
  refine List.findIdx?_eq_some_iff_getElem.2 ⟨bound, ?_, fun j before => ?_⟩
  · rw [List.getElem_insertIdx_self]
    exact decide_eq_true rfl
  · have other := (List.mem_filter.1 (List.getElem_mem (Nat.lt_of_lt_of_le before inside))).2
    rw [List.getElem_insertIdx_of_lt before]
    simpa using other

/-- To put a rule at an index is to put it between the rules before and after. -/
theorem insertIdx_eq {rules : List Rule} (inside : index ≤ rules.length) (rule : Rule) :
    rules.insertIdx index rule = rules.take index ++ rule :: rules.drop index := by
  induction index generalizing rules with
  | zero => rfl
  | succ index ih =>
    cases rules with
    | nil => simp at inside
    | cons first rest =>
      rw [List.insertIdx_succ_cons, ih (Nat.le_of_succ_le_succ inside)]
      rfl

/-! ## (4) One amendment -/

/-- Cutting out at the position of a condition leaves the rules with others. -/
theorem cut_positionOf (distinct : p.HasDistinctConditions) (c : Formula) :
    p.cut (p.positionOf c) = ⟨p.others c, p.default⟩ := by
  cases h : p.positionOf c with
  | none => rw [others_of_positionOf_eq_none h]; rfl
  | some position => rw [← eraseIdx_of_positionOf distinct h]; rfl

/-- A rule is inserted at an index among the others, or past them all it is refused. -/
theorem insert_eq (p : Program) (index : Nat) (c : Formula) (action : Action) :
    p.insert index c action =
      if index ≤ (p.others c).length then
        .ok ⟨(p.others c).insertIdx index ⟨c, action⟩, p.default⟩
      else .error (.indexOutOfBounds index (p.others c).length) := by
  rw [insert]
  split
  · next inside => rw [insertIdx_eq inside]
  · rfl

/-- A rule that is there is removed, for its action. -/
theorem remove_of_mem (distinct : p.HasDistinctConditions) (here : ⟨c, action⟩ ∈ p.rules) :
    p.remove c = .ok (action, ⟨p.others c, p.default⟩) := by
  cases found : p.rules.find? (fun rule => rule.condition = c) with
  | none => exact absurd here fun here => by simpa using List.find?_eq_none.1 found _ here
  | some rule =>
    -- The rule that is found is the one that is there, as no other has the condition.
    have same : rule.condition = c := by simpa using List.find?_some found
    obtain rfl : rule = ⟨c, action⟩ :=
      List.inj_on_of_nodup_map distinct (List.mem_of_find?_eq_some found) here same
    rw [remove, found]

/-- A condition that no rule has cannot be removed. -/
theorem remove_of_forall_ne (missing : ∀ rule ∈ p.rules, rule.condition ≠ c) :
    p.remove c = .error .missingRule := by
  have nothing : p.rules.find? (fun rule => rule.condition = c) = none := by
    rw [List.find?_eq_none]
    simpa using missing
  rw [remove, nothing]

/-- Amending a program with distinct conditions can be done in place. -/
theorem revise_eq (distinct : p.HasDistinctConditions) (e : Amendment) :
    p.revise e = p.amend e := by
  cases e with
  | push c action =>
    rw [revise, cut_positionOf distinct]
    rfl
  | insert index c action =>
    -- The rules that are counted beforehand are those that are left afterwards.
    rw [revise, cut_positionOf distinct, ← length_others distinct, amend, insert_eq]
    by_cases inside : index ≤ (p.others c).length
    · rw [if_pos inside, if_neg (Nat.not_lt.2 inside)]
    · rw [if_neg inside, if_pos (Nat.lt_of_not_le inside)]
  | remove c =>
    have left := cut_positionOf distinct c
    rw [revise, amend]
    cases h : p.positionOf c with
    | none => rw [remove_of_forall_ne (positionOf_eq_none_iff.1 h)]
    | some position =>
      obtain ⟨old, here⟩ := exists_getElem?_of_positionOf h
      rw [h] at left
      rw [remove_of_mem distinct (List.mem_of_getElem? here)]
      show (p.cut (some position), Except.ok (p.rules[position]?.map Rule.action)) = _
      rw [left, here]
      rfl
  | setDefault action => rfl
  | clearDefault => rfl

/-- No amendment makes a condition occur twice. -/
theorem HasDistinctConditions.amend (distinct : p.HasDistinctConditions) (e : Amendment) :
    (p.amend e).1.HasDistinctConditions := by
  cases e with
  | push c action =>
    exact hasDistinctConditions_of_perm distinct (List.perm_append_singleton _ _) _
  | insert index c action =>
    rw [Program.amend, insert_eq]
    by_cases inside : index ≤ (p.others c).length
    · rw [if_pos inside]
      exact hasDistinctConditions_of_perm distinct (List.perm_insertIdx _ _ inside) _
    · rwa [if_neg inside]
  | remove c =>
    rw [Program.amend, remove]
    cases p.rules.find? fun rule => rule.condition = c with
    | none => exact distinct
    | some rule => exact distinct.others c _
  | setDefault action | clearDefault => exact distinct

/-! ## (5) All amendments -/

/-- Amendments, one after the other, make no condition occur twice. -/
theorem HasDistinctConditions.foldl_amend (distinct : p.HasDistinctConditions)
    (amendments : List Amendment) :
    (amendments.foldl (fun p e => (p.amend e).1) p).HasDistinctConditions := by
  induction amendments generalizing p with
  | nil => exact distinct
  | cons e rest ih => exact ih (distinct.amend e)

/-- Amendments can be done in place one after the other. -/
theorem foldl_revise (distinct : p.HasDistinctConditions) (amendments : List Amendment) :
    amendments.foldl (fun p e => (p.revise e).1) p
      = amendments.foldl (fun p e => (p.amend e).1) p := by
  induction amendments generalizing p with
  | nil => rfl
  | cons e rest ih =>
    rw [List.foldl_cons, List.foldl_cons, revise_eq distinct, ih (distinct.amend e)]

/-- However the empty program was amended, no two of its rules have one condition, and it is as if
it had been amended in place. In the next amendment a rule that is given comes after all rules with
other conditions, or at the index asked for among them, if the index is not past them, and then this
is the position of its condition. A rule that is taken away gives its action and leaves the others.
What is refused changes nothing, and the default stays in all this. -/
theorem amended_edits (amendments : List Amendment) :
    let p := amended amendments
    p.HasDistinctConditions ∧ revised amendments = p ∧ (∀ e, p.revise e = p.amend e) ∧
    ∀ c action,
      p.amend (.push c action) = (⟨p.others c ++ [⟨c, action⟩], p.default⟩, .ok none) ∧
      (∀ index ≤ (p.others c).length,
        p.amend (.insert index c action)
          = (⟨(p.others c).insertIdx index ⟨c, action⟩, p.default⟩, .ok none) ∧
        (p.amend (.insert index c action)).1.positionOf c = some index) ∧
      (∀ index > (p.others c).length, p.amend (.insert index c action)
        = (p, .error (.indexOutOfBounds index (p.others c).length))) ∧
      (⟨c, action⟩ ∈ p.rules →
        p.amend (.remove c) = (⟨p.others c, p.default⟩, .ok (some action))) ∧
      ((∀ rule ∈ p.rules, rule.condition ≠ c) →
        p.amend (.remove c) = (p, .error .missingRule)) := by
  intro p
  have start : empty.HasDistinctConditions := List.nodup_nil
  have distinct : p.HasDistinctConditions := start.foldl_amend amendments
  refine ⟨distinct, foldl_revise start amendments, revise_eq distinct, fun c action => ?_⟩
  have inserted (index : Nat) (inside : index ≤ (p.others c).length) :
      p.amend (.insert index c action)
        = (⟨(p.others c).insertIdx index ⟨c, action⟩, p.default⟩, .ok none) := by
    rw [amend, insert_eq, if_pos inside]
  refine ⟨rfl, fun index inside => ⟨inserted index inside, ?_⟩, fun index past => ?_,
    fun here => ?_, fun missing => ?_⟩
  · rw [inserted index inside]
    exact positionOf_insertIdx inside p.default
  · rw [amend, insert_eq, if_neg (Nat.not_le.2 past)]
  · rw [amend, remove_of_mem distinct here]
  · rw [amend, remove_of_forall_ne missing]

/-- Of three rules the first, which was inserted last, goes to the end when it is given again there.
Another one cannot be put past the place after them, nor can it be taken away. -/
theorem amended_edits_three_rules :
    let f (name : String) : Formula := .atom ⟨name⟩
    let act (name : String) : Action := .utterance name ""
    let p := amended
      [.push (f "p") (act "one"), .push (f "q") (act "two"), .insert 0 (f "r") (act "zero")]
    p.rules = [⟨f "r", act "zero"⟩, ⟨f "p", act "one"⟩, ⟨f "q", act "two"⟩] ∧
    p.revise (.insert 2 (f "r") (act "last"))
      = (⟨[⟨f "p", act "one"⟩, ⟨f "q", act "two"⟩, ⟨f "r", act "last"⟩], none⟩, .ok none) ∧
    p.amend (.insert 4 (f "s") (act "far")) = (p, .error (.indexOutOfBounds 4 3)) ∧
    p.amend (.remove (f "p"))
      = (⟨[⟨f "r", act "zero"⟩, ⟨f "q", act "two"⟩], none⟩, .ok (some (act "one"))) ∧
    p.amend (.remove (f "s")) = (p, .error .missingRule) := by
  intro f act p
  have rules : p.rules = [⟨f "r", act "zero"⟩, ⟨f "p", act "one"⟩, ⟨f "q", act "two"⟩] := rfl
  obtain ⟨-, -, revised, edits⟩ := amended_edits
    [.push (f "p") (act "one"), .push (f "q") (act "two"), .insert 0 (f "r") (act "zero")]
  obtain ⟨-, inserted, -, -, -⟩ := edits (f "r") (act "last")
  obtain ⟨-, -, -, removed, -⟩ := edits (f "p") (act "one")
  obtain ⟨-, -, refused, -, missing⟩ := edits (f "s") (act "far")
  refine ⟨rules, ?_, ?_, ?_, ?_⟩
  · exact (revised _).trans (inserted 2 (by decide)).1
  · exact refused 4 (by decide)
  · exact removed (List.mem_cons_of_mem _ List.mem_cons_self)
  · refine missing ?_
    decide

end Program

end KnowledgePrograms
