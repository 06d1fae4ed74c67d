import KnowledgePrograms.Logic.Formula.Text
import KnowledgePrograms.Proofs.Formula.Truth

/-! # What the text of a formula tells

When all names are words, the text of a formula can be read back: the first one or two characters
tell the outermost constructor, and where a part ends is told by what follows it. Only one thing is
not told. A conjunction and a disjunction of a single operand are both written as the operand
between parentheses. As these are true together, the text determines at which worlds the formula is
true.

* `Formula.IsWorded`: the names of all atoms and agents in a formula are words.
* `Formula.uniform`: the formula with disjunctions of a single operand written as conjunctions.
* `Formula.Joins`, `Formula.Boxes`: the two kinds of texts with parts, between parentheses and after
  the letter of a modality.
* `Formula.openingOf_text`: what the first characters tell.
* `Formula.legible`: what a whole text tells, wherever it stands.
* `Formula.text_determines_truth`: formulas with the same text. -/

namespace KnowledgePrograms

open Std (ExtTreeSet)

/-! ## (1) Words and lists -/

/-- The text is a word: one or more letters and digits. -/
def IsWord (s : String) : Prop := s ≠ "" ∧ ∀ c ∈ s.toList, c.isAlphanum = true

/-- The text is at its end, or goes on with one of two characters. -/
def Halts (c d : Char) (u : List Char) : Prop := ∀ e ∈ u.head?, e = c ∨ e = d

/-- A text is at its end when nothing follows. -/
theorem halts_nil (c d : Char) : Halts c d [] := by simp [Halts]

/-- A word has a first character. -/
theorem IsWord.exists_cons {s : String} (h : IsWord s) :
    ∃ c cs, s.toList = c :: cs ∧ c.isAlphanum = true ∧ ∀ d ∈ cs, d.isAlphanum = true := by
  cases letters : s.toList with
  | nil => exact absurd (String.toList_eq_nil_iff.1 letters) h.1
  | cons c cs =>
    obtain ⟨first, rest⟩ := List.forall_mem_cons.1 (letters ▸ h.2)
    exact ⟨c, cs, rfl, first, rest⟩

/-- A word does not start with any other character. -/
theorem IsWord.append_ne_cons {s : String} (h : IsWord s) {c : Char} (hc : c.isAlphanum = false)
    (u v : List Char) : s.toList ++ u ≠ c :: v := by
  obtain ⟨d, ds, letters, alnum, -⟩ := h.exists_cons
  rw [letters, List.cons_append]
  intro same
  obtain ⟨rfl, -⟩ := List.cons.inj same
  rw [hc] at alnum
  cases alnum

/-- A word is told from what follows it, if this does not start with a letter or digit. -/
theorem word_append_inj {c d : Char} (hc : c.isAlphanum = false) (hd : d.isAlphanum = false)
    {s t : String} {u v : List Char} (hs : IsWord s) (ht : IsWord t) (hu : Halts c d u)
    (hv : Halts c d v) (same : s.toList ++ u = t.toList ++ v) : s = t ∧ u = v := by
  have taken : ∀ (s : String) (u : List Char), IsWord s → Halts c d u →
      (s.toList ++ u).takeWhile Char.isAlphanum = s.toList := by
    intro s u hs hu
    rw [List.takeWhile_append_of_pos hs.2]
    cases u with
    | nil => simp
    | cons e u =>
      have stops : e.isAlphanum = false := by
        rcases hu e rfl with rfl | rfl
        · exact hc
        · exact hd
      simp [stops]
  have words : s.toList = t.toList := by
    rw [← taken s u hs hu, same, taken t v ht hv]
  rw [words, List.append_cancel_left_eq] at same
  exact ⟨String.toList_inj.1 words, same⟩

section Items

variable {α β : Type} {item : α → List Char} {value : α → β}

/-- The texts of some items, with a separator before each. -/
def separated (sep : List Char) (item : α → List Char) (xs : List α) : List Char :=
  xs.flatMap fun x => sep ++ item x

/-- What follows an item starts with a separator or with what closes the list. -/
theorem halts_separated (c d : Char) (sep : List Char) (xs : List α) (u : List Char) :
    Halts c d (separated (c :: sep) item xs ++ d :: u) := by
  cases xs <;> simp [Halts, separated]

/-- If what follows an item tells where it ends, then the items of a list are told up to what closes
the list. -/
theorem separated_inj {c d : Char} {sep : List Char} (apart : c ≠ d) {xs ys : List α}
    {u v : List Char}
    (each : ∀ x ∈ xs, ∀ y ∈ ys, ∀ u v, Halts c d u → Halts c d v → item x ++ u = item y ++ v →
      value x = value y ∧ u = v)
    (same : separated (c :: sep) item xs ++ d :: u = separated (c :: sep) item ys ++ d :: v) :
    xs.map value = ys.map value ∧ u = v := by
  induction xs generalizing ys with
  | nil =>
    cases ys with
    | nil => simpa [separated] using same
    | cons y ys => simp [separated, apart.symm] at same
  | cons x xs ih =>
    cases ys with
    | nil => simp [separated, apart] at same
    | cons y ys =>
      have first : item x ++ (separated (c :: sep) item xs ++ d :: u)
          = item y ++ (separated (c :: sep) item ys ++ d :: v) := by
        simpa [separated] using same
      obtain ⟨values, rest⟩ := each x List.mem_cons_self y List.mem_cons_self _ _
        (halts_separated c d sep xs u) (halts_separated c d sep ys v) first
      obtain ⟨later, ends⟩ := ih (fun x hx y hy =>
        each x (List.mem_cons_of_mem _ hx) y (List.mem_cons_of_mem _ hy)) rest
      rw [List.map_cons, List.map_cons, values, later]
      exact ⟨rfl, ends⟩

end Items

/-- The names of some agents, with a comma between two. -/
def listed (group : List Agent) : List Char :=
  [','].intercalate (group.map fun a => a.name.toList)

/-- A list of names is the first name and the others after a comma each. -/
theorem listed_cons (a : Agent) (group : List Agent) :
    listed (a :: group)
      = a.name.toList ++ separated [','] (fun b : Agent => b.name.toList) group := by
  induction group generalizing a with
  | nil => simp [listed, separated, List.intercalate]
  | cons b group ih =>
    have rest := ih b
    simp only [listed, separated, List.intercalate, List.map_cons, List.intersperse_cons_cons,
      List.flatten_cons, List.flatMap_cons] at rest ⊢
    rw [rest]
    simp

/-- The agents of a list of words are told up to the closing bracket. -/
theorem listed_inj {as bs : List Agent} (has : ∀ a ∈ as, IsWord a.name)
    (hbs : ∀ b ∈ bs, IsWord b.name) {u v : List Char}
    (same : listed as ++ ']' :: u = listed bs ++ ']' :: v) : as = bs ∧ u = v := by
  -- A name is told from the comma or bracket after it.
  have each : ∀ a ∈ as, ∀ b ∈ bs, ∀ u v, Halts ',' ']' u → Halts ',' ']' v →
      a.name.toList ++ u = b.name.toList ++ v → a = b ∧ u = v := by
    intro a ha b hb u v hu hv same
    obtain ⟨names, ends⟩ := word_append_inj (by decide) (by decide) (has a ha) (hbs b hb) hu hv same
    exact ⟨congrArg Agent.mk names, ends⟩
  cases as with
  | nil =>
    cases bs with
    | nil => simpa [listed, List.intercalate] using same
    | cons b bs =>
      rw [listed_cons, List.append_assoc] at same
      exact absurd same.symm ((hbs b List.mem_cons_self).append_ne_cons (by decide) _ u)
  | cons a as =>
    cases bs with
    | nil =>
      rw [listed_cons, List.append_assoc] at same
      exact absurd same ((has a List.mem_cons_self).append_ne_cons (by decide) _ v)
    | cons b bs =>
      rw [listed_cons, listed_cons, List.append_assoc, List.append_assoc] at same
      obtain ⟨first, rest⟩ := each a List.mem_cons_self b List.mem_cons_self _ _
        (halts_separated ',' ']' [] as u) (halts_separated ',' ']' [] bs v) same
      have others : ∀ a ∈ as, ∀ b ∈ bs, ∀ u v, Halts ',' ']' u → Halts ',' ']' v →
          a.name.toList ++ u = b.name.toList ++ v → id a = id b ∧ u = v := fun a ha b hb =>
        each a (List.mem_cons_of_mem _ ha) b (List.mem_cons_of_mem _ hb)
      obtain ⟨later, ends⟩ := separated_inj (by decide) others rest
      rw [List.map_id, List.map_id] at later
      rw [first, later]
      exact ⟨rfl, ends⟩

namespace Formula

/-! ## (2) What is told and what is not -/

/-- The names of all atoms and agents in the formula are words. -/
def IsWorded : Formula → Prop
  | .atom p => IsWord p.name
  | .not f => f.IsWorded
  | .and fs => ∀ f, (_ : f ∈ fs) → f.IsWorded
  | .or fs => ∀ f, (_ : f ∈ fs) → f.IsWorded
  | .imp f g => f.IsWorded ∧ g.IsWorded
  | .iff f g => f.IsWorded ∧ g.IsWorded
  | .knows a f => IsWord a.name ∧ f.IsWorded
  | .possible a f => IsWord a.name ∧ f.IsWorded
  | .everyone group f => (∀ a ∈ group, IsWord a.name) ∧ f.IsWorded
  | .common group f => (∀ a ∈ group, IsWord a.name) ∧ f.IsWorded
termination_by f => f

/-- The disjunction of the operands, or the conjunction if there is a single one. -/
def orUniform : List Formula → Formula
  | [f] => .and [f]
  | fs => .or fs

mutual

/-- The formula with each disjunction of a single operand written as a conjunction. Operands stay
where they stand. -/
def uniform : Formula → Formula
  | .atom p => .atom p
  | .not f => .not f.uniform
  | .and fs => .and (uniformEach fs)
  | .or fs => orUniform (uniformEach fs)
  | .imp f g => .imp f.uniform g.uniform
  | .iff f g => .iff f.uniform g.uniform
  | .knows a f => .knows a f.uniform
  | .possible a f => .possible a f.uniform
  | .everyone group f => .everyone group f.uniform
  | .common group f => .common group f.uniform

/-- The operands, each with disjunctions of a single operand written as conjunctions. -/
def uniformEach : List Formula → List Formula
  | [] => []
  | f :: fs => f.uniform :: uniformEach fs

end

/-- The operands are rewritten one by one. -/
@[simp] theorem uniformEach_eq (fs : List Formula) : uniformEach fs = fs.map uniform := by
  induction fs with
  | nil => rfl
  | cons f fs ih => rw [uniformEach, ih, List.map_cons]

end Formula

namespace Reading.DeMorgan

variable {β : Type} {R : Reading β}

/-- A disjunction of a single operand reads as the conjunction. -/
theorem read_orUniform (law : R.DeMorgan) (fs : List Formula) :
    R.read (Formula.orUniform fs) = R.or (fs.map R.read) := by
  rw [Formula.orUniform.eq_def]
  split
  · next f => rw [read, readEach_eq, List.map_singleton, law.and_singleton, law.or_singleton]
  · next => rw [read, readEach_eq]

/-- A formula reads the same with its disjunctions of a single operand written as conjunctions. -/
theorem read_uniform (law : R.DeMorgan) (f : Formula) : R.read f.uniform = R.read f := by
  have values : ∀ fs : List Formula, (∀ f ∈ fs, R.read f.uniform = R.read f) →
      (Formula.uniformEach fs).map R.read = fs.map R.read := by
    intro fs each
    rw [Formula.uniformEach_eq, List.map_map]
    exact List.map_congr_left each
  induction f with
  | atom p => rw [Formula.uniform]
  | not f ih => rw [Formula.uniform, read, ih, read]
  | and fs ih => rw [Formula.uniform, read, readEach_eq, values fs ih, read, readEach_eq]
  | or fs ih => rw [Formula.uniform, law.read_orUniform, values fs ih, read, readEach_eq]
  | imp f g ihf ihg | iff f g ihf ihg => rw [Formula.uniform, read, ihf, ihg, read]
  | knows a f ih | possible a f ih | everyone group f ih | common group f ih =>
    rw [Formula.uniform, read, ih, read]

end Reading.DeMorgan

namespace Formula

/-- A formula is true at the same worlds with its disjunctions of a single operand written as
conjunctions. -/
theorem satisfies_uniform (m : Model) (f : Formula) : m.satisfies f.uniform = m.satisfies f := by
  rw [← m.read_truth, ← m.read_truth, m.deMorgan_truth.read_uniform]

/-! ## (3) The parts of a text -/

/-- What a text between parentheses says: the first operand, and the others after a connective
each. -/
def bracketed (c : Char) (f : Formula) (fs : List Formula) : List Char :=
  '(' :: (f.text.toList ++ (separated [' ', c, ' '] (fun g : Formula => g.text.toList) fs ++ [')']))

/-- The formula is written between parentheses, with the connective between the operands. -/
inductive Joins : Formula → Char → Formula → List Formula → Prop where
  /-- A conjunction of at least one operand. -/
  | and (f fs) : Joins (.and (f :: fs)) '∧' f fs
  /-- A disjunction of at least one operand. -/
  | or (f fs) : Joins (.or (f :: fs)) '∨' f fs
  /-- An implication. -/
  | imp (f g) : Joins (.imp f g) '→' f [g]
  /-- An equivalence. -/
  | iff (f g) : Joins (.iff f g) '↔' f [g]

/-- What a text with a modality says: a letter, the agents between brackets, and the formula. -/
def boxed (c : Char) (group : List Agent) (f : Formula) : List Char :=
  c :: '[' :: (listed group ++ ']' :: ' ' :: f.text.toList)

/-- The formula is written after the letter of a modality and the agents. -/
inductive Boxes : Formula → Char → List Agent → Formula → Prop where
  /-- Knowledge of an agent. -/
  | knows (a f) : Boxes (.knows a f) 'K' [a] f
  /-- What an agent considers possible. -/
  | possible (a f) : Boxes (.possible a f) 'M' [a] f
  /-- Knowledge of everyone in a group. -/
  | everyone (group f) : Boxes (.everyone group f) 'E' group.toList f
  /-- Common knowledge of a group. -/
  | common (group f) : Boxes (.common group f) 'C' group.toList f

variable {f g f' g' : Formula} {fs gs : List Formula} {c d : Char} {as bs : List Agent}

/-- The text of further operands has the connective before each. -/
theorem toList_textAfter (connective : String) (fs : List Formula) :
    (textAfter connective fs).toList
      = separated connective.toList (fun g : Formula => g.text.toList) fs := by
  induction fs with
  | nil => simp [textAfter, separated]
  | cons f fs ih =>
    rw [textAfter, String.toList_append, String.toList_append, ih]
    simp [separated]

/-- The text of a formula between parentheses. -/
theorem Joins.toList_text (h : Joins f c f' fs) : f.text.toList = bracketed c f' fs := by
  cases h <;> simp [text, bracketed, toList_textAfter, separated]

/-- The text of a formula after a modality. -/
theorem Boxes.toList_text (h : Boxes f c as f') : f.text.toList = boxed c as f' := by
  have names : ∀ group : ExtTreeSet Agent,
      (groupText group).toList = '[' :: (listed group.toList ++ [']']) := by
    intro group
    simp [groupText, listed, String.toList_intercalate, Function.comp_def]
  cases h <;> simp [text, boxed, names, listed, List.intercalate]

/-- The names in the operands are words if those in the formula are. -/
theorem Joins.isWorded (h : Joins f c f' fs) (worded : f.IsWorded) :
    f'.IsWorded ∧ ∀ x ∈ fs, x.IsWorded := by
  cases h with
  | and f fs | or f fs =>
    rw [IsWorded] at worded
    exact List.forall_mem_cons.1 worded
  | imp f g | iff f g =>
    rw [IsWorded] at worded
    simpa using worded

/-- The names after a modality and those in the formula there are words if those in the whole
formula are. -/
theorem Boxes.isWorded (h : Boxes f c as f') (worded : f.IsWorded) :
    (∀ a ∈ as, IsWord a.name) ∧ f'.IsWorded := by
  cases h with
  | knows a f | possible a f | everyone group f | common group f =>
    rw [IsWorded] at worded
    simpa using worded

/-- Formulas between parentheses are the same, up to disjunctions of a single operand, if the
operands are, and the connective unless there is none. -/
theorem Joins.uniform_eq (h : Joins f c f' fs) (h' : Joins g d g' gs)
    (first : f'.uniform = g'.uniform) (rest : fs.map uniform = gs.map uniform)
    (told : c = d ∨ fs = []) : f.uniform = g.uniform := by
  cases h <;> cases h' <;> simp_all [uniform, orUniform]

/-- Formulas after a modality are the same, up to disjunctions of a single operand, if the agents
and the inner formulas are. -/
theorem Boxes.uniform_eq (h : Boxes f c as f') (h' : Boxes g c as g')
    (inner : f'.uniform = g'.uniform) : f.uniform = g.uniform := by
  cases h with
  | knows a f | possible a f =>
    cases h'
    rw [uniform, uniform, inner]
  | everyone group f | common group f =>
    generalize listing : group.toList = bs at h'
    cases h'
    rw [uniform, uniform, inner, ExtTreeSet.toList_inj.1 listing]

/-! ## (4) Reading a text back -/

/-- What the first characters of a text tell of the formula. -/
inductive Opening where
  /-- An atom. -/
  | word
  /-- A negation. -/
  | negation
  /-- The conjunction of nothing. -/
  | top
  /-- The disjunction of nothing. -/
  | bottom
  /-- Operands between parentheses. -/
  | bracket
  /-- The modality with this letter. -/
  | box (c : Char)

/-- What the first characters tell. -/
def openingOf : List Char → Opening
  | '¬' :: _ => .negation
  | '⊤' :: _ => .top
  | '⊥' :: _ => .bottom
  | '(' :: _ => .bracket
  | c :: '[' :: _ => .box c
  | _ => .word

/-- What the first characters of the text of a formula tell. -/
def opening : Formula → Opening
  | .atom _ => .word
  | .not _ => .negation
  | .and [] => .top
  | .or [] => .bottom
  | .and (_ :: _) => .bracket
  | .or (_ :: _) => .bracket
  | .imp _ _ => .bracket
  | .iff _ _ => .bracket
  | .knows _ _ => .box 'K'
  | .possible _ _ => .box 'M'
  | .everyone _ _ => .box 'E'
  | .common _ _ => .box 'C'

/-- Parentheses open the text of joined operands. -/
theorem Joins.opening_eq (h : Joins f c f' fs) : f.opening = .bracket := by cases h <;> rfl

/-- The letter opens the text of a modality. -/
theorem Boxes.opening_eq (h : Boxes f c as f') : f.opening = .box c := by cases h <;> rfl

/-- What the opening of its text tells of the outermost constructor of a formula. -/
def Opening.Tells (f : Formula) : Opening → Prop
  | .word => ∃ p, f = .atom p
  | .negation => ∃ g, f = .not g
  | .top => f = .and []
  | .bottom => f = .or []
  | .bracket => ∃ c f' fs, Joins f c f' fs
  | .box c => ∃ as f', Boxes f c as f'

/-- A formula is of the kind that its opening tells. -/
theorem tells_opening (f : Formula) : f.opening.Tells f := by
  cases f with
  | atom p => exact ⟨p, rfl⟩
  | not f => exact ⟨f, rfl⟩
  | and fs =>
    cases fs with
    | nil => rfl
    | cons f fs => exact ⟨_, _, _, .and f fs⟩
  | or fs =>
    cases fs with
    | nil => rfl
    | cons f fs => exact ⟨_, _, _, .or f fs⟩
  | imp f g => exact ⟨_, _, _, .imp f g⟩
  | iff f g => exact ⟨_, _, _, .iff f g⟩
  | knows a f => exact ⟨_, _, .knows a f⟩
  | possible a f => exact ⟨_, _, .possible a f⟩
  | everyone group f => exact ⟨_, _, .everyone group f⟩
  | common group f => exact ⟨_, _, .common group f⟩

/-- A word opens as an atom does, unless a bracket follows it. -/
theorem openingOf_word {s : String} (h : IsWord s) {u : List Char} (hu : Halts ' ' ')' u) :
    openingOf (s.toList ++ u) = .word := by
  unfold openingOf
  split
  · next same => exact absurd same (h.append_ne_cons (by decide) u _)
  · next same => exact absurd same (h.append_ne_cons (by decide) u _)
  · next same => exact absurd same (h.append_ne_cons (by decide) u _)
  · next same => exact absurd same (h.append_ne_cons (by decide) u _)
  · next d rest same =>
    -- The bracket would be a character of the word, or the first one after it.
    obtain ⟨c, cs, letters, -, alnum⟩ := h.exists_cons
    rw [letters, List.cons_append] at same
    obtain ⟨-, tail⟩ := List.cons.inj same
    cases cs with
    | nil =>
      rw [List.nil_append] at tail
      rcases hu '[' (by rw [tail]; rfl) with eq | eq <;> cases eq
    | cons e cs =>
      obtain ⟨rfl, -⟩ := List.cons.inj tail
      exact absurd (alnum '[' List.mem_cons_self) (by decide)
  · rfl

/-- The text of a formula opens as the formula does, whatever follows it. -/
theorem openingOf_text (worded : f.IsWorded) {u : List Char} (hu : Halts ' ' ')' u) :
    openingOf (f.text.toList ++ u) = f.opening := by
  have joined : ∀ {f c f' fs}, Joins f c f' fs → openingOf (f.text.toList ++ u) = f.opening := by
    intro f c f' fs h
    rw [h.toList_text, h.opening_eq]
    rfl
  have boxed : ∀ {f c as f'}, Boxes f c as f' → openingOf (f.text.toList ++ u) = f.opening := by
    intro f c as f' h
    rw [h.toList_text, h.opening_eq]
    cases h <;> rfl
  cases f with
  | atom p =>
    rw [IsWorded] at worded
    exact openingOf_word worded hu
  | not f => simp [text, openingOf, opening]
  | and fs =>
    cases fs with
    | nil => simp [text, openingOf, opening]
    | cons f fs => exact joined (.and f fs)
  | or fs =>
    cases fs with
    | nil => simp [text, openingOf, opening]
    | cons f fs => exact joined (.or f fs)
  | imp f g => exact joined (.imp f g)
  | iff f g => exact joined (.iff f g)
  | knows a f => exact boxed (.knows a f)
  | possible a f => exact boxed (.possible a f)
  | everyone group f => exact boxed (.everyone group f)
  | common group f => exact boxed (.common group f)

/-- Wherever its text stands, with nothing or a space or a parenthesis after it, the formula is
told, up to disjunctions of a single operand, and so is what comes after it. -/
def Legible (f : Formula) : Prop :=
  ∀ {g : Formula} {u v : List Char}, f.IsWorded → g.IsWorded → Halts ' ' ')' u → Halts ' ' ')' v →
    f.text.toList ++ u = g.text.toList ++ v → f.uniform = g.uniform ∧ u = v

/-- Of formulas whose texts are the starts of one text, each is of the kind that the opening of the
other tells. -/
theorem tells_of_append (hf : f.IsWorded) (hg : g.IsWorded) {u v : List Char}
    (hu : Halts ' ' ')' u) (hv : Halts ' ' ')' v)
    (same : f.text.toList ++ u = g.text.toList ++ v) : f.opening.Tells g := by
  rw [← openingOf_text hf hu, same, openingOf_text hg hv]
  exact g.tells_opening

/-- Operands between parentheses are told if each of them is. -/
theorem Joins.legible (h : Joins f c f' fs) (first : f'.Legible) (rest : ∀ x ∈ fs, x.Legible) :
    f.Legible := by
  intro g u v hf hg hu hv same
  have told := tells_of_append hf hg hu hv same
  rw [h.opening_eq] at told
  obtain ⟨d, g', gs, h'⟩ := told
  obtain ⟨wordedFirst, wordedRest⟩ := h.isWorded hf
  obtain ⟨wordedFirst', wordedRest'⟩ := h'.isWorded hg
  rw [h.toList_text, h'.toList_text] at same
  simp only [bracketed, List.cons_append, List.append_assoc, List.nil_append, List.cons.injEq,
    true_and] at same
  obtain ⟨firsts, tails⟩ := first wordedFirst wordedFirst' (halts_separated ' ' ')' [c, ' '] fs u)
    (halts_separated ' ' ')' [d, ' '] gs v) same
  -- Of a further operand the connective is read first; with none there is nothing to tell it by.
  have told : c = d ∨ fs = [] := by
    cases fs with
    | nil => exact .inr rfl
    | cons x xs =>
      cases gs with
      | nil => simp [separated] at tails
      | cons y ys =>
        simp only [separated, List.flatMap_cons, List.cons_append, List.cons.injEq, true_and]
          at tails
        exact .inl tails.1
  have each : ∀ x ∈ fs, ∀ y ∈ gs, ∀ u v, Halts ' ' ')' u → Halts ' ' ')' v →
      x.text.toList ++ u = y.text.toList ++ v → x.uniform = y.uniform ∧ u = v :=
    fun x hx y hy u v => rest x hx (wordedRest x hx) (wordedRest' y hy)
  rcases told with rfl | rfl
  · obtain ⟨rests, ends⟩ := separated_inj (by decide) each tails
    exact ⟨h.uniform_eq h' firsts rests (.inl rfl), ends⟩
  · cases gs with
    | nil =>
      simp only [separated, List.flatMap_nil, List.nil_append, List.cons.injEq, true_and] at tails
      exact ⟨h.uniform_eq h' firsts rfl (.inr rfl), tails⟩
    | cons y ys => simp [separated] at tails

/-- The agents and the formula after the letter of a modality are told if the formula is. -/
theorem Boxes.legible (h : Boxes f c as f') (inner : f'.Legible) : f.Legible := by
  intro g u v hf hg hu hv same
  have told := tells_of_append hf hg hu hv same
  rw [h.opening_eq] at told
  obtain ⟨bs, g', h'⟩ := told
  obtain ⟨words, wordedInner⟩ := h.isWorded hf
  obtain ⟨words', wordedInner'⟩ := h'.isWorded hg
  rw [h.toList_text, h'.toList_text] at same
  simp only [boxed, List.cons_append, List.append_assoc, List.cons.injEq, true_and] at same
  obtain ⟨rfl, after⟩ := listed_inj words words' same
  obtain ⟨inners, ends⟩ := inner wordedInner wordedInner' hu hv (List.cons.inj after).2
  exact ⟨h.uniform_eq h' inners, ends⟩

/-- **Reading back.** Every formula is told by its text, up to disjunctions of a single operand. -/
theorem legible (f : Formula) : f.Legible := by
  induction f with
  | atom p =>
    intro g u v hf hg hu hv same
    obtain ⟨q, rfl⟩ : ∃ q, g = .atom q := tells_of_append hf hg hu hv same
    rw [IsWorded] at hf hg
    obtain ⟨names, ends⟩ := word_append_inj (by decide) (by decide) hf hg hu hv same
    rw [show p = q from congrArg Atom.mk names]
    exact ⟨rfl, ends⟩
  | not f ih =>
    intro g u v hf hg hu hv same
    obtain ⟨g, rfl⟩ : ∃ g', g = .not g' := tells_of_append hf hg hu hv same
    rw [IsWorded] at hf hg
    obtain ⟨inners, ends⟩ := ih hf hg hu hv (by simpa [text] using same)
    rw [uniform, uniform, inners]
    exact ⟨rfl, ends⟩
  | and fs ih =>
    cases fs with
    | nil =>
      intro g u v hf hg hu hv same
      obtain rfl : g = .and [] := tells_of_append hf hg hu hv same
      exact ⟨rfl, List.append_cancel_left same⟩
    | cons f fs =>
      obtain ⟨first, rest⟩ := List.forall_mem_cons.1 ih
      exact (Joins.and f fs).legible first rest
  | or fs ih =>
    cases fs with
    | nil =>
      intro g u v hf hg hu hv same
      obtain rfl : g = .or [] := tells_of_append hf hg hu hv same
      exact ⟨rfl, List.append_cancel_left same⟩
    | cons f fs =>
      obtain ⟨first, rest⟩ := List.forall_mem_cons.1 ih
      exact (Joins.or f fs).legible first rest
  | imp f g ihf ihg =>
    exact (Joins.imp f g).legible ihf fun x hx => List.mem_singleton.1 hx ▸ ihg
  | iff f g ihf ihg =>
    exact (Joins.iff f g).legible ihf fun x hx => List.mem_singleton.1 hx ▸ ihg
  | knows a f ih => exact (Boxes.knows a f).legible ih
  | possible a f ih => exact (Boxes.possible a f).legible ih
  | everyone group f ih => exact (Boxes.everyone group f).legible ih
  | common group f ih => exact (Boxes.common group f).legible ih

/-! ## (5) Formulas with the same text -/

/-- Further operands have the same text with disjunctions of a single operand written as
conjunctions, if each of them has. -/
theorem textAfter_map_uniform (connective : String)
    (each : ∀ f ∈ fs, f.uniform.text = f.text) :
    textAfter connective (fs.map uniform) = textAfter connective fs := by
  induction fs with
  | nil => rfl
  | cons f fs ih =>
    obtain ⟨first, rest⟩ := List.forall_mem_cons.1 each
    rw [List.map_cons, textAfter, textAfter, first, ih rest]

/-- A formula has the same text with its disjunctions of a single operand written as
conjunctions. -/
theorem text_uniform (f : Formula) : f.uniform.text = f.text := by
  induction f with
  | atom p => rw [uniform]
  | not f ih => rw [uniform, text, ih, text]
  | and fs ih =>
    cases fs with
    | nil => rfl
    | cons f fs =>
      obtain ⟨first, rest⟩ := List.forall_mem_cons.1 ih
      rw [uniform, uniformEach_eq, List.map_cons, text, text, first,
        textAfter_map_uniform " ∧ " rest]
  | or fs ih =>
    cases fs with
    | nil => rfl
    | cons f fs =>
      obtain ⟨first, rest⟩ := List.forall_mem_cons.1 ih
      cases fs with
      | nil =>
        have single : (Formula.or [f]).uniform = .and [f.uniform] := rfl
        rw [single, text, text, first, textAfter, textAfter]
      | cons g gs =>
        have several : (Formula.or (f :: g :: gs)).uniform
            = .or (f.uniform :: (g :: gs).map uniform) := by
          simp [uniform, orUniform]
        rw [several, text, text, first, textAfter_map_uniform " ∨ " rest]
  | imp f g ihf ihg | iff f g ihf ihg => rw [uniform, text, ihf, ihg, text]
  | knows a f ih | possible a f ih | everyone group f ih | common group f ih =>
    rw [uniform, text, ih, text]

/-- **The text determines the truth.** Let all names in two formulas be words. Then they have the
same text iff they are the same formula once each disjunction of a single operand is written as a
conjunction, with all operands left in their order; and if they have, they have the same truth value
at each world of a model. -/
theorem text_determines_truth {f g : Formula} (hf : f.IsWorded) (hg : g.IsWorded) :
    (f.text = g.text ↔ f.uniform = g.uniform) ∧
    (f.text = g.text → ∀ (m : Model) (r : WorldRef) (live : m.contains r = true),
      f.evaluate (.pointed m r live) = g.evaluate (.pointed m r live)) := by
  have told : f.text = g.text → f.uniform = g.uniform := by
    intro same
    have ends := halts_nil ' ' ')'
    exact (f.legible hf hg ends ends (congrArg (fun s : String => s.toList ++ []) same)).1
  refine ⟨⟨told, fun same => ?_⟩, fun same m r live => ?_⟩
  · rw [← f.text_uniform, same, g.text_uniform]
  · rw [evaluate, evaluate, ← satisfies_uniform m f, told same, satisfies_uniform]

/-- Letters of modalities are words too, and a group may be empty. The two formulas differ in the
parts `(K)` and `(E[] M)` alone, where each joins a single operand the other way. -/
theorem text_determines_truth_single_operands :
    let k : Formula := .atom ⟨"K"⟩
    let e : Formula := .everyone ∅ (.atom ⟨"M"⟩)
    let group : ExtTreeSet Agent := {(⟨"C"⟩ : Agent), ⟨"a1"⟩}
    let f : Formula := .common group (.iff (.or [k]) (.knows ⟨"K"⟩ (.and [e])))
    let g : Formula := .common group (.iff (.and [k]) (.knows ⟨"K"⟩ (.or [e])))
    f.IsWorded ∧ g.IsWorded ∧ f ≠ g ∧ f.text = "C[C,a1] ((K) ↔ K[K] (E[] M))" ∧
      f.text = g.text ∧
      ∀ (m : Model) (r : WorldRef) (live : m.contains r = true),
        f.evaluate (.pointed m r live) = g.evaluate (.pointed m r live) := by
  intro k e group f g
  have words : ∀ s ∈ ["K", "M", "C", "a1"], IsWord s := by
    have checked : (["K", "M", "C", "a1"].all fun s =>
        s != "" && s.toList.all Char.isAlphanum) = true := by decide
    intro s hs
    have word := List.all_eq_true.1 checked s hs
    rwa [Bool.and_eq_true, bne_iff_ne, List.all_eq_true] at word
  have names : ∀ a ∈ group, IsWord a.name := by
    intro a ha
    have listing : ∀ b ∈ group.toList, b.name ∈ ["K", "M", "C", "a1"] := by decide +kernel
    exact words _ (listing a (ExtTreeSet.mem_toList.2 ha))
  have hk : k.IsWorded := by
    rw [IsWorded]
    exact words "K" (by decide)
  have he : e.IsWorded := by
    rw [IsWorded, IsWorded]
    exact ⟨by simp, words "M" (by decide)⟩
  have hf : f.IsWorded := by
    rw [IsWorded]
    exact ⟨names, by simp [IsWorded, hk, he, words]⟩
  have hg : g.IsWorded := by
    rw [IsWorded]
    exact ⟨names, by simp [IsWorded, hk, he, words]⟩
  obtain ⟨told, alike⟩ := text_determines_truth hf hg
  have same : f.text = g.text := told.2 (by rfl)
  exact ⟨hf, hg, by decide +kernel, by decide +kernel, same, alike same⟩

end Formula

end KnowledgePrograms
