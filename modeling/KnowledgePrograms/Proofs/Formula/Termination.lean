import KnowledgePrograms.Proofs.Formula.NegationNormal
import KnowledgePrograms.Proofs.Formula.Reading

/-! # Termination of simplification

Simplification and negation call each other, and the negation of a connective ends with a call that
simplifies what the negated parts have been joined to. That formula is computed, and it may be
larger than the one to be negated, so that the calls do not go down in size. But it is in negation
normal form, on which each call is for a part, or for the same formula without the negation that
stands on it. So no chain of calls goes on for ever.

* `Request`, `Request.calls`: what may be asked for, and what is asked for on the way.
* `Request.attempt`: the answer, if calls may be nested only so deep.
* `Request.attempt_succ_eq_some_iff`: an attempt succeeds as soon as all its calls do.
* `Request.wellFounded_calls`: the calls are well-founded.
* `simplification_terminates`: what follows for simplification and negation. -/

namespace KnowledgePrograms

open Std (ExtTreeSet)

namespace Formula

/-! ## (1) Requests -/

/-- The operands of a conjunction, with those of a conjunction directly among them in its place. -/
def conjuncts : List Formula → List Formula
  | [] => []
  | .and gs :: fs => conjuncts gs ++ conjuncts fs
  | f :: fs => f :: conjuncts fs

/-- The operands of a disjunction, with those of a disjunction directly among them in its place. -/
def disjuncts : List Formula → List Formula
  | [] => []
  | .or gs :: fs => disjuncts gs ++ disjuncts fs
  | f :: fs => f :: disjuncts fs

/-- What may be asked for. -/
inductive Request where
  /-- The formula simplified. -/
  | simplify (f : Formula)
  /-- The negation of the formula. -/
  | negate (f : Formula)

namespace Request

/-- What is asked for. -/
def answer : Request → Formula
  | .simplify f => f.simplify
  | .negate f => f.negate

/-- What is asked for on the way to an answer, in order. The negation of a connective asks last for
the formula simplified that it has been turned into. -/
def calls : Request → List Request
  | .simplify (.atom _) => []
  | .simplify (.not f) => [.negate f]
  | .simplify (.and fs) => (conjuncts fs).map .simplify
  | .simplify (.or fs) => (disjuncts fs).map .simplify
  | .simplify (.imp f g) => [.simplify f, .simplify g]
  | .simplify (.iff f g) => [.simplify f, .simplify g]
  | .simplify (.knows _ f) => [.simplify f]
  | .simplify (.possible _ f) => [.simplify f]
  | .simplify (.everyone _ f) => [.simplify f]
  | .simplify (.common _ f) => [.simplify f]
  | .negate (.atom _) => []
  | .negate (.not f) => [.simplify f]
  | .negate (.and fs) => fs.map .negate ++ [.simplify (any (fs.map Formula.negate))]
  | .negate (.or fs) => fs.map .negate ++ [.simplify (all (fs.map Formula.negate))]
  | .negate (.imp f g) => [.simplify f, .negate g, .simplify (all [f.simplify, g.negate])]
  | .negate (.iff f g) => [.simplify f, .negate g, .negate f, .simplify g,
      .simplify (any [all [f.simplify, g.negate], all [f.negate, g.simplify]])]
  | .negate (.knows a f) => [.simplify (.knows a f)]
  | .negate (.possible _ f) => [.negate f]
  | .negate (.everyone s f) => [.simplify (.everyone s f)]
  | .negate (.common s f) => [.simplify (.common s f)]

/-- The answer found when calls may be nested only so deep, if there is one. -/
def attempt : Nat → Request → Option Formula
  | 0, _ => none
  | _ + 1, .simplify (.atom p) => some (.atom p)
  | depth + 1, .simplify (.not f) => attempt depth (.negate f)
  | depth + 1, .simplify (.and fs) =>
      return all (← (conjuncts fs).mapM fun f => attempt depth (.simplify f))
  | depth + 1, .simplify (.or fs) =>
      return any (← (disjuncts fs).mapM fun f => attempt depth (.simplify f))
  | depth + 1, .simplify (.imp f g) =>
      return .imp (← attempt depth (.simplify f)) (← attempt depth (.simplify g))
  | depth + 1, .simplify (.iff f g) =>
      return .iff (← attempt depth (.simplify f)) (← attempt depth (.simplify g))
  | depth + 1, .simplify (.knows a f) => return .knows a (← attempt depth (.simplify f))
  | depth + 1, .simplify (.possible a f) => return .possible a (← attempt depth (.simplify f))
  | depth + 1, .simplify (.everyone s f) => return .everyone s (← attempt depth (.simplify f))
  | depth + 1, .simplify (.common s f) => return .common s (← attempt depth (.simplify f))
  | _ + 1, .negate (.atom p) => some (.not (.atom p))
  | depth + 1, .negate (.not f) => attempt depth (.simplify f)
  | depth + 1, .negate (.and fs) => do
      let negated ← fs.mapM fun f => attempt depth (.negate f)
      attempt depth (.simplify (any negated))
  | depth + 1, .negate (.or fs) => do
      let negated ← fs.mapM fun f => attempt depth (.negate f)
      attempt depth (.simplify (all negated))
  | depth + 1, .negate (.imp f g) => do
      let f' ← attempt depth (.simplify f)
      let g' ← attempt depth (.negate g)
      attempt depth (.simplify (all [f', g']))
  | depth + 1, .negate (.iff f g) => do
      let left := all [← attempt depth (.simplify f), ← attempt depth (.negate g)]
      let right := all [← attempt depth (.negate f), ← attempt depth (.simplify g)]
      attempt depth (.simplify (any [left, right]))
  | depth + 1, .negate (.knows a f) => return .not (← attempt depth (.simplify (.knows a f)))
  | depth + 1, .negate (.possible a f) => return .knows a (← attempt depth (.negate f))
  | depth + 1, .negate (.everyone s f) => return .not (← attempt depth (.simplify (.everyone s f)))
  | depth + 1, .negate (.common s f) => return .not (← attempt depth (.simplify (.common s f)))
termination_by structural depth => depth

end Request

/-- The simplified operands of a conjunction are its conjuncts, each simplified. -/
theorem simplifyConjuncts_eq (fs : List Formula) :
    simplifyConjuncts fs = (conjuncts fs).map simplify := by
  fun_induction conjuncts fs with
  | case1 => rw [simplifyConjuncts, List.map_nil]
  | case2 gs fs ihg ihf => rw [simplifyConjuncts, ihg, ihf, List.map_append]
  | case3 f fs single ih => rw [simplifyConjuncts.eq_3 f fs single, ih, List.map_cons]

/-- The simplified operands of a disjunction are its disjuncts, each simplified. -/
theorem simplifyDisjuncts_eq (fs : List Formula) :
    simplifyDisjuncts fs = (disjuncts fs).map simplify := by
  fun_induction disjuncts fs with
  | case1 => rw [simplifyDisjuncts, List.map_nil]
  | case2 gs fs ihg ihf => rw [simplifyDisjuncts, ihg, ihf, List.map_append]
  | case3 f fs single ih => rw [simplifyDisjuncts.eq_3 f fs single, ih, List.map_cons]

/-- The negations of operands, one by one. -/
theorem negateEach_eq (fs : List Formula) : negateEach fs = fs.map negate := by
  induction fs with
  | nil => rw [negateEach, List.map_nil]
  | cons f fs ih => rw [negateEach, ih, List.map_cons]

namespace Request

variable {depth : Nat} {t u : Request} {f g : Formula} {fs : List Formula}

/-! ## (2) Attempts -/

/-- An attempt that finds the right answers only, and finds one to a request, goes on with it. -/
theorem bind_attempt_iff (right : ∀ t g, attempt depth t = some g → g = t.answer)
    {k : Formula → Option Formula} :
    (attempt depth u >>= k) = some g ↔
      attempt depth u = some u.answer ∧ k u.answer = some g := by
  show (attempt depth u).bind k = some g ↔ _
  rw [Option.bind_eq_some_iff]
  constructor
  · rintro ⟨x, found, rest⟩
    obtain rfl := right u x found
    exact ⟨found, rest⟩
  · rintro ⟨found, rest⟩
    exact ⟨_, found, rest⟩

/-- Attempts that find the right answers only, and find one to each of some requests, go on with
all of these. -/
theorem bind_mapM_attempt_iff (right : ∀ t g, attempt depth t = some g → g = t.answer)
    (request : Formula → Request) {k : List Formula → Option Formula} :
    (fs.mapM (fun f => attempt depth (request f)) >>= k) = some g ↔
      (∀ f ∈ fs, attempt depth (request f) = some (request f).answer) ∧
        k (fs.map fun f => (request f).answer) = some g := by
  induction fs generalizing k with
  | nil => simp
  | cons f rest ih =>
    rw [List.mapM_cons, bind_assoc, bind_attempt_iff right]
    simp only [bind_assoc, pure_bind]
    rw [ih, List.forall_mem_cons, and_assoc, List.map_cons]

/-- Where attempts find the right answers only, one with a greater depth finds an answer just if
they find those to its calls, and then it finds the right one. -/
theorem attempt_succ_of_right (right : ∀ t g, attempt depth t = some g → g = t.answer) :
    attempt (depth + 1) t = some g ↔
      (∀ u ∈ t.calls, attempt depth u = some u.answer) ∧ t.answer = g := by
  have last : ∀ u : Request, attempt depth u = some g ↔
      attempt depth u = some u.answer ∧ u.answer = g := by
    intro u
    constructor
    · intro found
      obtain rfl := right u g found
      exact ⟨found, rfl⟩
    · rintro ⟨found, rfl⟩
      exact found
  cases t with
  | simplify f =>
    cases f with
    | atom p => simp [attempt, calls, answer, Formula.simplify]
    | not f => simp [attempt, calls, last, answer, Formula.simplify]
    | and fs | or fs =>
      rw [attempt, bind_mapM_attempt_iff right]
      simp [calls, answer, Formula.simplify, simplifyConjuncts_eq, simplifyDisjuncts_eq]
    | imp f g | iff f g =>
      rw [attempt, bind_attempt_iff right, bind_attempt_iff right]
      simp [calls, answer, Formula.simplify, and_assoc]
    | knows a f | possible a f | everyone group f | common group f =>
      rw [attempt, bind_attempt_iff right]
      simp [calls, answer, Formula.simplify]
  | negate f =>
    cases f with
    | atom p => simp [attempt, calls, answer, Formula.negate]
    | not f => simp [attempt, calls, last, answer, Formula.negate]
    | and fs | or fs =>
      -- The operands are negated one by one, and the last call is for what they are joined to.
      rw [attempt, bind_mapM_attempt_iff right, last, calls, List.forall_mem_append,
        List.forall_mem_map, List.forall_mem_singleton, and_assoc]
      simp only [answer, negate_and, negate_or, negateEach_eq]
    | imp f g =>
      rw [attempt, bind_attempt_iff right, bind_attempt_iff right, last]
      simp [calls, answer, negate_imp, and_assoc]
    | iff f g =>
      rw [attempt, bind_attempt_iff right, bind_attempt_iff right, bind_attempt_iff right,
        bind_attempt_iff right, last]
      simp [calls, answer, negate_iff, and_assoc]
    | knows a f | everyone group f | common group f =>
      rw [attempt, bind_attempt_iff right]
      simp [calls, answer, Formula.negate, Formula.simplify]
    | possible a f =>
      rw [attempt, bind_attempt_iff right]
      simp [calls, answer, Formula.negate]

/-- What an attempt finds is what was asked for. -/
theorem eq_answer_of_attempt (found : attempt depth t = some g) : g = t.answer := by
  induction depth generalizing t g with
  | zero => cases found
  | succ depth ih => exact ((attempt_succ_of_right fun _ _ => ih).1 found).2.symm

/-- An attempt with a greater depth finds an answer just if those to its calls are found. -/
theorem attempt_succ_eq_some_iff : attempt (depth + 1) t = some g ↔
    (∀ u ∈ t.calls, attempt depth u = some u.answer) ∧ t.answer = g :=
  attempt_succ_of_right fun _ _ => eq_answer_of_attempt

/-- What is found is found with any greater depth. -/
theorem attempt_mono {more : Nat} (found : attempt depth t = some g) (le : depth ≤ more) :
    attempt more t = some g := by
  induction depth generalizing t g more with
  | zero => cases found
  | succ depth ih =>
    obtain ⟨larger, rfl⟩ : ∃ larger, more = larger + 1 := ⟨more - 1, by omega⟩
    rw [attempt_succ_eq_some_iff] at found ⊢
    exact ⟨fun u hu => ih (found.1 u hu) (by omega), found.2⟩

/-- Attempts that each succeed with some depth all succeed with one. -/
theorem exists_depth {requests : List Request}
    (each : ∀ u ∈ requests, ∃ depth, attempt depth u = some u.answer) :
    ∃ depth, ∀ u ∈ requests, attempt depth u = some u.answer := by
  induction requests with
  | nil => exact ⟨0, List.forall_mem_nil _⟩
  | cons u rest ih =>
    obtain ⟨⟨first, found⟩, each⟩ := List.forall_mem_cons.1 each
    obtain ⟨later, all⟩ := ih each
    refine ⟨max first later, List.forall_mem_cons.2 ⟨?_, fun v hv => ?_⟩⟩
    · exact attempt_mono found (Nat.le_max_left _ _)
    · exact attempt_mono (all v hv) (Nat.le_max_right _ _)

/-! ## (3) Calls -/

/-- No chain of calls that starts with the request goes on for ever. -/
def Ends (t : Request) : Prop := Acc (fun u t : Request => u ∈ t.calls) t

/-- Chains of calls end if those of the calls do. -/
theorem ends_of_calls (h : ∀ u ∈ t.calls, u.Ends) : t.Ends := Acc.intro t h

/-- The chains of the calls end with those of the request. -/
theorem Ends.of_mem_calls (h : t.Ends) (called : u ∈ t.calls) : u.Ends := h.inv called

/-- The chains of the conjuncts end with those of the operands. -/
theorem ends_conjuncts (h : ∀ f ∈ fs, (simplify f).Ends) :
    ∀ f ∈ conjuncts fs, (simplify f).Ends := by
  fun_induction conjuncts fs with
  | case1 => exact List.forall_mem_nil _
  | case2 gs fs _ ih =>
    obtain ⟨nested, rest⟩ := List.forall_mem_cons.1 h
    refine List.forall_mem_append.2 ⟨fun f hf => ?_, ih rest⟩
    exact nested.of_mem_calls (List.mem_map_of_mem hf)
  | case3 f fs _ ih =>
    obtain ⟨first, rest⟩ := List.forall_mem_cons.1 h
    exact List.forall_mem_cons.2 ⟨first, ih rest⟩

/-- The chains of the disjuncts end with those of the operands. -/
theorem ends_disjuncts (h : ∀ f ∈ fs, (simplify f).Ends) :
    ∀ f ∈ disjuncts fs, (simplify f).Ends := by
  fun_induction disjuncts fs with
  | case1 => exact List.forall_mem_nil _
  | case2 gs fs _ ih =>
    obtain ⟨nested, rest⟩ := List.forall_mem_cons.1 h
    refine List.forall_mem_append.2 ⟨fun f hf => ?_, ih rest⟩
    exact nested.of_mem_calls (List.mem_map_of_mem hf)
  | case3 f fs _ ih =>
    obtain ⟨first, rest⟩ := List.forall_mem_cons.1 h
    exact List.forall_mem_cons.2 ⟨first, ih rest⟩

/-- To simplify a conjunction ends if to simplify each operand does. -/
theorem ends_simplify_and (h : ∀ f ∈ fs, (simplify f).Ends) : (simplify (.and fs)).Ends := by
  apply ends_of_calls
  rw [calls, List.forall_mem_map]
  exact ends_conjuncts h

/-- To simplify a disjunction ends if to simplify each operand does. -/
theorem ends_simplify_or (h : ∀ f ∈ fs, (simplify f).Ends) : (simplify (.or fs)).Ends := by
  apply ends_of_calls
  rw [calls, List.forall_mem_map]
  exact ends_disjuncts h

/-- To negate what takes a negation ends if to simplify it does. -/
theorem ends_negate_of_takesNot (takes : f.TakesNot) (h : (simplify f).Ends) :
    (negate f).Ends := by
  apply ends_of_calls
  cases f with
  | atom p => exact List.forall_mem_nil _
  | knows a f | everyone s f | common s f => exact List.forall_mem_singleton.2 h
  | _ => exact takes.elim

/-- To simplify a formula in negation normal form ends: each call is for a part, or for the formula
without the negation that stands on it. -/
theorem ends_simplify_of_isNnf (h : f.IsNnf) : (simplify f).Ends := by
  induction h with
  | atom p => exact ends_of_calls (List.forall_mem_nil _)
  | not takes _ ih =>
    apply ends_of_calls
    exact List.forall_mem_singleton.2 (ends_negate_of_takesNot takes ih)
  | and _ ih => exact ends_simplify_and ih
  | or _ ih => exact ends_simplify_or ih
  | imp _ _ ihf ihg | iff _ _ ihf ihg =>
    apply ends_of_calls
    simp [calls, ihf, ihg]
  | knows a _ ih | possible a _ ih | everyone group _ ih | common group _ ih =>
    apply ends_of_calls
    exact List.forall_mem_singleton.2 ih

/-- To simplify a formula and to negate it ends: what the negation of a connective asks for last is
in negation normal form, and every other call is for a part. -/
theorem ends_each (f : Formula) : (simplify f).Ends ∧ (negate f).Ends := by
  induction f with
  | atom p =>
    exact ⟨ends_of_calls (List.forall_mem_nil _), ends_of_calls (List.forall_mem_nil _)⟩
  | not f ih =>
    obtain ⟨simplified, negated⟩ := ih
    constructor
    · exact ends_of_calls (List.forall_mem_singleton.2 negated)
    · exact ends_of_calls (List.forall_mem_singleton.2 simplified)
  | and fs operands =>
    refine ⟨ends_simplify_and fun f hf => (operands f hf).1, ?_⟩
    apply ends_of_calls
    rw [calls, List.forall_mem_append, List.forall_mem_map, List.forall_mem_singleton,
      ← negateEach_eq]
    exact ⟨fun f hf => (operands f hf).2,
      ends_simplify_of_isNnf (isNnf_any (isNnf_negateEach fs))⟩
  | or fs operands =>
    refine ⟨ends_simplify_or fun f hf => (operands f hf).1, ?_⟩
    apply ends_of_calls
    rw [calls, List.forall_mem_append, List.forall_mem_map, List.forall_mem_singleton,
      ← negateEach_eq]
    exact ⟨fun f hf => (operands f hf).2,
      ends_simplify_of_isNnf (isNnf_all (isNnf_negateEach fs))⟩
  | imp f g ihf ihg =>
    obtain ⟨simplifiedf, -⟩ := ihf
    obtain ⟨simplifiedg, negatedg⟩ := ihg
    have dual := ends_simplify_of_isNnf (isNnf_dual_imp f g)
    constructor
    · apply ends_of_calls
      simp [calls, simplifiedf, simplifiedg]
    · apply ends_of_calls
      simp [calls, simplifiedf, negatedg, dual]
  | iff f g ihf ihg =>
    obtain ⟨simplifiedf, negatedf⟩ := ihf
    obtain ⟨simplifiedg, negatedg⟩ := ihg
    have dual := ends_simplify_of_isNnf (isNnf_dual_iff f g)
    constructor
    · apply ends_of_calls
      simp [calls, simplifiedf, simplifiedg]
    · apply ends_of_calls
      simp [calls, simplifiedf, simplifiedg, negatedf, negatedg, dual]
  | knows a f ih =>
    have simplified : (simplify (.knows a f)).Ends :=
      ends_of_calls (List.forall_mem_singleton.2 ih.1)
    exact ⟨simplified, ends_negate_of_takesNot trivial simplified⟩
  | possible a f ih =>
    obtain ⟨simplified, negated⟩ := ih
    constructor
    · exact ends_of_calls (List.forall_mem_singleton.2 simplified)
    · exact ends_of_calls (List.forall_mem_singleton.2 negated)
  | everyone group f ih =>
    have simplified : (simplify (.everyone group f)).Ends :=
      ends_of_calls (List.forall_mem_singleton.2 ih.1)
    exact ⟨simplified, ends_negate_of_takesNot trivial simplified⟩
  | common group f ih =>
    have simplified : (simplify (.common group f)).Ends :=
      ends_of_calls (List.forall_mem_singleton.2 ih.1)
    exact ⟨simplified, ends_negate_of_takesNot trivial simplified⟩

/-- The calls are well-founded. -/
theorem wellFounded_calls : WellFounded fun u t : Request => u ∈ t.calls := by
  constructor
  intro t
  cases t with
  | simplify f => exact (ends_each f).1
  | negate f => exact (ends_each f).2

/-- Every request is answered with some depth. -/
theorem exists_attempt (t : Request) : ∃ depth, attempt depth t = some t.answer := by
  apply wellFounded_calls.induction t
  intro t ih
  obtain ⟨depth, found⟩ := exists_depth ih
  exact ⟨depth + 1, attempt_succ_eq_some_iff.2 ⟨found, rfl⟩⟩

end Request

/-! ## (4) Sizes -/

mutual

/-- The number of atoms, connectives and modalities written in a formula. -/
def size : Formula → Nat
  | .atom _ => 1
  | .not f => size f + 1
  | .and fs => sizeEach fs + 1
  | .or fs => sizeEach fs + 1
  | .imp f g => size f + size g + 1
  | .iff f g => size f + size g + 1
  | .knows _ f => size f + 1
  | .possible _ f => size f + 1
  | .everyone _ f => size f + 1
  | .common _ f => size f + 1

/-- The number of atoms, connectives and modalities written in the operands. -/
def sizeEach : List Formula → Nat
  | [] => 0
  | f :: fs => size f + sizeEach fs

end

/-- An operand is not larger than all together. -/
theorem size_le_sizeEach {f : Formula} {fs : List Formula} (h : f ∈ fs) : f.size ≤ sizeEach fs := by
  induction fs with
  | nil => cases h
  | cons g fs ih =>
    rw [sizeEach]
    rcases List.mem_cons.1 h with rfl | h
    · omega
    · have later := ih h
      omega

/-- A disjunction is larger than each of its operands. -/
theorem size_lt_any {f : Formula} {fs : List Formula} (h : f ∈ fs) : f.size < (any fs).size := by
  rw [any, size, Nat.lt_succ_iff]
  exact size_le_sizeEach (mem_sortAscending.2 h)

/-- What the negation of an equivalence of atoms is simplified from is larger than the
equivalence. -/
theorem size_iff_lt_dual (p q : Atom) : (Formula.iff (.atom p) (.atom q)).size <
    (any [all [.atom p, .not (.atom q)], all [.not (.atom p), .atom q]]).size := by
  calc (Formula.iff (.atom p) (.atom q)).size
      < (all [.atom p, .not (.atom q)]).size := by
        show 3 < 4
        decide
    _ < _ := size_lt_any List.mem_cons_self

/-! ## (5) Simplification and negation -/

/-- **Simplification terminates.** The calls that simplification and negation make of each other are
well-founded, though a negation may call for a larger formula to be simplified than the one that it
is of. So whatever is asked for is answered with calls nested to some depth, and to no effect with
any greater depth; and an attempt needs just the answers of its calls. Both answers are in negation
normal form. -/
theorem simplification_terminates :
    (WellFounded fun u t : Request => u ∈ t.calls) ∧
    (∀ p q : Atom, ∃ dual : Formula,
      .simplify dual ∈ (Request.negate (.iff (.atom p) (.atom q))).calls ∧
        (Formula.iff (.atom p) (.atom q)).size < dual.size) ∧
    (∀ (t : Request) (depth : Nat) (g : Formula), t.attempt (depth + 1) = some g ↔
      (∀ u ∈ t.calls, u.attempt depth = some u.answer) ∧ t.answer = g) ∧
    (∀ t : Request, ∃ depth, ∀ more, depth ≤ more → t.attempt more = some t.answer) ∧
    ∀ f : Formula, f.simplify.IsNnf ∧ f.negate.IsNnf := by
  refine ⟨Request.wellFounded_calls, ?_, ?_, ?_, fun f => ⟨isNnf_simplify f, isNnf_negate f⟩⟩
  · intro p q
    refine ⟨_, ?_, size_iff_lt_dual p q⟩
    rw [Request.calls]
    simp [simplify, negate]
  · intro t depth g
    exact Request.attempt_succ_eq_some_iff
  · intro t
    obtain ⟨depth, found⟩ := t.exists_attempt
    exact ⟨depth, fun more le => Request.attempt_mono found le⟩

end Formula

end KnowledgePrograms
