import KnowledgePrograms.Logic.Formula
import KnowledgePrograms.Kripke.Reachability

/-! # Truth of a formula

A formula is true or false at a world of a model. Connectives are classical; `K[a] f` is true at a
world when `f` is true at every world that `a` cannot rule out there, `M[a] f` when it is at some;
`E[G] f` is `K[a] f` for every `a` of the group; `C[G] f` asks for `f` at every world that one or
more arcs of the group lead to.

On a valuation alone there is no world to read a modality at. Operands are read in order up to the
first that decides, so a modality which is not reached does no harm (`Formula.evaluateOn`). -/

namespace KnowledgePrograms

/-- Why a formula has no truth value. -/
inductive EvaluationError where
  /-- A modality was to be read without a world to read it at. -/
  | unpointedModality
  /-- The reference is to no world of the model. -/
  | missingWorld (r : WorldRef)
deriving DecidableEq

/-! ## (1) Truth at a world of a model -/

namespace Model

/-- Whether an atom is true at a world. -/
def valueOf (m : Model) (r : WorldRef) (p : Atom) : Bool :=
  match m.world? r with
  | some w => w.valuation.valueOf p
  | none => false

mutual

/-- Whether a formula is true at a world. -/
def satisfies (m : Model) : Formula → WorldRef → Bool
  | .atom p, r => m.valueOf r p
  | .not f, r => !m.satisfies f r
  | .and fs, r => m.satisfiesAll fs r
  | .or fs, r => m.satisfiesAny fs r
  | .imp f g, r => !m.satisfies f r || m.satisfies g r
  | .iff f g, r => m.satisfies f r == m.satisfies g r
  | .knows a f, r => (m.accessible a r).all fun s => m.satisfies f s
  | .possible a f, r => (m.accessible a r).any fun s => m.satisfies f s
  | .everyone group f, r =>
      group.toList.all fun a => (m.accessible a r).all fun s => m.satisfies f s
  | .common group f, r => (m.reachable group r).all fun s => m.satisfies f s

/-- Whether all formulas of a list are true at a world. -/
def satisfiesAll (m : Model) : List Formula → WorldRef → Bool
  | [], _ => true
  | f :: fs, r => m.satisfies f r && m.satisfiesAll fs r

/-- Whether some formula of a list is true at a world. -/
def satisfiesAny (m : Model) : List Formula → WorldRef → Bool
  | [], _ => false
  | f :: fs, r => m.satisfies f r || m.satisfiesAny fs r

end

/-- All formulas of a list are true when each is. -/
@[simp] theorem satisfiesAll_eq (m : Model) (fs : List Formula) (r : WorldRef) :
    m.satisfiesAll fs r = fs.all fun f => m.satisfies f r := by
  induction fs with
  | nil => rfl
  | cons f fs ih => rw [satisfiesAll, ih, List.all_cons]

/-- Some formula of a list is true when one of them is. -/
@[simp] theorem satisfiesAny_eq (m : Model) (fs : List Formula) (r : WorldRef) :
    m.satisfiesAny fs r = fs.any fun f => m.satisfies f r := by
  induction fs with
  | nil => rfl
  | cons f fs ih => rw [satisfiesAny, ih, List.any_cons]

end Model

/-! ## (2) Truth on a valuation alone -/

namespace Formula

mutual

/-- The truth value of a formula on a valuation, unless a modality is to be read for it. -/
def evaluateOn (v : Valuation) : Formula → Except EvaluationError Bool
  | .atom p => .ok (v.valueOf p)
  | .not f => return !(← f.evaluateOn v)
  | .and fs => evaluateAllOn v fs
  | .or fs => evaluateAnyOn v fs
  | .imp f g => do if ← f.evaluateOn v then g.evaluateOn v else return true
  | .iff f g => do
      let b ← f.evaluateOn v
      let c ← g.evaluateOn v
      return b == c
  | .knows _ _ => .error .unpointedModality
  | .possible _ _ => .error .unpointedModality
  | .everyone _ _ => .error .unpointedModality
  | .common _ _ => .error .unpointedModality

/-- Whether all operands are true on a valuation, read up to the first that is not. -/
def evaluateAllOn (v : Valuation) : List Formula → Except EvaluationError Bool
  | [] => return true
  | f :: fs => do if ← f.evaluateOn v then evaluateAllOn v fs else return false

/-- Whether some operand is true on a valuation, read up to the first that is. -/
def evaluateAnyOn (v : Valuation) : List Formula → Except EvaluationError Bool
  | [] => return false
  | f :: fs => do if ← f.evaluateOn v then return true else evaluateAnyOn v fs

end

end Formula

/-! ## (3) Contexts -/

/-- What a formula is evaluated on: a valuation alone, or a world of a model. -/
inductive Context where
  /-- A valuation alone. -/
  | bare (v : Valuation)
  /-- A world of a model. -/
  | pointed (m : Model) (r : WorldRef) (live : m.contains r = true)

/-- The context of a world of a model, if the reference is to one. -/
def Model.contextAt (m : Model) (r : WorldRef) : Except EvaluationError Context :=
  if live : m.contains r = true then .ok (.pointed m r live) else .error (.missingWorld r)

/-- The truth value of a formula on a context. -/
def Formula.evaluate (f : Formula) : Context → Except EvaluationError Bool
  | .bare v => f.evaluateOn v
  | .pointed m r _ => .ok (m.satisfies f r)

end KnowledgePrograms
