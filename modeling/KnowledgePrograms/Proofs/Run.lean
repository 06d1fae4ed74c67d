import Mathlib.Data.List.Basic

/-! # Computations that may fail and keep a state

A computation over some state that may fail leaves a state either way: the one that it has come to
when it fails. What every step of a loop keeps of the state the loop keeps, wherever it fails.

* `Run`, `runOn`: computations, and what comes of one in a state.
* `runOn_bind_of_ok`, `runOn_bind_of_error`: one computation after another.
* `runOn_forM_keeps`: what a loop keeps. -/

namespace KnowledgePrograms

/-- A computation over a state, which may fail and leave the state as it then is. -/
abbrev Run (σ ε : Type) : Type → Type := ExceptT ε (StateM σ)

variable {σ ε α β : Type}

/-- The state that a computation leaves, and what the computation results in. -/
def runOn (p : Run σ ε α) (s : σ) : σ × Except ε α :=
  let (result, t) := p.run.run s
  (t, result)

/-- A computation that gives a result is followed by what is done with it. -/
theorem runOn_bind (p : Run σ ε α) (k : α → Run σ ε β) (s : σ) :
    runOn (p >>= k) s = match runOn p s with
      | (t, .ok a) => runOn (k a) t
      | (t, .error e) => (t, .error e) := by
  unfold runOn ExceptT.run StateT.run
  simp only [bind, ExceptT.bind, ExceptT.mk, StateT.bind, ExceptT.bindCont]
  cases p s with
  | mk result t => cases result <;> rfl

/-- After a computation that succeeds the rest is done to the state that it leaves. -/
theorem runOn_bind_of_ok {p : Run σ ε α} {k : α → Run σ ε β} {s t : σ}
    {a : α} (done : runOn p s = (t, .ok a)) : runOn (p >>= k) s = runOn (k a) t := by
  rw [runOn_bind, done]

/-- After a computation that fails nothing is done. -/
theorem runOn_bind_of_error {p : Run σ ε α} {k : α → Run σ ε β}
    {s t : σ} {e : ε} (failed : runOn p s = (t, .error e)) :
    runOn (p >>= k) s = (t, .error e) := by
  rw [runOn_bind, failed]

/-- What reads the state goes on with the state that it is done to. -/
theorem runOn_get_bind (k : σ → Run σ ε β) (s : σ) :
    runOn (get >>= k) s = runOn (k s) s :=
  runOn_bind_of_ok rfl

/-- What each step of a loop keeps of the state the loop keeps, whether or not it fails. -/
theorem runOn_forM_keeps (kept : σ → Prop) {act : β → Run σ ε PUnit}
    (each : ∀ b s, kept s → kept (runOn (act b) s).1) (bs : List β) {s : σ} (hs : kept s) :
    kept (runOn (bs.forM act) s).1 := by
  -- Induction on what is left of the loop; a step that fails is the last one.
  induction bs generalizing s with
  | nil => exact hs
  | cons b rest ih =>
    have first := each b s hs
    rw [List.forM_eq_forM, List.forM_cons, runOn_bind]
    rcases done : runOn (act b) s with ⟨t, _ | _⟩
    · rwa [done] at first
    · rw [done] at first
      exact ih first

end KnowledgePrograms
