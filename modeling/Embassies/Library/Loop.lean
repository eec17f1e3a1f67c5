import Mathlib.Logic.Relation

/-!
# Loops that may run for ever

The body of a loop either goes on with a next state, leaves the loop with a
result, or halts.  A loop runs on fuel, and halts with `exhausted` when the
fuel is used up.
-/

namespace Embassies.Library.Loop

variable {ε σ ρ : Type} {exhausted : ε} {body : σ → Except ε (σ ⊕ ρ)}
  {start state : σ} {result : ρ} {fuel : Nat}

/-- Run the body until it leaves the loop. -/
def run (exhausted : ε) (body : σ → Except ε (σ ⊕ ρ)) :
    Nat → σ → Except ε ρ
  | 0, _ => .error exhausted
  | fuel + 1, state =>
    match body state with
    | .error reason => .error reason
    | .ok (.inr result) => .ok result
    | .ok (.inl next) => run exhausted body fuel next

/-- The loop goes on from `state` with `next`. -/
def Next (body : σ → Except ε (σ ⊕ ρ)) (state next : σ) : Prop :=
  body state = .ok (.inl next)

theorem run_next {next : σ} (goes : Next body state next) :
    run exhausted body (fuel + 1) state = run exhausted body fuel next := by
  rw [run, goes]

theorem run_leave (leaves : body state = .ok (.inr result)) :
    run exhausted body (fuel + 1) state = .ok result := by
  rw [run, leaves]

theorem run_succ_eq_ok_iff : run exhausted body (fuel + 1) state = .ok result ↔
      body state = .ok (.inr result) ∨ ∃ next, Next body state next ∧
          run exhausted body fuel next = .ok result := by
  rw [run]
  cases outcome : body state with
  | error reason => simp [Next, outcome]
  | ok value =>
    cases value with
    | inl next => simp [Next, outcome]
    | inr value => simp [Next, outcome]

/-- What every step keeps and leaving turns into a fact about the result. -/
theorem run_invariant (holds : σ → Prop) (good : ρ → Prop)
    (kept : ∀ state next, holds state → Next body state next → holds next)
    (leaves : ∀ state result, holds state → body state = .ok (.inr result) → good result)
    (initially : holds start) (ran : run exhausted body fuel start = .ok result) :
    good result := by
  induction fuel generalizing start with
  | zero => cases ran
  | succ fuel induction =>
    rcases run_succ_eq_ok_iff.mp ran with left | ⟨next, goes, rest⟩
    · exact leaves start result initially left
    · exact induction (kept start next initially goes) rest

end Embassies.Library.Loop
