import Mathlib.Logic.Basic

/-!
# Computations that may halt

A computation in `Except` either returns or halts with a reason.  The rules
below peel a sequence of such computations apart and lift a fact about one
step to a whole loop: an invariant kept by every step holds at the end.  What a
computation needs to return and what it gives then is said at once, and found
from its parts.
-/

namespace Embassies.Library.Checked

open List

universe u v w

variable {ε : Type u} {α β : Type v}

/-- Continue when `condition` holds and halt with `reason` otherwise. -/
def ensure (condition : Prop) [Decidable condition] (reason : ε) :
    Except ε PUnit :=
  if condition then .ok ⟨⟩ else .error reason

@[simp]
theorem ok_bind (value : α) (next : α → Except ε β) : (Except.ok value >>= next) = next value := rfl

@[simp]
theorem error_bind (reason : ε) (next : α → Except ε β) :
    ((Except.error reason : Except ε α) >>= next) = .error reason := rfl

@[simp]
theorem pure_eq_ok (value : α) : (pure value : Except ε α) = .ok value := rfl

theorem bind_eq_ok_iff {first : Except ε α} {next : α → Except ε β} {result : β} :
    (first >>= next) = .ok result ↔ ∃ value, first = .ok value ∧ next value = .ok result := by
  cases first with
  | error reason => simp
  | ok value => simp

theorem of_bind {first : Except ε α} {next : α → Except ε β} {result : β}
    (returned : (first >>= next) = .ok result) :
    ∃ value, first = .ok value ∧ next value = .ok result :=
  bind_eq_ok_iff.mp returned

variable {reason : ε}

theorem bind_eq_error_iff {first : Except ε α} {next : α → Except ε β} :
    (first >>= next) = .error reason ↔ first = .error reason ∨
        ∃ value, first = .ok value ∧ next value = .error reason := by
  cases first with
  | error reason => simp
  | ok value => simp

variable {condition : Prop}

@[simp]
theorem ensure_eq_ok_iff [Decidable condition] {outcome : PUnit} :
    ensure condition reason = .ok outcome ↔ condition := by
  unfold ensure
  split <;> simp_all

@[simp]
theorem ensure_eq_error_iff [Decidable condition] {result : ε} :
    ensure condition reason = .error result ↔ ¬ condition ∧ reason = result := by
  unfold ensure
  split <;> simp_all

@[simp]
theorem ensure_true [Decidable condition] (holds : condition) :
    ensure condition reason = .ok PUnit.unit :=
  if_pos holds

/-! Whether a computation returns is found by running it. -/

instance decidableOk {outcome : Except ε α} : Decidable (∃ value, outcome = .ok value) :=
  decidable_of_iff (outcome.isOk = true) (by cases outcome <;> simp [Except.isOk, Except.toBool])

instance decidableOkAnd {outcome : Except ε α} {p : α → Prop} [DecidablePred p] :
    Decidable (∃ value, outcome = .ok value ∧ p value) :=
  decidable_of_iff (outcome.toOption.any p = true) (by cases outcome <;> simp [Except.toOption])

/-- A map that returns has a result for each of its inputs. -/
theorem mapM_eq_ok {step : α → Except ε β} {inputs : List α} {results : List β}
    (mapped : inputs.mapM step = .ok results) :
    results.length = inputs.length ∧
      ∀ input ∈ inputs, ∃ result ∈ results, step input = .ok result := by
  induction inputs generalizing results with
  | nil =>
    cases mapped
    exact ⟨rfl, fun _ member => absurd member not_mem_nil⟩
  | cons input inputs induction =>
    rw [mapM_cons] at mapped
    obtain ⟨first, stepped, rest⟩ := of_bind mapped
    obtain ⟨others, mappedOthers, same⟩ := of_bind rest
    cases same
    obtain ⟨length, results⟩ := induction mappedOthers
    refine ⟨by rw [length_cons, length, length_cons], ?_⟩
    intro other member
    rcases mem_cons.mp member with rfl | later
    · exact ⟨first, mem_cons_self, stepped⟩
    · obtain ⟨result, resultIn, steppedOther⟩ := results other later
      exact ⟨result, mem_cons_of_mem _ resultIn, steppedOther⟩

section Loops

variable {σ ι : Type v} {step : σ → ι → Except ε σ}

variable {inputs : List ι} {start : σ}

/-- A loop over the images of the states ends in the image of the last state. -/
theorem foldlM_image {τ : Type v} {other : τ → ι → Except ε τ} {image : σ → τ} {finish : σ}
    (steps : ∀ state input next, step state input = .ok next →
      other (image state) input = .ok (image next))
    (run : inputs.foldlM step start = .ok finish) :
    inputs.foldlM other (image start) = .ok (image finish) := by
  induction inputs generalizing start with
  | nil =>
    cases run
    rfl
  | cons input inputs induction =>
    rw [foldlM_cons] at run ⊢
    obtain ⟨next, stepped, rest⟩ := of_bind run
    rw [steps start input next stepped, ok_bind]
    exact induction rest

section Invariant

variable {holds : σ → Prop} {finish : σ} (kept : ∀ state input next, input ∈ inputs → holds state →
    step state input = .ok next → holds next)
  (initially : holds start) (run : inputs.foldlM step start = .ok finish)

include kept initially run

/-- A property kept by every step of a loop is kept by the loop. -/
theorem foldlM_invariant : holds finish := by
  induction inputs generalizing start with
  | nil =>
    cases run
    exact initially
  | cons input inputs induction =>
    obtain ⟨next, first, rest⟩ := of_bind run
    refine induction ?_ ?_ rest
    · intro state later following member
      exact kept state later following (mem_cons_of_mem _ member)
    · exact kept start input next mem_cons_self initially first

/-- A loop that returns has made the step of each of its inputs. -/
theorem foldlM_visits :
    ∀ input ∈ inputs, ∃ state next, holds state ∧ step state input = .ok next := by
  intro input member
  obtain ⟨earlier, later, rfl⟩ := append_of_mem member
  rw [foldlM_append] at run
  obtain ⟨state, reached, rest⟩ := of_bind run
  obtain ⟨next, stepped, -⟩ := of_bind rest
  refine ⟨state, next, foldlM_invariant ?_ initially reached, stepped⟩
  intro state other next inside
  exact kept state other next (mem_append_left _ inside)

end Invariant

end Loops

/-! ## What a computation needs and gives -/

/-- A computation returns exactly when `needs` holds, and what it returns has the property
`gives`. -/
def Exactly (outcome : Except ε α) (needs : Prop) (gives : α → Prop) : Prop :=
  match outcome with
  | .ok value => needs ∧ gives value
  | .error _ => ¬needs

namespace Exactly

variable {outcome : Except ε α} {needs more : Prop} {middle : α → Prop} {gives : β → Prop}

theorem of_returned {value : α} (spec : Exactly outcome needs middle)
    (returned : outcome = .ok value) : needs ∧ middle value := by
  rw [returned] at spec
  exact spec

theorem succeeds_iff (spec : Exactly outcome needs middle) :
    (∃ value, outcome = .ok value) ↔ needs := by
  cases outcome with
  | ok value => exact iff_of_true ⟨value, rfl⟩ spec.1
  | error reason => exact iff_of_false nofun spec

theorem congr (spec : Exactly outcome needs middle) (same : needs ↔ more) :
    Exactly outcome more middle := by
  cases outcome with
  | ok value => exact ⟨same.mp spec.1, spec.2⟩
  | error reason => exact mt same.mpr spec

theorem weaken {weaker : α → Prop} (spec : Exactly outcome needs middle)
    (implies : ∀ value, middle value → weaker value) : Exactly outcome needs weaker := by
  cases outcome with
  | ok value => exact ⟨spec.1, implies value spec.2⟩
  | error reason => exact spec

theorem bind {next : α → Except ε β} (first : Exactly outcome needs middle)
    (rest : ∀ value, middle value → Exactly (next value) more gives) :
    Exactly (outcome >>= next) (needs ∧ more) gives := by
  cases outcome with
  | error reason => exact fun both => first both.1
  | ok value => exact (rest value first.2).congr (and_iff_right first.1).symm

theorem bindWith {next : α → Except ε β} {more : α → Prop}
    (rest : ∀ value, outcome = .ok value → Exactly (next value) (more value) gives) :
    Exactly (outcome >>= next) (∃ value, outcome = .ok value ∧ more value) gives := by
  cases outcome with
  | error reason => simp [Exactly]
  | ok value => exact (rest value rfl).congr (by simp)

theorem ensure {condition : Prop} [Decidable condition] {reason : ε} {next : Except ε β}
    (rest : condition → Exactly next more gives) :
    Exactly (Checked.ensure condition reason >>= fun _ => next) (condition ∧ more) gives := by
  by_cases holds : condition
  · rw [ensure_true holds, ok_bind]
    exact (rest holds).congr (and_iff_right holds).symm
  · rw [Checked.ensure, if_neg holds, error_bind]
    exact fun both => holds both.1

theorem guard {condition : Prop} [Decidable condition] {reason : ε} {next : Except ε β}
    (rest : condition → Exactly next True gives) :
    Exactly (Checked.ensure condition reason >>= fun _ => next) condition gives :=
  (ensure rest).congr (iff_of_eq (and_true _))

end Exactly

end Embassies.Library.Checked
