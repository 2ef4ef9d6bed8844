import Octet.Proofs.Stepping

/-!
# Reachable machines

What can come of a new machine by loading, stepping, running and resetting. A run is steps in a row,
so whatever one step keeps up holds of all of them. A fault found off the halt marker leaves the
machine there, which is why no machine that comes up is stuck with a fault on the halt marker.
-/
namespace Octet

namespace Machine

/-- Machines that come of a new one by any sequence of operations. -/
inductive Reachable : Machine → Prop
  | initial : Reachable .initial
  | reset {machine : Machine} (h : Reachable machine) : Reachable machine.reset
  | reload {machine : Machine} (h : Reachable machine) (image : List UInt8) :
      Reachable (machine.reload image).2
  | step {machine : Machine} (h : Reachable machine) : Reachable machine.step.2
  | runWith {machine : Machine} (h : Reachable machine) {σ : Type} (limit : ℕ)
      (observe : σ → Machine → Event → σ) (start : σ) :
      Reachable (machine.runWith limit observe start).machine
  | run {machine : Machine} (h : Reachable machine) (limit : ℕ) :
      Reachable (machine.run limit).machine

variable {P : Machine → Prop} {machine : Machine}

lemma of_step_eq (hstep : ∀ machine, P machine → P machine.step.2) {next : Machine}
    {result : Except Fault Event} (heq : machine.step = (result, next)) (h : P machine) :
    P next := by
  have hnext := hstep machine h
  rwa [heq] at hnext

section Run

variable {σ : Type} {limit : ℕ} {observe : σ → Machine → Event → σ}

/-- What a run ends with is told from its last step, and from the steps before that by going back
one at a time. The last step may fail, or be followed by none. -/
lemma runFor_induction {Q : σ → Machine → Run σ → Prop}
    (hlimit : ∀ observed machine, Q observed machine ⟨.error (.stepLimit limit), observed, machine⟩)
    (hfault : ∀ observed machine fault next, machine.step = (.error fault, next) →
      Q observed machine ⟨.error (.faulted fault), observed, next⟩)
    (hlast : ∀ observed machine event next, machine.step = (.ok event, next) →
      Q observed machine ⟨.ok (), observe observed next event, next⟩)
    (hmore : ∀ observed machine event next run, machine.step = (.ok event, next) →
      Q (observe observed next event) next run → Q observed machine run)
    (remaining : ℕ) (observed : σ) (machine : Machine) :
    Q observed machine (runFor limit observe remaining observed machine) := by
  induction remaining generalizing observed machine with
  | zero =>
    unfold runFor
    by_cases on : machine.AtHalt
    · rw [if_pos on]
      rcases hresult : machine.step with ⟨fault | event, next⟩
      · exact hfault observed machine fault next hresult
      · exact hlast observed machine event next hresult
    · rw [if_neg on]
      exact hlimit observed machine
  | succ remaining ih =>
    unfold runFor
    rcases hresult : machine.step with ⟨fault | _ | output | _, next⟩
    · exact hfault observed machine fault next hresult
    · exact hmore observed machine _ next _ hresult (ih _ next)
    · exact hmore observed machine _ next _ hresult (ih _ next)
    · exact hlast observed machine _ next hresult

/-- A run keeps up what a step keeps up. -/
lemma runFor_invariant (hstep : ∀ machine, P machine → P machine.step.2) (remaining : ℕ)
    (observed : σ) (h : P machine) :
    P (runFor limit observe remaining observed machine).machine := by
  revert h
  apply runFor_induction (Q := fun _ machine run => P machine → P run.machine)
  · exact fun _ _ h => h
  · exact fun _ _ _ _ heq h => of_step_eq hstep heq h
  · exact fun _ _ _ _ heq h => of_step_eq hstep heq h
  · exact fun _ _ _ _ _ heq ih h => ih (of_step_eq hstep heq h)

end Run

lemma Reachable.load (image : List UInt8) : Reachable (load image).2 := .reload .initial image

/-- Resets and images need no care beyond the new machine, since nothing outlasts them. -/
theorem Reachable.invariant (h : Reachable machine) (hinitial : P .initial)
    (hload : ∀ image, P (Machine.load image).2) (hstep : ∀ machine, P machine → P machine.step.2) :
    P machine := by
  induction h with
  | initial => exact hinitial
  | reset => exact hinitial
  | reload _ image => exact hload image
  | step _ ih => exact hstep _ ih
  | runWith _ limit observe start ih => exact runFor_invariant hstep _ start ih
  | run _ limit ih => exact runFor_invariant hstep _ [] ih

/-- Whether an image fits or not, the processor is new. -/
lemma cpu_load (image : List UInt8) : (load image).2.cpu = .initial := by
  unfold load reload
  split <;> rfl

lemma steps_load (image : List UInt8) : (load image).2.steps = 0 := by
  unfold load reload
  split <;> rfl

/-- A latched fault has not happened on the halt marker. -/
def LatchedOffHalt (machine : Machine) : Prop := machine.cpu.faulted = true → ¬ machine.AtHalt

lemma LatchedOffHalt.step (h : machine.LatchedOffHalt) : machine.step.2.LatchedOffHalt := by
  have houtcome := machine.outcome
  generalize machine.step = result at houtcome ⊢
  cases houtcome with
  | latched => exact h
  | fault running off kind cells =>
    intro _ on
    unfold AtHalt at off on
    rw [← cells] at off
    exact off on
  | halted running =>
    intro hfaulted
    cases running.symm.trans hfaulted
  | stepped running off ne_halted still =>
    intro hfaulted
    cases still.symm.trans hfaulted

theorem Reachable.latchedOffHalt (h : Reachable machine) : machine.LatchedOffHalt := by
  refine h.invariant ?_ ?_ fun _ h => h.step
  · nofun
  · intro image hfaulted
    rw [cpu_load] at hfaulted
    cases hfaulted

end Machine

end Octet
