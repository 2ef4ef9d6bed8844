import Octet.Proofs.BoundedRun

/-!
# Runs taken up again

A run that has ended by itself would have ended in the same way with any higher limit. A run that
has come to its limit can be taken up again with a higher one, and then goes on as if it had never
been stopped: the count of steps is that of the whole run, and nothing was looked at on the way that
the machine does not keep.
-/
namespace Octet

namespace Machine

/-- The observer that keeps every call, in order. -/
def record (calls : List (Event × Machine)) (machine : Machine) (event : Event) :
    List (Event × Machine) := calls ++ [(event, machine)]

/-- A run with all calls of its observer. -/
def recorded (machine : Machine) (limit : ℕ) : Run (List (Event × Machine)) :=
  machine.runWith limit record []

variable {σ τ : Type} {machine : Machine} {limit n m : ℕ} {observe : σ → Machine → Event → σ}
  {observed : σ} {run : Run σ}

@[simp] lemma gather_nil (observe : σ → Machine → Event → σ) (observed : σ) :
    gather observe observed [] = observed := rfl

@[simp] lemma gather_record (observe : σ → Machine → Event → σ) (observed : σ)
    (calls : List (Event × Machine)) (machine : Machine) (event : Event) :
    gather observe observed (record calls machine event) =
      observe (gather observe observed calls) machine event := by
  simp [gather, record]

/-! ### Observers -/

/-- Observers that keep in step see the same run. -/
lemma Loop.map {observe' : τ → Machine → Event → τ} {f : σ → τ}
    (hf : ∀ observed machine event, f (observe observed machine event) =
      observe' (f observed) machine event)
    (h : Loop limit observe observed machine run) :
    Loop limit observe' (f observed) machine ⟨run.result, f run.observed, run.machine⟩ := by
  induction h with
  | limit reached off => exact .limit reached off
  | fault go step => exact .fault go step
  | halt go step =>
    rw [hf]
    exact .halt go step
  | more go step ne_halted _ ih =>
    rw [hf] at ih
    exact .more go step ne_halted ih

lemma LatchedOffHalt.runWith_map (h : machine.LatchedOffHalt)
    {observe' : τ → Machine → Event → τ} {f : σ → τ}
    (hf : ∀ observed machine event, f (observe observed machine event) =
      observe' (f observed) machine event) (limit : ℕ) (start : σ) :
    machine.runWith limit observe' (f start) =
      let run := machine.runWith limit observe start
      ⟨run.result, f run.observed, run.machine⟩ :=
  (loop_runWith h limit observe' (f start)).unique ((loop_runWith h limit observe start).map hf)

/-- Whatever an observer gathers is gathered from the calls, and it has no part in anything else. -/
theorem LatchedOffHalt.runWith_eq (h : machine.LatchedOffHalt) (limit : ℕ)
    (observe : σ → Machine → Event → σ) (start : σ) :
    machine.runWith limit observe start =
      let run := machine.recorded limit
      ⟨run.result, gather observe start run.observed, run.machine⟩ :=
  h.runWith_map (f := gather observe start) (fun calls _ _ => gather_record observe start calls _ _)
    limit []

/-- Calls that were made before stay in front. -/
lemma LatchedOffHalt.runWith_record (h : machine.LatchedOffHalt) (limit : ℕ)
    (calls : List (Event × Machine)) :
    machine.runWith limit record calls =
      let run := machine.recorded limit
      ⟨run.result, calls ++ run.observed, run.machine⟩ := by
  have hfront (later : List (Event × Machine)) (machine : Machine) (event : Event) :
      calls ++ record later machine event = record (calls ++ later) machine event := by
    simp [record]
  simpa [recorded] using h.runWith_map (f := (calls ++ ·)) hfront limit []

/-! ### Higher limits -/

lemma goes_on (hle : n ≤ m) (go : machine.steps < n ∨ machine.AtHalt) :
    machine.steps < m ∨ machine.AtHalt := go.imp_left fun below => by omega

/-- A loop that has ended before its limit does not notice a higher one. -/
lemma Loop.raise (hle : n ≤ m) (h : Loop n observe observed machine run)
    (hended : run.result ≠ .error (.stepLimit n)) : Loop m observe observed machine run := by
  induction h with
  | limit => exact absurd rfl hended
  | fault go step => exact .fault (goes_on hle go) step
  | halt go step => exact .halt (goes_on hle go) step
  | more go step ne_halted _ ih => exact .more (goes_on hle go) step ne_halted (ih hended)

/-- A loop that has come to its limit is the first part of any loop with a higher limit. -/
lemma Loop.resume (hle : n ≤ m) (h : Loop n observe observed machine run)
    (hlimit : run.result = .error (.stepLimit n)) {rest : Run σ}
    (hrest : Loop m observe run.observed run.machine rest) :
    Loop m observe observed machine rest := by
  induction h with
  | limit => exact hrest
  | fault => simp at hlimit
  | halt => simp at hlimit
  | more go step ne_halted _ ih => exact .more (goes_on hle go) step ne_halted (ih hlimit hrest)

/-- Raising the limit only continues a run. A run that has not come to its limit is the same with a
higher one: its result, the calls of its observer, and the machine it leaves. After a run that has
come to its limit, a run of what it has left with a higher limit ends like a run with that limit
from the beginning, and the calls of the two parts in a row are those of the whole. This is so for
every observer, since what one gathers is gathered from the calls. -/
theorem raised_limit_continues (hreachable : machine.Reachable) (hle : n ≤ m) :
    (∀ (σ : Type) (observe : σ → Machine → Event → σ) (start : σ) (limit : ℕ),
      machine.runWith limit observe start =
        let run := machine.recorded limit
        ⟨run.result, gather observe start run.observed, run.machine⟩) ∧
    ((machine.recorded n).result ≠ .error (.stepLimit n) →
      machine.recorded m = machine.recorded n ∧
      ∀ (σ : Type) (observe : σ → Machine → Event → σ) (start : σ),
        machine.runWith m observe start = machine.runWith n observe start) ∧
    ((machine.recorded n).result = .error (.stepLimit n) →
      let first := machine.recorded n
      let rest := first.machine.recorded m
      let whole := machine.recorded m
      rest.result = whole.result ∧ rest.machine = whole.machine ∧
      first.observed ++ rest.observed = whole.observed ∧
      ∀ (σ : Type) (observe : σ → Machine → Event → σ) (start : σ),
        let first := machine.runWith n observe start
        first.machine.runWith m observe first.observed = machine.runWith m observe start) := by
  have hoff := hreachable.latchedOffHalt
  have hview (σ : Type) (observe : σ → Machine → Event → σ) (start : σ) (limit : ℕ) :=
    hoff.runWith_eq limit observe start
  refine ⟨hview, fun hended => ?_, fun hlimit => ?_⟩
  · have hraised (σ : Type) (observe : σ → Machine → Event → σ) (start : σ) :
        machine.runWith m observe start = machine.runWith n observe start := by
      have hsame : (machine.runWith n observe start).result ≠ .error (.stepLimit n) := by
        rw [hview]
        exact hended
      have hloop := (loop_runWith hoff n observe start).raise hle hsame
      exact (loop_runWith hoff m observe start).unique hloop
    exact ⟨hraised _ record [], hraised⟩
  · have hresumed (σ : Type) (observe : σ → Machine → Event → σ) (start : σ) :
        let first := machine.runWith n observe start
        first.machine.runWith m observe first.observed = machine.runWith m observe start := by
      intro first
      have hsame : first.result = .error (.stepLimit n) := by
        rw [show first = _ from hview σ observe start n]
        exact hlimit
      have hleft : first.machine.LatchedOffHalt :=
        (hreachable.runWith n observe start).latchedOffHalt
      have hrest := loop_runWith hleft m observe first.observed
      have hloop := (loop_runWith hoff n observe start).resume hle hsame hrest
      exact hloop.unique (loop_runWith hoff m observe start)
    intro first rest whole
    have hleft : first.machine.LatchedOffHalt :=
      (hreachable.runWith n record []).latchedOffHalt
    have hwhole := (hleft.runWith_record m first.observed).symm.trans (hresumed _ record [])
    obtain ⟨hresult, hcalls, hmachine⟩ := Run.mk.inj hwhole
    exact ⟨hresult, hmachine, hcalls, hresumed⟩

/-- A program that prints and then starts again comes to its limit with its first print, and the
second one follows when the run is taken up again. A program that halts with its first print is
through by then. -/
theorem raised_limit_continues_sample :
    let looping := (load [15, 0, 11, 0]).2
    let first := looping.recorded 1
    first.result = .error (.stepLimit 1) ∧
      (first.machine.recorded 3).machine = (looping.recorded 3).machine ∧
      first.observed ++ (first.machine.recorded 3).observed = (looping.recorded 3).observed ∧
      ((looping.recorded 3).observed.map Prod.fst) =
        [.printed (.decimal 15), .stepped, .printed (.decimal 15)] ∧
      (load [15, 0]).2.recorded 7 = (load [15, 0]).2.recorded 1 := by
  intro looping first
  have hlimit : first.result = .error (.stepLimit 1) := by decide +kernel
  have hended : ((load [15, 0]).2.recorded 1).result ≠ .error (.stepLimit 1) := by decide +kernel
  obtain ⟨-, hmachine, hcalls, -⟩ :=
    (raised_limit_continues (.load [15, 0, 11, 0]) (by decide : 1 ≤ 3)).2.2 hlimit
  obtain ⟨hsame, -⟩ := (raised_limit_continues (.load [15, 0]) (by decide : 1 ≤ 7)).2.1 hended
  exact ⟨hlimit, hmachine, hcalls, by decide +kernel, hsame⟩

end Machine

end Octet
