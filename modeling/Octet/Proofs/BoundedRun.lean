import Octet.Proofs.Reachable

/-!
# Bounded runs

A run repeats steps, and looks at the count of all steps since the last reset before each of them.
What it does is told by the steps that succeed without halting and by what comes behind them. Runs
are the loop that is written down here, and the number of their steps is determined.
-/
namespace Octet

namespace Machine

variable {σ : Type} {machine next last : Machine} {event : Event} {path : List (Event × Machine)}
  {limit : ℕ} {observe : σ → Machine → Event → σ} {observed : σ} {run : Run σ}

/-- Steps that succeed without halting, what each of them did, and the machine behind it. -/
inductive Steps : Machine → List (Event × Machine) → Machine → Prop
  | none (machine : Machine) : Steps machine [] machine
  | more {machine next last : Machine} {event : Event} {path : List (Event × Machine)}
      (step : machine.step = (.ok event, next)) (ne_halted : event ≠ .halted)
      (rest : Steps next path last) : Steps machine ((event, next) :: path) last

/-- The loop of a run. It goes on below the limit, and once more if the machine is about to halt. -/
inductive Loop (limit : ℕ) (observe : σ → Machine → Event → σ) : σ → Machine → Run σ → Prop
  | limit {observed : σ} {machine : Machine} (reached : limit ≤ machine.steps)
      (off : ¬ machine.AtHalt) :
      Loop limit observe observed machine ⟨.error (.stepLimit limit), observed, machine⟩
  | fault {observed : σ} {machine next : Machine} {fault : Fault}
      (go : machine.steps < limit ∨ machine.AtHalt) (step : machine.step = (.error fault, next)) :
      Loop limit observe observed machine ⟨.error (.faulted fault), observed, next⟩
  | halt {observed : σ} {machine next : Machine} (go : machine.steps < limit ∨ machine.AtHalt)
      (step : machine.step = (.ok .halted, next)) :
      Loop limit observe observed machine ⟨.ok (), observe observed next .halted, next⟩
  | more {observed : σ} {machine next : Machine} {event : Event} {run : Run σ}
      (go : machine.steps < limit ∨ machine.AtHalt) (step : machine.step = (.ok event, next))
      (ne_halted : event ≠ .halted)
      (rest : Loop limit observe (observe observed next event) next run) :
      Loop limit observe observed machine run

/-- What an observer has gathered after these steps. -/
def gather (observe : σ → Machine → Event → σ) (observed : σ) (path : List (Event × Machine)) : σ :=
  path.foldl (fun observed entry => observe observed entry.2 entry.1) observed

/-- How a run ends behind its successful steps. -/
inductive Ending (limit : ℕ) (observe : σ → Machine → Event → σ) (observed : σ) (machine : Machine)
    (path : List (Event × Machine)) (last : Machine) : Run σ → Prop
  | halt {final : Machine} (step : last.step = (.ok .halted, final))
      (within : path.length = 0 ∨ machine.steps + path.length ≤ limit) :
      Ending limit observe observed machine path last
        ⟨.ok (), observe (gather observe observed path) final .halted, final⟩
  | fault {final : Machine} {fault : Fault} (step : last.step = (.error fault, final))
      (within : machine.steps + path.length < limit) :
      Ending limit observe observed machine path last
        ⟨.error (.faulted fault), gather observe observed path, final⟩
  | limit (off : ¬ last.AtHalt) (reached : limit ≤ machine.steps + path.length)
      (exactly : path.length = limit - machine.steps) :
      Ending limit observe observed machine path last
        ⟨.error (.stepLimit limit), gather observe observed path, last⟩

/-! ### Single steps -/

lemma running_of_step (h : machine.step = (.ok event, next)) (ne_halted : event ≠ .halted) :
    ¬ machine.AtHalt ∧ next.steps = machine.steps + 1 := by
  have houtcome := machine.outcome
  rw [h] at houtcome
  cases houtcome with
  | halted => exact absurd rfl ne_halted
  | stepped running off => exact ⟨off, rfl⟩

lemma steps_of_halted (h : machine.step = (.ok .halted, next)) :
    machine.AtHalt ∧ next.steps = machine.steps := by
  have houtcome := machine.outcome
  rw [h] at houtcome
  cases houtcome with
  | halted running on => exact ⟨on, rfl⟩
  | stepped running off ne_halted => exact absurd rfl ne_halted

lemma steps_of_fault {fault : Fault} (h : machine.step = (.error fault, next)) :
    next.steps = machine.steps := by
  have houtcome := machine.outcome
  rw [h] at houtcome
  cases houtcome <;> rfl

/-- On the halt marker a machine that is not stuck halts. -/
lemma LatchedOffHalt.step_atHalt (h : machine.LatchedOffHalt) (on : machine.AtHalt) :
    ∃ final, machine.step = (.ok .halted, final) := by
  have houtcome := machine.outcome
  generalize machine.step = result at houtcome ⊢
  cases houtcome with
  | latched faulted => exact absurd on (h faulted)
  | fault running off | stepped running off => exact absurd on off
  | halted => exact ⟨_, rfl⟩

lemma LatchedOffHalt.of_step {result : Except Fault Event} (h : machine.LatchedOffHalt)
    (hstep : machine.step = (result, next)) : next.LatchedOffHalt := by
  have hnext := h.step
  rwa [hstep] at hnext

/-! ### Steps in a row -/

lemma Steps.steps_last (h : Steps machine path last) :
    last.steps = machine.steps + path.length := by
  induction h with
  | none => rfl
  | more step ne_halted rest ih =>
    have hnext := (running_of_step step ne_halted).2
    rw [ih, hnext, List.length_cons]
    omega

/-- The machine behind the `i`-th step has carried out `i` instructions more. -/
lemma Steps.steps_getElem? (h : Steps machine path last) {i : ℕ} {entry : Event × Machine}
    (hentry : path[i]? = some entry) : entry.2.steps = machine.steps + (i + 1) := by
  induction h generalizing i with
  | none => cases hentry
  | more step ne_halted rest ih =>
    have hnext := (running_of_step step ne_halted).2
    cases i with
    | zero =>
      obtain rfl := Option.some.inj hentry
      exact hnext
    | succ i =>
      rw [ih hentry, hnext]
      omega

/-- Of two rows of steps, the longer one goes on where the other ends. -/
lemma Steps.exists_append {path' : List (Event × Machine)} {last' : Machine}
    (h : Steps machine path last) (h' : Steps machine path' last')
    (hle : path.length ≤ path'.length) :
    ∃ rest, path' = path ++ rest ∧ Steps last rest last' := by
  induction h generalizing path' with
  | none => exact ⟨path', rfl, h'⟩
  | more step _ _ ih =>
    cases h' with
    | none => cases hle
    | more step' _ rest' =>
      obtain ⟨heq, rfl⟩ := Prod.mk.inj (step.symm.trans step')
      obtain rfl := Except.ok.inj heq
      obtain ⟨rest, rfl, hrest⟩ := ih rest' (Nat.le_of_succ_le_succ hle)
      exact ⟨rest, rfl, hrest⟩

/-- Where a shorter row of steps ends, a longer one takes a step that succeeds without halting. -/
lemma Steps.goes_on {path' : List (Event × Machine)} {last' : Machine}
    (h : Steps machine path last) (h' : Steps machine path' last')
    (hlt : path.length < path'.length) :
    ∃ event next, last.step = (.ok event, next) ∧ event ≠ .halted := by
  obtain ⟨rest, rfl, hrest⟩ := h.exists_append h' hlt.le
  cases hrest with
  | none => simp at hlt
  | more step ne_halted => exact ⟨_, _, step, ne_halted⟩

/-! ### The loop -/

lemma not_goes_on (reached : limit ≤ machine.steps) (off : ¬ machine.AtHalt) :
    ¬ (machine.steps < limit ∨ machine.AtHalt) := by
  rintro (below | on)
  · omega
  · exact off on

/-- The loop ends in at most one way. -/
lemma Loop.unique {run' : Run σ} (h : Loop limit observe observed machine run)
    (h' : Loop limit observe observed machine run') : run = run' := by
  induction h with
  | limit reached off =>
    cases h' with
    | limit => rfl
    | fault go | halt go | more go => exact absurd go (not_goes_on reached off)
  | fault go step =>
    cases h' with
    | limit reached off => exact absurd go (not_goes_on reached off)
    | fault _ step' | halt _ step' | more _ step' => cases step.symm.trans step' <;> rfl
  | halt go step =>
    cases h' with
    | limit reached off => exact absurd go (not_goes_on reached off)
    | fault _ step' | halt _ step' => cases step.symm.trans step' <;> rfl
    | more _ step' ne_halted =>
      cases step.symm.trans step'
      exact absurd rfl ne_halted
  | more go step ne_halted rest ih =>
    cases h' with
    | limit reached off => exact absurd go (not_goes_on reached off)
    | fault _ step' => cases step.symm.trans step'
    | halt _ step' =>
      cases step.symm.trans step'
      exact absurd rfl ne_halted
    | more _ step' _ rest' =>
      cases step.symm.trans step'
      exact ih rest'

/-- Counting down what remains of the limit ends the loop. -/
lemma loop_runFor (h : machine.LatchedOffHalt) {remaining : ℕ}
    (hremaining : remaining = limit - machine.steps) (observed : σ) :
    Loop limit observe observed machine (runFor limit observe remaining observed machine) := by
  induction remaining generalizing machine observed with
  | zero =>
    have hreached : limit ≤ machine.steps := by omega
    unfold runFor
    by_cases on : machine.AtHalt
    · -- at the limit the loop goes on only to halt, and a latched fault cannot get in the way
      obtain ⟨final, hstep⟩ := h.step_atHalt on
      rw [if_pos on, hstep]
      exact .halt (.inr on) hstep
    · rw [if_neg on]
      exact .limit hreached on
  | succ remaining ih =>
    have hgo : machine.steps < limit := by omega
    unfold runFor
    rcases hstep : machine.step with ⟨fault | event, next⟩
    · exact .fault (.inl hgo) hstep
    · by_cases hevent : event = .halted
      · subst hevent
        exact .halt (.inl hgo) hstep
      · have hnext := (running_of_step hstep hevent).2
        have hrest := ih (h.of_step hstep) (by omega) (observe observed next event)
        cases event with
        | halted => exact absurd rfl hevent
        | stepped | printed => exact .more (.inl hgo) hstep hevent hrest

lemma loop_runWith (h : machine.LatchedOffHalt) (limit : ℕ) (observe : σ → Machine → Event → σ)
    (start : σ) : Loop limit observe start machine (machine.runWith limit observe start) :=
  loop_runFor h rfl start

/-! ### Endings -/

lemma Ending.length_le (h : Ending limit observe observed machine path last run) :
    path.length ≤ limit - machine.steps := by
  cases h <;> omega

lemma Ending.machine_steps (h : Ending limit observe observed machine path last run) :
    run.machine.steps = last.steps := by
  cases h with
  | halt step => exact (steps_of_halted step).2
  | fault step => exact steps_of_fault step
  | limit => rfl

/-- One more step in front. -/
lemma Ending.cons (hstep : machine.step = (.ok event, next)) (ne_halted : event ≠ .halted)
    (hbelow : machine.steps < limit)
    (h : Ending limit observe (observe observed next event) next path last run) :
    Ending limit observe observed machine ((event, next) :: path) last run := by
  have hnext := (running_of_step hstep ne_halted).2
  cases h with
  | halt step within => exact .halt step (by rw [List.length_cons]; omega)
  | fault step within => exact .fault step (by rw [List.length_cons]; omega)
  | limit off reached exactly =>
    exact .limit off (by rw [List.length_cons]; omega) (by rw [List.length_cons]; omega)

theorem Loop.exists_ending (h : Loop limit observe observed machine run)
    (hoff : machine.LatchedOffHalt) :
    ∃ path last, Steps machine path last ∧
      Ending limit observe observed machine path last run := by
  induction h with
  | limit reached off => exact ⟨[], _, .none _, .limit off reached (by simp [reached])⟩
  | fault go step =>
    have hbelow := go.resolve_right fun on => by
      obtain ⟨final, hhalt⟩ := hoff.step_atHalt on
      cases step.symm.trans hhalt
    exact ⟨[], _, .none _, .fault step hbelow⟩
  | halt go step => exact ⟨[], _, .none _, .halt step (.inl rfl)⟩
  | more go step ne_halted rest ih =>
    obtain ⟨path, last, hsteps, hending⟩ := ih (hoff.of_step step)
    have hbelow := go.resolve_right (running_of_step step ne_halted).1
    exact ⟨_, last, .more step ne_halted hsteps, hending.cons step ne_halted hbelow⟩

section Unique

variable {τ : Type} {observe' : τ → Machine → Event → τ} {observed' : τ} {run' : Run τ}
  {path' : List (Event × Machine)} {last' : Machine}

/-- A run that ends behind some steps does not end behind more of them. -/
lemma Ending.length_ge (hsteps : Steps machine path last)
    (hending : Ending limit observe observed machine path last run)
    (hsteps' : Steps machine path' last')
    (hending' : Ending limit observe' observed' machine path' last' run') :
    path'.length ≤ path.length := by
  by_contra hlt
  obtain ⟨event, next, step, ne_halted⟩ := hsteps.goes_on hsteps' (not_le.mp hlt)
  have hlength := hending'.length_le
  cases hending with
  | halt step' =>
    cases step.symm.trans step'
    exact ne_halted rfl
  | fault step' => cases step.symm.trans step'
  | limit off reached exactly => omega

/-- Two runs of a machine with the same limit take the same steps, whoever observes them. -/
theorem Ending.unique (hsteps : Steps machine path last)
    (hending : Ending limit observe observed machine path last run)
    (hsteps' : Steps machine path' last')
    (hending' : Ending limit observe' observed' machine path' last' run') :
    path = path' ∧ last = last' := by
  have hle := hending.length_ge hsteps hsteps' hending'
  have hge := hending'.length_ge hsteps' hsteps hending
  obtain ⟨rest, rfl, hrest⟩ := hsteps.exists_append hsteps' hge
  obtain rfl : rest = [] := by
    rw [List.length_append] at hle
    exact List.length_eq_zero_iff.mp (by omega)
  cases hrest
  exact ⟨(List.append_nil path).symm, rfl⟩

end Unique

/-! ### Printing -/

/-- What an event prints. -/
def printed? : Event → Option Output
  | .printed output => some output
  | _ => none

/-- The observer that gathers what is printed, the last output first. -/
def collect (outputs : List Output) (_ : Machine) (event : Event) : List Output :=
  match event with
  | .printed output => output :: outputs
  | _ => outputs

/-- The gathered outputs are put in order at the end. -/
lemma run_eq (machine : Machine) (limit : ℕ) :
    machine.run limit = { machine.runWith limit collect [] with
      observed := (machine.runWith limit collect []).observed.reverse } := rfl

lemma gather_collect (outputs : List Output) (path : List (Event × Machine)) :
    gather collect outputs path =
      (path.filterMap fun entry => printed? entry.1).reverse ++ outputs := by
  induction path generalizing outputs with
  | nil => rfl
  | cons entry path ih =>
    rw [gather, List.foldl_cons, ← gather, ih]
    rcases entry with ⟨_ | output | _, next⟩ <;> simp [collect, printed?]

/-- What a run has printed is what its steps have printed, one after the other. -/
lemma Ending.printed {run : Run (List Output)}
    (h : Ending limit collect [] machine path last run) :
    run.observed.reverse = path.filterMap fun entry => printed? entry.1 := by
  cases h <;> simp [gather_collect, collect]

/-- The result does not depend on the observer. -/
lemma Ending.result_eq {τ : Type} {observe' : τ → Machine → Event → τ} {observed' : τ}
    {run' : Run τ} (h : Ending limit observe observed machine path last run)
    (h' : Ending limit observe' observed' machine path last run') : run.result = run'.result := by
  cases h with
  | halt step =>
    cases h' with
    | halt => rfl
    | fault step' => cases step.symm.trans step'
    | limit off => exact absurd (steps_of_halted step).1 off
  | fault step within =>
    cases h' with
    | halt step' | fault step' => cases step.symm.trans step' <;> rfl
    | limit off reached => omega
  | limit off reached =>
    cases h' with
    | halt step' => exact absurd (steps_of_halted step').1 off
    | fault step' within => omega
    | limit => rfl

/-- A run whose limit admits all steps up to the halt marker succeeds, and gives what they print. -/
lemma run_of_halt {final : Machine} (hoff : machine.LatchedOffHalt)
    (hsteps : Steps machine path last) (hhalt : last.step = (.ok .halted, final))
    (hlimit : machine.steps + path.length ≤ limit) :
    (machine.run limit).result = .ok () ∧
      (machine.run limit).observed = (path.filterMap fun entry => printed? entry.1) ∧
      (machine.run limit).machine.steps = machine.steps + path.length := by
  obtain ⟨path', last', hsteps', hending'⟩ :=
    (loop_runWith hoff limit collect []).exists_ending hoff
  have hending : Ending limit collect [] machine path last _ := .halt hhalt (.inr hlimit)
  obtain ⟨rfl, rfl⟩ := hending.unique hsteps hsteps' hending'
  rw [run_eq]
  refine ⟨(hending.result_eq hending').symm, hending'.printed, ?_⟩
  rw [← hsteps.steps_last]
  exact hending'.machine_steps

/-! ### The whole run -/

/-- A run is bounded iteration of steps. The loop ends, with the run and with nothing else. There is
one number of steps before the end, all of them are observed in order with the count of their
instruction, and the count never exceeds both the limit and what it was before. -/
theorem runWith_iterates_step (hreachable : machine.Reachable) (limit : ℕ) :
    (∀ (σ : Type) (observe : σ → Machine → Event → σ) (start : σ) (run : Run σ),
      Loop limit observe start machine run ↔ run = machine.runWith limit observe start) ∧
    ∃! k, ∃ path last, path.length = k ∧ Steps machine path last ∧
      (∀ i entry, path[i]? = some entry → entry.2.steps = machine.steps + (i + 1)) ∧
      machine.steps + k ≤ max machine.steps limit ∧
      (∀ (σ : Type) (observe : σ → Machine → Event → σ) (start : σ),
        Ending limit observe start machine path last (machine.runWith limit observe start) ∧
        (machine.runWith limit observe start).machine.steps = machine.steps + k ∧
        (machine.run limit).result = (machine.runWith limit observe start).result) ∧
      (machine.run limit).observed = path.filterMap fun entry => printed? entry.1 := by
  have hoff := hreachable.latchedOffHalt
  refine ⟨fun σ observe start run => ?_, ?_⟩
  · constructor
    · exact fun h => h.unique (loop_runWith hoff limit observe start)
    · rintro rfl
      exact loop_runWith hoff limit observe start
  obtain ⟨path, last, hsteps, hending⟩ :=
    (loop_runWith hoff limit collect []).exists_ending hoff
  have hendings (σ : Type) (observe : σ → Machine → Event → σ) (start : σ) :
      Ending limit observe start machine path last (machine.runWith limit observe start) := by
    obtain ⟨path', last', hsteps', hending'⟩ :=
      (loop_runWith hoff limit observe start).exists_ending hoff
    obtain ⟨rfl, rfl⟩ := hending.unique hsteps hsteps' hending'
    exact hending'
  refine ⟨path.length, ⟨path, last, rfl, hsteps, fun _ _ => hsteps.steps_getElem?, ?_,
    fun σ observe start => ⟨hendings σ observe start, ?_, ?_⟩, ?_⟩, ?_⟩
  · have hle := hending.length_le
    omega
  · rw [(hendings σ observe start).machine_steps, hsteps.steps_last]
  · rw [run_eq]
    exact hending.result_eq (hendings σ observe start)
  · rw [run_eq]
    exact hending.printed
  · rintro k ⟨path', last', rfl, hsteps', -, -, hendings', -⟩
    obtain ⟨rfl, -⟩ := hending.unique hsteps hsteps' (hendings' _ collect []).1
    rfl

/-- Three instructions are carried out, two of which print. An observer hears of each of them with
the count of steps, and then that the machine has halted, with the limit just reached. -/
theorem runWith_iterates_step_sample :
    let machine := (load [15, 0, 7, 0, 15, 1]).2
    let note := fun (calls : List (ℕ × Event)) next event => calls ++ [(next.steps, event)]
    ∃ path last, path.map (fun entry => entry.2.steps) = [1, 2, 3] ∧ Steps machine path last ∧
      Ending 3 note [] machine path last (machine.runWith 3 note []) ∧
      (machine.runWith 3 note []).observed =
        [(1, .printed (.decimal 15)), (2, .stepped), (3, .printed (.decimal 0)), (3, .halted)] ∧
      path.filterMap (fun entry => printed? entry.1) = [.decimal 15, .decimal 0] := by
  intro machine note
  obtain ⟨-, k, ⟨path, last, rfl, hsteps, hcounts, -, hendings, hprinted⟩, -⟩ :=
    @runWith_iterates_step machine (.load [15, 0, 7, 0, 15, 1]) 3
  obtain ⟨hending, hcount, -⟩ := hendings _ note []
  have hcalls : (machine.runWith 3 note []).observed = [(1, .printed (.decimal 15)), (2, .stepped),
      (3, .printed (.decimal 0)), (3, .halted)] := by decide +kernel
  have hoffset : machine.steps = 0 := by decide +kernel
  have hthree : (machine.runWith 3 note []).machine.steps = 3 := by decide +kernel
  have hlength := hthree.symm.trans hcount
  rw [hoffset, Nat.zero_add] at hlength
  refine ⟨path, last, ?_, hsteps, hending, hcalls, ?_⟩
  · apply List.ext_getElem (by simp [← hlength])
    intro i hi _
    rw [List.length_map] at hi
    rw [List.getElem_map, hcounts i _ (List.getElem?_eq_getElem hi), hoffset]
    have hlt : i < 3 := by omega
    interval_cases i <;> rfl
  · rw [← hprinted]
    decide +kernel

end Machine

end Octet
