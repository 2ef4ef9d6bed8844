import Octet.Proofs.Footprint

/-!
# Comparisons and jumps

A comparison leaves in the flags how the two numbers lie to each other, without regard to a sign.
Copies, jumps and prints keep the flags, and so the next conditional jump is decided by the numbers
that were compared, however many of these instructions come between.
-/
namespace Octet

/-- What a jump asks of the two sides of the last comparison. -/
def Condition.Compares (x y : ℕ) : Condition → Prop
  | .always => True
  | .carry => x < y
  | .noCarry => y ≤ x
  | .zero => x = y
  | .notZero => x ≠ y

instance (x y : ℕ) (condition : Condition) : Decidable (condition.Compares x y) := by
  cases condition <;> unfold Condition.Compares <;> infer_instance

lemma Condition.holds_iff_compares {x y : ℕ} (condition : Condition) :
    condition.holds (x = y) (x < y) = true ↔ condition.Compares x y := by
  cases condition <;> simp [holds, Compares]

namespace State

/-- What a comparison of `x` with an amount leaves. -/
def compared (state : State) (x : ℕ) (amount : Value) : State :=
  { state with
    ip := state.ip + 3
    zero := x = (amount.byte state).toNat
    carry := x < (amount.byte state).toNat }

/-- What a jump leaves that is decided by two numbers. -/
def jumped (state : State) (condition : Condition) (target : UInt8) (x y : ℕ) : State :=
  { state with ip := if condition.Compares x y then target.toNat else state.ip + 2 }

variable {state here last : State} {number target : UInt8} {amount : Value} {condition : Condition}
  {x y : ℕ} {path : List State}

/-- Every register holds a byte. -/
lemma register?_lt (hsp : state.sp ≤ 231) (h : state.register? number = some x) : x < 256 := by
  unfold register? at h
  split_ifs at h with hgeneral
  · have hbyte := (state.general ⟨number.toNat, hgeneral⟩).toNat_lt
    simp at h
    omega
  · simp at h
    omega

/-- A comparison sets the flags and goes on. -/
lemma goes_compare (hfetched : state.Fetches (.compare number amount)) (hsp : state.sp ≤ 231)
    (hheld : state.register? number = some x) :
    state.Goes (.compare number amount) (state.compared x amount) := by
  -- a difference of two bytes leaves their range only downwards
  have hlt := register?_lt hsp hheld
  have hzero : (x : ℤ) - (amount.byte state).toNat = 0 ↔ x = (amount.byte state).toNat := by omega
  refine ⟨hfetched, ?_⟩
  simp [Instruction.meaning, hheld, setFlags, goto, hzero, Instruction.width, compared]
  omega

/-- A row of copies, jumps and prints keeps the flags. -/
theorem flags_of_chain (h : Chain Moves state path last)
    (hkeeps : ∀ visited ∈ path, ∃ instruction, visited.Fetches instruction ∧
      instruction.KeepsFlags) : last.zero = state.zero ∧ last.carry = state.carry := by
  induction h with
  | none => exact ⟨rfl, rfl⟩
  | more step _ ih =>
    obtain ⟨hhere, hrest⟩ := List.forall_mem_cons.mp hkeeps
    obtain ⟨hzero, hcarry⟩ := ih hrest
    rw [hzero, hcarry]
    cases step with
    | stays => exact ⟨rfl, rfl⟩
    | goes hgoes =>
      -- what is carried out is what was fetched
      obtain ⟨instruction, hfetched, hkept⟩ := hhere
      obtain rfl := Option.some.inj (hfetched.found.symm.trans hgoes.found)
      exact (Instruction.frame_of_meaning hgoes.meaning).flags hkept

/-- A jump is decided by the numbers of the last comparison. -/
theorem goes_jump (hchain : Chain Moves (state.compared x amount) path here)
    (hkeeps : ∀ visited ∈ path, ∃ instruction, visited.Fetches instruction ∧
      instruction.KeepsFlags) (hfetched : here.Fetches (.jump condition target)) :
    here.Goes (.jump condition target)
      (here.jumped condition target x (amount.byte state).toNat) := by
  obtain ⟨hzero, hcarry⟩ := flags_of_chain hchain hkeeps
  have hholds : condition.holds here.zero here.carry = true ↔
      condition.Compares x (amount.byte state).toNat := by
    rw [hzero, hcarry]
    exact condition.holds_iff_compares
  refine ⟨hfetched, ?_⟩
  simp only [Instruction.meaning, hholds]
  rfl

end State

/-- A comparison followed by a conditional jump is a comparison of numbers without sign. If a
register holds `x` and the other operand is `y`, the comparison succeeds and changes nothing but the
flags. Behind it any copies, prints and jumps may come. A jump on carry is then taken exactly if `x`
is less than `y`, one without carry if it is not, one on zero if they are equal and one on not zero
if they differ, and a jump that is not taken goes on with the next instruction. All this holds of
the processor and of the step in place. -/
theorem comparison_decides_jump :
    (∀ (cpu : Cpu) (memory : Memory) (number : UInt8) (amount : Value) (x : ℕ),
      let before := State.of cpu memory
      cpu.faulted = false → before.Fetches (.compare number amount) →
        before.register? number = some x → ∃ compared : Cpu × Memory,
          cpu.step memory = (.ok (some (.compare number amount)), compared) ∧
          State.of compared.1 compared.2 = before.compared x amount ∧
          ∀ (here : Cpu × Memory) (path : List (Cpu × Memory)),
            Chain Cpu.Succeeds compared path here →
            (∀ visited ∈ path, ∃ instruction,
              (State.of visited.1 visited.2).Fetches instruction ∧ instruction.KeepsFlags) →
            ∀ condition target, (State.of here.1 here.2).Fetches (.jump condition target) →
              ∃ next : Cpu × Memory,
                here.1.step here.2 = (.ok (some (.jump condition target)), next) ∧
                State.of next.1 next.2 = (State.of here.1 here.2).jumped condition target x
                  (amount.byte before).toNat) ∧
    (∀ (hardware : Hardware) (number : UInt8) (amount : Value) (x : ℕ), hardware.InRange →
      hardware.faulted = false → hardware.state.Fetches (.compare number amount) →
        hardware.state.register? number = some x → ∃ compared : Hardware,
          hardware.step = (.ok true, compared) ∧
          compared.state = hardware.state.compared x amount ∧
          ∀ (here : Hardware) (path : List Hardware), Chain Hardware.Succeeds compared path here →
            (∀ visited ∈ path, ∃ instruction,
              visited.state.Fetches instruction ∧ instruction.KeepsFlags) →
            ∀ condition target, here.state.Fetches (.jump condition target) →
              ∃ next : Hardware, here.step = (.ok true, next) ∧
                next.state = here.state.jumped condition target x
                  (amount.byte hardware.state).toNat) := by
  constructor
  · intro cpu memory number amount x before hrunning hfetched hheld
    have hsp : before.sp ≤ 231 := Nat.le_of_lt_succ cpu.sp.isLt
    have hgoes := State.goes_compare hfetched hsp hheld
    obtain ⟨cpu', memory', hstep, hcompared, hstill⟩ := Cpu.step_of_goes hrunning hgoes
    refine ⟨(cpu', memory'), hstep, hcompared, ?_⟩
    intro here path hchain hkeeps condition target hjump
    have hmoves := Cpu.chain_moves hchain
    rw [hcompared] at hmoves
    have hjumps := State.goes_jump hmoves (List.forall_mem_map.mpr hkeeps) hjump
    have hlast : here.1.faulted = false :=
      hchain.keeps (P := fun state => state.1.faulted = false)
        (fun _ _ _ hstep => hstep.running) hstill
    obtain ⟨next, left, hnext, hseen, -⟩ := Cpu.step_of_goes hlast hjumps
    exact ⟨(next, left), hnext, hseen⟩
  · intro hardware number amount x hrange hrunning hfetched hheld
    have hgoes := State.goes_compare hfetched hrange.sp hheld
    obtain ⟨compared, hstep, hcompared, hstill⟩ := hardware.step_of_goes hrange hrunning hgoes
    refine ⟨compared, hstep, hcompared, ?_⟩
    intro here path hchain hkeeps condition target hjump
    obtain ⟨hvisited, hmoves⟩ := Hardware.chain_moves hchain hstill.1
    rw [hcompared] at hmoves
    have hjumps := State.goes_jump hmoves (List.forall_mem_map.mpr hkeeps) hjump
    have hlast : here.InRange ∧ here.faulted = false :=
      hchain.keeps (P := fun state => state.InRange ∧ state.faulted = false)
        (fun _ _ h hstep => ⟨(hstep.moves h.1).1, hstep.running h.1⟩) hstill
    obtain ⟨next, hnext, hseen, -⟩ := here.step_of_goes hlast.1 hlast.2 hjumps
    exact ⟨next, hnext, hseen⟩

/-- Register 0 holds 0, which is less than 5, and a copy in between does not matter. -/
theorem comparison_decides_jump_sample :
    let machine := (Machine.load [10, 0, 5, 2, 100, 1, 12, 20]).2
    let compared := (machine.cpu.step machine.memory).2
    let here := (compared.1.step compared.2).2
    Chain Cpu.Succeeds compared [compared] here ∧ (here.1.step here.2).2.1.ip.val = 20 := by
  intro machine compared here
  have hrunning : machine.cpu.faulted = false := by decide +kernel
  have hfetched : (State.of machine.cpu machine.memory).Fetches (.compare 0 (.literal 5)) :=
    ⟨by decide +kernel, by decide +kernel⟩
  have hheld : (State.of machine.cpu machine.memory).register? 0 = some 0 := by decide +kernel
  have hcopied : (State.of compared.1 compared.2).Fetches (.copy 100 (.literal 1)) :=
    ⟨by decide +kernel, by decide +kernel⟩
  have hcopy : (compared.1.step compared.2).1 = .ok (some (.copy 100 (.literal 1))) := by
    decide +kernel
  have hjump : (State.of here.1 here.2).Fetches (.jump .carry 20) :=
    ⟨by decide +kernel, by decide +kernel⟩
  have hchain : Chain Cpu.Succeeds compared [compared] here :=
    .more (@Cpu.succeeds_of_ok compared _ hcopy) (.none here)
  obtain ⟨left, hstep, -, hdecides⟩ :=
    comparison_decides_jump.1 machine.cpu machine.memory 0 (.literal 5) 0 hrunning hfetched hheld
  have hleft : compared = left := congrArg Prod.snd hstep
  rw [← hleft] at hdecides
  obtain ⟨next, hnext, hseen⟩ :=
    hdecides here [compared] hchain (by simpa using ⟨_, hcopied, trivial⟩) .carry 20 hjump
  have hip : (State.of next.1 next.2).ip = 20 := by
    rw [hseen]
    rfl
  rw [hnext]
  exact ⟨hchain, hip⟩

end Octet
