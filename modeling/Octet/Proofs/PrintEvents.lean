import Octet.Proofs.PrintedText

/-!
# Print events

What a step tells that it has printed. The machine reads this back from above the stack pointer, to
where the processor has copied it and where longer texts may have been before. It still is what the
operand of the instruction named before the step.
-/
namespace Octet

open Results

/-- The text whose code points are these bytes. -/
def Text.ofBytes (bytes : List UInt8) : String :=
  String.ofList (bytes.map fun byte => Char.ofNat byte.toNat)

/-- The bytes of the text that starts at an address. It ends in front of the first zero byte, after
24 bytes, or where memory ends. -/
def Memory.textBytes (memory : Memory) (address : ℕ) : List UInt8 :=
  (memory.slice address 24).takeWhile (· != 0)

/-- The cells above the stack pointer hold these bytes, and so many are noted as printed. -/
structure Machine.HoldsAbove (machine : Machine) (bytes : List UInt8) : Prop where
  length : machine.cpu.printLength = bytes.length
  byte : ∀ i, (h : i < bytes.length) → machine.memory.byteAt (machine.cpu.sp + 1 + i) = bytes[i]

/-! ### Fetched instructions -/

section Fetched

variable {instruction : Instruction} {cpu : Cpu} {memory : Memory}

lemma Instruction.decode?_eq_printDecimal_iff (op : Opcode) (a b address : UInt8) :
    decode? op a b = some (.printDecimal address) ↔ op = .printDecimal ∧ a = address := by
  cases op <;> simp [decode?]

lemma Instruction.decode?_eq_printText_iff (op : Opcode) (a b address : UInt8) :
    decode? op a b = some (.printText address) ↔ op = .printText ∧ a = address := by
  cases op <;> simp [decode?]

/-- An instruction of one operand that is told by its opcode is fetched exactly where that opcode
stands in front of the operand. -/
lemma Cpu.Fetches.eq_iff {op : Opcode} {make : UInt8 → Instruction}
    (hmake : ∀ op' a b address, Instruction.decode? op' a b = some (make address) ↔
      op' = op ∧ a = address)
    (h : cpu.Fetches memory instruction) {address : UInt8} : instruction = make address ↔
      memory.byteAt cpu.ip = op.toByte ∧ memory.byteAt (cpu.ip + 1) = address := by
  obtain ⟨found, hfound, -, hdecode⟩ := h
  rw [hfound, Opcode.toByte_inj, ← Option.some.injEq instruction, ← hdecode, hmake]

end Fetched

/-- What a text instruction prints is what a scan passes. -/
lemma Memory.printRun_eq_map (memory : Memory) (address : UInt8) :
    memory.printRun address = (List.range (memory.printRun address).length).map fun i =>
      memory.byteAt (address.toNat + i) := by
  have hinside := (memory.length_printRun_le address).2
  refine List.ext_getElem (by simp) fun i hi _ => ?_
  have hcell := memory.getElem?_printRun hi
  rw [List.getElem?_eq_getElem hi] at hcell
  simp [byteAt, ← hcell]

namespace Machine

variable {machine next : Machine} {event : Event}

/-- A step that does not halt tells of the instruction that was fetched. -/
lemma exists_of_step (h : machine.step = (.ok event, next)) (off : event ≠ .halted) :
    ∃ (instruction : Instruction) (ip : ℕ), machine.cpu.Fetches machine.memory instruction ∧
      event = next.event instruction ∧
      instruction.meaning ip (State.of machine.cpu machine.memory) =
        .ok (State.of next.cpu next.memory) := by
  unfold step at h
  rcases hstep : machine.cpu.step machine.memory with ⟨fault | _ | instruction, cpu, memory⟩
  all_goals
    rw [hstep] at h
    cases h
  · exact absurd rfl off
  · have hgoes := (Cpu.goes_of_step hstep).1
    exact ⟨instruction, _, Cpu.fetches_of_iff.mp hgoes.toFetches, rfl, hgoes.meaning⟩

/-- What is read back is what stands above the stack pointer. -/
lemma holdsAbove_output (h : machine.output.length = machine.cpu.printLength) :
    machine.HoldsAbove machine.output where
  length := h.symm
  byte i hi := by
    have haddress : machine.cpu.outputAddress.val = machine.cpu.sp.val + 1 := rfl
    have hinside := hi
    rw [output, Memory.length_slice] at hinside
    have hlt : machine.cpu.sp.val + 1 + i < 256 := by omega
    rw [machine.memory.byteAt_of_lt hlt]
    simp [output, Memory.slice, Memory.cell, haddress]

/-- What has been printed is read back, and the stack pointer has not moved. -/
lemma holdsAbove_of_print {bytes : List UInt8} {ip : ℕ}
    (h : State.of next.cpu next.memory =
      ((State.of machine.cpu machine.memory).print bytes).goto ip)
    (hfits : machine.cpu.sp + 1 + bytes.length ≤ 256) :
    next.output = bytes ∧ next.cpu.sp = machine.cpu.sp ∧ next.HoldsAbove bytes := by
  have houtput : next.output = bytes := output_of_print h hfits
  have hlength : next.cpu.printLength = bytes.length := congrArg State.printLength h
  have hholds : next.HoldsAbove next.output := holdsAbove_output (by rw [houtput, hlength])
  exact ⟨houtput, Fin.ext (congrArg State.sp h), houtput ▸ hholds⟩

lemma ne_halted_of_opcode {op : Opcode} (h : machine.step = (.ok event, next))
    (opcode : machine.memory.byteAt machine.cpu.ip = op.toByte) (off : op ≠ .halt) :
    event ≠ .halted := by
  rintro rfl
  obtain ⟨-, hhalt⟩ := Cpu.getElem?_eq_some_iff_byteAt.mp (steps_of_halted h).1
  exact off (Opcode.toByte_inj.mp (opcode.symm.trans hhalt))

/-- A decimal instruction prints the cell that its operand names. -/
lemma step_decimal (h : machine.step = (.ok event, next))
    (opcode : machine.memory.byteAt machine.cpu.ip = Opcode.printDecimal.toByte) :
    let byte := machine.memory.byteAt (machine.memory.byteAt (machine.cpu.ip + 1)).toNat
    event = .printed (.decimal byte) ∧ next.cpu.sp = machine.cpu.sp ∧ next.HoldsAbove [byte] := by
  intro byte
  obtain ⟨instruction, ip, fetched, rfl, hmeaning⟩ :=
    exists_of_step h (ne_halted_of_opcode h opcode nofun)
  obtain rfl := (fetched.eq_iff Instruction.decode?_eq_printDecimal_iff).mpr ⟨opcode, rfl⟩
  have hcell : (State.of machine.cpu machine.memory).cells
      (.ofByte (machine.memory.byteAt (machine.cpu.ip + 1))) = byte :=
    (machine.memory.byteAt_of_lt _).symm
  rw [Instruction.meaning, hcell] at hmeaning
  have hsp := machine.cpu.sp.isLt
  have hfits : machine.cpu.sp.val + 1 + [byte].length ≤ 256 := by simp; omega
  obtain ⟨houtput, hkept, hholds⟩ := holdsAbove_of_print (Except.ok.inj hmeaning).symm hfits
  refine ⟨?_, hkept, hholds⟩
  simp [Machine.event, houtput]

/-- A text instruction prints the text that starts where its operand points. -/
lemma step_text (h : machine.step = (.ok event, next))
    (opcode : machine.memory.byteAt machine.cpu.ip = Opcode.printText.toByte) :
    let address := machine.memory.byteAt (machine.cpu.ip + 1)
    event = .printed (.text (Text.ofBytes (machine.memory.textBytes address.toNat))) ∧
      next.cpu.sp = machine.cpu.sp ∧ next.HoldsAbove (machine.memory.printRun address) := by
  intro address
  obtain ⟨instruction, ip, fetched, rfl, hmeaning⟩ :=
    exists_of_step h (ne_halted_of_opcode h opcode nofun)
  obtain rfl := (fetched.eq_iff Instruction.decode?_eq_printText_iff).mpr ⟨opcode, rfl⟩
  have hprint : State.of next.cpu next.memory = ((State.of machine.cpu machine.memory).print
      (machine.memory.printRun address)).goto ip := by
    dsimp only [Instruction.meaning] at hmeaning
    split_ifs at hmeaning
    rw [← Except.ok.inj hmeaning, State.text_eq_printRun]
  have hsp := machine.cpu.sp.isLt
  have hlength := (machine.memory.length_printRun_le address).1
  obtain ⟨houtput, hkept, hholds⟩ := holdsAbove_of_print hprint (by omega)
  refine ⟨?_, hkept, hholds⟩
  rw [Machine.event, houtput, Memory.printRun, takeWhile_take_idxOf]
  simp [Text.ofBytes, Memory.textBytes]

/-- No other instruction prints. -/
lemma step_silent (h : machine.step = (.ok event, next))
    (decimal : machine.memory.byteAt machine.cpu.ip ≠ Opcode.printDecimal.toByte)
    (text : machine.memory.byteAt machine.cpu.ip ≠ Opcode.printText.toByte) :
    event = .halted ∨ event = .stepped := by
  by_cases off : event = .halted
  · exact .inl off
  obtain ⟨instruction, ip, fetched, rfl, -⟩ := exists_of_step h off
  right
  cases instruction with
  | printDecimal address =>
    exact absurd ((fetched.eq_iff Instruction.decode?_eq_printDecimal_iff).mp rfl).1 decimal
  | printText address =>
    exact absurd ((fetched.eq_iff Instruction.decode?_eq_printText_iff).mp rfl).1 text
  | _ => rfl

/-- A step that prints has carried out one of the two instructions. -/
lemma output_of_step {output : Output} (h : machine.step = (.ok (.printed output), next)) :
    let address := (machine.memory.byteAt (machine.cpu.ip + 1)).toNat
    (machine.memory.byteAt machine.cpu.ip = Opcode.printDecimal.toByte ∧
      output = .decimal (machine.memory.byteAt address)) ∨
    (machine.memory.byteAt machine.cpu.ip = Opcode.printText.toByte ∧
      output = .text (Text.ofBytes (machine.memory.textBytes address))) := by
  intro address
  by_cases decimal : machine.memory.byteAt machine.cpu.ip = Opcode.printDecimal.toByte
  · exact .inl ⟨decimal, Event.printed.inj (step_decimal h decimal).1⟩
  by_cases text : machine.memory.byteAt machine.cpu.ip = Opcode.printText.toByte
  · exact .inr ⟨text, Event.printed.inj (step_text h text).1⟩
  · obtain halted | stepped := step_silent h decimal text
    · cases halted
    · cases stepped

/-- A step prints what its instruction names. The instruction is told by the byte at the instruction
pointer, and its operand is the byte behind it. A decimal is the cell that the operand points to,
before the step, and a text starts there: its characters are the bytes up to the first zero byte,
not more than 24, and none behind the end of memory. Every other step that goes on prints nothing.
Afterwards the cells above the stack pointer hold what was scanned, its zero byte included, and
this is as long as is noted. What was there before has no part in any of it. -/
theorem step_prints_named (h : machine.step = (.ok event, next)) :
    let opcode := machine.memory.byteAt machine.cpu.ip
    let address := (machine.memory.byteAt (machine.cpu.ip + 1)).toNat
    (∀ byte, event = .printed (.decimal byte) ↔
      opcode = Opcode.printDecimal.toByte ∧ byte = machine.memory.byteAt address) ∧
    (∀ content, event = .printed (.text content) ↔
      opcode = Opcode.printText.toByte ∧
        content = Text.ofBytes (machine.memory.textBytes address)) ∧
    (event ≠ .halted → opcode ≠ Opcode.printDecimal.toByte → opcode ≠ Opcode.printText.toByte →
      event = .stepped) ∧
    (opcode = Opcode.printDecimal.toByte → next.cpu.sp = machine.cpu.sp ∧
      next.HoldsAbove [machine.memory.byteAt address]) ∧
    (opcode = Opcode.printText.toByte → next.cpu.sp = machine.cpu.sp ∧
      ∃ count, machine.memory.Scans 24 address count ∧
        next.HoldsAbove ((List.range count).map fun i => machine.memory.byteAt (address + i))) := by
  intro opcode address
  refine ⟨fun byte => ?_, fun content => ?_, fun off decimal text => ?_, fun decimal => ?_,
    fun text => ?_⟩
  · constructor
    · rintro rfl
      obtain ⟨decimal, houtput⟩ | ⟨-, houtput⟩ := output_of_step h
      · exact ⟨decimal, Output.decimal.inj houtput⟩
      · cases houtput
    · rintro ⟨decimal, rfl⟩
      exact (step_decimal h decimal).1
  · constructor
    · rintro rfl
      obtain ⟨-, houtput⟩ | ⟨text, houtput⟩ := output_of_step h
      · cases houtput
      · exact ⟨text, Output.text.inj houtput⟩
    · rintro ⟨text, rfl⟩
      exact (step_text h text).1
  · exact (step_silent h decimal text).resolve_left off
  · exact (step_decimal h decimal).2
  · obtain ⟨-, hkept, hholds⟩ := step_text h text
    refine ⟨hkept, _, Memory.scans_iff.mpr rfl, ?_⟩
    rwa [Memory.printRun_eq_map] at hholds

/-- A short text is printed right behind a longer one, which it does not wipe out. -/
theorem step_prints_named_sample :
    let machine := (Machine.load [14, 4, 14, 7, 65, 66, 67, 72, 105, 0]).2
    machine.step.1 = .ok (.printed (.text "ABCHi")) ∧
      machine.step.2.step.1 = .ok (.printed (.text "Hi")) ∧
      machine.step.2.step.2.HoldsAbove [72, 105, 0] ∧
      machine.step.2.step.2.memory.slice 232 6 = [72, 105, 0, 72, 105, 0] := by
  intro machine
  have hevent : machine.step.2.step.1 = .ok (.printed (.text "Hi")) := by decide +kernel
  have hsecond : machine.step.2.step = (.ok (.printed (.text "Hi")), machine.step.2.step.2) := by
    rw [← hevent]
  have htext : machine.step.2.memory.byteAt machine.step.2.cpu.ip = Opcode.printText.toByte := by
    decide +kernel
  have haddress : machine.step.2.memory.byteAt (machine.step.2.cpu.ip + 1) = 7 := by
    decide +kernel
  obtain ⟨-, -, -, -, hprints⟩ := step_prints_named hsecond
  obtain ⟨-, count, hscans, hholds⟩ := hprints htext
  rw [haddress] at hscans hholds
  have hrun : machine.step.2.memory.printRun 7 = [72, 105, 0] := by decide +kernel
  have hcount : count = (machine.step.2.memory.printRun 7).length := Memory.scans_iff.mp hscans
  rw [hcount, ← Memory.printRun_eq_map, hrun] at hholds
  exact ⟨by decide +kernel, hevent, hholds, by decide +kernel⟩

end Machine

end Octet
