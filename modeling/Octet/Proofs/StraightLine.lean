import Octet.Proofs.BoundedRun
import Octet.Proofs.Footprint
import Octet.Proofs.Loading
import Octet.Proofs.SourceSimulation

/-!
# Straight-line programs

A program without data and jumps goes through its instruction lines from top to bottom, as long as
all that it writes lies behind its image. The cell right behind the image is then still zero when
the processor comes to it, and that is the halt marker. A step that fails on the way is found under
its line.
-/
namespace Octet

open Layout Results

/-- Every statement is an instruction, and none of them jumps. -/
def StraightLine (clauses : List Clause) : Prop :=
  ∀ clause ∈ clauses, ∀ statement ∈ clause.statement,
    statement.mnemonic ∉ [Mnemonic.db, .jp, .jc, .jnc, .jz, .jnz]

/-- The lines that state something, in the order of the source. -/
def statementLines (clauses : List Clause) : List ℕ :=
  (clauses.zipIdx.filter fun (clause, _) => clause.statement.isSome).map Prod.snd

variable {clauses : List Clause} {clause : Clause} {phrase : Phrase} {k offset line : ℕ}

/-! ### Lines and offsets -/

lemma StraightLine.phrase?_eq_none_iff (h : StraightLine clauses) (hmem : clause ∈ clauses) :
    clause.phrase? = none ↔ clause.statement = none := by
  cases hstatement : clause.statement with
  | none => simp [Clause.phrase?, hstatement]
  | some statement =>
    have hmnemonic := h clause hmem statement hstatement
    cases statement with
    | data | text => simp [Statement.mnemonic] at hmnemonic
    | instruction phrase => simp [Clause.phrase?, hstatement, Statement.phrase?]

lemma StraightLine.size_eq_zero (h : StraightLine clauses) (hmem : clause ∈ clauses)
    (hnone : clause.phrase? = none) : clause.size = 0 := by
  have hstatement := (h.phrase?_eq_none_iff hmem).mp hnone
  simp [Clause.size, hstatement]

lemma StraightLine.ne_jump (h : StraightLine clauses) (hmem : clause ∈ clauses)
    (hphrase : clause.phrase? = some phrase) (value : Term → UInt8) (condition : Condition)
    (target : UInt8) : phrase.instruction value ≠ .jump condition target := by
  intro heq
  have hmnemonic := h clause hmem _ (Clause.phrase?_eq_some_iff.mp hphrase)
  cases phrase with
  | binary operation | unary operation => cases operation <;> cases heq
  | jump written => cases written <;> simp [Statement.mnemonic, Phrase.mnemonic] at hmnemonic

lemma StraightLine.of_concat (h : StraightLine (clauses ++ [clause])) : StraightLine clauses :=
  fun _ hmem => h _ (List.mem_append_left _ hmem)

namespace Layout

/-- Where the `k`-th instruction starts, or where the image ends behind the last one. -/
def stop (clauses : List Clause) (k : ℕ) : ℕ := (mapping clauses)[k]?.elim (total clauses) Prod.fst

lemma stop_of_getElem? (h : (mapping clauses)[k]? = some (offset, line)) :
    stop clauses k = offset := by
  simp [stop, h]

@[simp] lemma stop_length : stop clauses (mapping clauses).length = total clauses := by
  simp [stop]

/-- One more line moves no instruction, and the place behind the instructions stays too. -/
lemma stop_concat (hsize : clause.phrase? = none → clause.size = 0)
    (hk : k ≤ (mapping clauses).length) : stop (clauses ++ [clause]) k = stop clauses k := by
  unfold stop
  rw [mapping_concat, total_concat]
  cases hphrase : clause.phrase? with
  | none => simp [hsize hphrase]
  | some phrase =>
    obtain hlt | rfl := Nat.lt_or_eq_of_le hk
    · simp [List.getElem?_append_left hlt, List.getElem?_eq_getElem hlt]
    · simp

theorem stop_zero (h : StraightLine clauses) : stop clauses 0 = 0 := by
  induction clauses using List.reverseRecOn with
  | nil => rfl
  | append_singleton clauses clause ih =>
    have hsize := h.size_eq_zero (List.mem_append_right _ (List.mem_singleton_self clause))
    rw [stop_concat hsize (Nat.zero_le _), ih h.of_concat]

/-- Where one instruction ends, the next one starts. -/
theorem stop_succ (h : StraightLine clauses)
    (hentry : (mapping clauses)[k]? = some (offset, line)) :
    stop clauses (k + 1) = start clauses (line + 1) := by
  induction clauses using List.reverseRecOn with
  | nil => cases hentry
  | append_singleton clauses clause ih =>
    have hsize := h.size_eq_zero (List.mem_append_right _ (List.mem_singleton_self clause))
    rw [mapping_concat] at hentry
    by_cases hlt : k < (mapping clauses).length
    · rw [List.getElem?_append_left hlt] at hentry
      obtain ⟨_, _, hclause, -⟩ := mem_mapping.mp (List.mem_of_getElem? hentry)
      have hline := (List.getElem?_eq_some_iff.mp hclause).1
      rw [stop_concat hsize hlt, start_append_of_le hline, ih h.of_concat hentry]
    · rw [List.getElem?_append_right (not_lt.mp hlt)] at hentry
      cases hphrase : clause.phrase? with
      | none => simp [hphrase] at hentry
      | some phrase =>
        -- the last instruction ends where the image does
        simp only [hphrase, Option.map_some, Option.toList_some, List.getElem?_singleton] at hentry
        split_ifs at hentry with hzero
        obtain ⟨rfl, rfl⟩ := Prod.mk.inj (Option.some.inj hentry)
        have hk : k + 1 = (mapping (clauses ++ [clause])).length := by
          simp [mapping_concat, hphrase]
          omega
        have hlength : clauses.length + 1 = (clauses ++ [clause]).length := by simp
        rw [hk, hlength, stop_length, start_length]

/-- The instructions are those of the lines that state something. -/
theorem map_snd_mapping (h : StraightLine clauses) :
    (mapping clauses).map Prod.snd = statementLines clauses := by
  unfold mapping statementLines
  rw [List.map_filterMap, ← List.filterMap_eq_map, List.filterMap_filter]
  apply List.filterMap_congr
  intro ⟨clause, line⟩ hentry
  have hmem : clause ∈ clauses := List.fst_mem_of_mem_zipIdx hentry
  have hnone := h.phrase?_eq_none_iff hmem
  cases hphrase : clause.phrase? with
  | none => simp [hnone.mp hphrase, hphrase]
  | some phrase => simp [Clause.phrase?_eq_some_iff.mp hphrase, hphrase]

/-- The line of an instruction is found by its offset. -/
theorem lookup_mapping (h : (offset, line) ∈ mapping clauses) :
    (mapping clauses).lookup offset = some line := by
  have hnodup : ((mapping clauses).map Prod.fst).Nodup :=
    List.pairwise_map.mpr ((mapping_pairwise clauses).imp fun h => h.1.ne)
  exact (lookup_eq_some_iff_mem hnodup).mpr h

end Layout

/-! ### What instructions leave alone -/

/-- What an instruction writes lies behind an address. -/
def Instruction.WritesBehind (bound sp : ℕ) : Instruction → Prop
  | .copy target _ => bound < target.toNat
  | .printDecimal _ | .printText _ => bound < sp + 1
  | _ => True

instance (bound sp : ℕ) :
    (instruction : Instruction) → Decidable (instruction.WritesBehind bound sp)
  | .copy _ _ | .printDecimal _ | .printText _ => inferInstanceAs (Decidable (_ < _))
  | .add _ _ | .subtract _ _ | .increment _ | .decrement _ | .compare _ _ | .jump _ _ =>
    inferInstanceAs (Decidable True)

variable {state state' : State} {bound next : ℕ} {instruction : Instruction}

/-- Cells up to the bound keep what they hold. -/
theorem Instruction.cells_of_meaning (hbehind : instruction.WritesBehind bound state.sp)
    (h : instruction.meaning next state = .ok state') {a : Address} (ha : a.val ≤ bound) :
    state'.cells a = state.cells a := by
  refine (frame_of_meaning h).cells a fun hwrites => ?_
  cases instruction with
  | copy | printDecimal | printText =>
    simp only [Writes, WritesBehind] at hwrites hbehind
    omega
  | _ => exact hwrites

/-- Without a jump, the next instruction is the one behind. -/
theorem Instruction.ip_of_meaning (hjump : ∀ condition target, instruction ≠ .jump condition target)
    (h : instruction.meaning next state = .ok state') : state'.ip = next := by
  rw [(frame_of_meaning h).ip]
  cases instruction with
  | jump condition target => exact absurd rfl (hjump condition target)
  | _ => rfl

/-! ### Machines on their way -/

namespace Machine

variable {machine last : Machine} {path : List (Event × Machine)} {limit : ℕ}

/-- Whatever is carried out from here on writes behind an address. -/
def LeavesAlone (machine : Machine) (bound : ℕ) : Prop :=
  ∀ path last, Steps machine path last → ∀ instruction cpu memory,
    last.cpu.step last.memory = (.ok (some instruction), cpu, memory) →
      instruction.WritesBehind bound last.cpu.sp

lemma LeavesAlone.of_step {event : Event} {next : Machine} (h : machine.LeavesAlone bound)
    (hstep : machine.step = (.ok event, next)) (ne_halted : event ≠ .halted) :
    next.LeavesAlone bound :=
  fun _ _ hsteps => h _ _ (.more hstep ne_halted hsteps)

/-- Follow a machine until it halts or fails, and look whether all that it carries out writes behind
an address. If that takes too many steps, the answer is no. -/
def staysBehind (bound : ℕ) : ℕ → Machine → Bool
  | 0, _ => false
  | remaining + 1, machine =>
    match machine.cpu.step machine.memory with
    | (.ok (some instruction), cpu, memory) =>
      decide (instruction.WritesBehind bound machine.cpu.sp) &&
        staysBehind bound remaining ⟨memory, cpu, machine.steps + 1⟩
    | _ => true

theorem LeavesAlone.of_staysBehind (remaining : ℕ)
    (h : staysBehind bound remaining machine = true) : machine.LeavesAlone bound := by
  induction remaining generalizing machine with
  | zero => cases h
  | succ remaining ih =>
    intro path last hsteps instruction cpu memory hlast
    unfold staysBehind at h
    cases hsteps with
    | none =>
      rw [hlast] at h
      exact of_decide_eq_true (Bool.and_eq_true_iff.mp h).1
    | more hstep ne_halted rest =>
      unfold Machine.step at hstep
      rcases hresult : machine.cpu.step machine.memory with ⟨fault | _ | carried, cpu', memory'⟩
      all_goals
        rw [hresult] at h hstep
        cases hstep
      · exact absurd rfl ne_halted
      · exact ih (Bool.and_eq_true_iff.mp h).2 _ _ rest _ _ _ hlast

/-- The machine is at the `k`-th instruction of a program, or at the end behind the last one, and
the image is still in memory, with a zero behind it. -/
structure OnTrack (clauses : List Clause) (k : ℕ) (machine : Machine) : Prop where
  running : machine.cpu.faulted = false
  ip : machine.cpu.ip.val = stop clauses k
  image : ∀ a ≤ total clauses, machine.memory.byteAt a = ((code clauses)[a]?).getD 0

/-- The machine carries out a line of a program next, which is its `k`-th instruction. If that
fails, the fault is found under the line. -/
structure AtLine (program : Program) (clauses : List Clause) (k line : ℕ) (machine : Machine) :
    Prop where
  mapped : program.mapping[k]? = some (machine.cpu.ip.val, line)
  carriesOut : ∃ clause phrase, clauses[line]? = some clause ∧
    clause.statement = some (.instruction phrase) ∧
    machine.cpu.CarriesOut machine.memory (phrase.instruction (value clauses))
      ((phrase.instruction (value clauses)).meaning (start clauses (line + 1))
        (State.of machine.cpu machine.memory))
  fault : ∀ fault next, machine.step = (.error fault, next) → program.lineOf? fault.ip = some line

/-- A loaded program stands at its first instruction. -/
lemma onTrack_load (h : StraightLine clauses) (hlen : (code clauses).length ≤ 255) :
    (load (code clauses)).1 = .ok () ∧ OnTrack clauses 0 (load (code clauses)).2 := by
  have hfits : (code clauses).length ≤ 256 := by omega
  obtain ⟨memory, hholds, hload⟩ := load_eq hfits
  rw [hload]
  refine ⟨rfl, rfl, ?_, fun a _ => hholds.byteAt a⟩
  rw [stop_zero h]
  rfl

/-- On its way a machine comes to one line after the other. -/
lemma OnTrack.atLine (h : OnTrack clauses k machine) (hfits : total clauses ≤ 256)
    (hentry : (mapping clauses)[k]? = some (offset, line)) :
    AtLine (program clauses) clauses k line machine := by
  have hmem := List.mem_of_getElem? hentry
  obtain ⟨clause, phrase, hclause, hphrase, hoffset⟩ := mem_mapping.mp hmem
  have hip : machine.cpu.ip.val = offset := by rw [h.ip, stop_of_getElem? hentry]
  have hend : start clauses (line + 1) ≤ total clauses := start_le_total _
  rw [start_succ hclause, Clause.size_of_phrase? hphrase] at hend
  -- the line lies within the image, and the image is still there
  have hintact : (program clauses).Intact (start clauses line) phrase.opcode.width
      machine.memory := by
    intro a hle hlt
    have hinside : a.val < (code clauses).length := by
      rw [length_code]
      omega
    have hbyte := h.image a.val (by omega)
    rw [machine.memory.byteAt_of_lt a.isLt, List.getElem?_eq_getElem hinside] at hbyte
    exact (List.getElem?_eq_getElem hinside).trans (congrArg some hbyte.symm)
  have hcarries := carriesOut_phrase hfits hclause hphrase hintact h.running (hip.trans hoffset)
  refine ⟨by rw [hip]; exact hentry, ⟨clause, phrase, hclause, ?_, hcarries⟩, ?_⟩
  · exact Clause.phrase?_eq_some_iff.mp hphrase
  · intro fault next hstep
    have hfault : fault.ip = machine.cpu.ip.val := by
      have houtcome := machine.outcome
      rw [hstep] at houtcome
      cases houtcome <;> rfl
    rw [hfault, hip]
    exact lookup_mapping hmem

section Way

variable (hstraight : StraightLine clauses) (hlen : total clauses ≤ 255)

include hstraight hlen

/-- A step on the way fails, or it comes to the next line. -/
theorem OnTrack.step (h : OnTrack clauses k machine) (halone : machine.LeavesAlone (total clauses))
    (hk : k < (mapping clauses).length) :
    (∃ fault next, machine.step = (.error fault, next)) ∨
      ∃ event next, machine.step = (.ok event, next) ∧ event ≠ .halted ∧
        OnTrack clauses (k + 1) next := by
  obtain ⟨⟨offset, line⟩, hentry⟩ : ∃ entry, (mapping clauses)[k]? = some entry :=
    ⟨_, List.getElem?_eq_getElem hk⟩
  obtain ⟨clause, phrase, hclause, hstatement, hcarries⟩ :=
    (h.atLine (by omega) hentry).carriesOut
  have hphrase := Clause.phrase?_eq_some_iff.mpr hstatement
  have hjump := hstraight.ne_jump (List.mem_of_getElem? hclause) hphrase (value clauses)
  cases hmeaning : (phrase.instruction (value clauses)).meaning (start clauses (line + 1))
      (State.of machine.cpu machine.memory) with
  | error kind =>
    rw [hmeaning] at hcarries
    obtain ⟨cpu, memory, hstep, -⟩ := hcarries
    refine .inl ⟨⟨kind, machine.cpu.ip⟩, { machine with cpu, memory }, ?_⟩
    rw [Machine.step, hstep]
  | ok state =>
    rw [hmeaning] at hcarries
    obtain ⟨cpu, memory, hstep, rfl, hrunning⟩ := hcarries
    let next : Machine := ⟨memory, cpu, machine.steps + 1⟩
    let event := next.event (phrase.instruction (value clauses))
    have hnext : machine.step = (.ok event, next) := by rw [Machine.step, hstep]
    refine .inr ⟨event, next, hnext, event_ne_halted _ _, hrunning, ?_, ?_⟩
    · have hip := Instruction.ip_of_meaning hjump hmeaning
      rw [stop_succ hstraight hentry]
      exact hip
    · intro a ha
      have hbehind := halone [] machine (.none machine) _ _ _ hstep
      have hlt : a < 256 := by omega
      have hcell := Instruction.cells_of_meaning hbehind hmeaning (a := ⟨a, hlt⟩) ha
      have himage := h.image a ha
      rw [Memory.byteAt_of_lt _ hlt] at himage ⊢
      exact hcell.trans himage

omit hstraight in
/-- Behind the last instruction there is the halt marker. -/
lemma OnTrack.halts (h : OnTrack clauses (mapping clauses).length machine) :
    machine.cpu.ip.val = total clauses ∧ ∃ final, machine.step = (.ok .halted, final) := by
  have hip : machine.cpu.ip.val = total clauses := by rw [h.ip, stop_length]
  have hzero := h.image (total clauses) le_rfl
  rw [List.getElem?_eq_none length_code.le, ← hip] at hzero
  have hinside : machine.cpu.ip.val < 256 := by omega
  have on : machine.AtHalt := Cpu.getElem?_eq_some_iff_byteAt.mpr ⟨hinside, hzero⟩
  have hoff : machine.LatchedOffHalt := fun hfaulted => by
    cases h.running.symm.trans hfaulted
  exact ⟨hip, hoff.step_atHalt on⟩

/-- As many steps on, the machine is as many instructions further. -/
theorem OnTrack.of_steps (h : OnTrack clauses k machine)
    (halone : machine.LeavesAlone (total clauses)) (hk : k ≤ (mapping clauses).length)
    (hsteps : Steps machine path last) :
    OnTrack clauses (k + path.length) last ∧ k + path.length ≤ (mapping clauses).length := by
  induction hsteps generalizing k with
  | none => exact ⟨h, hk⟩
  | more hstep ne_halted rest ih =>
    obtain hlt | rfl := Nat.lt_or_eq_of_le hk
    · obtain ⟨fault, next, hfault⟩ | ⟨event, next, hnext, -, htrack⟩ :=
        h.step hstraight hlen halone hlt
      · cases hfault.symm.trans hstep
      · cases hnext.symm.trans hstep
        have hrest := ih htrack (halone.of_step hstep ne_halted) hlt
        rw [List.length_cons, ← Nat.add_assoc, Nat.add_right_comm]
        exact hrest
    · -- behind the last instruction no step is left to take
      obtain ⟨-, final, hhalt⟩ := h.halts hlen
      cases hhalt.symm.trans hstep
      exact absurd rfl ne_halted

/-- A machine on its way fails before the last instruction or carries it out. -/
theorem OnTrack.goes_through {remaining : ℕ} (h : OnTrack clauses k machine)
    (halone : machine.LeavesAlone (total clauses))
    (hremaining : k + remaining = (mapping clauses).length) :
    (∃ path last fault final, path.length < remaining ∧ Steps machine path last ∧
      last.step = (.error fault, final)) ∨
    ∃ path last, path.length = remaining ∧ Steps machine path last := by
  -- on what remains: a step that succeeds leaves the same question for one instruction less
  induction remaining generalizing k machine with
  | zero => exact .inr ⟨[], machine, rfl, .none machine⟩
  | succ remaining ih =>
    obtain ⟨fault, next, hfault⟩ | ⟨event, next, hstep, ne_halted, htrack⟩ :=
      h.step hstraight hlen halone (by omega)
    · exact .inl ⟨[], machine, fault, next, Nat.succ_pos _, .none machine, hfault⟩
    · obtain ⟨path, last, fault, final, hlength, hsteps, hfault⟩ | ⟨path, last, hlength, hsteps⟩ :=
        ih htrack (halone.of_step hstep ne_halted) (by omega)
      · exact .inl ⟨_ :: path, last, fault, final, Nat.succ_lt_succ hlength,
          .more hstep ne_halted hsteps, hfault⟩
      · exact .inr ⟨_ :: path, last, congrArg Nat.succ hlength, .more hstep ne_halted hsteps⟩

end Way

/-- A program of `n` instructions without jumps and data, with a free cell behind its image and with
nothing written up to that cell, carries its lines out from top to bottom. Before each step the
machine is at the next line, and a fault is found under the line that fails. If no step fails, `n`
steps lead to the end of the image, where the machine halts, and so does every run that may take
them. -/
theorem straight_line_runs_through {source : String} {program : Program}
    (hok : assemble source = .ok program) (hreads : Reads source clauses)
    (hstraight : StraightLine clauses) (hlen : program.code.length ≤ 255)
    (halone : (load program.code).2.LeavesAlone program.code.length) :
    (load program.code).1 = .ok () ∧
    program.mapping.map Prod.snd = statementLines clauses ∧
    (∀ k line path last, (statementLines clauses)[k]? = some line → path.length = k →
      Steps (load program.code).2 path last → AtLine program clauses k line last) ∧
    ((∃ k line path last fault final, (statementLines clauses)[k]? = some line ∧
        path.length = k ∧ Steps (load program.code).2 path last ∧
        last.step = (.error fault, final) ∧ program.lineOf? fault.ip = some line) ∨
      ∃ path last final, path.length = (statementLines clauses).length ∧
        Steps (load program.code).2 path last ∧ last.step = (.ok .halted, final) ∧
        last.cpu.ip.val = program.code.length ∧ last.steps = (statementLines clauses).length ∧
        final.steps = last.steps ∧
        ∀ limit, (statementLines clauses).length ≤ limit →
          ((load program.code).2.run limit).result = .ok ()) := by
  obtain ⟨clauses', hreads', hwell, rfl⟩ := assemble_ok_iff.mp hok
  obtain rfl := hreads.unique hreads'
  have hlines := map_snd_mapping hstraight
  have hcount : (statementLines clauses).length = (mapping clauses).length := by
    rw [← hlines, List.length_map]
  have hcode : (program clauses).code = code clauses := rfl
  rw [hcode] at hlen halone ⊢
  obtain ⟨hload, htrack⟩ := onTrack_load hstraight hlen
  rw [length_code] at hlen halone ⊢
  have hline : ∀ k line path last, (statementLines clauses)[k]? = some line → path.length = k →
      Steps (load (code clauses)).2 path last → AtLine (program clauses) clauses k line last := by
    rintro k line path last hline rfl hsteps
    obtain ⟨hlast, -⟩ := htrack.of_steps hstraight hlen halone (Nat.zero_le _) hsteps
    rw [Nat.zero_add] at hlast
    rw [← hlines, List.getElem?_map, Option.map_eq_some_iff] at hline
    obtain ⟨⟨offset, _⟩, hentry, rfl⟩ := hline
    exact hlast.atLine hwell.fits hentry
  refine ⟨hload, hlines, hline, ?_⟩
  have hzero : 0 + (mapping clauses).length = (mapping clauses).length := Nat.zero_add _
  obtain ⟨path, last, fault, final, hlt, hsteps, hfault⟩ | ⟨path, last, hlength, hsteps⟩ :=
    htrack.goes_through hstraight hlen halone hzero
  · rw [← hcount] at hlt
    have hentry := List.getElem?_eq_getElem hlt
    have hatline := hline path.length _ path last hentry rfl hsteps
    exact .inl ⟨path.length, _, path, last, fault, final, hentry, rfl, hsteps, hfault,
      hatline.fault fault final hfault⟩
  · obtain ⟨hlast, -⟩ := htrack.of_steps hstraight hlen halone (Nat.zero_le _) hsteps
    rw [Nat.zero_add, hlength] at hlast
    obtain ⟨hip, final, hhalt⟩ := hlast.halts hlen
    have hsteps_load := steps_load (code clauses)
    have hcountsteps := hsteps.steps_last
    have hoff := (Reachable.load (code clauses)).latchedOffHalt
    refine .inr ⟨path, last, final, by omega, hsteps, hhalt, hip, by omega,
      (steps_of_halted hhalt).2, fun limit hlimit => ?_⟩
    exact (run_of_halt hoff hsteps hhalt (by omega)).1

/-- The first program goes on over a blank line and a line with only a label, and prints what it has
put behind its image. The second one cannot increase the stack pointer, and that is found in its
third line. -/
theorem straight_line_runs_through_sample :
    (∃ clauses path last, Reads "CP [100], 7\n\nend: ; nothing\nPRND [100]" clauses ∧
      StraightLine clauses ∧ Steps (load [2, 100, 7, 15, 100]).2 path last ∧
      AtLine ⟨[2, 100, 7, 15, 100], [(0, 0), (3, 3)], [(⟨['e', 'n', 'd'], by decide⟩, 3)]⟩
        clauses 1 3 last ∧
      ((load [2, 100, 7, 15, 100]).2.run 2).result = .ok ()) ∧
    ∃ clauses path last fault final, Reads "CP [100], 7\n\nINC [4]" clauses ∧
      StraightLine clauses ∧ Steps (load [2, 100, 7, 7, 4]).2 path last ∧
      AtLine ⟨[2, 100, 7, 7, 4], [(0, 0), (3, 2)], []⟩ clauses 1 2 last ∧
      last.step = (.error fault, final) ∧
      Program.lineOf? ⟨[2, 100, 7, 7, 4], [(0, 0), (3, 2)], []⟩ fault.ip = some 2 := by
  let copies : Clause :=
    ⟨none, some (.instruction (.binary .copy (.byte 100) (.literal (.byte 7))))⟩
  have hcopies : copies.SpelledBy [⟨.word, ['C', 'P'], 0⟩,
      ⟨.address true, ['[', '1', '0', '0', ']'], 3⟩, ⟨.comma, [','], 8⟩, ⟨.word, ['7'], 10⟩] :=
    ⟨[], _, rfl, rfl, _, _, rfl, rfl, rfl, _, .more rfl (.one _),
      .cons ⟨rfl, rfl⟩ (.cons (.inl ⟨rfl, rfl⟩) .nil)⟩
  constructor
  · let clauses : List Clause := [copies, ⟨none, none⟩, ⟨some ⟨['e', 'n', 'd'], by decide⟩, none⟩,
      ⟨none, some (.instruction (.unary .printDecimal (.byte 100)))⟩]
    have htokens : (SourceLine.ofSource
        "CP [100], 7\n\nend: ; nothing\nPRND [100]".toList).map SourceLine.tokens =
        [[⟨.word, ['C', 'P'], 0⟩, ⟨.address true, ['[', '1', '0', '0', ']'], 3⟩,
          ⟨.comma, [','], 8⟩, ⟨.word, ['7'], 10⟩], [],
          [⟨.word, ['e', 'n', 'd'], 13⟩, ⟨.colon, [':'], 16⟩],
          [⟨.word, ['P', 'R', 'N', 'D'], 28⟩, ⟨.address true, ['[', '1', '0', '0', ']'], 33⟩]] := by
      decide +kernel
    have hreads : Reads "CP [100], 7\n\nend: ; nothing\nPRND [100]" clauses := by
      rw [Reads, ← List.forall₂_map_left_iff (f := SourceLine.tokens), htokens]
      refine .cons hcopies (.cons ⟨[], [], rfl, rfl, rfl⟩ (.cons ?_ (.cons ?_ .nil)))
      · exact ⟨_, [], (List.append_nil _).symm, ⟨_, _, rfl, rfl, rfl, rfl⟩, rfl⟩
      · exact ⟨[], _, rfl, rfl, _, _, rfl, rfl, rfl, _, .one _, .cons ⟨rfl, rfl⟩ .nil⟩
    have hstraight : StraightLine clauses := by
      simp [StraightLine, clauses, copies, Statement.mnemonic, Phrase.mnemonic]
    have hok : assemble "CP [100], 7\n\nend: ; nothing\nPRND [100]" = .ok ⟨[2, 100, 7, 15, 100],
        [(0, 0), (3, 3)], [(⟨['e', 'n', 'd'], by decide⟩, 3)]⟩ := by decide +kernel
    obtain ⟨-, -, hline, hend⟩ := straight_line_runs_through hok hreads hstraight (by decide)
      (.of_staysBehind 3 (by decide +kernel))
    have hfirst : (load [2, 100, 7, 15, 100]).2.step.1 = .ok .stepped := by decide +kernel
    have hsecond : (load [2, 100, 7, 15, 100]).2.step.2.step.1 = .ok (.printed (.decimal 7)) := by
      decide +kernel
    dsimp only at hline hend
    generalize (load [2, 100, 7, 15, 100]).2 = machine at *
    have hsteps := Steps.more (Prod.ext hfirst rfl) (by decide) (.none machine.step.2)
    have hthrough := Steps.more (Prod.ext hfirst rfl) (by decide)
      (.more (Prod.ext hsecond rfl) (by decide) (.none machine.step.2.step.2))
    refine ⟨clauses, _, _, hreads, hstraight, hsteps, hline 1 3 _ _ rfl rfl hsteps, ?_⟩
    obtain ⟨k, line, path, last, fault, final, hentry, rfl, hpath, hfault, -⟩ |
      ⟨path, last, final, -, -, -, -, -, -, hrun⟩ := hend
    · have hlt : path.length < 2 := (List.getElem?_eq_some_iff.mp hentry).1
      obtain ⟨event, next, hstep, -⟩ := hpath.goes_on hthrough hlt
      cases hfault.symm.trans hstep
    · exact hrun 2 le_rfl
  · let clauses : List Clause :=
      [copies, ⟨none, none⟩, ⟨none, some (.instruction (.unary .increment (.byte 4)))⟩]
    have htokens : (SourceLine.ofSource "CP [100], 7\n\nINC [4]".toList).map SourceLine.tokens =
        [[⟨.word, ['C', 'P'], 0⟩, ⟨.address true, ['[', '1', '0', '0', ']'], 3⟩,
          ⟨.comma, [','], 8⟩, ⟨.word, ['7'], 10⟩], [],
          [⟨.word, ['I', 'N', 'C'], 13⟩, ⟨.address true, ['[', '4', ']'], 17⟩]] := by
      decide +kernel
    have hreads : Reads "CP [100], 7\n\nINC [4]" clauses := by
      rw [Reads, ← List.forall₂_map_left_iff (f := SourceLine.tokens), htokens]
      refine .cons hcopies (.cons ⟨[], [], rfl, rfl, rfl⟩ (.cons ?_ .nil))
      exact ⟨[], _, rfl, rfl, _, _, rfl, rfl, rfl, _, .one _, .cons ⟨rfl, rfl⟩ .nil⟩
    have hstraight : StraightLine clauses := by
      simp [StraightLine, clauses, copies, Statement.mnemonic, Phrase.mnemonic]
    have hok : assemble "CP [100], 7\n\nINC [4]" =
        .ok ⟨[2, 100, 7, 7, 4], [(0, 0), (3, 2)], []⟩ := by decide +kernel
    obtain ⟨-, -, hline, -⟩ := straight_line_runs_through hok hreads hstraight (by decide)
      (.of_staysBehind 2 (by decide +kernel))
    have hfirst : (load [2, 100, 7, 7, 4]).2.step.1 = .ok .stepped := by decide +kernel
    have hsecond : (load [2, 100, 7, 7, 4]).2.step.2.step.1 = .error ⟨.stackUnderflow, 3⟩ := by
      decide +kernel
    dsimp only at hline
    generalize (load [2, 100, 7, 7, 4]).2 = machine at *
    have hsteps := Steps.more (Prod.ext hfirst rfl) (by decide) (.none machine.step.2)
    have hatline := hline 1 2 _ _ rfl rfl hsteps
    have hfault : machine.step.2.step = (.error ⟨.stackUnderflow, 3⟩, machine.step.2.step.2) :=
      Prod.ext hsecond rfl
    exact ⟨clauses, _, _, _, _, hreads, hstraight, hsteps, hatline, hfault,
      hatline.fault _ _ hfault⟩

end Machine

end Octet
