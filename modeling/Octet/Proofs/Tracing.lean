import Octet.Proofs.BoundedRun
import Octet.Proofs.CompiledRun
import Octet.Proofs.OutputLines

/-!
# Traced runs

Whether a run is traced cannot be told from its output. Traces go to another stream, but both
streams share the cursor. A trace leaves it at the start of a line, and so does every value that is
written without escape characters, so that neither adds anything to the other.
-/
namespace Octet

open Text (visible)

/-! ### Traces -/

namespace Terminal

variable {channel : Channel}

lemma out_print (hchannel : channel ≠ .normal) (terminal : Terminal) (text : String) :
    (terminal.print channel text).out = terminal.out := by
  unfold print
  split
  · exact absurd rfl hchannel
  · rfl
  all_goals simp [moveCursor_eq, writeErr]

lemma out_printAll (hchannel : channel ≠ .normal) (terminal : Terminal) (texts : List String) :
    (terminal.printAll channel texts).out = terminal.out := by
  induction texts generalizing terminal with
  | nil => rfl
  | cons text texts ih => exact (ih _).trans (out_print hchannel terminal text)

/-- A table of registers is no output. -/
lemma out_printRegisters (hchannel : channel ≠ .normal) (terminal : Terminal) (cpu : Cpu) :
    (terminal.printRegisters channel cpu).out = terminal.out := by
  have hline : (terminal.startLine channel).out = terminal.out := by
    unfold startLine
    split_ifs
    · rfl
    · exact out_print hchannel terminal "\n"
  rw [printRegisters, out_printAll hchannel, hline]

/-- A trace that ends a line and is shown in every mode leaves the cursor at the start of a line. -/
lemma lineStart_print (terminal : Terminal) {text : String}
    (hlast : (visible text.toList).getLast? = some '\n') :
    (terminal.print .always text).lineStart = true := by
  unfold print
  cases terminal.minimal <;> simp [moveCursor_eq, hlast]

/-- The last of the texts ends a line. -/
def EndsLine (texts : List String) : Prop :=
  ∃ front last, texts = front ++ [last] ∧ (visible last.toList).getLast? = some '\n'

lemma EndsLine.append {texts : List String} (h : EndsLine texts) (front : List String) :
    EndsLine (front ++ texts) := by
  obtain ⟨middle, last, rfl, hlast⟩ := h
  exact ⟨front ++ middle, last, by simp, hlast⟩

lemma EndsLine.lineStart {texts : List String} (h : EndsLine texts) (terminal : Terminal) :
    (terminal.printAll .always texts).lineStart = true := by
  obtain ⟨front, last, rfl, hlast⟩ := h
  rw [printAll, List.foldl_append]
  exact lineStart_print _ hlast

lemma endsLine_plainLines (cpu : Cpu) : EndsLine (plainLines cpu) := by
  have hflags : (visible s!"ZC {flagDigit cpu.zero}{flagDigit cpu.carry}\n".toList).getLast? =
      some '\n' := by
    cases cpu.zero <;> cases cpu.carry <;> decide +kernel
  exact EndsLine.append ⟨[_, _], _, rfl, hflags⟩ _

lemma endsLine_tablePieces (cpu : Cpu) : EndsLine (tablePieces cpu) := by
  have hframe : (visible "\x1b[2m└───────────────────────────┘\x1b[0m\n".toList).getLast? =
      some '\n' := by
    decide +kernel
  exact EndsLine.append ⟨[_, _, _, _], _, rfl, hframe⟩ _

/-- In each mode the table of registers ends with a line. -/
lemma lineStart_printRegisters (terminal : Terminal) (cpu : Cpu) :
    (terminal.printRegisters .always cpu).lineStart = true := by
  unfold printRegisters
  dsimp only
  split_ifs
  · exact (endsLine_plainLines cpu).lineStart _
  · exact (endsLine_tablePieces cpu).lineStart _

end Terminal

/-! ### Observers -/

section Observers

variable {σ τ : Type} {observe₁ : σ → Machine → Event → σ}
  {observe₂ : τ → Machine → Event → τ} {R : σ → τ → Prop}

/-- Two observers of a run see the same steps. What each of them gathers stays related, and the run
itself is the same. -/
theorem Machine.runFor_related
    (hobserve : ∀ a b machine event, R a b →
      R (observe₁ a machine event) (observe₂ b machine event))
    (limit remaining : ℕ) {a : σ} {b : τ} (h : R a b) (machine : Machine) :
    let run₁ := runFor limit observe₁ remaining a machine
    let run₂ := runFor limit observe₂ remaining b machine
    run₁.result = run₂.result ∧ run₁.machine = run₂.machine ∧ R run₁.observed run₂.observed := by
  induction remaining generalizing a b machine with
  | zero =>
    dsimp only
    unfold runFor
    split_ifs
    · rcases machine.step with ⟨fault | event, next⟩
      · exact ⟨rfl, rfl, h⟩
      · exact ⟨rfl, rfl, hobserve _ _ _ _ h⟩
    · exact ⟨rfl, rfl, h⟩
  | succ remaining ih =>
    dsimp only
    unfold runFor
    rcases machine.step with ⟨fault | _ | output | _, next⟩
    · exact ⟨rfl, rfl, h⟩
    · exact ih (hobserve _ _ _ _ h) next
    · exact ih (hobserve _ _ _ _ h) next
    · exact ⟨rfl, rfl, hobserve _ _ _ _ h⟩

end Observers

/-- What is on a terminal that was given before a run when the run has printed these values, the
last of them first. Without a trace the other stream holds what it did. -/
structure Terminal.Shows (start : Terminal) (trace : Bool) (terminal : Terminal)
    (outputs : List Output) : Prop where
  lineStart : terminal.lineStart = true
  out : terminal.out =
    start.out ++ String.join (outputs.reverse.map fun output => output.display ++ "\n")
  err : trace = false → terminal.err = start.err

section Showing

variable {start terminal : Terminal} {trace : Bool} {outputs : List Output}

lemma Terminal.Shows.printOutput (h : start.Shows trace terminal outputs) {output : Output}
    (hplain : output.Plain) :
    start.Shows trace (terminal.printOutput .normal output) (output :: outputs) := by
  rw [printOutput_normal, if_pos h.lineStart]
  refine ⟨by simp [hplain.not_hidesEnd], ?_, h.err⟩
  simp [h.out, String.append_assoc]

/-- The trace behind a step ends a line, so that it disturbs nothing. -/
lemma Terminal.Shows.printTrace (h : start.Shows trace terminal outputs) (machine : Machine)
    (event : Event) :
    start.Shows trace
      (if trace && event != .halted then
        (terminal.print .sometimes
          s!"step {machine.steps} -> IP 0x{Text.hexByte machine.cpu.ip}\n").printRegisters .always
            machine.cpu
      else terminal) outputs := by
  split_ifs with htrace
  · rw [Bool.and_eq_true] at htrace
    have halways : Channel.always ≠ .normal := by decide
    have hsometimes : Channel.sometimes ≠ .normal := by decide
    refine ⟨lineStart_printRegisters _ _, ?_, ?_⟩
    · rw [out_printRegisters halways, out_print hsometimes, h.out]
    · simp [htrace.1]
  · exact h

/-- One step of a run, if what it prints is plain. -/
lemma Terminal.Shows.observe (h : start.Shows trace terminal outputs) (machine : Machine)
    (event : Event) (hplain : ∀ output ∈ Machine.printed? event, output.Plain) :
    start.Shows trace (observe trace terminal machine event)
      (Machine.collect outputs machine event) := by
  cases event with
  | printed output => exact (h.printOutput (hplain output rfl)).printTrace machine (.printed output)
  | stepped => exact h.printTrace machine .stepped
  | halted => exact h.printTrace machine .halted

/-- What a run shows of plain values: one line for each, and nothing else besides the trace. The run
is the one that gathers the values. -/
theorem Terminal.Shows.run (machine : Machine) (limit : ℕ) (trace : Bool) (start : Terminal)
    (hstart : start.lineStart = true)
    (hplain : ∀ output ∈ (machine.run limit).observed, output.Plain) :
    let shown := machine.runWith limit (Octet.observe trace) start
    shown.result = (machine.run limit).result ∧ shown.machine = (machine.run limit).machine ∧
      start.Shows trace shown.observed (machine.run limit).observed.reverse := by
  let Related (terminal : Terminal) (outputs : List Output) : Prop :=
    (∀ output ∈ outputs, output.Plain) → start.Shows trace terminal outputs
  have hobserve (terminal : Terminal) (outputs : List Output) (machine : Machine) (event : Event)
      (hrelated : Related terminal outputs) : Related (Octet.observe trace terminal machine event)
        (Machine.collect outputs machine event) := by
    intro hall
    cases event with
    | printed output =>
      obtain ⟨hplain, hrest⟩ := List.forall_mem_cons.mp hall
      refine (hrelated hrest).observe machine _ fun output' hprinted => ?_
      obtain rfl := Option.some.inj hprinted
      exact hplain
    | stepped | halted => exact (hrelated hall).observe machine _ nofun
  have hempty : Related start [] := fun _ => ⟨hstart, by simp, fun _ => rfl⟩
  obtain ⟨hresult, hmachine, hshown⟩ :=
    Machine.runFor_related hobserve limit (limit - machine.steps) hempty machine
  rw [Machine.run_eq] at hplain ⊢
  refine ⟨hresult, hmachine, ?_⟩
  rw [List.reverse_reverse]
  exact hshown fun output hmem => hplain output (List.mem_reverse.mpr hmem)

end Showing

/-! ### Running files -/

/-- A program is run from this path: the program of an accepted source, or an image that fits. -/
inductive FileTree.HoldsProgram (files : FileTree) (path : String) : Program → Prop
  | source {source : String} {program : Program} (extension : Path.extension? path = some "asm")
      (read : files.read path = .ok (Text.encode source))
      (accepted : assemble source = .ok program) :
      HoldsProgram files path program
  | image {image : List UInt8} (extension : Path.extension? path = some "bin")
      (read : files.read path = .ok image) (fits : image.length ≤ 256) :
      HoldsProgram files path (.ofImage image)

section Files

variable {files : FileTree} {path : String}

/-- Bytes that are a text are the bytes of that text. -/
lemma Text.eq_encode_of_fromUTF8? {bytes : List UInt8} {text : String}
    (h : String.fromUTF8? ⟨bytes.toArray⟩ = some text) : bytes = Text.encode text := by
  unfold String.fromUTF8? at h
  split_ifs at h
  obtain rfl := Option.some.inj h
  rfl

/-- A source is read and accepted, or assembling it fails for a reason that lies in the files. -/
lemma Session.assembleFile_cases (files : FileTree) (path : String) :
    (∃ source program, files.read path = .ok (Text.encode source) ∧
      assemble source = .ok program) ∨
    ∃ report, ∀ session : Session, session.files = files →
      session.after (assembleFile path) = (.error report, session) := by
  cases hread : files.read path with
  | error error =>
    refine .inr ⟨.ofFile error, fun session hfiles => ?_⟩
    simp [assembleFile, readText, hfiles, hread]
  | ok bytes =>
    cases htext : String.fromUTF8? ⟨bytes.toArray⟩ with
    | none =>
      refine .inr ⟨.ofFile .notText, fun session hfiles => ?_⟩
      simp [assembleFile, readText, hfiles, hread, htext]
    | some source =>
      obtain rfl := Text.eq_encode_of_fromUTF8? htext
      cases hassemble : assemble source with
      | ok program => exact .inl ⟨source, program, rfl, hassemble⟩
      | error error =>
        exact .inr ⟨.ofAssembly error, fun session hfiles =>
          after_assembleFile_error (hfiles.symm ▸ hread) hassemble⟩

/-- Running a file shows the run of a program that is there, or fails before there is one. Neither
which of them nor the report depends on settings and options. -/
theorem after_run_cases (files : FileTree) (path : String) :
    (∃ program machine report, files.HoldsProgram path program ∧
      Machine.load program.code = (.ok (), machine) ∧ ∀ settings options,
        (Session.start files).after (Command.perform settings (.run path options)) =
          (machine.runShown settings options).ending settings files path report) ∨
    ∃ report, ∀ settings options,
      (Session.start files).after (Command.perform settings (.run path options)) =
        (.failure report, assembling settings files path) := by
  have hfiles (settings : Settings) : (assembling settings files path).files = files := rfl
  by_cases hbin : Path.extension? path = some "bin"
  · cases hread : files.read path with
    | error error =>
      refine .inr ⟨.ofFile error, fun settings options => ?_⟩
      simp only [Command.perform, performRun, hbin, Session.after_bind, after_assembling,
        Session.after_read, hfiles, hread, Session.after_pure]
    | ok image =>
      by_cases hfits : image.length ≤ 256
      · obtain ⟨memory, -, hload⟩ := Machine.load_eq hfits
        exact .inl ⟨_, _, .ofRun, .image hbin hread hfits, hload, fun settings options =>
          after_run_image hbin hread hfits hload⟩
      · let report := Report.ofMessage s!"Image is {image.length} bytes, memory only holds 256"
        refine .inr ⟨report, fun settings options => ?_⟩
        simp only [Command.perform, performRun, hbin, Session.after_bind, after_assembling,
          Session.after_read, hfiles, hread, if_pos (not_le.mp hfits), Session.after_pure, report]
  by_cases hasm : Path.extension? path = some "asm"
  · obtain ⟨source, program, hread, hok⟩ | ⟨report, hfails⟩ :=
      Session.assembleFile_cases files path
    · obtain ⟨memory, -, hload⟩ := Machine.load_eq (length_code_le hok)
      exact .inl ⟨_, _, _, .source hasm hread hok, hload, fun settings options =>
        after_run_source hasm hread hok hload⟩
    · refine .inr ⟨report, fun settings options => ?_⟩
      simp only [Command.perform, performRun, hasm, Session.after_bind, after_assembling,
        hfails _ (hfiles settings), Session.after_pure]
  · cases hext : Path.extension? path with
    | none =>
      refine .inr ⟨.ofMessage "File has no extension. Exiting...", fun settings options => ?_⟩
      simp only [Command.perform, performRun, hext, Session.after_bind, after_assembling,
        Session.after_pure]
    | some extension =>
      refine .inr ⟨.ofMessage "File has unknown extension. Exiting...", fun settings options => ?_⟩
      rw [hext] at hbin hasm
      simp only [Command.perform, performRun, hext, Session.after_bind, after_assembling]
      split
      · next heq => exact absurd heq hbin
      · next heq => exact absurd heq hasm
      · rfl
      · next heq => cases heq

end Files

/-- A process: it reads its settings from the environment, does what its arguments ask for, and ends
with an outcome and with all that it has shown. -/
def FileTree.process (files : FileTree) (environment : Environment) (arguments : List String) :
    Outcome × Session :=
  (Session.start files).after (respond (.ofEnvironment environment) arguments)

/-! ### Output and trace -/

section Ended

variable {run run' : Run Terminal} {settings settings' : Settings} {files : FileTree}
  {path : String} {report : RunError → Report}

/-- Runs that end alike at the start of a line, with the same output, show the same behind it. -/
lemma Run.ending_congr (files : FileTree) (path : String) (report : RunError → Report)
    (hcolored : settings'.colored = settings.colored)
    (hresult : run'.result = run.result) (hmachine : run'.machine = run.machine)
    (hline : run.observed.lineStart = true) (hline' : run'.observed.lineStart = true)
    (hout : run'.observed.out = run.observed.out) :
    (run'.ending settings' files path report).1 = (run.ending settings files path report).1 ∧
      (run'.ending settings' files path report).2.out =
        (run.ending settings files path report).2.out := by
  unfold ending Terminal.startLine
  rw [if_pos hline, if_pos hline', hresult, hmachine, hcolored]
  dsimp only
  rw [hout]
  cases run.result <;> exact ⟨rfl, rfl⟩

lemma Run.err_ending (hline : run.observed.lineStart = true) :
    (run.ending settings files path report).2.err = run.observed.err := by
  unfold ending Terminal.startLine
  rw [if_pos hline]
  cases run.result <;> rfl

end Ended

/-- What is on the terminal when a program is about to run. -/
def Terminal.running (minimal colored : Bool) : Terminal :=
  { Terminal.initial minimal colored with
    out := statusLine colored .green "Running" "emitted binary" }

/-- What running a program shows is told from the values that it prints within the limit. -/
lemma Machine.runShown_shows (machine : Machine) (settings : Settings) (options : RunOptions)
    {limit : ℕ} (hlimit : options.maxSteps.getD settings.maxSteps = limit)
    (hplain : ∀ output ∈ (machine.run limit).observed, output.Plain) :
    let shown := machine.runShown settings options
    shown.result = (machine.run limit).result ∧ shown.machine = (machine.run limit).machine ∧
      (Terminal.running options.minimal settings.colored).Shows (options.trace || settings.trace)
        shown.observed (machine.run limit).observed.reverse := by
  subst hlimit
  exact Terminal.Shows.run machine _ _ (.running options.minimal settings.colored) rfl hplain

/-- Tracing does not disturb program output. Take two ways to run the same file that differ in
whether the run is traced, be it by an option or by the environment, but not in the mode and the
limit. If no program in the file prints a text with an escape character within the limit, then both
end with the same outcome, which tells the exit code and what is reported, and have put the same on
the output stream. This covers every file, also one that cannot be run, and every end of a run. The
run that is not traced has put nothing on the other stream. -/
theorem tracing_does_not_disturb_output {files : FileTree} (environment environment' : Environment)
    {arguments arguments' : List String} {path : String} {options options' : RunOptions}
    (hread : Arguments.read arguments = .ok (.command (.run path options)))
    (hread' : Arguments.read arguments' = .ok (.command (.run path options')))
    (hminimal : options'.minimal = options.minimal) (hmax : options'.maxSteps = options.maxSteps)
    (henvironment : ∀ name, name ≠ "BYTESIM_TRACE" → environment' name = environment name)
    (hplain : ∀ program, files.HoldsProgram path program → ∀ content, .text content ∈
      ((Machine.load program.code).2.run
        (options.maxSteps.getD (Settings.ofEnvironment environment).maxSteps)).observed →
          Text.escape ∉ content.toList) :
    (files.process environment' arguments').1 = (files.process environment arguments).1 ∧
      (files.process environment' arguments').2.out = (files.process environment arguments).2.out ∧
      (options.trace = false → environment "BYTESIM_TRACE" ≠ some "1" →
        (files.process environment arguments).2.err = "") := by
  have hcolored : (Settings.ofEnvironment environment').colored =
      (Settings.ofEnvironment environment).colored := by
    simp only [Settings.ofEnvironment, henvironment "CLICOLOR_FORCE" (by decide)]
  have hlimit : (Settings.ofEnvironment environment').maxSteps =
      (Settings.ofEnvironment environment).maxSteps := by
    simp only [Settings.ofEnvironment, henvironment "BYTESIM_MAX_STEPS" (by decide)]
  have hended : files.process environment arguments = _ := after_respond _ _ _ _ hread
  have hended' : files.process environment' arguments' = _ := after_respond _ _ _ _ hread'
  obtain ⟨program, machine, report, hholds, hload, hruns⟩ | ⟨report, hfails⟩ :=
    after_run_cases files path
  · rw [hended, hended', hruns, hruns]
    have htexts := hplain program hholds
    rw [hload] at htexts
    have hvalues := Output.forall_plain_iff.mpr htexts
    obtain ⟨hresult, hmachine, hshows⟩ :=
      machine.runShown_shows (.ofEnvironment environment) options rfl hvalues
    obtain ⟨hresult', hmachine', hshows'⟩ :=
      machine.runShown_shows (.ofEnvironment environment') options' (by rw [hmax, hlimit]) hvalues
    rw [hminimal, hcolored] at hshows'
    obtain ⟨houtcome, hout⟩ := Run.ending_congr files path report hcolored
      (hresult'.trans hresult.symm) (hmachine'.trans hmachine.symm) hshows.lineStart
      hshows'.lineStart (hshows'.out.trans hshows.out.symm)
    refine ⟨houtcome, hout, fun htrace henv => ?_⟩
    have herr := hshows.err (by simp [htrace, Settings.ofEnvironment, henv])
    rw [Run.err_ending hshows.lineStart, herr]
    rfl
  · rw [hended, hended', hfails, hfails, assembling, assembling, hcolored]
    exact ⟨rfl, rfl, fun _ _ => rfl⟩

/-- A loop that prints a text and reaches its limit right behind it: not traced, traced by an
option, and traced by the environment. -/
theorem tracing_does_not_disturb_output_sample :
    let files := FileTree.ofList [("f.bin", [14, 4, 11, 0, 72, 105, 0])]
    let tracing : Environment := fun name => if name = "BYTESIM_TRACE" then some "1" else none
    let ended := files.process (fun _ => none) ["run", "-m", "--max-steps=1", "f.bin"]
    let optional := files.process (fun _ => none) ["run", "-mt", "--max-steps=1", "f.bin"]
    let general := files.process tracing ["run", "-m", "--max-steps=1", "f.bin"]
    ended.2.out = "  Assembling target f.bin\n     Running emitted binary\nHi\n" ++
        "       Fault Program did not halt within 1 steps\n" ∧
      ended.2.err = "" ∧ optional.2.err ≠ "" ∧ optional.1 = ended.1 ∧
      optional.2.out = ended.2.out ∧ general.1 = ended.1 ∧ general.2.out = ended.2.out := by
  intro files tracing ended optional general
  have hread : Arguments.read ["run", "-m", "--max-steps=1", "f.bin"] =
      .ok (.command (.run "f.bin" ⟨true, false, some 1⟩)) := by decide +kernel
  have hread' : Arguments.read ["run", "-mt", "--max-steps=1", "f.bin"] =
      .ok (.command (.run "f.bin" ⟨true, true, some 1⟩)) := by decide +kernel
  have hplain (program : Program) (hholds : files.HoldsProgram "f.bin" program) (content : String)
      (hmem : .text content ∈ ((Machine.load program.code).2.run 1).observed) :
      Text.escape ∉ content.toList := by
    cases hholds with
    | source extension => exact absurd extension (by decide +kernel)
    | image _ read =>
      have hread : files.read "f.bin" = .ok [14, 4, 11, 0, 72, 105, 0] := by decide +kernel
      obtain rfl := Except.ok.inj (hread.symm.trans read)
      have hvalues : ((Machine.load (Program.ofImage [14, 4, 11, 0, 72, 105, 0]).code).2.run
          1).observed = [.text "Hi"] := by decide +kernel
      rw [hvalues] at hmem
      obtain rfl : content = "Hi" := by simpa using hmem
      decide +kernel
  have hshown : ended.2.out = "  Assembling target f.bin\n     Running emitted binary\nHi\n" ++
    "       Fault Program did not halt within 1 steps\n" := by decide +kernel
  have htraced : optional.2.err ≠ "" := by decide +kernel
  -- the processes are compared by name, so that they need not be carried out again
  have hended : files.process (fun _ => none) ["run", "-m", "--max-steps=1", "f.bin"] = ended := rfl
  have hoptional : files.process (fun _ => none) ["run", "-mt", "--max-steps=1", "f.bin"] =
    optional := rfl
  have hgeneral : files.process tracing ["run", "-m", "--max-steps=1", "f.bin"] = general := rfl
  clear_value ended optional general
  obtain ⟨hsame, hout, herr⟩ := tracing_does_not_disturb_output (fun _ => none) (fun _ => none)
    hread hread' rfl rfl (fun _ _ => rfl) hplain
  obtain ⟨hsame', hout', -⟩ := tracing_does_not_disturb_output (fun _ => none) tracing
    hread hread rfl rfl (fun name hname => if_neg hname) hplain
  rw [hended] at hsame hout herr hsame' hout'
  rw [hoptional] at hsame hout
  rw [hgeneral] at hsame' hout'
  exact ⟨hshown, herr rfl nofun, htraced, hsame, hout, hsame', hout'⟩

end Octet
