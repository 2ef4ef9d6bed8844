import Octet.Command.Perform
import Octet.Proofs.Files
import Octet.Proofs.Language
import Octet.Proofs.Loading

/-!
# Running what was compiled

A source and the image that it compiles to run alike. What is shown differs in the name of the file
only, and a report about the source may quote the line at fault.
-/
namespace Octet

/-- The bytes of a file that holds a text. -/
def Text.encode (text : String) : List UInt8 := text.toUTF8.data.toList

lemma Text.fromUTF8?_encode (text : String) :
    String.fromUTF8? ⟨(encode text).toArray⟩ = some text := by
  have hbytes : (⟨(encode text).toArray⟩ : ByteArray) = text.toByteArray := by simp [encode]
  rw [hbytes, String.fromUTF8?, dif_pos text.isValidUTF8]
  rfl

/-! ### Sessions after an action -/

namespace Session

variable {α β : Type} {session written : Session} {path source : String} {bytes : List UInt8}
  {program : Program} {error : AssemblyError}

/-- What an action gives in a session, and the session that it leaves. -/
def after (session : Session) (action : StateM Session α) : α × Session := action.run session

@[simp] theorem after_pure (session : Session) (a : α) :
    session.after (pure a) = (a, session) := rfl

@[simp] theorem after_bind (session : Session) (action : StateM Session α)
    (rest : α → StateM Session β) : session.after (action >>= rest) =
      (session.after action).2.after (rest (session.after action).1) := rfl

@[simp] theorem after_read (session : Session) (path : String) :
    session.after (Host.read path) = (session.files.read path, session) := rfl

@[simp] theorem after_print (session : Session) (stream : Stream) (text : String) :
    session.after (Host.print stream text) = ((), session.print stream text) := rfl

lemma after_write (h : session.write path bytes = .ok written) :
    session.after (Host.write path bytes) = (.ok (), written) := by
  simp only [after, Host.write, StateT.run_bind, StateT.run_get, pure_bind, h]
  rfl

theorem after_present (session : Session) (response : Response) :
    session.after response.present = (response.outcome,
      (session.print .out response.out).print .err response.trace) := rfl

lemma after_readText (hread : session.files.read path = .ok (Text.encode source)) :
    session.after (readText path) = (.ok source, session) := by
  simp [readText, hread, Text.fromUTF8?_encode]

lemma after_assembleFile_ok (hread : session.files.read path = .ok (Text.encode source))
    (hok : assemble source = .ok program) :
    session.after (assembleFile path) = (.ok (source, program), session) := by
  simp [assembleFile, after_readText hread, hok]

lemma after_assembleFile_error (hread : session.files.read path = .ok (Text.encode source))
    (herror : assemble source = .error error) :
    session.after (assembleFile path) = (.error (.ofAssembly error), session) := by
  simp [assembleFile, after_readText hread, herror]

end Session

/-- A session that has told which file it is about to read. -/
def assembling (settings : Settings) (files : FileTree) (path : String) : Session :=
  ⟨files, targetLine settings.colored "Assembling" path, ""⟩

lemma after_assembling (settings : Settings) (files : FileTree) (path : String) :
    (Session.start files).after
      (Host.print .out (targetLine settings.colored "Assembling" path)) =
        ((), assembling settings files path) := by
  simp [assembling, Session.start, Session.print]

/-! ### What a run shows -/

/-- The run of a loaded machine, with all that a terminal shows of it. -/
def Machine.runShown (machine : Machine) (settings : Settings) (options : RunOptions) :
    Run Terminal :=
  machine.runWith (options.maxSteps.getD settings.maxSteps)
    (observe (options.trace || settings.trace))
    { Terminal.initial options.minimal settings.colored with
      out := statusLine settings.colored .green "Running" "emitted binary" }

/-- How a command ends that has run a file, and what it has shown. The file has a name, and an error
is reported in some way. -/
def Run.ending (run : Run Terminal) (settings : Settings) (files : FileTree) (path : String)
    (report : RunError → Report) : Outcome × Session :=
  let terminal := run.observed.startLine .normal
  let out := targetLine settings.colored "Assembling" path ++ terminal.out
  match run.result with
  | .ok () =>
    (.success, ⟨files, out ++
      statusLine settings.colored .green "Halted" s!"after {run.machine.steps} steps" ++
      targetLine settings.colored "Completed" path, terminal.err⟩)
  | .error error =>
    (.failure (report error),
      ⟨files, out ++ statusLine settings.colored .red "Fault" error.message, terminal.err⟩)

section Running

variable {machine : Machine} {program : Program} {settings : Settings} {options : RunOptions}
  {files : FileTree} {path source : String} {image : List UInt8}

/-- The exit code depends neither on the name of the file nor on the way to report. -/
theorem Run.exitCode_ending (run : Run Terminal) (files files' : FileTree) (path path' : String)
    (report report' : RunError → Report) :
    (run.ending settings files path report).1.exitCode =
      (run.ending settings files' path' report').1.exitCode := by
  unfold ending
  cases run.result <;> rfl

lemma after_present_runProgram (hload : Machine.load program.code = (.ok (), machine))
    (source? : Option String) :
    (assembling settings files path).after
      (runProgram settings options path program source?).present =
        (machine.runShown settings options).ending settings files path
          (runReport · program source?) := by
  unfold runProgram
  rw [hload]
  dsimp only
  rw [← Machine.runShown, Session.after_present]
  unfold Run.ending
  cases (machine.runShown settings options).result with
  | ok => simp [Session.print, assembling, String.append_assoc]
  | error error => simp [Session.print, assembling, String.append_assoc]

/-- A source is run by its program. -/
theorem after_run_source (hext : Path.extension? path = some "asm")
    (hread : files.read path = .ok (Text.encode source)) (hok : assemble source = .ok program)
    (hload : Machine.load program.code = (.ok (), machine)) :
    (Session.start files).after (Command.perform settings (.run path options)) =
      (machine.runShown settings options).ending settings files path
        (runReport · program (some source)) := by
  have hread' : (assembling settings files path).files.read path = .ok (Text.encode source) := hread
  rw [← after_present_runProgram hload]
  simp only [Command.perform, performRun, hext, Session.after_bind, after_assembling,
    Session.after_assembleFile_ok hread' hok]

/-- An image is run without knowing its source. -/
theorem after_run_image (hext : Path.extension? path = some "bin")
    (hread : files.read path = .ok image) (hfits : image.length ≤ 256)
    (hload : Machine.load image = (.ok (), machine)) :
    (Session.start files).after (Command.perform settings (.run path options)) =
      (machine.runShown settings options).ending settings files path .ofRun := by
  -- without a source there is no line to quote
  have hbare : (runReport · (.ofImage image) none) = Report.ofRun := by
    funext error
    unfold runReport
    split <;> simp_all
  have hread' : (assembling settings files path).files.read path = .ok image := hread
  have hload' : Machine.load (Program.ofImage image).code = (.ok (), machine) := hload
  rw [← hbare, ← after_present_runProgram hload']
  simp only [Command.perform, performRun, hext, Session.after_bind, after_assembling,
    Session.after_read, hread', if_neg (not_lt.mpr hfits)]

/-- A report about a run quotes at most one line around the error. -/
theorem runReport_eq_or (error : RunError) (program : Program) (source : String) :
    runReport error program (some source) = .ofRun error ∨
      ∃ line, runReport error program (some source) =
        (Report.ofRun error).within s!"at line {line + 1}: {quotedLine source line}" := by
  unfold runReport
  dsimp only
  split
  · next line _ _ _ heq =>
    cases heq
    exact .inr ⟨_, rfl⟩
  · exact .inl rfl

end Running

/-! ### Compiling -/

section Compiling

variable {program : Program} {error : AssemblyError} {settings : Settings} {files : FileTree}
  {path source : String} {destination? : Option String}

/-- What is rejected leaves all files as they are. -/
theorem after_compile_error (hread : files.read path = .ok (Text.encode source))
    (herror : assemble source = .error error) :
    (Session.start files).after (Command.perform settings (.compile path destination?)) =
      (.failure (.ofAssembly error), assembling settings files path) := by
  have hread' : (assembling settings files path).files.read path = .ok (Text.encode source) := hread
  simp only [Command.perform, performCompile, Session.after_bind, after_assembling,
    Session.after_assembleFile_error hread' herror, Session.after_pure]

/-- What is accepted is written to a file from which the image is read again. -/
theorem after_compile_ok (hread : files.read path = .ok (Text.encode source))
    (hok : assemble source = .ok program)
    (haccepts : files.Accepts (destination?.getD (Path.withExtension path "bin"))) :
    ∃ files' out,
      (Session.start files).after (Command.perform settings (.compile path destination?)) =
        (.success, ⟨files', out, ""⟩) ∧
      files'.read (destination?.getD (Path.withExtension path "bin")) = .ok program.code := by
  have hread' : (assembling settings files path).files.read path = .ok (Text.encode source) := hread
  obtain ⟨files', hwrite, hback⟩ := haccepts.write program.code
    (targetLine settings.colored "Assembling" path) ""
  have hwrite' : (assembling settings files path).write
      (destination?.getD (Path.withExtension path "bin")) program.code = .ok _ := hwrite
  refine ⟨files', targetLine settings.colored "Assembling" path ++
    statusLine settings.colored .green "Finished" s!"emit {program.code.length} bytes" ++
    targetLine settings.colored "Saved" (destination?.getD (Path.withExtension path "bin")),
    ?_, hback⟩
  simp only [Command.perform, performCompile, Session.after_bind, after_assembling,
    Session.after_assembleFile_ok hread' hok, Session.after_write hwrite']
  rfl

end Compiling

/-! ### Compiling and running -/

/-- Arguments that are read as a command have it carried out. -/
lemma after_respond (session : Session) (settings : Settings) (arguments : List String)
    (command : Command) (h : Arguments.read arguments = .ok (.command command)) :
    session.after (respond settings arguments) = session.after (command.perform settings) := by
  rw [respond, h]

/-- An image and its source run alike. Both commands show the run of the machine into which the code
is loaded, each with the name of its file, and leave the files alone. They end with the same exit
code. If the run fails, the image is reported on as the error itself, and so is the source unless
its report is wrapped in one that quotes the line at fault. -/
structure RunsAlike (settings : Settings) (options : RunOptions) (program : Program)
    (source : String) (files files' : FileTree) (path image : String) : Prop where
  ofSource : (Session.start files).after (Command.perform settings (.run path options)) =
    ((Machine.load program.code).2.runShown settings options).ending settings files path
      (runReport · program (some source))
  ofImage : (Session.start files').after (Command.perform settings (.run image options)) =
    ((Machine.load program.code).2.runShown settings options).ending settings files' image .ofRun
  exitCode :
    ((Session.start files).after (Command.perform settings (.run path options))).1.exitCode =
      ((Session.start files').after (Command.perform settings (.run image options))).1.exitCode
  report : ∀ error, runReport error program (some source) = .ofRun error ∨
    ∃ line, runReport error program (some source) =
      (Report.ofRun error).within s!"at line {line + 1}: {quotedLine source line}"

/-- The check of the size on every line bounds the image as a whole. -/
lemma length_code_le {source : String} {program : Program} (hok : assemble source = .ok program) :
    program.code.length ≤ 256 := by
  obtain ⟨clauses, -, hwell, rfl⟩ := assemble_ok_iff.mp hok
  rw [Layout.program, Layout.length_code]
  exact hwell.fits

theorem runsAlike_of_read {settings : Settings} {options : RunOptions} {program : Program}
    {source path image : String} {files files' : FileTree} (hok : assemble source = .ok program)
    (hpath : Path.extension? path = some "asm") (hread : files.read path = .ok (Text.encode source))
    (himage : Path.extension? image = some "bin") (hback : files'.read image = .ok program.code) :
    RunsAlike settings options program source files files' path image := by
  have hfits := length_code_le hok
  obtain ⟨memory, -, hload⟩ := Machine.load_eq hfits
  have hsource : (Session.start files).after (Command.perform settings (.run path options)) = _ :=
    after_run_source hpath hread hok hload
  have hcode : (Session.start files').after (Command.perform settings (.run image options)) = _ :=
    after_run_image himage hback hfits hload
  refine ⟨?_, ?_, ?_, fun error => runReport_eq_or error program source⟩
  · rw [hsource, hload]
  · rw [hcode, hload]
  · rw [hsource, hcode]
    exact Run.exitCode_ending _ _ _ _ _ _ _

/-- Compiled images run like their sources. The image of an accepted source fits into memory, and
loading it leaves a machine whose memory holds the image and then zeros, as does loading the image
without its source. If the source is in a file, compiling it succeeds and leaves a file from which
the image is read, next to the source or at another path for images, as long as a file can be there.
Running that file is then like running the source, under all settings and with all options. If the
source is rejected, compiling it ends with the error of the assembler and leaves all files alone. -/
theorem compiled_images_run_like_sources (source : String) :
    (∀ program, assemble source = .ok program →
      program.code.length ≤ 256 ∧
      (∃ memory : Memory, memory.Holds program.code ∧
        Machine.load program.code = (.ok (), { Machine.initial with memory }) ∧
        Machine.load (Program.ofImage program.code).code =
          (.ok (), { Machine.initial with memory })) ∧
      ∀ (settings : Settings) (files : FileTree) (path : String) (destination? : Option String),
        let image := destination?.getD (Path.withExtension path "bin")
        let compiled := (Session.start files).after
          (Command.perform settings (.compile path destination?))
        files.read path = .ok (Text.encode source) → files.Accepts image →
          (∀ destination ∈ destination?, Path.extension? destination = some "bin") →
            compiled.1 = .success ∧ compiled.2.files.read image = .ok program.code ∧
            (Path.extension? path = some "asm" → ∀ (settings : Settings) (options : RunOptions),
              RunsAlike settings options program source files compiled.2.files path image)) ∧
    ∀ error, assemble source = .error error →
      ∀ (settings : Settings) (files : FileTree) (path : String) (destination? : Option String),
        let compiled := (Session.start files).after
          (Command.perform settings (.compile path destination?))
        files.read path = .ok (Text.encode source) →
          compiled.1 = .failure (.ofAssembly error) ∧ compiled.2.files = files := by
  refine ⟨fun program hok => ?_, fun error herror settings files path destination? => ?_⟩
  · obtain ⟨memory, hholds, hload⟩ := Machine.load_eq (length_code_le hok)
    refine ⟨length_code_le hok, ⟨memory, hholds, hload, hload⟩, ?_⟩
    intro settings files path destination? image compiled hread haccepts hdestination
    obtain ⟨files', out, hafter, hback⟩ := after_compile_ok hread hok haccepts
    have hcompiled : compiled = (.success, ⟨files', out, ""⟩) := hafter
    have himage : Path.extension? image = some "bin" := by
      cases destination? with
      | none => exact FileTree.extension?_withExtension hread haccepts (by decide) (by decide)
      | some destination => exact hdestination destination rfl
    rw [hcompiled]
    exact ⟨rfl, hback, fun hpath settings options =>
      runsAlike_of_read hok hpath hread himage hback⟩
  · intro compiled hread
    have hcompiled : compiled = _ := after_compile_error hread herror
    rw [hcompiled]
    exact ⟨rfl, rfl⟩

/-- A text that overlaps its own output cannot be printed. The report about the source quotes its
line, the one about the image does not. A source with an undefined label leaves no image. -/
theorem compiled_images_run_like_sources_sample :
    let source := "JP go\ngo: PRNS [232] ; up"
    let files := FileTree.ofList [("f.asm", Text.encode source), ("g.asm", Text.encode "JP x")]
    let settings : Settings := ⟨false, 100, false⟩
    let compiled := (Session.start files).after (respond settings ["compile", "f.asm"])
    let refused := (Session.start files).after (respond settings ["compile", "g.asm"])
    ∃ fault, compiled.2.files.read "f.bin" = .ok [11, 2, 14, 232] ∧
      ((Session.start compiled.2.files).after (respond settings ["run", "-t", "f.bin"])).1 =
        .failure (.ofRun (.faulted fault)) ∧
      ((Session.start files).after (respond settings ["run", "-t", "f.asm"])).1 =
        .failure ((Report.ofRun (.faulted fault)).within "at line 2: go: PRNS [232] ; up") ∧
      refused.2.files = files := by
  intro source files settings compiled refused
  let program : Program := ⟨[11, 2, 14, 232], [(0, 0), (2, 1)], [(⟨['g', 'o'], rfl⟩, 2)]⟩
  let options : RunOptions := ⟨false, true, none⟩
  let fault : Fault := ⟨.memory (.overlappingCopy 232 232 1), 2⟩
  have hok : assemble source = .ok program := by decide +kernel
  have herror : assemble "JP x" = .error ⟨.undefinedLabel ⟨['x'], rfl⟩, 0, ⟨3, 1⟩⟩ := by
    decide +kernel
  have haccepts : files.Accepts "f.bin" :=
    ⟨["tmp".toList, "work".toList, "f.bin".toList], by decide +kernel, .inl (by decide +kernel)⟩
  have hfault : ((Machine.load program.code).2.runShown settings options).result =
    .error (.faulted fault) := by decide +kernel
  have himage : Path.withExtension "f.asm" "bin" = "f.bin" := by decide +kernel
  have hcompiled := after_respond (Session.start files) settings ["compile", "f.asm"]
    (.compile "f.asm" none) (by decide +kernel)
  have hrefused := after_respond (Session.start files) settings ["compile", "g.asm"]
    (.compile "g.asm" none) (by decide +kernel)
  obtain ⟨-, -, haccepted⟩ := (compiled_images_run_like_sources source).1 program hok
  obtain ⟨-, hback, hruns⟩ := haccepted settings files "f.asm" none (by decide +kernel)
    (by rwa [Option.getD_none, himage]) nofun
  rw [Option.getD_none, himage, ← hcompiled] at hback hruns
  have halike := hruns (by decide +kernel) settings options
  obtain ⟨-, hkept⟩ := (compiled_images_run_like_sources "JP x").2 _ herror settings files "g.asm"
    none (by decide +kernel)
  rw [← hrefused] at hkept
  have hreport : runReport (.faulted fault) program (some source) =
      (Report.ofRun (.faulted fault)).within "at line 2: go: PRNS [232] ; up" := by decide +kernel
  refine ⟨fault, hback, ?_, ?_, hkept⟩
  · rw [after_respond _ settings _ (.run "f.bin" options) (by decide +kernel), halike.ofImage,
      Run.ending, hfault]
  · rw [after_respond _ settings _ (.run "f.asm" options) (by decide +kernel), halike.ofSource,
      Run.ending, hfault]
    exact congrArg Outcome.failure hreport

end Octet
