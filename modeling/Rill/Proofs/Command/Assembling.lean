import Mathlib
import Rill.Command.Execute
import Rill.Proofs.Basic
import Rill.Proofs.Command.Files

/-!
# Assembling without an assembler

To assemble a file, its instructions are written beside the executable and removed once the assembler is done.
Without an assembler nothing else happens:

    asm dir/prog.bk --assemble     write dir/prog.asm, fail, remove dir/prog.asm

1. A file with options that ask for assembling is read as such (`AssembleOptions.parse_file`). If its own name
   is an option, the arguments are refused, except for a name that asks for help or for the version
   (`AssembleOptions.parse_option`).
2. Assembling fails, and leaves the directory without the file of the instructions (`assembleText_run`,
   `main_assembling`).
3. So the exit code is 1, no file is added, and all files that do not stand at that place keep their bytes. The
   directory is as it was exactly if none stood there (`failed_assembly_keeps_files`). It is not when the
   source itself stands there (`assembly_may_lose_source`).
-/

namespace Rill

/-! ## Arguments -/

namespace Arguments

theorem classify_asm : classify "asm" = .word := by
  decide

theorem classify_assemble : classify "--assemble" = .assemble := by
  decide

theorem classify_output : classify "-o" = .output := by
  decide

theorem commandOf_no_file : commandOf ["asm"] = .error (.fileMissing .asm) :=
  rfl

theorem eq_of_classify_help {argument : String} (isHelp : classify argument = .help) :
    argument = "-h" ∨ argument = "--help" := by
  rw [classify] at isHelp
  split at isHelp
  · assumption
  · repeat' split at isHelp
    all_goals cases isHelp

theorem eq_of_classify_version {argument : String} (isVersion : classify argument = .version) :
    argument = "-V" ∨ argument = "--version" := by
  rw [classify] at isVersion
  split at isVersion
  · cases isVersion
  · split at isVersion
    · assumption
    · repeat' split at isVersion
      all_goals cases isVersion

theorem eq_of_classify_output {argument : String} (isOutput : classify argument = .output) :
    argument = "-o" := by
  rw [classify] at isOutput
  repeat' split at isOutput
  all_goals first | assumption | cases isOutput

end Arguments

open Arguments

/-- The options that ask for assembling, with or without the name of an executable. -/
inductive AssembleOptions : Option String → List String → Prop
  | plain : AssembleOptions none ["--assemble"]
  | outputLast (path : String) : AssembleOptions (some path) ["--assemble", "-o", path]
  | outputFirst (path : String) : AssembleOptions (some path) ["-o", path, "--assemble"]

section Reading

variable {file : String} {output? : Option String} {options : List String} {config : Config}

theorem AssembleOptions.readAll_eq (asks : AssembleOptions output? options)
    (fresh : config.output = none) (words : List String) :
    readAll config words options = finish { config with assemble := true, output := output? } words := by
  cases asks <;> simp [readAll, classify_assemble, classify_output, ← fresh]

theorem parseArguments_asm (config : Config) (rest : List String) :
    config.parseArguments ("asm" :: rest) = readAll config ["asm"] rest := by
  rw [Config.parseArguments, readAll.eq_def]
  simp only [classify_asm]
  rfl

/-- A file and options that ask for assembling are read so. -/
theorem AssembleOptions.parse_file (asks : AssembleOptions output? options) (fresh : config.output = none)
    (isWord : classify file = .word) : config.parseArguments ("asm" :: file :: options) =
      .ok (.file .asm file, { config with assemble := true, output := output? }) := by
  rw [parseArguments_asm, readAll.eq_def]
  simp only [isWord, asks.readAll_eq fresh]
  rfl

/-- A file that is taken for an option is missed, unless the option asks for something else. -/
theorem AssembleOptions.parse_option (asks : AssembleOptions output? options) (fresh : config.output = none)
    (isOption : classify file ≠ .word) (noHelp : classify file ≠ .help) (noVersion : classify file ≠ .version)
    (apart : file = "-o" → options.head? ≠ some "-o") :
    ∃ error, config.parseArguments ("asm" :: file :: options) = .error error := by
  -- With the file taken away, the command has none.
  have missing {other : Config} (fresh : other.output = none) :
      ∃ error, readAll other ["asm"] options = .error error :=
    ⟨.fileMissing .asm, by rw [asks.readAll_eq fresh, finish, commandOf_no_file]; rfl⟩
  rw [parseArguments_asm, readAll.eq_def]
  dsimp only
  cases kind : classify file with
  | word => exact absurd kind isOption
  | help => exact absurd kind noHelp
  | version => exact absurd kind noVersion
  | verbose | assemble => exact missing fresh
  | format =>
      cases asks with
      | plain | outputLast => exact ⟨.unknownFormat "--assemble", rfl⟩
      | outputFirst path => exact ⟨.unknownFormat "-o", rfl⟩
  | formatIs name =>
      cases format : Format.ofName name with
      | error error => exact ⟨error, by simp [format, bind, Except.bind]⟩
      | ok style =>
          obtain ⟨error, refused⟩ := @missing { config with format := style } fresh
          exact ⟨error, by simpa [format, bind, Except.bind] using refused⟩
  | output =>
      cases asks with
      | plain => exact ⟨.fileMissing .asm, rfl⟩
      | outputLast path => exact ⟨.fileMissing .asm, by simp only [readAll, classify_output]; rfl⟩
      | outputFirst path => exact absurd rfl (apart (eq_of_classify_output kind))
  | unknownOption => exact ⟨.unknownOption file, rfl⟩

end Reading

/-! ## Runs -/

/-- Without an assembler, assembling fails. The instructions are removed again, and with them what stood in
their place before. -/
theorem assembleText_run (text executable : String) (directory : Directory) :
    ∃ error, (Directory.host.assembleText text executable).run directory =
      (.error error, directory.remove (PathName.withExtension executable "asm")) := by
  rw [Host.assembleText]
  cases written : directory.writeText (PathName.withExtension executable "asm") text with
  | error error =>
      have ran : (Directory.host.write (PathName.withExtension executable "asm") text).run directory =
          (.error error, directory) := by
        simp [Directory.host, written]
        rfl
      rw [Directory.remove_of_not_written written, run_bind_of_run ran]
      exact ⟨_, StateT.run_pure _ _⟩
  | ok after =>
      have ran : (Directory.host.write (PathName.withExtension executable "asm") text).run directory =
          (.ok (), after) := by
        simp [Directory.host, written]
        rfl
      have assembled : (Directory.host.assemble (PathName.withExtension executable "asm") executable).run after =
          (.error ("failed to run nasm: " ++ FileError.notFound.message), after) :=
        rfl
      have removed : (Directory.host.remove (PathName.withExtension executable "asm")).run after =
          ((), after.remove (PathName.withExtension executable "asm")) :=
        rfl
      rw [← Directory.remove_writeText written, run_bind_of_run ran]
      dsimp only
      rw [run_bind_of_run assembled, run_bind_of_run removed]
      exact ⟨_, StateT.run_pure _ _⟩

/-- Where the instructions stand while a file is assembled. -/
def instructionsPath (file : String) (output? : Option String) : String :=
  PathName.withExtension (output?.getD (PathName.defaultExecutable file)) "asm"

/-- Assembling a supported source fails, and leaves the directory without the file that the instructions were
written to. -/
theorem asm_run {config : Config} {source : String} {instrs : List Instr} (assemble : config.assemble = true)
    (supported : Pipeline.assembly source = .ok instrs) (manner : Manner) (file : String)
    (directory : Directory) :
    ∃ text, (Directory.host.asm manner config source file).run directory =
      (.failure "" text, directory.remove (instructionsPath file config.output)) := by
  obtain ⟨error, ran⟩ := assembleText_run (Assembly.imageText instrs)
    (config.output.getD (PathName.defaultExecutable file)) directory
  refine ⟨manner.failureText (Failure.ofDiagnostic .asm error.diagnostic) source file, ?_⟩
  rw [Host.asm, supported]
  simp only [assemble, if_true]
  rw [run_bind_of_run ran]
  rfl

/-- Whatever the arguments were that asked for it, assembling a supported file fails, and leaves the
directory without the file that the instructions were written to. -/
theorem main_assembling {environment : String → Option String} {arguments : List String}
    {file source : String} {config : Config} {instrs : List Instr} {directory : Directory}
    (parsed : (Config.ofEnvironment environment).parseArguments arguments = .ok (.file .asm file, config))
    (assemble : config.assemble = true) (reads : directory.readText file = .ok source)
    (supported : Pipeline.assembly source = .ok instrs) (terminal : Bool) :
    ∃ text, (Directory.host.main environment terminal arguments).run directory =
      (.failure "" text, directory.remove (instructionsPath file config.output)) := by
  obtain ⟨text, ran⟩ := asm_run assemble supported
    ⟨config.format, usesColor (Config.ofEnvironment environment) environment terminal⟩ file directory
  refine ⟨text, ?_⟩
  have read : (Directory.host.read file).run directory = (.ok source, directory) := congrArg (·, directory) reads
  rw [Host.main, parsed]
  simp only [Host.onFile]
  rw [run_bind_of_run read]
  exact ran

theorem main_refused {environment : String → Option String} {arguments : List String} {error : UsageError}
    (refused : (Config.ofEnvironment environment).parseArguments arguments = .error error) (terminal : Bool)
    (directory : Directory) :
    ∃ text, (Directory.host.main environment terminal arguments).run directory =
      (.failure "" text, directory) := by
  rw [Host.main, refused]
  exact ⟨_, StateT.run_pure _ _⟩

/-- Without an assembler, asking for a supported file to be assembled fails with exit code 1, unless the name of
the file asks for help or for the version. No file is added, and every file keeps its bytes that does not stand
where the instructions are written. One that stands there is lost: where the file was not taken for an option, the
directory is as it was exactly if there is none. -/
theorem failed_assembly_keeps_files {file source : String} {instrs : List Instr} {directory : Directory}
    {output? : Option String} {options : List String} (environment : String → Option String) (terminal : Bool)
    (asks : AssembleOptions output? options) (named : file ∉ ["-h", "--help", "-V", "--version"])
    (apart : file = "-o" → options.head? ≠ some "-o") (reads : directory.readText file = .ok source)
    (supported : Pipeline.assembly source = .ok instrs) :
    ∃ reply after,
      (Directory.host.main environment terminal ("asm" :: file :: options)).run directory = (reply, after) ∧
      reply.exitCode = 1 ∧
      (∀ name, directory.resolve (instructionsPath file output?) ≠ .file name →
        after.find? name = directory.find? name) ∧
      (classify file = .word →
        ((∀ name, after.find? name = directory.find? name) ↔
          ∀ name, directory.resolve (instructionsPath file output?) ≠ .file name)) := by
  have fresh : (Config.ofEnvironment environment).output = none := rfl
  by_cases isWord : classify file = .word
  · obtain ⟨text, ran⟩ := main_assembling (asks.parse_file fresh isWord) rfl reads supported terminal
    exact ⟨_, _, ran, rfl, fun name elsewhere => Directory.find?_remove elsewhere,
      fun _ => Directory.find?_remove_iff⟩
  · have noHelp : classify file ≠ .help := fun isHelp => named (by
      rcases eq_of_classify_help isHelp with rfl | rfl <;> simp)
    have noVersion : classify file ≠ .version := fun isVersion => named (by
      rcases eq_of_classify_version isVersion with rfl | rfl <;> simp)
    obtain ⟨error, refused⟩ := asks.parse_option fresh isWord noHelp noVersion apart
    obtain ⟨text, ran⟩ := main_refused refused terminal directory
    exact ⟨_, directory, ran, rfl, fun _ _ => rfl, fun isFile => absurd isFile isWord⟩

/-! ## Concrete directories -/

/-- A program that can be assembled. -/
def printsSeven : String :=
  "main :: () -> void \x7b print_u64 7; \x7d;\n"

theorem printsSeven_supported : ∃ instrs, Pipeline.assembly printsSeven = .ok instrs :=
  exists_of_isOk (by decide +kernel)

theorem fromUTF8?_toUTF8 (text : String) : String.fromUTF8? text.toUTF8 = some text := by
  rw [String.toUTF8_eq_toByteArray, String.fromUTF8?, dif_pos text.isValidUTF8]
  rfl

/-- The text of a file that a path leads to is what was put into it. -/
theorem readText_toUTF8 {directory : Directory} {path name text : String}
    (leads : directory.resolve path = .file name) (holds : directory.find? name = some text.toUTF8) :
    directory.readText path = .ok text := by
  rw [Directory.readText, leads]
  simp only [holds, Option.bind_some, fromUTF8?_toUTF8]

/-- A program beside files with the names that assembling it uses. -/
def neighbours : Directory :=
  ⟨[("prog", "kept".toUTF8), ("prog.bk", printsSeven.toUTF8), ("prog.asm", "old".toUTF8)]⟩

theorem failed_assembly_keeps_neighbours :
    neighbours.readText "prog.bk" = .ok printsSeven ∧
    ∃ reply after,
      (Directory.host.main (fun _ => none) false ["asm", "prog.bk", "--assemble"]).run neighbours =
        (reply, after) ∧
      reply.exitCode = 1 ∧ after.find? "prog" = some "kept".toUTF8 ∧
      after.find? "prog.bk" = some printsSeven.toUTF8 ∧ after.find? "prog.out" = none ∧
      ∃ name, after.find? name ≠ neighbours.find? name := by
  have reads : neighbours.readText "prog.bk" = .ok printsSeven :=
    readText_toUTF8 (by decide) (rfl : neighbours.find? "prog.bk" = _)
  obtain ⟨instrs, supported⟩ := printsSeven_supported
  obtain ⟨reply, after, ran, code, kept, exactly⟩ := failed_assembly_keeps_files (fun _ => none) false
    AssembleOptions.plain (by decide) (by decide) reads supported
  have instructions : neighbours.resolve (instructionsPath "prog.bk" none) = .file "prog.asm" := by decide
  rw [instructions] at kept
  refine ⟨reads, reply, after, ran, code, kept "prog" (by decide), kept "prog.bk" (by decide),
    kept "prog.out" (by decide), ?_⟩
  by_contra unchanged
  exact (exactly (by decide)).mp (by simpa using unchanged) "prog.asm" instructions

/-- A program in the file to which its own instructions are written. -/
def ownInstructions : Directory :=
  ⟨[("prog.asm", printsSeven.toUTF8)]⟩

/-- Assembling that fails may remove the source. -/
theorem assembly_may_lose_source :
    (∃ instrs, Pipeline.assembly printsSeven = .ok instrs) ∧
    ownInstructions.readText "prog.asm" = .ok printsSeven ∧
    ∃ reply after,
      (Directory.host.main (fun _ => none) false ["asm", "prog.asm", "--assemble"]).run ownInstructions =
        (reply, after) ∧
      reply.exitCode = 1 ∧ after.find? "prog.asm" = none := by
  obtain ⟨instrs, supported⟩ := printsSeven_supported
  have reads : ownInstructions.readText "prog.asm" = .ok printsSeven :=
    readText_toUTF8 (by decide) (rfl : ownInstructions.find? "prog.asm" = _)
  obtain ⟨text, ran⟩ := main_assembling (AssembleOptions.plain.parse_file rfl (by decide)) rfl reads supported false
  exact ⟨⟨instrs, supported⟩, reads, _, _, ran, rfl, Directory.find?_remove_self (by decide)⟩

end Rill
