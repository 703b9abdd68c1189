import JsxProvenance.CommandLine.Run
import JsxProvenance.Proofs.Cst.Accounting
import JsxProvenance.Proofs.Files.Writing
import JsxProvenance.Proofs.Options.Overrides

/-! Annotating a file and printing it, or writing it back. Both go through the same stages, and only
what goes well in all of them is printed or written. The file is written back only if attributes
were added; without any the text is the same bytes anyway, so the two ways agree.
-/

namespace JsxProvenance

open Ast

theorem eq_ok_of_mapError {ε ε' α : Type} {f : ε → ε'} {computed : Except ε α} {result : α}
    (given : computed.mapError f = .ok result)
    : computed = .ok result := by
  cases computed with
  | error fault => cases given
  | ok a => exact congrArg Except.ok (Except.ok.inj given)

-----------------------------------------------------------------------------------------
-- Parsers
-----------------------------------------------------------------------------------------

/-- A parser gives the program of a named text and the log of reading it, or says why it cannot. -/
abbrev TextParser : Type :=
  String → List UInt8 → Except String (Program × List Log.Line)

/-- The programs of a parser keep the text that they were read from, and nothing is inserted in
them.
-/
def TextParser.Faithful (parse : TextParser) : Prop :=
  ∀ name bytes p reading,
    parse name bytes = .ok (p, reading)
    → p.source = bytes ∧ ∀ place ∈ p.walk, place.node.isInserted = false

/-- The parser that reads by the grammar. -/
def Tsx.textParser : TextParser :=
  fun name bytes =>
    .ok ((treeOf bytes).1.toProgram name bytes, readingLog name (treeOf bytes).2)

/-- The program of a concrete tree keeps its text, and nothing is inserted in it. -/
theorem Cst.toProgram_unmarked (name : String) (bytes : List UInt8) (root : Cst)
    : ∀ place ∈ (root.toProgram name bytes).walk, place.node.isInserted = false :=
  Program.unmarked_of_typed (toProgram_typed name bytes root)

theorem Tsx.textParser_faithful : Tsx.textParser.Faithful := by
  intro name bytes p reading read
  cases read
  exact ⟨rfl, Cst.toProgram_unmarked name bytes _⟩

/-- Annotates the text of a file with a parser. -/
def annotateParsed (parse : TextParser) (settings : Settings) (filename : Option String)
    (bytes : List UInt8)
    : Except String AnnotatedSource := do
  let (p, reading) ← parse ((givenName filename).getD unnamedFile) bytes
  let (q, report) ← (p.annotate (settings.forFile filename) filename).mapError Fault.message
  return {
    code := q.render
    report
    log :=
      reading ++ report.log p filename
        ++ [report.closingLine ((givenName filename).getD unnamedSource)]
  }

theorem annotateParsed_textParser (settings : Settings) (filename : Option String)
    (bytes : List UInt8)
    : annotateParsed Tsx.textParser settings filename bytes
      = (annotateSource settings filename bytes).mapError Fault.message := by
  generalize named : (givenName filename).getD unnamedFile = name
  rw [annotateParsed, annotateSource, named]
  change (((Tsx.treeOf bytes).1.toProgram name bytes).annotate _ _).mapError _ >>= _
    = ((((Tsx.treeOf bytes).1.toProgram name bytes).annotate _ _) >>= _).mapError _
  cases ((Tsx.treeOf bytes).1.toProgram name bytes).annotate (settings.forFile filename) filename with
  | error fault => rfl
  | ok result => rfl

/-- An annotated text without new attributes is the text itself. -/
theorem code_of_none_added {parse : TextParser} (faithful : parse.Faithful) {settings : Settings}
    {filename : Option String} {bytes : List UInt8} {a : AnnotatedSource}
    (annotated : annotateParsed parse settings filename bytes = .ok a)
    : (a.report.skipped = true → a.report.attributesAdded = 0)
      ∧ (a.report.attributesAdded = 0 → a.code = bytes) := by
  obtain ⟨⟨p, reading⟩, parsed, annotated⟩ := exists_ok_of_bind annotated
  obtain ⟨⟨q, report⟩, run, annotated⟩ := exists_ok_of_bind annotated
  cases annotated
  obtain ⟨same, unmarked⟩ := faithful _ _ _ _ parsed
  have run := eq_ok_of_mapError run
  refine ⟨(Program.annotate_grown run).2.1, fun nothing => ?_⟩
  exact (Program.render_of_none_added unmarked run nothing).trans same

namespace FileTree

variable {files : FileTree} {path : Path} (settings : Settings)

theorem annotate_of_unread {fault : SourceFault} (there : files.readSource path = .error fault)
    : files.annotate settings path = .error fault := by
  rw [annotate, there]
  rfl

theorem annotate_of_read {bytes : List UInt8} (there : files.readSource path = .ok bytes)
    : files.annotate settings path
      = (annotateSource settings (some path.text) bytes).mapError .unfit := by
  rw [annotate, there]
  rfl

end FileTree

-----------------------------------------------------------------------------------------
-- The stages of a run
-----------------------------------------------------------------------------------------

namespace CommandLine

/-- An outcome that is another one after some lines of log. -/
def Outcome.After (o first : Outcome) : Prop :=
  ∃ logged, o = { first with errorOutput := logged ++ first.errorOutput }

theorem Outcome.After.refl (o : Outcome) : o.After o :=
  ⟨"", by rw [String.empty_append]⟩

theorem Outcome.After.logging {o first : Outcome} (after : o.After first) (verbose : Bool)
    (lines : List Log.Line)
    : (o.logging verbose lines).After first := by
  obtain ⟨logged, rfl⟩ := after
  exact ⟨Log.printed verbose lines ++ logged, by rw [Outcome.logging, String.append_assoc]⟩

/-- Logging changes nothing but what is said. -/
theorem Outcome.After.same {o first : Outcome} (after : o.After first)
    : o.exitCode = first.exitCode
      ∧ o.output = first.output
      ∧ ∀ files, o.filesAfter files = first.filesAfter files := by
  obtain ⟨logged, rfl⟩ := after
  exact ⟨rfl, rfl, fun _ => rfl⟩

namespace AnnotateCommand

section

variable (parse : TextParser) (c : AnnotateCommand) (around : Surroundings) (verbose : Bool)

/-- The path that the command names. -/
def path : Path :=
  Path.parse c.file

/-- The stages before anything is printed or written: the options are loaded and give settings, the
file is read, and its text is parsed and annotated. Any of them can fail.
-/
def stages : Except String (List UInt8 × AnnotatedSource) := do
  let loaded ←
    (LoadedOptions.load around.files around.environment around.optionFiles c.optionFile).mapError
      LoadFault.message
  let settings ← loaded.settings.mapError LoadFault.message
  let bytes ← (around.files.readSource c.path).mapError SourceFault.message
  let annotated ← annotateParsed parse (c.adjust settings) (some c.path.text) bytes
  return (bytes, annotated)

/-- The stages that are left once there are settings. -/
theorem stages_of_settings {loaded : LoadedOptions} {settings : Settings}
    (given
      : LoadedOptions.load around.files around.environment around.optionFiles c.optionFile
        = .ok loaded)
    (read : loaded.settings = .ok settings)
    : c.stages parse around
      = (around.files.readSource c.path).mapError SourceFault.message >>= fun bytes =>
          (annotateParsed parse (c.adjust settings) (some c.path.text) bytes).map (bytes, ·) := by
  unfold stages
  rw [given]
  dsimp only [Except.mapError, bind, Except.bind]
  rw [read]
  dsimp only
  cases around.files.readSource c.path with
  | error fault => rfl
  | ok bytes =>
      dsimp only
      cases annotateParsed parse (c.adjust settings) (some c.path.text) bytes with
      | error message => rfl
      | ok annotated => rfl

/-- Runs the annotation of a file with a parser and the settings that were loaded. -/
def runParsingWith : Except LoadFault Settings → Outcome
  | .error fault => .failure ("Error: " ++ fault.message)
  | .ok settings =>
      match around.files.readSource c.path with
      | .error fault => .failure ("Error: " ++ fault.message)
      | .ok bytes =>
          match annotateParsed parse (c.adjust settings) (some c.path.text) bytes with
          | .error message => .failure ("Error: " ++ message)
          | .ok annotated => (c.finish annotated).logging verbose annotated.log

/-- Runs the annotation of a file with a parser. -/
def runParsing : Outcome :=
  match LoadedOptions.load around.files around.environment around.optionFiles c.optionFile with
  | .error fault => .failure ("Error: " ++ fault.message)
  | .ok loaded => (c.runParsingWith parse around verbose loaded.settings).logging verbose loaded.log

theorem runWith_eq (settings : Settings)
    : c.runWith around.files verbose (.ok settings)
      = c.runParsingWith Tsx.textParser around verbose (.ok settings) := by
  unfold runWith runParsingWith
  dsimp only
  generalize read : around.files.readSource c.path = bytes?
  cases bytes? with
  | error fault =>
      have ended : around.files.annotate (c.adjust settings) (Path.parse c.file) = .error fault :=
        FileTree.annotate_of_unread (c.adjust settings) read
      rw [ended]
  | ok bytes =>
      have ended
          : around.files.annotate (c.adjust settings) (Path.parse c.file)
            = (annotateSource (c.adjust settings) (some c.path.text) bytes).mapError .unfit :=
        FileTree.annotate_of_read (c.adjust settings) read
      rw [ended]
      dsimp only
      rw [annotateParsed_textParser]
      generalize annotateSource (c.adjust settings) (some c.path.text) bytes = annotated
      cases annotated with
      | error fault => rfl
      | ok annotated => rfl

/-- A run is the one with the parser that reads by the grammar. -/
theorem run_eq : c.run around verbose = c.runParsing Tsx.textParser around verbose := by
  rw [run, runParsing]
  cases LoadedOptions.load around.files around.environment around.optionFiles c.optionFile with
  | error fault => rfl
  | ok loaded =>
      refine congrArg (Outcome.logging · verbose loaded.log) ?_
      cases loaded.settings with
      | error fault => rfl
      | ok settings => exact runWith_eq c around verbose settings

/-- A run ends as its stages say, and only logs besides. -/
theorem runParsing_after
    : (c.runParsing parse around verbose).After
        (match c.stages parse around with
        | .error message => .failure ("Error: " ++ message)
        | .ok (_, annotated) => c.finish annotated) := by
  unfold runParsing stages
  cases LoadedOptions.load around.files around.environment around.optionFiles c.optionFile with
  | error fault => exact .refl _
  | ok loaded =>
      refine Outcome.After.logging ?_ verbose loaded.log
      unfold runParsingWith
      dsimp only [Except.mapError, bind, Except.bind]
      cases loaded.settings with
      | error fault => exact .refl _
      | ok settings =>
          dsimp only
          cases around.files.readSource c.path with
          | error fault => exact .refl _
          | ok bytes =>
              dsimp only
              cases annotateParsed parse (c.adjust settings) (some c.path.text) bytes with
              | error message => exact .refl _
              | ok annotated => exact .logging (.refl _) verbose annotated.log

end

-----------------------------------------------------------------------------------------
-- Printing and writing
-----------------------------------------------------------------------------------------

/-- The command that prints what this one annotates. -/
def printing (c : AnnotateCommand) : AnnotateCommand :=
  { c with inPlace := false }

/-- The command that writes back what this one annotates. -/
def writing (c : AnnotateCommand) : AnnotateCommand :=
  { c with inPlace := true }

/-- Text that goes through all stages was read at the path, and annotated. -/
theorem read_of_stages {parse : TextParser} {c : AnnotateCommand} {around : Surroundings}
    {bytes : List UInt8} {a : AnnotatedSource} (ended : c.stages parse around = .ok (bytes, a))
    : around.files.read c.path = .ok bytes
      ∧ ∃ settings, annotateParsed parse settings (some c.path.text) bytes = .ok a := by
  obtain ⟨loaded, _, ended⟩ := exists_ok_of_bind ended
  obtain ⟨settings, _, ended⟩ := exists_ok_of_bind ended
  obtain ⟨there, read, ended⟩ := exists_ok_of_bind ended
  obtain ⟨annotated, made, ended⟩ := exists_ok_of_bind ended
  obtain ⟨rfl, rfl⟩ := Prod.mk.inj (Except.ok.inj ended)
  exact ⟨eq_ok_of_mapError (eq_ok_of_mapError read), _, made⟩

/-- An annotated file is written if anything was added to it. -/
theorem filesAfter_writing (c : AnnotateCommand) (a : AnnotatedSource) (files : FileTree)
    : (c.writing.finish a).filesAfter files
      = if a.report.attributesAdded = 0 then files else files.write c.path a.code := by
  change files.writeAll (a.writtenBack c.path) = _
  rw [AnnotatedSource.writtenBack]
  by_cases nothing : a.report.attributesAdded = 0
  · rw [if_pos nothing, if_pos (beq_iff_eq.mpr nothing)]
    rfl
  · rw [if_neg nothing, if_neg (mt beq_iff_eq.mp nothing), FileTree.writeAll, List.foldl_cons,
      List.foldl_nil]

/-- A run that failed has printed nothing and changed no file. It says why. -/
structure Failed (o : Outcome) (files : FileTree) (message : String) : Prop where
  exitCode : o.exitCode = 1
  silent : o.output = []
  kept : o.filesAfter files = files
  said : ∃ logged, o.errorOutput = logged ++ ("Error: " ++ message ++ "\n")

theorem failed_of_after {o : Outcome} {message : String}
    (after : o.After (.failure ("Error: " ++ message))) (files : FileTree)
    : Failed o files message := by
  obtain ⟨exitCode, silent, kept⟩ := after.same
  obtain ⟨logged, rfl⟩ := after
  exact ⟨exitCode, silent, kept files, logged, rfl⟩

/-- A run that printed a file of some bytes and one that wrote it back. The file holds what was
printed, and all other places are as they were. Nothing changes if nothing was added.
-/
structure WrittenAsPrinted (printed written : Outcome) (files : FileTree) (path : Path)
    (bytes : List UInt8) (report : Report) : Prop where
  exitCodes : printed.exitCode = 0 ∧ written.exitCode = 0
  given : files.read path = .ok bytes
  readBack : (written.filesAfter files).read path = .ok printed.output
  elsewhere
    : ∃ place,
        files.locate path = .ok place
        ∧ ∀ other,
            other ≠ place
            → FileTree.entry? (written.filesAfter files) other = files.entry? other
  unchanged
    : report.attributesAdded = 0 ∨ report.skipped = true
      → printed.output = bytes ∧ written.filesAfter files = files

/-- Writing back what was annotated agrees with printing it. -/
theorem writtenAsPrinted_finish {parse : TextParser} (faithful : parse.Faithful)
    {settings : Settings} {c : AnnotateCommand} {files : FileTree} {bytes : List UInt8}
    {a : AnnotatedSource} (read : files.read c.path = .ok bytes)
    (annotated : annotateParsed parse settings (some c.path.text) bytes = .ok a)
    : WrittenAsPrinted (c.printing.finish a) (c.writing.finish a) files c.path bytes a.report := by
  obtain ⟨skipped, same⟩ := code_of_none_added faithful annotated
  have after := filesAfter_writing c a files
  obtain ⟨readBack, elsewhere⟩ := FileTree.read_write read a.code
  refine ⟨⟨rfl, rfl⟩, read, ?_, ?_, fun left => ?_⟩
  · by_cases nothing : a.report.attributesAdded = 0
    · rw [after, if_pos nothing, read]
      exact congrArg Except.ok (same nothing).symm
    · rw [after, if_neg nothing, readBack]
      rfl
  · obtain ⟨place, located, kept⟩ := elsewhere
    refine ⟨place, located, fun other apart => ?_⟩
    rw [after]
    split
    · rfl
    · exact kept other apart
  · have nothing : a.report.attributesAdded = 0 := left.elim id skipped
    exact ⟨same nothing, after.trans (if_pos nothing)⟩

/-- Two runs that log besides agree if those that they log around do. -/
theorem WrittenAsPrinted.of_after {printed written printed' written' : Outcome} {files : FileTree}
    {path : Path} {bytes : List UInt8} {report : Report}
    (agree : WrittenAsPrinted printed written files path bytes report)
    (afterPrinted : printed'.After printed) (afterWritten : written'.After written)
    : WrittenAsPrinted printed' written' files path bytes report := by
  obtain ⟨printedCode, output, _⟩ := afterPrinted.same
  obtain ⟨writtenCode, _, left⟩ := afterWritten.same
  have left := left files
  exact {
    exitCodes := ⟨printedCode.trans agree.exitCodes.1, writtenCode.trans agree.exitCodes.2⟩
    given := agree.given
    readBack := by rw [left, output, agree.readBack]
    elsewhere := by rw [left]; exact agree.elsewhere
    unchanged := by rw [left, output]; exact agree.unchanged
  }

/-- Writing a file back and printing it agree, with the parser that reads by the grammar and with
any other one that keeps the text and inserts nothing. A run that prints changes no file. If a stage
before that fails, both runs fail and do nothing else; and if all of them go well, the file holds in
the end what is printed, which is what it held before unless attributes were added.
-/
theorem in_place_as_printed
    : (Tsx.textParser.Faithful
        ∧ ∀ (c : AnnotateCommand) around verbose,
            c.run around verbose = c.runParsing Tsx.textParser around verbose)
      ∧ ∀ parse : TextParser,
          parse.Faithful
          → ∀ (c : AnnotateCommand) around verbose,
              (c.printing.runParsing parse around verbose).filesAfter around.files = around.files
              ∧ match c.stages parse around with
                | .error message =>
                    Failed (c.printing.runParsing parse around verbose) around.files message
                    ∧ Failed (c.writing.runParsing parse around verbose) around.files message
                | .ok (bytes, a) =>
                    WrittenAsPrinted (c.printing.runParsing parse around verbose)
                      (c.writing.runParsing parse around verbose) around.files c.path bytes
                      a.report := by
  refine ⟨⟨Tsx.textParser_faithful, run_eq⟩, fun parse faithful c around verbose => ?_⟩
  have printed := runParsing_after parse c.printing around verbose
  have written := runParsing_after parse c.writing around verbose
  have samePrinted : c.printing.stages parse around = c.stages parse around := rfl
  have sameWritten : c.writing.stages parse around = c.stages parse around := rfl
  rw [samePrinted] at printed
  rw [sameWritten] at written
  cases ended : c.stages parse around with
  | error message =>
      rw [ended] at printed written
      have failed := failed_of_after printed around.files
      exact ⟨failed.kept, failed, failed_of_after written around.files⟩
  | ok result =>
      obtain ⟨bytes, a⟩ := result
      rw [ended] at printed written
      obtain ⟨read, settings, annotated⟩ := read_of_stages ended
      exact ⟨printed.same.2.2 around.files,
        (writtenAsPrinted_finish faithful read annotated).of_after printed written⟩

/-- A parser that finds one tag, whatever the text is. -/
def oneTagParser : TextParser :=
  fun name bytes => .ok (Cst.oneTag.toProgram name bytes, [])

/-- A folder with one file in it. -/
def oneTagFolder : Surroundings where
  files := {
    workingFolder := ["work"]
    entries := [(["work", "A.tsx"], .file Cst.oneTagText)]
  }

/-- The tag is annotated with the names of its component, of itself and of the file. -/
theorem annotateParsed_oneTag
    : ∃ a,
        annotateParsed oneTagParser {} (some "A.tsx") Cst.oneTagText = .ok a
        ∧ a.report.attributesAdded = 3 := by
  have named : Settings.forFile {} (some "A.tsx") = { sourceFileName := some "A.tsx" } := by
    decide +kernel
  have open' : ¬ Cst.oneTagFile.Guarded { sourceFileName := some "A.tsx" } (some "A.tsx") := by
    rw [Program.Guarded]
    decide
  have returned := Program.annotate_of_collect open' (rfl : _ = Except.ok ({} : Aliases))
  have added
      : Report.attributesAdded
          { details :=
              (Cst.oneTagFile.annotateComponents
                { settings := { sourceFileName := some "A.tsx" } }
                (components Cst.oneTagFile)).2 }
        = 3 := by
    decide +kernel
  have parsed
      : oneTagParser ((givenName (some "A.tsx")).getD unnamedFile) Cst.oneTagText
        = .ok (Cst.oneTagFile, []) := rfl
  unfold annotateParsed
  rw [parsed, named]
  dsimp only [bind, Except.bind]
  rw [returned]
  exact ⟨_, rfl, added⟩

/-- The tag of a file gets three attributes, in the file as in what is printed. A file that is not
there is neither printed nor written.
-/
theorem in_place_as_printed_oneTag
    : oneTagParser.Faithful
      ∧ (∃ report,
          report.attributesAdded = 3
          ∧ WrittenAsPrinted
              (({ file := "A.tsx" } : AnnotateCommand).printing.runParsing oneTagParser oneTagFolder
                false)
              (({ file := "A.tsx" } : AnnotateCommand).writing.runParsing oneTagParser oneTagFolder
                false)
              oneTagFolder.files (Path.parse "A.tsx") Cst.oneTagText report)
      ∧ Failed
          (({ file := "B.tsx" } : AnnotateCommand).writing.runParsing oneTagParser oneTagFolder
            false)
          oneTagFolder.files
          "Parse error in B.tsx: [Errno 2] No such file or directory: 'B.tsx'" := by
  have faithful : oneTagParser.Faithful := by
    intro name bytes p reading parsed
    cases parsed
    exact ⟨rfl, Cst.toProgram_unmarked name bytes _⟩
  have agree := in_place_as_printed.2 oneTagParser faithful
  refine ⟨faithful, ?_, ?_⟩
  · obtain ⟨_, agree⟩ := agree { file := "A.tsx" } oneTagFolder false
    have there : oneTagFolder.files.read (Path.parse "A.tsx") = .ok Cst.oneTagText := by
      decide +kernel
    have read : oneTagFolder.files.readSource (Path.parse "A.tsx") = .ok Cst.oneTagText := by
      rw [FileTree.readSource, there]
      rfl
    obtain ⟨a, made, added⟩ := annotateParsed_oneTag
    have ended := stages_of_settings oneTagParser { file := "A.tsx" } oneTagFolder
      (rfl : _ = Except.ok ({} : LoadedOptions)) (rfl : _ = Except.ok ({} : Settings))
    have name : (Path.parse "A.tsx").text = "A.tsx" := by decide +kernel
    rw [path, read, name] at ended
    change _ = (annotateParsed oneTagParser {} (some "A.tsx") Cst.oneTagText).map _ at ended
    rw [made] at ended
    rw [ended] at agree
    exact ⟨a.report, added, agree⟩
  · obtain ⟨_, agree⟩ := agree { file := "B.tsx" } oneTagFolder false
    have missing : oneTagFolder.files.read (Path.parse "B.tsx") = .error .missing := by
      decide +kernel
    have unread
        : oneTagFolder.files.readSource (Path.parse "B.tsx")
          = .error (.unreadable (Path.parse "B.tsx") .missing) := by
      rw [FileTree.readSource, missing]
      rfl
    have said
        : SourceFault.message (.unreadable (Path.parse "B.tsx") .missing)
          = "Parse error in B.tsx: [Errno 2] No such file or directory: 'B.tsx'" := by
      decide +kernel
    have ended := stages_of_settings oneTagParser { file := "B.tsx" } oneTagFolder
      (rfl : _ = Except.ok ({} : LoadedOptions)) (rfl : _ = Except.ok ({} : Settings))
    rw [path, unread] at ended
    rw [ended] at agree
    rw [← said]
    exact agree.2

end AnnotateCommand
end CommandLine
end JsxProvenance
