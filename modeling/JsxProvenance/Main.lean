import JsxProvenance.CommandLine.Run

/-! The program: it looks at the files that the command line names, and does what the run says. -/

namespace JsxProvenance.Main

/-- The fault that an error of the system is. -/
def faultOf : IO.Error → FileFault
  | .noFileOrDirectory .. => .missing
  | .inappropriateType _ code _ => if code == 21 then .isFolder else .notFolder
  | _ => .denied

/-- What stands at a path. -/
def look (path : Path) : IO FileEntry := do
  try
    return .file (← IO.FS.readBinFile path.text).toList
  catch e =>
    return match faultOf e with
      | .isFolder => .folder
      | fault => .blocked fault

/-- The variables that override options. -/
def environment : IO Environment := do
  return {
    native := ← IO.getEnv "COMPONENT_ANNOTATE_NATIVE"
    annotateFragments := ← IO.getEnv "COMPONENT_ANNOTATE_ANNOTATE_FRAGMENTS"
    ignored := ← IO.getEnv "COMPONENT_ANNOTATE_IGNORED"
    policy := ← IO.getEnv "COMPONENT_ANNOTATE_POLICY"
  }

/-- What a run with a command line finds. -/
def surroundings (line : List String) : IO CommandLine.Surroundings := do
  let here := (← IO.currentDir).toString
  let home := (← IO.getEnv "HOME").getD here
  let optionFiles :=
    [
      Path.parse (here ++ "/component-annotate.yaml"),
      Path.parse (home ++ "/.component-annotate/config.yaml")
    ]
  let mut files : FileTree := { workingFolder := (Path.parse here).names }
  for path in CommandLine.pathsRead optionFiles line do
    files := files.withFound path (← look path)
  return { files, environment := ← environment, optionFiles }

/-- Does what a run with a command line does. -/
def run (line : List String) : IO UInt32 := do
  let outcome := CommandLine.run (← surroundings line) line
  for (path, bytes) in outcome.written do
    IO.FS.writeBinFile path.text ⟨bytes.toArray⟩
  (← IO.getStderr).putStr outcome.errorOutput
  let output ← IO.getStdout
  output.write ⟨outcome.output.toArray⟩
  output.flush
  return outcome.exitCode.toUInt32

end JsxProvenance.Main

/-- Runs the program. -/
def main (line : List String) : IO UInt32 :=
  JsxProvenance.Main.run line
