import DeskCalc.CommandLine.Report

/-!
# The Program

The calculator as a program. Everything it writes is computed elsewhere, with the standard
arithmetic; here the arguments are taken, a file or the typed lines are read, and the output is
written.

A session answers each line before it reads the next, so it is driven from here, one response
at a time. What it writes is the transcript of all the lines it was given.

## Main definitions

* `DeskCalc.runSession`: A session on the standard input and output.
* `DeskCalc.runProgram`: The program, on its arguments.
* `main`: The program.
-/

namespace DeskCalc

/-- What is written when help is asked for or the arguments are wrong. -/
def usageText : String :=
  "usage: deskcalc [-h] [--angle-mode MODE] [--lang TAG] [--file PATH] [--interactive]\n" ++
    "                [--log-level LEVEL] [EXPRESSION ...]\n"

/-- What there is under a path. -/
def look (path : String) : IO Found := do
  try
    return .file (← IO.FS.readBinFile path)
  catch
    | .inappropriateType .. => return .directory
    | _ => return .nothing

/-- What is written if nothing could be done. -/
def obstacleText : Obstacle → String
  | .noLogLevel => "there is no level of logging"
  | .missing => "there is no such file"
  | .directory => "the path leads to a directory"
  | .notText => "the file is not text"

/-- A session, from its state on until the input or the session ends. -/
partial def runSession (language : Language) (s : Session) : IO Unit := do
  let output ← IO.getStdout
  output.putStr Session.prompt
  output.flush
  let line ← (← IO.getStdin).getLine
  let request := SessionLine.ofLine line
  -- Without even a line end, the input has ended.
  unless line.isEmpty || request = .quit do
    let (answer, next) := s.respond .standard language request
    output.putStr answer
    runSession language next

/-- The program, on its arguments. -/
def runProgram (args : List String) : IO UInt32 := do
  match Options.parse args with
  | .error .help =>
    IO.print usageText
    return 0
  | .error .usage =>
    IO.eprint usageText
    return 2
  | .ok opts =>
    if opts.interactive && opts.logLevel.isSome then
      IO.print (Session.banner opts.mode)
      runSession opts.language (.start opts.mode)
      return 0
    let found ← look (opts.file.getD "")
    match Report.ofOptions .standard opts "" fun _ => found with
    | .ok report =>
      IO.print report.output
      return report.exitCode.toUInt32
    | .error obstacle =>
      IO.eprintln (obstacleText obstacle)
      return 1

end DeskCalc

/-- The program. -/
def main (args : List String) : IO UInt32 := DeskCalc.runProgram args
