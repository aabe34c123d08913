import Calculator.CommandLine.Conversation

/-! # The program

    Reads the arguments and the input, and writes what the conversation says. A
    file is read as a whole; standard input is read line by line, so that each
    line is answered before the next one is asked for.
-/

namespace Calculator.CommandLine

/-- The arguments in short, as shown on request and after an error. -/
def usage : String :=
  "usage: calculator [-h] [--dialect NAME] [--precision DIGITS] [--no-prompt] [-v] [FILE]"

/-- The arguments that name files which can be read, with what is in them. -/
def readFiles (args : List String) : IO (List (String × String)) :=
  args.filterMapM fun (name : String) => do
    try return some (name, ← IO.FS.readFile name)
    catch _ => return none

/-- Writes both channels. -/
def write (o : Options) (t : Console.Transcript) : IO Unit := do
  let out ← IO.getStdout
  let err ← IO.getStderr
  out.putStr t.out
  out.flush
  err.putStr (Console.noticesText o.verbose t.notices)
  err.flush

/-- The exit status of a conversation, after a word about a failure. -/
def conclude (t : Console.Transcript) : IO UInt32 := do
  match t.ending with
  | .finished => return 0
  | .unprintable precision =>
    IO.eprintln ("cannot print a result to " ++ toString precision ++ " digits")
    return 1
  | .fault _ =>
    IO.eprintln "the statement cannot be read in this dialect"
    return 1

/-- Answers standard input line by line. -/
partial def answerLines (o : Options) (s : Session) : IO UInt32 := do
  let line ← (← IO.getStdin).getLine
  if line.isEmpty then return 0
  let t := Console.resume o.settings (s.resume (Text.normalizeBreaks line.toList))
  write o t
  if t.ending = .finished ∧ t.final.isWaiting then answerLines o t.final
  else conclude t

/-- Holds the conversation that the options ask for. -/
def run (o : Options) (files : List (String × String)) : IO UInt32 := do
  match o.file with
  | some name =>
    let t := converse o ((files.lookup name).getD "").toList
    write o t
    conclude t
  | none =>
    let s := o.session []
    write o ⟨o.settings.promptText, o.opening, .finished, s⟩
    answerLines o s

end Calculator.CommandLine

open Calculator.CommandLine in
/-- Runs the calculator. -/
def main (args : List String) : IO UInt32 := do
  let files ← readFiles args
  match parse (files.lookup · |>.isSome) args with
  | .ok o => run o files
  | .error .help =>
    IO.println usage
    return 0
  | .error .refused =>
    IO.eprintln usage
    return 2
  | .error .dialectMissing =>
    IO.eprintln "the dialect has no name"
    return 1
