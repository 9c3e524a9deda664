import Lineage.CommandLine.Console

/-! The program: performs the commands that standard input gives line by line, prints what
they print and logs what they log. Its exit code is that of the last command. -/

namespace Lineage

def report (ending : Program.Ending) : IO Unit := do
  ending.output.forM fun line => IO.println line
  ending.log.forM fun line => IO.eprintln line
  ending.error.forM fun message => IO.eprintln ("Error: " ++ message)

/-- Goes through the lines until the input ends. -/
partial def console (input : IO.FS.Stream) (around : Surroundings) (exit : Nat) : IO Nat := do
  let line ← input.getLine
  if line.isEmpty then pure exit
  else
    match Command.read? (String.ofList (line.toList.filter (· != '\n'))) with
    | none => console input around exit
    | some command =>
      let (ending, around) := command.perform around
      report ending
      console input around ending.exit

end Lineage

/-- Starts from a bare machine. -/
def main : IO UInt32 := do
  pure (UInt32.ofNat (← Lineage.console (← IO.getStdin) .bare 0))
