import MeshNumbering.CommandLine

/-! The program: prints the report on the job its arguments describe. -/

open MeshNumbering in
def main (args : List String) : IO UInt32 := do
  let report := CommandLine.report [] (.ofArgs args)
  IO.print report.output
  match report.complaint with
  | some text => IO.eprint text
  | none => IO.eprint "no outcome to report\n"
  return report.exitCode
