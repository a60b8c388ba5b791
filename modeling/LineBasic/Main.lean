import LineBasic.Terminal

/-! The command line: a terminal on standard input and output. Its disk is empty and no letter stands
for a folder, so every request for a file ends in a fault. Its random numbers start from a state that
the system chooses. -/

namespace LineBasic

/-- A congruential generator of 64 bits, of which the upper ones are drawn. -/
def Generator.congruential : Generator where
  seeded seed := seed.toNat
  draw state :=
    let after := UInt64.ofNat state * 6364136223846793005 + 1442695040888963407
    ((Number.Binary.finite false (after >>> 40).toNat (-24)).toSingle, after.toNat)

/-- The generator in a state that is given by bytes. -/
def Random.ofBytes (bytes : ByteArray) : Random where
  generator := .congruential
  state := bytes.toList.foldl (fun state byte => 256 * state + byte.toNat) 0

/-- Carries a terminal on until there are no more lines to read. -/
partial def converse (terminal : Terminal) : IO Unit := do
  let (event, text, after) := terminal.carryOn
  IO.print text
  if event = .stopped then
    IO.print after.prompt
    (← IO.getStdout).flush
    let line ← (← IO.getStdin).getLine
    if line.isEmpty then return () else converse (after.takeLine line)
  else converse after

end LineBasic

def main (arguments : List String) : IO UInt32 := do
  match LineBasic.Options.withWords {} arguments with
  | .ok options =>
      let random := LineBasic.Random.ofBytes (← IO.getRandomBytes 8)
      LineBasic.converse (.start options random (fun _ => none) [])
      return 0
  | .error word =>
      IO.eprintln ("unexpected argument: " ++ word)
      IO.eprintln "usage: linebasic [--trace] [--cwd FOLDER] [PROGRAM]"
      return 2
