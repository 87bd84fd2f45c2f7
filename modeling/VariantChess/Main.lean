import VariantChess.CommandLine

/-!
The program itself. Without a seed it draws one, and it adds to each perft line the time it took.
-/

namespace VariantChess.CommandLine

def milliseconds (n : Nat) : String :=
  let fraction := toString (n % 1000)
  s!"{n / 1000}." ++ String.ofList (List.replicate (3 - fraction.length) '0') ++ fraction

def countMoves (o : Options) : IO Unit := do
  let drawn ← IO.rand 0 (UInt64.size - 1)
  let seed := o.seed.getD drawn
  let g := gameOfSeed seed
  IO.println (seedLine seed)
  IO.println (legalLine g)
  for depth in List.range' 1 (o.depth.getD defaultDepth) do
    let start ← IO.monoMsNow
    let line := perftLine g depth
    if line.isEmpty then return
    let stop ← IO.monoMsNow
    IO.println (line ++ " in " ++ milliseconds (stop - start) ++ " seconds")

end VariantChess.CommandLine

open VariantChess

def main (args : List String) : IO UInt32 := do
  match CommandLine.request args with
  | .count o =>
    CommandLine.countMoves o
    return 0
  | .help =>
    CommandLine.helpLines.forM IO.println
    return 0
  | .version =>
    CommandLine.versionLines.forM IO.println
    return 0
  | .misuse =>
    IO.eprintln "error: invalid arguments; for more information, try --help"
    return 2
