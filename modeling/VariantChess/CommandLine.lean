import VariantChess.Game.Generated
import VariantChess.Random.Stream

/-!
The command line: it generates a game from a seed and counts its moves to a given depth. Options are
read from left to right, and the first of them that is wrong, or that asks for help or the version,
decides.
-/

namespace VariantChess.CommandLine

structure Options where
  seed : Option Nat
  depth : Option Nat
deriving DecidableEq, Repr

inductive Request
  | count (options : Options)
  | help
  | version
  /-- The arguments make no sense; the exit code is 2. -/
  | misuse
deriving DecidableEq, Repr

def Options.none : Options := ⟨Option.none, Option.none⟩

def defaultDepth : Nat := 3

/-- The value of an option, of 64 bits. -/
def readValue? (text : List Char) : Option Nat := Decimal.readBelow? UInt64.size text

/-- Sets an option that has not been set before. -/
def Options.set? (o : Options) (name : List Char) (value : List Char) : Option Options := do
  let n ← readValue? value
  if name = "seed".toList && o.seed.isNone then return { o with seed := n }
  else if name = "depth".toList && o.depth.isNone then return { o with depth := n }
  else Option.none

/-- Is it an option rather than a value? -/
def isFlag : List Char → Bool
  | '-' :: _ :: _ => true
  | _ => false

def requestFrom (o : Options) : List (List Char) → Request
  | [] => .count o
  | [['-', '-']] => .count o
  | arg :: rest =>
    match arg with
    | '-' :: '-' :: long =>
      if long = "help".toList then .help
      else if long = "version".toList then .version
      else if long.contains '=' then
        match o.set? (long.takeWhile (· != '=')) ((long.dropWhile (· != '=')).drop 1) with
        | some o => requestFrom o rest
        | none => .misuse
      else match rest with
        | value :: rest =>
          if isFlag value then .misuse
          else match o.set? long value with
            | some o => requestFrom o rest
            | none => .misuse
        | [] => .misuse
    | '-' :: 'h' :: _ => .help
    | '-' :: 'V' :: _ => .version
    | _ => .misuse

def request (args : List String) : Request := requestFrom .none (args.map String.toList)

/-- The game of a seed, with the names of the colours for players. -/
def gameOfSeed (seed : Nat) : Game :=
  ((Game.generate "white" "black").run (Stream.ofSeed (UInt64.ofNat seed))).1

def seedLine (seed : Nat) : String := s!"Seed {seed}"

def legalLine (g : Game) : String := s!"Legal moves: {(g.current.legal g.types).length}"

def perftLine (g : Game) (depth : Nat) : String := s!"Perft {depth}: {perft g.types depth g.current}"

/-- The lines for a request to count, with `fallback` for a seed that is not given. -/
def countLines (o : Options) (fallback : Nat) : List String :=
  let seed := o.seed.getD fallback
  let g := gameOfSeed seed
  seedLine seed :: legalLine g ::
    (List.range' 1 (o.depth.getD defaultDepth)).map (perftLine g)

def helpLines : List String :=
  ["Generate a fairy chess game and count its moves", "",
    "Usage: fairy_chess [OPTIONS]", "",
    "Options:",
    "      --seed <SEED>    Seed for the piece type generator.  A random seed is used when omitted",
    "      --depth <DEPTH>  How many plies deep to run perft [default: 3]",
    "  -h, --help           Print help",
    "  -V, --version        Print version"]

def versionLines : List String := ["fairy_chess 0.1.0"]

/-- The exit code and the lines of a run, without the times that perft takes. -/
def answer (args : List String) (fallback : Nat) : Nat × List String :=
  match request args with
  | .count o => (0, countLines o fallback)
  | .help => (0, helpLines)
  | .version => (0, versionLines)
  | .misuse => (2, [])

end VariantChess.CommandLine
