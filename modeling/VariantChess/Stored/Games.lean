import VariantChess.Game
import VariantChess.Stored.Rules

/-!
The stored form of a game, with its whole history.
-/

namespace VariantChess

namespace Players

def toDatum (p : Players) : Datum := .record [("white", store p.white), ("black", store p.black)]

def ofDatum? (d : Datum) : Option Players := do
  match ← d.fields? ["white", "black"] with
  | [white, black] => return ⟨← restore? white, ← restore? black⟩
  | _ => none

instance : Stored Players := ⟨toDatum, ofDatum?⟩

end Players

namespace Game

def toDatum (g : Game) : Datum :=
  .record [("players", store g.players), ("piece_types", store g.types), ("board_info", store g.dims),
    ("states", store g.positions), ("moves", store g.moves), ("notations", store g.notations)]

def ofDatum? (d : Datum) : Option Game := do
  match ← d.fields? ["players", "piece_types", "board_info", "states", "moves", "notations"] with
  | [players, types, dims, positions, moves, notations] =>
    return ⟨← restore? players, ← restore? types, ← restore? dims, ← restore? positions,
      ← restore? moves, ← restore? notations⟩
  | _ => none

instance : Stored Game := ⟨toDatum, ofDatum?⟩

end Game

end VariantChess
