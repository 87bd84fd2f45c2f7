import VariantChess.Position
import VariantChess.Stored

/-!
The stored forms of squares, pieces, moves, boards and positions. A board is stored cell by cell, and
restored only if its cells are in order.
-/

namespace VariantChess

namespace Square

def toDatum (s : Square) : Datum := .record [("row", store s.row), ("col", store s.col)]

def ofDatum? (d : Datum) : Option Square := do
  match ← d.fields? ["row", "col"] with
  | [row, col] => return ⟨← restore? row, ← restore? col⟩
  | _ => none

instance : Stored Square := ⟨toDatum, ofDatum?⟩

end Square

namespace Side

def storedName : Side → String
  | white => "White"
  | black => "Black"

instance : Stored Side := .constants all storedName

end Side

namespace Dimensions

def toDatum (d : Dimensions) : Datum :=
  .record [("num_rows", store d.rows), ("num_cols", store d.cols), ("num_piece_types", store d.kinds)]

def ofDatum? (d : Datum) : Option Dimensions := do
  match ← d.fields? ["num_rows", "num_cols", "num_piece_types"] with
  | [rows, cols, kinds] => return ⟨← restore? rows, ← restore? cols, ← restore? kinds⟩
  | _ => none

instance : Stored Dimensions := ⟨toDatum, ofDatum?⟩

end Dimensions

namespace Piece

def toDatum (p : Piece) : Datum :=
  .record [("location", store p.square), ("color", store p.side), ("type_index", store p.kind),
    ("has_moved_yet", store p.moved)]

def ofDatum? (d : Datum) : Option Piece := do
  match ← d.fields? ["location", "color", "type_index", "has_moved_yet"] with
  | [square, side, kind, moved] =>
    return ⟨← restore? square, ← restore? side, ← restore? kind, ← restore? moved⟩
  | _ => none

instance : Stored Piece := ⟨toDatum, ofDatum?⟩

end Piece

namespace Action

def toDatum : Action → Datum
  | go s => .record [("SelfMove", store s)]
  | swap s => .record [("Exchange", store s)]

def ofDatum? (d : Datum) : Option Action := do
  match ← d.case? with
  | ("SelfMove", some s) => return go (← restore? s)
  | ("Exchange", some s) => return swap (← restore? s)
  | _ => none

instance : Stored Action := ⟨toDatum, ofDatum?⟩

end Action

namespace Move

def toDatum (m : Move) : Datum := .record [("piece", store m.piece), ("kind", store m.action)]

def ofDatum? (d : Datum) : Option Move := do
  match ← d.fields? ["piece", "kind"] with
  | [piece, action] => return ⟨← restore? piece, ← restore? action⟩
  | _ => none

instance : Stored Move := ⟨toDatum, ofDatum?⟩

end Move

/-- A board as stored, before its cells are checked. -/
structure BoardRecord where
  dims : Dimensions
  cells : List (Option Piece)
deriving DecidableEq, Repr

namespace BoardRecord

def ofBoard (b : Board) : BoardRecord := ⟨b.dims, b.cells.toList⟩

def board (r : BoardRecord) : Except Error Board := Board.ofCells r.dims r.cells

def toDatum (r : BoardRecord) : Datum := .record [("info", store r.dims), ("squares", store r.cells)]

def ofDatum? (d : Datum) : Option BoardRecord := do
  match ← d.fields? ["info", "squares"] with
  | [dims, cells] => return ⟨← restore? dims, ← restore? cells⟩
  | _ => none

instance : Stored BoardRecord := ⟨toDatum, ofDatum?⟩

end BoardRecord

namespace Board

def toDatum (b : Board) : Datum := store (BoardRecord.ofBoard b)

def ofDatum? (d : Datum) : Option Board := (BoardRecord.ofDatum? d).bind (·.board.toOption)

instance : Stored Board := ⟨toDatum, ofDatum?⟩

end Board

namespace Status

def all : List Status := [ongoing, checkmate, stalemate]

def storedName : Status → String
  | ongoing => "NotOver"
  | checkmate => "Checkmate"
  | stalemate => "Stalemate"

instance : Stored Status := .constants all storedName

end Status

namespace Position

def toDatum (p : Position) : Datum :=
  .record [("board", store p.board), ("player_to_move", store p.toMove), ("status", store p.status),
    ("captured_pieces", store p.captured)]

def ofDatum? (d : Datum) : Option Position := do
  match ← d.fields? ["board", "player_to_move", "status", "captured_pieces"] with
  | [board, toMove, status, captured] =>
    return ⟨← restore? board, ← restore? toMove, ← restore? status, ← restore? captured⟩
  | _ => none

instance : Stored Position := ⟨toDatum, ofDatum?⟩

end Position

end VariantChess
