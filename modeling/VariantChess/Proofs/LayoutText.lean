import VariantChess.Proofs.GridText
import VariantChess.Proofs.Placement

/-!
The text layout as a whole. A setup on a board whose rows and columns 32-bit coordinates can count is
written row by row from the top, and what is read back has the same piece on every square, its
placements now in the order of the text. A setup that was read is in that order already, so writing it
and reading it again changes nothing, whatever text it was read from.
-/

namespace VariantChess

namespace Setup

open Layout

variable {u : Setup} {rows cols : Nat}

/-- The rows of a layout of this size, from the top. -/
def gridChars (u : Setup) (rows cols : Nat) : List Char :=
  ['/'].intercalate ((List.range rows).reverse.map (u.rowChars cols))

/-- What the rows say. -/
def grid (u : Setup) (rows cols : Nat) : List (List Item) :=
  (List.range rows).reverse.map fun (row : Nat) => squeeze (rowItems cols 0 (u.rowMen row cols))

/-- As many rows and columns are written as the survey counts. -/
theorem layoutChars_eq (u : Setup) :
    u.layoutChars = u.gridChars (coordinateLength u.dims.rows).toNat
      (coordinateLength u.dims.cols).toNat ++ [' ', sideLetter u.toMove] := by
  simp only [layoutChars, gridChars, Survey.ofDimensions]
  cases u.toMove <;> rfl

section Lettered

variable (known : ∀ p ∈ u.placements, p.kind < 6)
include known

theorem plain_rowChars (row : Nat) :
    ∀ c ∈ u.rowChars cols row, Text.isBlank c = false ∧ c ≠ '/' := by
  intro c listed
  rcases mem_chars_rowItems (ranked_rowMen known) listed with digit | ⟨kind, side, letter, rfl⟩
  · refine ⟨isBlank_of_isDigit digit, ?_⟩
    rintro rfl
    cases digit
  · exact plain_letter letter side

theorem plain_gridChars : ∀ c ∈ u.gridChars rows cols, Text.isBlank c = false := by
  refine forall_mem_intercalate (by decide) ?_
  simp only [List.forall_mem_map]
  intro row _ c listed
  exact (plain_rowChars known row c listed).1

theorem rowWidth_of_mem_grid : ∀ items ∈ u.grid rows cols, rowWidth items = cols := by
  simp only [grid, List.forall_mem_map]
  intro row _
  rw [rowWidth_squeeze, rowWidth_rowItems (ranked_rowMen known), Nat.sub_zero]

theorem width_grid (some_row : 0 < rows) :
    ((u.grid rows cols).map rowWidth).headD 0 = cols := by
  have same : ∀ items ∈ u.grid rows cols, rowWidth items = cols := rowWidth_of_mem_grid known
  have size : (u.grid rows cols).length = rows := by simp [grid]
  cases listed : u.grid rows cols with
  | nil => simp [listed, some_row.ne] at size
  | cons items rest => exact same items (listed ▸ List.mem_cons_self)

theorem readGrid?_gridChars (some_row : 0 < rows) (fits : cols < UInt64.size)
    (some_text : u.gridChars rows cols ≠ []) (side : Side) :
    readGrid? (u.gridChars rows cols ++ [' ', sideLetter side]) =
      some (u.grid rows cols, side) := by
  have turn : readSide? [[sideLetter side]] = some side := by
    cases side <;> rfl
  have split : (u.gridChars rows cols).splitOn '/' =
      (List.range rows).reverse.map (u.rowChars cols) := by
    refine List.splitOn_intercalate '/' ?_ ?_
    · simp only [List.forall_mem_map]
      intro row _ slash
      exact (plain_rowChars known row _ slash).2 rfl
    · simpa using Nat.pos_iff_ne_zero.1 some_row
  have read (row : Nat) : readRow? (u.rowChars cols row) =
      some (squeeze (rowItems cols 0 (u.rowMen row cols))) :=
    readRow?_rowItems (ranked_rowMen known) fits
  have items : ((List.range rows).reverse.map (u.rowChars cols)).mapM readRow? =
      some (u.grid rows cols) := by
    rw [List.mapM_map]
    exact (congrArg (List.mapM · _) (funext read)).trans List.mapM_pure
  have level : (u.grid rows cols).all (rowWidth · == cols) = true := by
    simpa using rowWidth_of_mem_grid known
  simp only [readGrid?, words_append_side (plain_gridChars known) some_text, turn, split, items,
    Option.bind_eq_bind, Option.bind_some, width_grid known some_row, level, if_true]

theorem ofLayout_gridChars (some_row : 0 < rows) (fits : cols < UInt64.size)
    (some_text : u.gridChars rows cols ≠ []) (side : Side) :
    ofLayout (String.ofList (u.gridChars rows cols ++ [' ', sideLetter side])) = (do
      let dims ← Dimensions.make rows cols 6
      return ofPlacements dims (gridPlacements dims.rows (u.grid rows cols)) side) := by
  have read := readGrid?_gridChars known some_row fits some_text side
  have size : (u.grid rows cols).length = rows := by simp [grid]
  rw [ofLayout, String.toList_ofList, read]
  dsimp only
  rw [size, width_grid known some_row]

end Lettered

/-! Writing and reading. -/

/-- On the board and with a letter for every piece type. -/
structure Legible (u : Setup) : Prop where
  dims : Dimensions.make u.dims.rows u.dims.cols u.dims.kinds = .ok u.dims
  standard : u.dims.kinds = 6
  suits : ∀ p ∈ u.placements, p.Suits u.dims

theorem Legible.known (legible : u.Legible) : ∀ p ∈ u.placements, p.kind < 6 := by
  intro p listed
  rw [← legible.standard]
  exact (legible.suits p listed).2

/-- The same pieces in the order of the text. -/
def ordered (u : Setup) : Setup :=
  { u with placements := gridPlacements u.dims.rows (u.grid u.dims.rows u.dims.cols) }

theorem before_ordered (u : Setup) : u.ordered.placements.Pairwise Placement.Before :=
  before_gridPlacements _ _

theorem mem_ordered (known : ∀ p ∈ u.placements, p.kind < 6) {p : Placement} :
    p ∈ u.ordered.placements ↔ u.dims.contains p.square = true ∧ u.get? p.square = some p := by
  simp only [ordered, grid, gridPlacements_range, rowPlacements_squeeze,
    rowPlacements_rowItems (ranked_rowMen known), List.mem_flatMap, List.mem_reverse, List.mem_range,
    List.mem_map, Prod.exists, mem_rowMen]
  refine ⟨?_, ?_⟩
  · rintro ⟨row, high, col, kind, side, ⟨right, got⟩, rfl⟩
    exact ⟨Dimensions.contains_iff.2 (by dsimp only; omega), got⟩
  · obtain ⟨⟨row, col⟩, kind, side⟩ := p
    rintro ⟨inside, got⟩
    obtain ⟨low, left, high, right⟩ := Dimensions.contains_iff.1 inside
    dsimp only at low left high right got
    obtain ⟨row, rfl⟩ := Int.eq_ofNat_of_zero_le low
    obtain ⟨col, rfl⟩ := Int.eq_ofNat_of_zero_le left
    exact ⟨row, by omega, col, kind, side, ⟨by omega, got⟩, rfl⟩

theorem get?_ordered (legible : u.Legible) (s : Square) : u.ordered.get? s = u.get? s := by
  apply Option.ext
  intro p
  rw [get?_eq_some_iff (distinct_of_before u.before_ordered), mem_ordered legible.known]
  refine ⟨?_, ?_⟩
  · rintro ⟨⟨_, got⟩, rfl⟩
    exact got
  · intro got
    obtain ⟨listed, rfl⟩ := spec_of_get? got
    exact ⟨⟨(legible.suits p listed).1, got⟩, rfl⟩

/-- Reading gives the pieces in the order of the text. -/
theorem ofLayout_layout (legible : u.Legible) (addressable : u.dims.Addressable) :
    ofLayout u.layout = .ok u.ordered := by
  obtain ⟨_, tall, wide, _⟩ := Dimensions.eq_of_make legible.dims
  have made : Dimensions.make u.dims.rows u.dims.cols 6 = .ok u.dims := by
    rw [← legible.standard]
    exact legible.dims
  have fits : u.dims.cols < UInt64.size := lt_size64_of_two_mul_lt addressable.2
  have some_text : u.gridChars u.dims.rows u.dims.cols ≠ [] := by
    refine intercalate_ne_nil '/' ?_
    rw [List.length_map, List.length_reverse, List.length_range]
    omega
  have read := ofLayout_gridChars legible.known (by omega) fits some_text u.toMove
  rw [layout, layoutChars_eq, coordinateLength_of_lt addressable.1,
    coordinateLength_of_lt addressable.2, Int.toNat_natCast, Int.toNat_natCast, read, made]
  exact congrArg Except.ok (ofPlacements_eq (distinct_of_before u.before_ordered))

theorem ofLayout_of_readGrid? {text : String} {grid : List (List Item)} {side : Side}
    (read : readGrid? text.toList = some (grid, side)) : ofLayout text =
      (Dimensions.make grid.length ((grid.map rowWidth).headD 0) 6).map fun d =>
        ⟨d, gridPlacements d.rows grid, side⟩ := by
  rw [ofLayout, read]
  dsimp only
  cases Dimensions.make grid.length ((grid.map rowWidth).headD 0) 6 with
  | error e => rfl
  | ok d => exact congrArg Except.ok (ofPlacements_eq (distinct_of_before (before_gridPlacements _ _)))

/-- What was read is legible and in order. -/
theorem legible_of_ofLayout {text : String} (h : ofLayout text = .ok u) :
    u.Legible ∧ u.placements.Pairwise Placement.Before := by
  cases read : readGrid? text.toList with
  | none =>
      rw [ofLayout, read] at h
      cases h
  | some found =>
      obtain ⟨rows, side⟩ := found
      rw [ofLayout_of_readGrid? read] at h
      obtain ⟨d, made, rfl⟩ := map_eq_ok.1 h
      obtain ⟨rfl, tall, wide, some_kind⟩ := Dimensions.eq_of_make made
      refine ⟨⟨made, rfl, ?_⟩, before_gridPlacements rows.length rows⟩
      intro p listed
      obtain ⟨low, high, items, among, left, right, man⟩ := spec_of_mem_gridPlacements listed
      obtain ⟨width, known⟩ := spec_of_readGrid? read items among
      rw [width] at right
      exact ⟨Dimensions.contains_iff.2 ⟨low, left, high, right⟩, known _ _ man⟩

/-- A setup that is in order already is written and read back as it is. -/
theorem ordered_eq (legible : u.Legible) (order : u.placements.Pairwise Placement.Before) :
    u.ordered = u := by
  have same : u.ordered.placements = u.placements := by
    refine eq_of_before u.before_ordered order ?_
    intro p
    rw [mem_ordered legible.known, get?_eq_some_iff (distinct_of_before order)]
    refine ⟨fun shown => shown.2.1, ?_⟩
    intro listed
    exact ⟨(legible.suits p listed).1, listed, rfl⟩
  exact congrArg (fun placements => { u with placements }) same

/-- Without rows the letter of the side is read as the rows, which it cannot be. -/
theorem ofLayout_sideLetter (side : Side) (v : Setup) :
    ofLayout (String.ofList [' ', sideLetter side]) ≠ .ok v := by
  intro h
  rw [ofLayout, String.toList_ofList] at h
  cases side with
  | white =>
      have unread : readGrid? [' ', sideLetter .white] = none := by decide
      rw [unread] at h
      cases h
  | black =>
      have bishop : readGrid? [' ', sideLetter .black] = some ([[.man 3 .black]], .white) := by decide
      rw [bishop] at h
      cases h

/-- The survey of a board that is too large counts fewer rows or columns than it has. -/
theorem addressable_of_ofLayout_layout {v : Setup} (known : ∀ p ∈ u.placements, p.kind < 6)
    (h : ofLayout u.layout = .ok v) (same : v.dims = u.dims) : u.dims.Addressable := by
  have counted (n : Nat) : 2 * (coordinateLength n).toNat < UInt32.size := by
    have bound : Int.bmod n 4294967296 < (4294967296 + 1) / 2 := Int.bmod_lt (by decide)
    unfold coordinateLength UInt32.size
    omega
  have low := counted u.dims.rows
  have narrow := counted u.dims.cols
  rw [layout, layoutChars_eq] at h
  generalize (coordinateLength u.dims.rows).toNat = rows at h low
  generalize (coordinateLength u.dims.cols).toNat = cols at h narrow
  by_cases some_text : u.gridChars rows cols = []
  · rw [some_text, List.nil_append] at h
    cases (ofLayout_sideLetter u.toMove v h)
  · have some_row : 0 < rows := by
      refine Nat.pos_of_ne_zero ?_
      rintro rfl
      exact some_text rfl
    have fits : cols < UInt64.size := lt_size64_of_two_mul_lt narrow
    rw [ofLayout_gridChars known some_row fits some_text] at h
    obtain ⟨d, made, h⟩ := bind_eq_ok.1 h
    obtain ⟨rfl, _⟩ := Dimensions.eq_of_make made
    obtain rfl := Except.ok.inj h
    rw [ofPlacements_eq (distinct_of_before (before_gridPlacements _ _))] at same
    rw [← same]
    exact ⟨low, narrow⟩

/-! The main statement. -/

theorem legible_ofPosition {pos : Position} (valid : pos.board.Valid)
    (standard : pos.board.dims.kinds = 6) : (ofPosition pos).Legible := by
  have same := ofPosition_eq valid.sane
  have suits := suits_ofPosition valid.sane valid.known
  rw [same] at suits ⊢
  exact ⟨Dimensions.make_eq_ok.2 ⟨valid.rows, valid.cols, valid.kinds⟩, standard, suits⟩

/-- A layout is read back exactly if its board has no more rows and columns than 32-bit coordinates can
count. Then every square shows what it showed; a setup that was read comes back the same; and a position
comes back as it stands, with nothing moved or taken and the game going on. -/
theorem layout_round_trip :
    (∀ u : Setup, u.Legible →
      ((∃ v, ofLayout u.layout = .ok v ∧ v.dims = u.dims ∧ v.toMove = u.toMove ∧
        ∀ s, v.get? s = u.get? s) ↔ u.dims.Addressable)) ∧
    (∀ text u, ofLayout text = .ok u → (ofLayout u.layout = .ok u ↔ u.dims.Addressable)) ∧
    ∀ pos : Position, pos.board.Valid → pos.board.dims.kinds = 6 →
      ((∃ v q, ofLayout (ofPosition pos).layout = .ok v ∧ v.position = .ok q ∧ pos.Alike q ∧
        (∀ piece ∈ q.board.pieces, piece.moved = false) ∧ q.captured = [] ∧ q.status = .ongoing) ↔
      pos.board.dims.Addressable) := by
  refine ⟨?_, ?_, ?_⟩
  · intro u legible
    refine ⟨?_, ?_⟩
    · rintro ⟨v, read, same, _⟩
      exact addressable_of_ofLayout_layout legible.known read same
    · intro addressable
      exact ⟨u.ordered, ofLayout_layout legible addressable, rfl, rfl, get?_ordered legible⟩
  · intro text u read
    obtain ⟨legible, order⟩ := legible_of_ofLayout read
    refine ⟨fun again => addressable_of_ofLayout_layout legible.known again rfl, ?_⟩
    intro addressable
    rw [ofLayout_layout legible addressable, ordered_eq legible order]
  · intro pos valid standard
    have legible := legible_ofPosition valid standard
    have dims : (ofPosition pos).dims = pos.board.dims := by rw [ofPosition_eq valid.sane]
    have turn : (ofPosition pos).toMove = pos.toMove := by rw [ofPosition_eq valid.sane]
    refine ⟨?_, ?_⟩
    · rintro ⟨v, q, read, setUp, alike, _⟩
      have same := (dims_of_position setUp).symm.trans alike.dims
      rw [← dims] at same ⊢
      exact addressable_of_ofLayout_layout legible.known read same
    · intro addressable
      rw [← dims] at addressable
      have setUp : (ofPosition pos).ordered.position = .ok pos.fresh :=
        position_of_shows valid.sane (distinct_of_before (before_ordered _)) dims turn
          (get?_ordered legible) valid.known
      refine ⟨_, pos.fresh, ofLayout_layout legible addressable, setUp, Position.alike_fresh pos, ?_,
        rfl, rfl⟩
      rw [show pos.fresh.board = pos.board.fresh from rfl, Board.pieces_fresh, List.forall_mem_map]
      intro piece _
      rfl

end Setup

/-! Twelve columns, read from a text with superfluous zeros and words. -/

namespace Wide

def dims : Dimensions := ⟨4, 12, 6⟩

def text : String := "12/007p4/k11/00K0b010  b tail"

def setup : Setup := ⟨dims,
  [⟨⟨2, 7⟩, 0, .black⟩, ⟨⟨1, 0⟩, 5, .black⟩, ⟨⟨0, 0⟩, 5, .white⟩, ⟨⟨0, 1⟩, 3, .black⟩], .black⟩

def shuffled : Setup := { setup with placements := setup.placements.reverse }

/-- The pawn has moved, and has taken a knight. -/
def position : Position :=
  ⟨setup.placements.foldl (fun b p => b.set p.square (some ⟨p.square, p.side, p.kind, p.kind == 0⟩))
    (.empty dims), .black, .checkmate, [.unmoved ⟨2, 7⟩ .white 2]⟩

open Setup in
theorem superfluous_dropped : ofLayout text = .ok setup ∧ ofLayout setup.layout = .ok setup ∧
    shuffled.placements ≠ setup.placements ∧ shuffled.Legible ∧
    (∃ v, ofLayout shuffled.layout = .ok v ∧ ∀ s, v.get? s = shuffled.get? s) ∧
    position.board.Valid ∧ (∃ piece ∈ position.board.pieces, piece.moved = true) ∧
    ∃ v q, ofLayout (ofPosition position).layout = .ok v ∧ v.position = .ok q ∧ position.Alike q ∧
      q.captured = [] ∧ q.status = .ongoing := by
  have read : ofLayout text = .ok setup := by
    have grid : Layout.readGrid? text.toList = some ([[.gap 12], [.gap 7, .man 0 .black, .gap 4],
        [.man 5 .black, .gap 11], [.gap 0, .man 5 .white, .gap 0, .man 3 .black, .gap 10]], .black) := by
      decide +kernel
    rw [ofLayout, grid]
    rfl
  have addressable : dims.Addressable := by decide
  have legible : shuffled.Legible := by
    refine ⟨rfl, rfl, ?_⟩
    unfold Placement.Suits
    decide
  have valid : position.board.Valid :=
    ⟨by decide, by decide, by decide, by decide +kernel, by decide +kernel⟩
  have moved : ∃ piece ∈ position.board.pieces, piece.moved = true := by decide +kernel
  obtain ⟨setups, texts, positions⟩ := layout_round_trip
  obtain ⟨v, written, _, _, same⟩ := (setups shuffled legible).2 addressable
  obtain ⟨w, q, back, setUp, alike, _, captured, status⟩ :=
    (positions position valid rfl).2 addressable
  exact ⟨read, (texts text setup read).2 addressable, by decide, legible, ⟨v, written, same⟩, valid,
    moved, w, q, back, setUp, alike, captured, status⟩

end Wide

/-! Columns that 32-bit coordinates count as eight. -/

namespace Vast

def setup : Setup := .empty ⟨4, 4294967304, 6⟩

open Setup in
theorem read_back_narrow : setup.Legible ∧ setup.layout = "8/8/8/8 w" ∧
    ofLayout setup.layout = .ok (.empty ⟨4, 8, 6⟩) ∧
    ¬ ∃ v, ofLayout setup.layout = .ok v ∧ v.dims = setup.dims ∧ v.toMove = setup.toMove ∧
      ∀ s, v.get? s = setup.get? s := by
  have legible : setup.Legible := ⟨rfl, rfl, List.forall_mem_nil _⟩
  have rows : coordinateLength setup.dims.rows = 4 := by decide
  have cols : coordinateLength setup.dims.cols = 8 := by decide
  have nobody (row : Nat) : setup.rowMen row 8 = [] := by
    simp [rowMen, columns, setup, Setup.empty]
  have blank : setup.rowChars 8 = fun _ => ['8'] := by
    funext row
    rw [rowChars, nobody]
    decide
  have written : setup.layout = "8/8/8/8 w" := by
    rw [layout, layoutChars_eq, rows, cols, gridChars, show Int.toNat 8 = 8 from rfl, blank]
    decide
  have read : ofLayout setup.layout = .ok (.empty ⟨4, 8, 6⟩) := by
    have grid : Layout.readGrid? "8/8/8/8 w".toList =
        some ([[.gap 8], [.gap 8], [.gap 8], [.gap 8]], .white) := by
      decide +kernel
    rw [written, ofLayout, grid]
    rfl
  refine ⟨legible, written, read, ?_⟩
  rintro ⟨v, again, same, _⟩
  obtain rfl := Except.ok.inj (read.symm.trans again)
  cases same

end Vast

end VariantChess
