import VariantChess.Proofs.Afresh
import VariantChess.Proofs.Validity
import VariantChess.Setup

/-!
Setups and the boards made of them. A list of placements on different squares is kept as it is, and the
board made of it holds on every square the unmoved piece that was placed there, if the board has the
squares and the types. Taking a position apart and setting it up again gives it back afresh.
-/

namespace VariantChess

namespace Placement

def piece (p : Placement) : Piece := .unmoved p.square p.side p.kind

def ofPiece (q : Piece) : Placement := ⟨q.square, q.kind, q.side⟩

/-- The square is on the board and the type is known there. -/
def Suits (d : Dimensions) (p : Placement) : Prop := d.contains p.square = true ∧ p.kind < d.kinds

instance (d : Dimensions) : DecidablePred (Suits d) := fun p =>
  inferInstanceAs (Decidable (d.contains p.square = true ∧ p.kind < d.kinds))

end Placement

namespace Setup

variable {u : Setup} {s : Square} {p : Placement}

/-- No square is used twice. -/
def Distinct (placements : List Placement) : Prop := (placements.map (·.square)).Nodup

theorem spec_of_get? (h : u.get? s = some p) : p ∈ u.placements ∧ p.square = s :=
  ⟨List.mem_of_find?_eq_some h, by simpa using List.find?_some h⟩

theorem get?_eq_some_iff (distinct : Distinct u.placements) :
    u.get? s = some p ↔ p ∈ u.placements ∧ p.square = s := by
  refine ⟨spec_of_get?, ?_⟩
  rintro ⟨listed, rfl⟩
  cases found : u.get? p.square with
  | none => simpa using List.find?_eq_none.1 found p listed
  | some q =>
      obtain ⟨other, same⟩ := spec_of_get? found
      rw [List.inj_on_of_nodup_map distinct other listed same]

theorem place_of_free {q : Placement} (free : ∀ p ∈ u.placements, p.square ≠ q.square) :
    u.place q = { u with placements := u.placements ++ [q] } := by
  have kept : u.placements.filter (·.square != q.square) = u.placements := by
    rw [List.filter_eq_self]
    intro p listed
    exact bne_iff_ne.2 (free p listed)
  rw [place, clear, kept]

/-- Placements on different squares are kept in the order they were made. -/
theorem ofPlacements_eq {d : Dimensions} {placements : List Placement} {side : Side}
    (distinct : Distinct placements) : ofPlacements d placements side = ⟨d, placements, side⟩ := by
  have grow (done rest : List Placement) (distinct : Distinct (done ++ rest)) :
      rest.foldl place ⟨d, done, side⟩ = ⟨d, done ++ rest, side⟩ := by
    induction rest generalizing done with
    | nil => simp
    | cons q rest ih =>
        have free : ∀ p ∈ done, p.square ≠ q.square := by
          intro p listed same
          rw [Distinct, List.map_append, List.nodup_append] at distinct
          exact distinct.2.2 _ (List.mem_map_of_mem listed) _ (by simp) same
        rw [List.append_cons] at distinct ⊢
        rw [List.foldl_cons, place_of_free free, ih _ distinct]
  exact grow [] placements distinct

/-! The board of a setup. -/

theorem put_of_suits {b : Board} (suits : p.Suits b.dims) :
    put b p = .ok (b.set p.square (some p.piece)) := by
  have inside : b.contains p.square = true := suits.1
  rw [put, inside, if_neg (Nat.not_le.2 suits.2)]
  rfl

theorem put_eq_ok {b c : Board} :
    put b p = .ok c ↔ p.Suits b.dims ∧ c = b.set p.square (some p.piece) := by
  refine ⟨?_, ?_⟩
  · intro made
    unfold put at made
    split at made
    · cases made
    · rename_i inside
      split at made
      · cases made
      · rename_i known
        exact ⟨⟨by simpa [Board.contains] using inside, Nat.not_le.1 known⟩,
          (Except.ok.inj made).symm⟩
  · rintro ⟨suits, rfl⟩
    exact put_of_suits suits

/-- What every placement keeps, all of them keep. -/
theorem foldlM_put_induction {P : Board → Prop} {b c : Board} {placements : List Placement}
    (first : P b) (step : ∀ b (p : Placement), P b → p.Suits b.dims →
      P (b.set p.square (some p.piece)))
    (made : placements.foldlM put b = .ok c) : P c := by
  induction placements generalizing b with
  | nil =>
      cases made
      exact first
  | cons p rest ih =>
      rw [List.foldlM_cons] at made
      obtain ⟨next, placed, made⟩ := bind_eq_ok.1 made
      obtain ⟨suits, rfl⟩ := put_eq_ok.1 placed
      exact ih (step b p first suits) made

theorem foldlM_put {b : Board} {placements : List Placement} (distinct : Distinct placements)
    (suits : ∀ p ∈ placements, p.Suits b.dims) :
    ∃ c, placements.foldlM put b = .ok c ∧ c.dims = b.dims ∧
      ∀ s, c.pieceOn s =
        ((placements.find? (·.square == s)).map Placement.piece).or (b.pieceOn s) := by
  induction placements generalizing b with
  | nil => exact ⟨b, rfl, rfl, fun _ => rfl⟩
  | cons p rest ih =>
      obtain ⟨apart, distinct⟩ := List.nodup_cons.1 distinct
      obtain ⟨first, others⟩ := List.forall_mem_cons.1 suits
      obtain ⟨c, made, dims, on⟩ := ih (b := b.set p.square (some p.piece)) distinct others
      refine ⟨c, ?_, dims, ?_⟩
      · rw [List.foldlM_cons, put_of_suits first]
        exact made
      · intro s
        rw [on, Board.pieceOn_set first.1, List.find?_cons]
        by_cases here : s = p.square
        · subst here
          have later : rest.find? (·.square == p.square) = none := by
            rw [List.find?_eq_none]
            intro q listed same
            exact apart (List.mem_map.2 ⟨q, listed, eq_of_beq same⟩)
          rw [later, if_pos rfl, beq_self_eq_true]
          rfl
        · rw [if_neg here, beq_false_of_ne (Ne.symm here)]

/-- No placement changes the shape of the board. -/
theorem dims_of_position {pos : Position} (made : u.position = .ok pos) :
    pos.board.dims = u.dims := by
  obtain ⟨b, found, made⟩ := bind_eq_ok.1 made
  obtain rfl := Except.ok.inj made
  exact foldlM_put_induction (P := fun b => b.dims = u.dims) rfl (fun _ _ kept _ => kept) found

theorem board_eq_ok (distinct : Distinct u.placements)
    (suits : ∀ p ∈ u.placements, p.Suits u.dims) :
    ∃ b, u.board = .ok b ∧ b.dims = u.dims ∧ ∀ s, b.pieceOn s = (u.get? s).map Placement.piece := by
  obtain ⟨b, made, dims, on⟩ := foldlM_put (b := .empty u.dims) distinct suits
  refine ⟨b, made, dims, ?_⟩
  intro s
  rw [on, Board.pieceOn_empty, Option.or_none]
  rfl

/-! The setup of a position. -/

section OfPosition

variable {pos : Position} (sane : pos.board.isSane = true)
include sane

theorem distinct_pieces : Distinct (pos.board.pieces.map Placement.ofPiece) := by
  rw [Distinct, List.map_map]
  exact Board.squares_pieces_nodup sane

theorem ofPosition_eq : ofPosition pos =
    ⟨pos.board.dims, pos.board.pieces.map Placement.ofPiece, pos.toMove⟩ :=
  ofPlacements_eq (distinct_pieces sane)

theorem get?_ofPosition (s : Square) :
    (ofPosition pos).get? s = (pos.board.pieceOn s).map Placement.ofPiece := by
  rw [ofPosition_eq sane]
  apply Option.ext
  intro p
  rw [get?_eq_some_iff (distinct_pieces sane), Option.map_eq_some_iff]
  simp only [List.mem_map, Board.mem_pieces_iff_pieceOn sane]
  refine ⟨?_, ?_⟩
  · rintro ⟨⟨q, on, rfl⟩, rfl⟩
    exact ⟨q, on, rfl⟩
  · rintro ⟨q, on, rfl⟩
    have named := Board.square_of_pieceOn sane on
    exact ⟨⟨q, named ▸ on, rfl⟩, named⟩

theorem suits_ofPosition (known : ∀ q ∈ pos.board.pieces, q.kind < pos.board.dims.kinds) :
    ∀ p ∈ (ofPosition pos).placements, p.Suits pos.board.dims := by
  rw [ofPosition_eq sane, List.forall_mem_map]
  intro q listed
  exact ⟨Board.contains_of_pieceOn ((Board.mem_pieces_iff_pieceOn sane).1 listed), known q listed⟩

/-- A setup that shows the same on every square as a position gives that position afresh. -/
theorem position_of_shows (distinct : Distinct u.placements) (dims : u.dims = pos.board.dims)
    (turn : u.toMove = pos.toMove) (shows : ∀ s, u.get? s = (ofPosition pos).get? s)
    (known : ∀ q ∈ pos.board.pieces, q.kind < pos.board.dims.kinds) :
    u.position = .ok pos.fresh := by
  have suits : ∀ p ∈ u.placements, p.Suits u.dims := by
    intro p listed
    have shown := (get?_eq_some_iff distinct).2 ⟨listed, rfl⟩
    rw [dims]
    exact suits_ofPosition sane known p (spec_of_get? (shows _ ▸ shown)).1
  obtain ⟨b, made, size, on⟩ := board_eq_ok distinct suits
  have board : b = pos.board.fresh := by
    refine Board.ext_pieceOn (size.trans dims) ?_
    intro s
    rw [on, shows, get?_ofPosition sane, Board.pieceOn_fresh, Option.map_map]
    rfl
  rw [position, made, board, turn]
  rfl

theorem position_ofPosition (known : ∀ q ∈ pos.board.pieces, q.kind < pos.board.dims.kinds) :
    (ofPosition pos).position = .ok pos.fresh := by
  have same := ofPosition_eq sane
  refine position_of_shows sane ?_ ?_ ?_ (fun _ => rfl) known
  · rw [same]
    exact distinct_pieces sane
  · rw [same]
  · rw [same]

end OfPosition

end Setup

end VariantChess
