import VariantChess.Moves
import VariantChess.Proofs.Footholds

/-!
Semi-legal moves. On a sane board a piece goes to squares that no friend holds and swaps with
friends on other squares, so a move is known by its piece and its target, and none is listed
twice. The list of a position holds the moves of the pieces of the side to move, each of which
stands where it says.
-/

namespace VariantChess

theorem nodup_eraseDups {α : Type} [BEq α] [LawfulBEq α] (xs : List α) : xs.eraseDups.Nodup := by
  induction h : xs.length using Nat.strong_induction_on generalizing xs with
  | _ n ih =>
      cases xs with
      | nil => simp
      | cons x rest =>
          rw [List.eraseDups_cons, List.nodup_cons]
          refine ⟨?_, ?_⟩
          · simp
          · apply ih _ _ _ rfl
            rw [← h, List.length_cons]
            exact Nat.lt_succ_of_le (List.length_filter_le _ _)

theorem eraseDups_sublist {α : Type} [BEq α] [LawfulBEq α] (xs : List α) :
    xs.eraseDups.Sublist xs := by
  induction h : xs.length using Nat.strong_induction_on generalizing xs with
  | _ n ih =>
      cases xs with
      | nil => exact List.Sublist.slnil
      | cons x rest =>
          have shorter : (rest.filter fun y => !y == x).length < n := by
            rw [← h, List.length_cons]
            exact Nat.lt_succ_of_le (List.length_filter_le _ _)
          rw [List.eraseDups_cons]
          exact ((ih _ shorter _ rfl).trans List.filter_sublist).cons_cons x

namespace Rule

variable {b : Board} {q : Piece} {r : Rule} {s : Square} {m : Move}

theorem mem_havens {refuge : Refuge} {side : Side} : s ∈ havens refuge b side ↔
    s.row = side.homeRow b.dims.rows ∧ b.isEmpty s = true ∧ refuge.admits s = true := by
  simp only [havens, List.mem_filter, List.mem_map, List.mem_range, Bool.and_eq_true]
  refine and_congr_left fun ⟨free, _⟩ => ⟨?_, ?_⟩
  · intro ⟨col, _, here⟩
    rw [← here]
  · intro home
    obtain ⟨_, _, _, _⟩ := Dimensions.contains_iff.1 (Board.isEmpty_iff.1 free).1
    refine ⟨s.col.toNat, by omega, ?_⟩
    ext
    · exact home.symm
    · exact Int.toNat_of_nonneg ‹_›

/-- A piece goes where one of its movers takes it, or back home. -/
theorem exists_of_mem_landings (h : s ∈ r.landings b q) :
    (∃ mover ∈ r.parts, ∃ i, s ∈ mover.destinations i b q) ∨
      ∃ refuge, s ∈ havens refuge b q.side := by
  cases r with
  | simple mover => exact .inl ⟨mover, List.mem_cons_self, _, h⟩
  | exchange partner mover => exact .inl ⟨mover, List.mem_cons_self, _, h⟩
  | retreat refuge mover =>
      rcases List.mem_append.1 h with reached | home
      · exact .inl ⟨mover, List.mem_cons_self, _, reached⟩
      · exact .inr ⟨refuge, home⟩
  | moveCapture movement capture =>
      rcases List.mem_append.1 h with reached | reached
      · exact .inl ⟨capture, List.mem_cons_of_mem _ List.mem_cons_self, _, reached⟩
      · exact .inl ⟨movement, List.mem_cons_self, _, reached⟩
  | combination first second =>
      rcases List.mem_append.1 h with reached | reached
      · exact .inl ⟨first, List.mem_cons_self, _, reached⟩
      · exact .inl ⟨second, List.mem_cons_of_mem _ List.mem_cons_self, _, reached⟩

theorem landing_inside (h : s ∈ r.landings b q) :
    b.contains s = true ∧ b.footing q.side s ≠ .friend := by
  rcases exists_of_mem_landings h with ⟨mover, _, i, reached⟩ | ⟨refuge, home⟩
  · obtain ⟨inside, accepted⟩ := mover.destination_lands reached
    exact ⟨inside, Intent.ne_friend_of_accepts accepted⟩
  · obtain ⟨inside, free⟩ := Board.isEmpty_iff.1 (mem_havens.1 home).2.1
    refine ⟨inside, ?_⟩
    rw [Board.footing_eq_empty.2 free]
    decide

theorem mem_partners (sane : b.isSane = true) :
    s ∈ r.partners b q ↔ ∃ kind mover other, r = .exchange kind mover ∧
      b.pieceOn s = some other ∧ other.side = q.side ∧ other.kind = kind ∧ s ≠ q.square := by
  cases r with
  | exchange kind mover =>
      simp only [partners, List.mem_map, List.mem_filter, Board.mem_piecesOf_iff_pieceOn sane]
      refine ⟨?_, ?_⟩
      · intro ⟨other, ⟨⟨on, friend⟩, wanted⟩, named⟩
        obtain ⟨partner, apart⟩ := Bool.and_eq_true_iff.1 wanted
        rw [named] at on apart
        exact ⟨kind, mover, other, rfl, on, friend, eq_of_beq partner, bne_iff_ne.1 apart⟩
      · intro ⟨_, _, other, same, on, friend, partner, apart⟩
        obtain ⟨wanted, _⟩ := Pattern.exchange.inj same
        have named := Board.square_of_pieceOn sane on
        refine ⟨other, ⟨⟨by rwa [named], friend⟩, ?_⟩, named⟩
        simp [wanted, partner, named, apart]
  | simple | retreat | moveCapture | combination => simp [partners]

theorem mem_moves : m ∈ r.moves b q ↔
    (∃ s ∈ r.landings b q, Move.go q s = m) ∨ ∃ s ∈ r.partners b q, Move.swap q s = m := by
  simp [moves]

theorem piece_of_mem_moves (h : m ∈ r.moves b q) : m.piece = q := by
  rcases mem_moves.1 h with ⟨s, _, rfl⟩ | ⟨s, _, rfl⟩
  · rfl
  · rfl

@[simp] theorem go_mem_moves : Move.go q s ∈ r.moves b q ↔ s ∈ r.landings b q := by
  simp [mem_moves, Move.go, Move.swap]

@[simp] theorem swap_mem_moves : Move.swap q s ∈ r.moves b q ↔ s ∈ r.partners b q := by
  simp [mem_moves, Move.go, Move.swap]

theorem partners_nodup (sane : b.isSane = true) : (r.partners b q).Nodup := by
  cases r with
  | exchange kind mover =>
      exact (Board.squares_piecesOf_nodup sane q.side).sublist (List.filter_sublist.map _)
  | simple | retreat | moveCapture | combination => exact List.nodup_nil

theorem moves_nodup (sane : b.isSane = true) : (r.moves b q).Nodup := by
  have go_injective : Function.Injective (Move.go q) := by
    intro s t same
    exact congrArg Move.target same
  have swap_injective : Function.Injective (Move.swap q) := by
    intro s t same
    exact congrArg Move.target same
  rw [moves, List.nodup_append]
  refine ⟨(nodup_eraseDups _).map go_injective, (partners_nodup sane).map swap_injective, ?_⟩
  intro m gone n swapped same
  obtain ⟨s, _, rfl⟩ := List.mem_map.1 gone
  obtain ⟨t, _, rfl⟩ := List.mem_map.1 swapped
  simp [Move.go, Move.swap] at same

/-- A square can be gone to or swapped with, but not both: a friend stands there or not. -/
theorem eq_of_target_eq (sane : b.isSane = true) {n : Move} (hm : m ∈ r.moves b q)
    (hn : n ∈ r.moves b q) (same : m.target = n.target) : m = n := by
  have exclusive {s : Square} (landing : s ∈ r.landings b q) (partner : s ∈ r.partners b q) :
      False := by
    obtain ⟨_, _, other, _, on, friend, _, _⟩ := (mem_partners sane).1 partner
    exact (landing_inside landing).2 (Board.footing_eq_friend.2 ⟨other, on, friend⟩)
  rcases mem_moves.1 hm with ⟨s, gone, rfl⟩ | ⟨s, swapped, rfl⟩
  · rcases mem_moves.1 hn with ⟨t, _, rfl⟩ | ⟨t, swapped, rfl⟩
    · exact congrArg (Move.go q) same
    · obtain rfl : s = t := same
      exact (exclusive gone swapped).elim
  · rcases mem_moves.1 hn with ⟨t, gone, rfl⟩ | ⟨t, _, rfl⟩
    · obtain rfl : s = t := same
      exact (exclusive gone swapped).elim
    · exact congrArg (Move.swap q) same

end Rule

theorem Board.mem_landings {b : Board} {types : Roster} {q : Piece} {s : Square} :
    s ∈ b.landings types q ↔ ∃ t, types[q.kind]? = some t ∧ s ∈ t.rule.landings b q := by
  unfold landings
  cases types[q.kind]? with
  | none => simp
  | some t => simp

namespace Position

variable {types : Roster} {p : Position} {q : Piece} {m : Move}

theorem mem_semiLegalOf :
    m ∈ p.semiLegalOf types q ↔ ∃ t, types[q.kind]? = some t ∧ m ∈ t.rule.moves p.board q := by
  unfold semiLegalOf
  cases types[q.kind]? with
  | none => simp
  | some t => simp

theorem piece_of_mem_semiLegalOf (h : m ∈ p.semiLegalOf types q) : m.piece = q := by
  obtain ⟨t, _, listed⟩ := mem_semiLegalOf.1 h
  exact Rule.piece_of_mem_moves listed

theorem go_mem_semiLegalOf {s : Square} :
    Move.go q s ∈ p.semiLegalOf types q ↔ s ∈ p.board.landings types q := by
  unfold semiLegalOf Board.landings
  cases types[q.kind]? with
  | none => simp
  | some t => simp

theorem semiLegalOf_nodup (sane : p.board.isSane = true) : (p.semiLegalOf types q).Nodup := by
  unfold semiLegalOf
  split
  · exact List.nodup_nil
  · exact Rule.moves_nodup sane

theorem semiLegalOf_target_injective (sane : p.board.isSane = true) {n : Move}
    (hm : m ∈ p.semiLegalOf types q) (hn : n ∈ p.semiLegalOf types q)
    (same : m.target = n.target) : m = n := by
  obtain ⟨t, found, listed⟩ := mem_semiLegalOf.1 hm
  obtain ⟨u, found', listed'⟩ := mem_semiLegalOf.1 hn
  obtain rfl : t = u := Option.some.inj (found.symm.trans found')
  exact Rule.eq_of_target_eq sane listed listed' same

theorem mem_semiLegal : m ∈ p.semiLegal types ↔
    m.piece ∈ p.board.piecesOf p.toMove ∧ m ∈ p.semiLegalOf types m.piece := by
  simp only [semiLegal, List.mem_flatMap]
  refine ⟨?_, ?_⟩
  · intro ⟨q, standing, listed⟩
    obtain rfl := piece_of_mem_semiLegalOf listed
    exact ⟨standing, listed⟩
  · intro ⟨standing, listed⟩
    exact ⟨m.piece, standing, listed⟩

theorem mem_semiLegal_iff_pieceOn (sane : p.board.isSane = true) : m ∈ p.semiLegal types ↔
    m.piece.side = p.toMove ∧ p.board.pieceOn m.origin = some m.piece ∧
      m ∈ p.semiLegalOf types m.piece := by
  rw [mem_semiLegal, Board.mem_piecesOf_iff_pieceOn sane, Move.origin]
  refine ⟨?_, ?_⟩
  · intro ⟨⟨standing, turn⟩, listed⟩
    exact ⟨turn, standing, listed⟩
  · intro ⟨turn, standing, listed⟩
    exact ⟨⟨standing, turn⟩, listed⟩

theorem mem_legal : m ∈ p.legal types ↔ m ∈ p.semiLegal types ∧ p.keepsSafe types m = true := by
  simp [legal]

theorem mem_legalOf :
    m ∈ p.legalOf types q ↔ m ∈ p.semiLegalOf types q ∧ p.keepsSafe types m = true := by
  simp [legalOf]

/-! What a semi-legal move does to the board. -/

/-- The piece of the move stands where the move says and may do what the move says. -/
structure Fits (p : Position) (m : Move) : Prop where
  present : p.board.pieceOn m.origin = some m.piece
  inside : p.board.contains m.target = true
  apart : m.target ≠ m.origin
  going : ∀ s, m.action = .go s → p.board.footing m.piece.side s ≠ .friend
  swapping : ∀ s, m.action = .swap s → p.board.footing m.piece.side s = .friend

theorem fits_of_mem_semiLegalOf (sane : p.board.isSane = true)
    (standing : p.board.pieceOn q.square = some q) (h : m ∈ p.semiLegalOf types q) : p.Fits m := by
  obtain ⟨t, _, listed⟩ := mem_semiLegalOf.1 h
  have home : p.board.footing q.side q.square = .friend :=
    Board.footing_eq_friend.2 ⟨q, standing, rfl⟩
  rcases Rule.mem_moves.1 listed with ⟨s, landing, rfl⟩ | ⟨s, partner, rfl⟩
  · obtain ⟨inside, free⟩ := Rule.landing_inside landing
    refine ⟨standing, inside, ?_, ?_, ?_⟩
    · intro (back : s = q.square)
      rw [back] at free
      exact free home
    · intro t gone
      rw [← Action.go.inj gone]
      exact free
    · intro t swapped
      cases swapped
  · obtain ⟨_, _, other, _, on, friend, _, apart⟩ := (Rule.mem_partners sane).1 partner
    refine ⟨standing, Board.contains_of_pieceOn on, apart, ?_, ?_⟩
    · intro t gone
      cases gone
    · intro t swapped
      rw [← Action.swap.inj swapped]
      exact Board.footing_eq_friend.2 ⟨other, on, friend⟩

theorem fits_of_mem_semiLegal (sane : p.board.isSane = true) (h : m ∈ p.semiLegal types) :
    p.Fits m := by
  obtain ⟨_, standing, listed⟩ := (mem_semiLegal_iff_pieceOn sane).1 h
  exact fits_of_mem_semiLegalOf sane standing listed

theorem fits_of_mem_legal (sane : p.board.isSane = true) (h : m ∈ p.legal types) : p.Fits m :=
  fits_of_mem_semiLegal sane (mem_legal.1 h).1

end Position

end VariantChess
