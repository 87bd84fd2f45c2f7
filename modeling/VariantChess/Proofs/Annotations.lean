import VariantChess.Proofs.Conservation
import VariantChess.Proofs.SquareText

/-!
What the notation of a move tells. It is written from what stands on the target before the move and from the
status of the position after it; it can be read as saying whether a piece was captured, and whether the
side to move is in check and has a way out. The two agree because a semi-legal move never goes to a
friend, and because every position of a game carries the status that it shows.
-/

namespace VariantChess

namespace Game

open Position

/-- What a move does, in notation, by what it adds to the captured pieces. -/
inductive Deed (p next : Position) : Move → List Char → Prop
  | capture {q : Piece} {s : Square} (taken : next.captured.length = p.captured.length + 1) :
      Deed p next ⟨q, .go s⟩ ('x' :: s.chars)
  | step {q : Piece} {s : Square} (kept : next.captured.length = p.captured.length) :
      Deed p next ⟨q, .go s⟩ s.chars
  | exchange {q : Piece} {s : Square} (kept : next.captured.length = p.captured.length) :
      Deed p next ⟨q, .swap s⟩ (q.square.chars ++ '<' :: '>' :: s.chars)

/-- What is marked about a position, by the moves and the checks of the side to move. -/
inductive Mark (types : Roster) (next : Position) : List Char → Prop
  | mate (stuck : next.legal types = []) (check : next.board.inCheck types next.toMove = true) :
      Mark types next ['#']
  | check (able : next.legal types ≠ []) (check : next.board.inCheck types next.toMove = true) :
      Mark types next ['+']
  | quiet (safe : next.board.inCheck types next.toMove = false) : Mark types next []

/-- The notation of a move tells what happened between two positions. -/
structure Tells (types : Roster) (p : Position) (m : Move) (next : Position) (text : String) : Prop where
  reads : ∃ deed mark, Deed p next m deed ∧ Mark types next mark ∧
    text.toList = ((types[m.piece.kind]?).bind PieceType.letter).toList ++ deed ++ mark
  mate : text.toList.getLast? = some '#' ↔
    next.legal types = [] ∧ next.board.inCheck types next.toMove = true
  check : text.toList.getLast? = some '+' ↔
    next.legal types ≠ [] ∧ next.board.inCheck types next.toMove = true

variable {types : Roster} {p next : Position} {m : Move}

/-! Whatever a move does, its notation without the mark ends with a square. -/

theorem Deed.exists_square {deed : List Char} (h : Deed p next m deed) :
    ∃ (before : List Char) (s : Square), deed = before ++ s.chars := by
  cases h with
  | @capture q s => exact ⟨['x'], s, rfl⟩
  | @step q s => exact ⟨[], s, rfl⟩
  | @exchange q s => exact ⟨q.square.chars ++ ['<', '>'], s, by simp⟩

theorem getLast?_append_chars (before : List Char) (s : Square) :
    (before ++ s.chars).getLast? ≠ some '#' ∧ (before ++ s.chars).getLast? ≠ some '+' := by
  have last : ∃ c ∈ s.chars, (before ++ s.chars).getLast? = some c := by
    refine ⟨s.chars.getLast s.chars_ne_nil, List.getLast_mem _, ?_⟩
    rw [List.getLast?_append_of_ne_nil _ s.chars_ne_nil, List.getLast?_eq_some_getLast]
  obtain ⟨c, listed, same⟩ := last
  rw [same, ne_eq, ne_eq, Option.some.injEq, Option.some.injEq]
  refine ⟨?_, ?_⟩
  · rintro rfl
    exact absurd (Square.mem_chars listed) (by decide)
  · rintro rfl
    exact absurd (Square.mem_chars listed) (by decide)

/-- The mark shows at the end of the text, which has no such end without it. -/
theorem tells_of_reads {text : String} (h : ∃ deed mark, Deed p next m deed ∧ Mark types next mark ∧
    text.toList = ((types[m.piece.kind]?).bind PieceType.letter).toList ++ deed ++ mark) :
    Tells types p m next text := by
  obtain ⟨deed, mark, done, marked, text_eq⟩ := h
  have unmarked (empty : mark = []) :
      text.toList.getLast? ≠ some '#' ∧ text.toList.getLast? ≠ some '+' := by
    obtain ⟨before, s, rfl⟩ := done.exists_square
    rw [text_eq, empty, List.append_nil, ← List.append_assoc]
    exact getLast?_append_chars _ s
  refine ⟨⟨deed, mark, done, marked, text_eq⟩, ?_, ?_⟩
  · cases marked with
    | mate stuck check => simp [text_eq, stuck, check]
    | check able check => simp [text_eq, able]
    | quiet safe => simp [(unmarked rfl).1, safe]
  · cases marked with
    | mate stuck check => simp [text_eq, stuck]
    | check able check => simp [text_eq, able, check]
    | quiet safe => simp [(unmarked rfl).2, safe]

/-! One notation. -/

/-- On the target of a move that fits stands an enemy or nobody, so the piece there is taken. -/
theorem deed_of_fits (fits : p.Fits m) (played : next.captured = p.captured ++ p.taken m) :
    Deed p next m (match m.action with
      | .go target => (if capturesFrom p m then ['x'] else []) ++ target.chars
      | .swap target => m.origin.chars ++ '<' :: '>' :: target.chars) := by
  obtain ⟨q, action⟩ := m
  cases action with
  | swap s =>
      refine .exchange ?_
      rw [played, taken_eq_nil fits (.inl rfl), List.append_nil]
  | go s =>
      cases stood : p.board.pieceOn s with
      | none =>
          have quiet : capturesFrom p ⟨q, .go s⟩ = false := by simp [capturesFrom, Move.target, stood]
          have kept : next.captured.length = p.captured.length := by
            rw [played, taken_eq_nil fits (.inr stood), List.append_nil]
          simp only [quiet]
          exact .step kept
      | some victim =>
          -- whoever stands there is taken, and only enemies are
          have taken := taken_eq_singleton fits rfl stood
          have enemy : victim.side = q.side.other :=
            (taken_spec fits (taken ▸ List.mem_singleton_self victim)).2.2
          have capture : capturesFrom p ⟨q, .go s⟩ = true := by
            simp [capturesFrom, Move.target, stood, enemy]
          have grown : next.captured.length = p.captured.length + 1 := by
            rw [played, taken, List.length_append, List.length_singleton]
          simp only [capture]
          exact .capture grown

theorem mark_of_shown (shown : next.status = next.outcome types) :
    Mark types next (if next.status = .checkmate then ['#']
      else if next.board.inCheck types next.toMove then ['+'] else []) := by
  rw [shown]
  by_cases mated : next.outcome types = .checkmate
  · rw [if_pos mated]
    obtain ⟨stuck, check⟩ := outcome_eq_checkmate.1 mated
    exact .mate stuck check
  · rw [if_neg mated]
    cases check : next.board.inCheck types next.toMove with
    | false => exact .quiet check
    | true => exact .check (fun stuck => mated (outcome_eq_checkmate.2 ⟨stuck, check⟩)) check

theorem tells_moveText (fits : p.Fits m) (played : next.captured = p.captured ++ p.taken m)
    (shown : next.status = next.outcome types) :
    Tells types p m next (String.ofList (moveText types p m next)) := by
  apply tells_of_reads
  refine ⟨_, _, deed_of_fits fits played, mark_of_shown shown, ?_⟩
  exact String.toList_ofList

/-! The notations of a game. -/

/-- Every notation is that of the move and the positions at its place. -/
def Annotated (g : Game) : Prop :=
  ∀ n p m next, g.positions[n]? = some p → g.moves[n]? = some m → g.positions[n + 1]? = some next →
    g.notations[n]? = some (String.ofList (moveText g.types p m next))

theorem annotated_start (players : Players) (types : Roster) (initial : Position) :
    (start players types initial).Annotated := by
  intro n p m next _ moved
  simp [start] at moved

theorem Annotated.record {g : Game} (h : g.Annotated) (consistent : g.Consistent) (m : Move) :
    (g.record m).Annotated := by
  intro n p move next at_n moved at_next
  have size := consistent.notations_length
  rcases consistent.entry_record at_n moved at_next with ⟨old, before, made, led⟩ | ⟨rfl, rfl, rfl, rfl⟩
  · exact (List.getElem?_append_left (by omega)).trans (h n p move next before made led)
  · rw [← size]
    exact List.getElem?_concat_length

theorem annotated_run {g : Game} (consistent : g.Consistent) (h : g.Annotated)
    (requests : List Request) : (g.run requests).Annotated := by
  have both : (g.run requests).Consistent ∧ (g.run requests).Annotated :=
    run_induction (P := fun g => g.Consistent ∧ g.Annotated) requests ⟨consistent, h⟩
      fun g m before legal => ⟨before.1.record legal, before.2.record before.1 m⟩
  exact both.2

/-- Every move of a game has its notation, and that tells what the move made of the position it was played
in: the deed and its mark are read off the captured pieces, the checks and the moves of the next one. -/
theorem notations_tell {players : Players} {types : Roster} {initial : Position} {g₀ : Game}
    (made : make players types initial = .ok g₀) (sane : initial.board.isSane = true)
    (requests : List Request) :
    let g := g₀.run requests
    g.notations.length = g.moves.length ∧
    ∀ n m, g.moves[n]? = some m → ∃ p next text, g.positions[n]? = some p ∧
      g.positions[n + 1]? = some next ∧ g.notations[n]? = some text ∧ Tells types p m next text := by
  obtain rfl := eq_start_of_make made
  intro g
  have consistent : g.Consistent := consistent_run (consistent_start players types initial) requests
  have annotated : g.Annotated := annotated_run (consistent_start players types initial)
    (annotated_start players types initial) requests
  have roster : g.types = types := (extends_run _ requests).types
  refine ⟨consistent.notations_length, ?_⟩
  intro n m moved
  have inside := (List.getElem?_eq_some_iff.1 moved).1
  have size := consistent.positions_length
  obtain ⟨p, at_n⟩ : ∃ p, g.positions[n]? = some p := ⟨_, List.getElem?_eq_getElem (by omega)⟩
  obtain ⟨next, at_next⟩ : ∃ next, g.positions[n + 1]? = some next :=
    ⟨_, List.getElem?_eq_getElem (by omega)⟩
  have at_zero := getElem?_zero_run players types initial requests
  have follows := consistent.follows n p m next at_n moved at_next
  have fits := fits_of_isLegal (consistent.isSane_positions at_zero sane at_n) follows.legal
  have played : next.captured = p.captured ++ p.taken m := by
    rw [follows.played]
    rfl
  have shown := consistent.shown next (List.mem_of_getElem? at_next)
  refine ⟨p, next, _, at_n, at_next, annotated n p m next at_n moved at_next, ?_⟩
  rw [roster] at shown ⊢
  exact tells_moveText fits played shown

end Game

/-- Mate is marked, and whoever reads the mark knows that it is mate. -/
theorem Endgame.mate_marked : Game.make game.players types initial = .ok game ∧
    initial.board.isSane = true ∧ (game.run [.play mate]).notations = ["Rd4#"] ∧
    ∃ next, (game.run [.play mate]).positions[1]? = some next ∧ next.legal types = [] ∧
      next.board.inCheck types next.toMove = true := by
  have made : Game.make game.players types initial = .ok game := rfl
  have sane := isSane_initial
  have played : (game.run [.play mate]).moves[0]? = some mate := by decide +kernel
  have notations : (game.run [.play mate]).notations = ["Rd4#"] := by decide +kernel
  obtain ⟨_, told⟩ := Game.notations_tell made sane [.play mate]
  obtain ⟨p, next, text, _, at_one, noted, tells⟩ := told 0 mate played
  rw [notations] at noted
  obtain rfl := Option.some.inj noted
  exact ⟨made, sane, notations, next, at_one, tells.mate.1 rfl⟩

end VariantChess
