import Mathlib.Data.Set.Basic
import VariantChess.Game
import VariantChess.Proofs.Intents
import VariantChess.Proofs.SemiLegal

/-!
What rules mean. The range of a mover is the set of squares that it leads to when the piece may both move
and take. What a rule allows is put together from ranges, also where it lets one mover only move and
another only take: of the range of the first the empty squares are left, of the second the enemy's. The
moves of a piece are the squares so allowed, each listed once, even if several parts of the rule lead
there.
-/

namespace VariantChess

def Mover.range (m : Mover) (b : Board) (q : Piece) : Set Square := {s | s ∈ m.destinations .either b q}

namespace Board

def vacant (b : Board) : Set Square := {s | b.isEmpty s = true}

def heldBy (b : Board) (side : Side) : Set Square :=
  {s | ∃ other, b.pieceOn s = some other ∧ other.side = side}

end Board

namespace Rule

/-- The squares that a rule lets a piece go to. -/
def goals (b : Board) (q : Piece) : Rule → Set Square
  | .simple m | .exchange _ m => m.range b q
  | .retreat refuge m =>
    m.range b q ∪ {s ∈ b.vacant | s.row = q.side.homeRow b.dims.rows ∧ refuge.admits s = true}
  | .moveCapture m c => m.range b q ∩ b.vacant ∪ c.range b q ∩ b.heldBy q.side.other
  | .combination x y => x.range b q ∪ y.range b q

/-- The squares of the friends that a rule lets a piece swap with. -/
def allies (b : Board) (q : Piece) : Rule → Set Square
  | .exchange partner _ =>
    {s | ∃ other, b.pieceOn s = some other ∧ other ≠ q ∧ other.side = q.side ∧ other.kind = partner}
  | _ => ∅

end Rule

section Mover

variable {m : Mover} {b : Board} {q : Piece} {s : Square}

theorem Mover.mem_moveOnly : s ∈ m.destinations .moveOnly b q ↔ s ∈ m.range b q ∩ b.vacant := by
  rw [destinations_eq_filter, List.mem_filter, Intent.moveOnly_accepts, Option.isNone_iff_eq_none]
  refine and_congr_right fun reached => ⟨?_, ?_⟩
  · intro free
    exact Board.isEmpty_iff.2 ⟨(m.destination_lands reached).1, free⟩
  · intro vacant
    exact (Board.isEmpty_iff.1 vacant).2

theorem Mover.mem_captureOnly :
    s ∈ m.destinations .captureOnly b q ↔ s ∈ m.range b q ∩ b.heldBy q.side.other := by
  rw [destinations_eq_filter, List.mem_filter, Intent.captureOnly_accepts]
  refine and_congr_right fun _ => ?_
  simp [Board.heldBy, Option.any_eq_true]

end Mover

/-- No square is both empty and held. -/
theorem Board.not_mem_heldBy_of_vacant {b : Board} {s : Square} (vacant : s ∈ b.vacant) (side : Side) :
    s ∉ b.heldBy side := by
  rintro ⟨other, on, _⟩
  rw [(Board.isEmpty_iff.1 vacant).2] at on
  cases on

namespace Rule

variable {b : Board} {q : Piece} {r : Rule} {s : Square}

theorem mem_landings : s ∈ r.landings b q ↔ s ∈ r.goals b q := by
  cases r with
  | simple m | exchange partner m => exact Iff.rfl
  | retreat refuge m =>
      rw [landings, List.mem_append]
      refine or_congr Iff.rfl (mem_havens.trans ?_)
      exact and_left_comm
  | moveCapture m c =>
      rw [landings, List.mem_append, Mover.mem_captureOnly, Mover.mem_moveOnly]
      exact or_comm
  | combination x y => exact List.mem_append

/-- On a sane board a piece is told from its friends by its square. -/
theorem mem_partners_iff_allies (sane : b.isSane = true) (standing : b.pieceOn q.square = some q) :
    s ∈ r.partners b q ↔ s ∈ r.allies b q := by
  have apart {other : Piece} (on : b.pieceOn s = some other) : other ≠ q ↔ s ≠ q.square := by
    refine not_congr ⟨?_, ?_⟩
    · rintro rfl
      exact (Board.square_of_pieceOn sane on).symm
    · rintro rfl
      exact Option.some.inj (on.symm.trans standing)
  rw [mem_partners sane]
  cases r with
  | exchange partner mover =>
      refine ⟨?_, ?_⟩
      · rintro ⟨_, _, other, same, on, friend, wanted, away⟩
        obtain ⟨rfl, rfl⟩ := Pattern.exchange.inj same
        exact ⟨other, on, (apart on).2 away, friend, wanted⟩
      · rintro ⟨other, on, differs, friend, wanted⟩
        exact ⟨partner, mover, other, rfl, on, friend, wanted, (apart on).1 differs⟩
  | simple | retreat | moveCapture | combination =>
      refine iff_of_false ?_ (Set.notMem_empty s)
      rintro ⟨_, _, _, same, _⟩
      cases same

/-- What a rule lets a piece swap with is no enemy. -/
theorem not_mem_heldBy_of_ally (ally : s ∈ r.allies b q) : s ∉ b.heldBy q.side.other := by
  cases r with
  | exchange partner mover =>
      obtain ⟨friend, on, _, side, _⟩ := ally
      rintro ⟨enemy, on', foe⟩
      obtain rfl := Option.some.inj (on.symm.trans on')
      exact Side.other_ne_self q.side (foe.symm.trans side)
  | simple | retreat | moveCapture | combination => exact ally.elim

/-- Squares of the enemy are listed first, and repeats are dropped where they come again. -/
theorem captures_before_moves (movement capture : Mover) (b : Board) (q : Piece) :
    (landings b q (.moveCapture movement capture)).eraseDups.Pairwise
      fun s t => t ∈ b.heldBy q.side.other → s ∈ b.heldBy q.side.other := by
  have taken : ∀ s ∈ capture.destinations .captureOnly b q, s ∈ b.heldBy q.side.other :=
    fun s reached => (Mover.mem_captureOnly.1 reached).2
  have moved : ∀ t ∈ movement.destinations .moveOnly b q, t ∉ b.heldBy q.side.other :=
    fun t reached => Board.not_mem_heldBy_of_vacant (Mover.mem_moveOnly.1 reached).2 _
  refine List.Pairwise.sublist (eraseDups_sublist _) ?_
  rw [landings, List.pairwise_append]
  refine ⟨?_, ?_, fun s first _ _ _ => taken s first⟩
  · exact List.pairwise_of_forall_mem_list fun s first _ _ _ => taken s first
  · exact List.pairwise_of_forall_mem_list fun _ _ t later held => absurd held (moved t later)

theorem perm_combination (sane : b.isSane = true) (first second : Mover) :
    (moves (.combination first second) b q).Perm (moves (.combination second first) b q) := by
  refine (List.perm_ext_iff_of_nodup (moves_nodup sane) (moves_nodup sane)).2 fun m => ?_
  have same (s : Square) : s ∈ landings b q (.combination first second) ↔
      s ∈ landings b q (.combination second first) := by
    rw [mem_landings, mem_landings]
    exact or_comm
  simp only [mem_moves, same]
  rfl

end Rule

theorem Game.capturesFrom_iff {p : Position} {m : Move} :
    capturesFrom p m = true ↔ m.target ∈ p.board.heldBy m.piece.side.other := by
  rw [capturesFrom, Option.any_eq_true]
  refine exists_congr fun other => and_congr_right fun _ => ?_
  rcases Side.eq_or_eq_other m.piece.side other.side with friend | enemy
  · simp [friend, (Side.other_ne_self m.piece.side).symm]
  · simp [enemy]

namespace Position

variable {types : Roster} {p : Position} {q : Piece} {t : PieceType} {m : Move}

theorem semiLegalOf_of_known (known : types[q.kind]? = some t) :
    p.semiLegalOf types q = t.rule.moves p.board q := by
  rw [semiLegalOf, known]

theorem mem_semiLegalOf_iff_goals (sane : p.board.isSane = true)
    (standing : p.board.pieceOn q.square = some q) (known : types[q.kind]? = some t) :
    m ∈ p.semiLegalOf types q ↔ (∃ s ∈ t.rule.goals p.board q, m = .go q s) ∨
      ∃ s ∈ t.rule.allies p.board q, m = .swap q s := by
  rw [semiLegalOf_of_known known, Rule.mem_moves]
  simp only [Rule.mem_landings, Rule.mem_partners_iff_allies sane standing, eq_comm]

/-- A piece takes by going, and takes what its goals offer. -/
theorem captures_iff_goals (sane : p.board.isSane = true)
    (standing : p.board.pieceOn q.square = some q) (known : types[q.kind]? = some t) :
    m ∈ p.semiLegalOf types q ∧ Game.capturesFrom p m = true ↔
      ∃ s ∈ t.rule.goals p.board q ∩ p.board.heldBy q.side.other, m = .go q s := by
  rw [mem_semiLegalOf_iff_goals sane standing known, Game.capturesFrom_iff]
  refine ⟨?_, ?_⟩
  · rintro ⟨⟨s, goal, rfl⟩ | ⟨s, ally, rfl⟩, held⟩
    · exact ⟨s, ⟨goal, held⟩, rfl⟩
    · exact absurd held (Rule.not_mem_heldBy_of_ally ally)
  · rintro ⟨s, ⟨goal, held⟩, rfl⟩
    exact ⟨.inl ⟨s, goal, rfl⟩, held⟩

/-- Whatever a retreat or an exchange adds, it takes nothing. -/
theorem goals_inter_heldBy {b : Board} {rule : Rule} {mover : Mover}
    (regular : (∃ refuge, rule = .retreat refuge mover) ∨ ∃ partner, rule = .exchange partner mover)
    (side : Side) : rule.goals b q ∩ b.heldBy side = mover.range b q ∩ b.heldBy side := by
  rcases regular with ⟨refuge, rfl⟩ | ⟨partner, rfl⟩
  · rw [Rule.goals, Set.union_inter_distrib_right, Set.union_eq_left]
    rintro s ⟨⟨vacant, _⟩, held⟩
    exact absurd held (Board.not_mem_heldBy_of_vacant vacant side)
  · rfl

theorem captures_listed_first {movement capture : Mover} (known : types[q.kind]? = some t)
    (divided : t.rule = .moveCapture movement capture) : (p.semiLegalOf types q).Pairwise
      fun m n => Game.capturesFrom p n = true → Game.capturesFrom p m = true := by
  have alone : Rule.partners p.board q (.moveCapture movement capture) = [] := rfl
  rw [semiLegalOf_of_known known, divided, Rule.moves, alone, List.map_nil, List.append_nil,
    List.pairwise_map]
  refine (Rule.captures_before_moves movement capture p.board q).imp fun earlier => ?_
  rw [Game.capturesFrom_iff, Game.capturesFrom_iff]
  exact earlier

end Position

/-! A guard whose way home is also open to it as a ride, and a scout that has to turn to take. -/

namespace Garrison

def dims : Dimensions := ⟨4, 4, 2⟩

def ride (steps : List Step) : Mover := .make dims (.rider steps)

def types : Roster :=
  [⟨.retreat .both (ride [⟨0, 1⟩, ⟨1, 0⟩]), "Guard", "Guard", false⟩,
    ⟨.moveCapture (ride [⟨0, 1⟩]) (ride [⟨1, 0⟩, ⟨0, 1⟩]), "Scout", "Scout", false⟩]

def guard : Piece := .unmoved ⟨0, 0⟩ .white 0

def scout : Piece := .unmoved ⟨1, 1⟩ .white 1

def foe (square : Square) : Piece := .unmoved square .black 0

def position : Position :=
  .start (((((Board.empty dims).set ⟨0, 0⟩ (some guard)).set ⟨1, 1⟩ (some scout)).set ⟨2, 0⟩
    (some (foe ⟨2, 0⟩))).set ⟨3, 1⟩ (some (foe ⟨3, 1⟩))) .white

end Garrison

end VariantChess
