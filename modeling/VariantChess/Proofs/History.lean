import VariantChess.Game.Generated
import VariantChess.Proofs.Execution
import VariantChess.Proofs.Legality

/-!
The history of a game under any requests, accepted or not. An accepted request records its move
and a refused one changes nothing, so what one record keeps every run keeps: positions, moves and
notations grow together and only at their ends, every move is legal where it was played and leads
to the next position, and every position carries the status that it shows. The status is why a
game that is over stays as it is, and why asking whether it is over never refuses a legal move.
-/

namespace VariantChess

/-- What may be asked of a game: to play a move, or to play it for a player who saw a position. -/
inductive Request
  | play (m : Move)
  | submit (player : String) (index : Nat) (m : Move)
deriving DecidableEq, Repr

def Request.move : Request → Move
  | play m => m
  | submit _ _ m => m

namespace Position

@[simp] theorem board_settled (types : Roster) (p : Position) :
    (p.settled types).board = p.board := rfl

@[simp] theorem toMove_settled (types : Roster) (p : Position) :
    (p.settled types).toMove = p.toMove := rfl

@[simp] theorem captured_settled (types : Roster) (p : Position) :
    (p.settled types).captured = p.captured := rfl

theorem status_settled (types : Roster) (p : Position) :
    (p.settled types).status = (p.settled types).outcome types := rfl

@[simp] theorem legal_settled (types : Roster) (p : Position) :
    (p.settled types).legal types = p.legal types := rfl

@[simp] theorem outcome_settled (types : Roster) (p : Position) :
    (p.settled types).outcome types = p.outcome types := rfl

end Position

namespace Game

@[simp] theorem current_record (g : Game) (m : Move) :
    (g.record m).current = (g.current.after m).settled g.types := by
  simp [current, current?, record]

/-- The game after a request that is accepted. -/
def accept? (g : Game) : Request → Option Game
  | .play m => g.play? m
  | .submit player index m => (g.submit player index m).toOption

/-- The game after a request, accepted or not. -/
def answer (g : Game) : Request → Game
  | .play m => (g.play m).2
  | .submit player index m => (g.send player index m).2

def run (g : Game) (requests : List Request) : Game := requests.foldl answer g

/-- Games as they are made or drawn. -/
inductive IsNew : Game → Prop
  | made {players : Players} {types : Roster} {initial : Position} {g : Game}
      (h : make players types initial = .ok g) : IsNew g
  | drawn {σ : Type} [RandomSource σ] (player1 player2 : String) (source : σ) :
      IsNew ((generate player1 player2 : StateM σ Game).run source).1
  | drawnOn {σ : Type} [RandomSource σ] {d : Dimensions} {player1 player2 : String} {source : σ}
      {g : Game}
      (h : ((generateOn d player1 player2 : StateM σ (Except Error Game)).run source).1 = .ok g) :
      IsNew g

theorem eq_start_of_make {players : Players} {types : Roster} {initial : Position} {g : Game}
    (h : make players types initial = .ok g) : g = start players types initial := by
  unfold make at h
  split at h
  · exact (Except.ok.inj h).symm
  · cases h

section Drawn

variable {σ : Type} (source : σ)

/-- Whatever is drawn, the game starts from the given position. -/
theorem start_of_draws (shuffle : StateM σ (String × String)) (draw : StateM σ Roster)
    (p : Position) : ∃ players types, (StateT.run (do
      let (white, black) ← shuffle
      let types ← draw
      return start ⟨white, black⟩ types p : StateM σ Game) source).1 = start players types p :=
  ⟨_, _, rfl⟩

theorem ok_of_draw (draw : StateM σ Game) : (StateT.run (do
    return Except.ok (← draw) : StateM σ (Except Error Game)) source).1 = .ok (draw.run source).1 :=
  rfl

variable [RandomSource σ] (player1 player2 : String)

theorem generateFrom_start (board : Board) : ∃ players types,
    ((generateFrom board player1 player2 : StateM σ Game).run source).1 =
      start players types (.start board .white) := by
  rw [generateFrom]
  exact start_of_draws source _ _ _

theorem generateOn_start {d : Dimensions} {g : Game}
    (h : ((generateOn d player1 player2 : StateM σ (Except Error Game)).run source).1 = .ok g) :
    ∃ players types, g = start players types (.start (Opening.boardOf d) .white) := by
  rw [generateOn] at h
  split at h
  · cases h
  · rw [ok_of_draw, Except.ok.injEq] at h
    rw [← h]
    exact generateFrom_start source player1 player2 (Opening.boardOf d)

end Drawn

theorem IsNew.exists_start {g : Game} (new : g.IsNew) :
    ∃ players types initial, g = start players types initial := by
  cases new with
  | made h => exact ⟨_, _, _, eq_start_of_make h⟩
  | drawn player1 player2 source =>
      obtain ⟨players, types, drawn⟩ :=
        generateFrom_start source player1 player2 Opening.standardBoard
      exact ⟨players, types, _, drawn⟩
  | drawnOn h =>
      obtain ⟨players, types, drawn⟩ := generateOn_start _ _ _ h
      exact ⟨players, types, _, drawn⟩

/-! What one request does. -/

/-- A move is played and recorded, or else it is refused and the game is as it was. -/
theorem play_cases (g : Game) (m : Move) :
    ((g.current.status.isOver = false ∧ g.isLegalNow m = true) ∧ g.play m = (true, g.record m)) ∨
    (¬ (g.current.status.isOver = false ∧ g.isLegalNow m = true) ∧ g.play m = (false, g)) := by
  unfold play
  cases g.current.status.isOver <;> cases g.isLegalNow m <;> simp

/-- A player's turn, with a legal move for the position that is current. -/
structure Welcomes (g : Game) (player : String) (index : Nat) (m : Move) : Prop where
  turn : g.sideOf player = some g.current.toMove
  fresh : index = g.currentIndex
  ongoing : g.current.status.isOver = false
  legal : g.isLegalNow m = true

/-- The same for players: whatever the reason for a refusal, the game is as it was. -/
theorem send_cases (g : Game) (player : String) (index : Nat) (m : Move) :
    (g.Welcomes player index m ∧ g.send player index m = (.ok (), g.record m)) ∨
    (¬ g.Welcomes player index m ∧ ∃ e, g.send player index m = (.error e, g)) := by
  unfold send
  cases known : g.sideOf player with
  | none =>
      refine .inr ⟨fun welcome => ?_, _, rfl⟩
      rw [welcome.turn] at known
      cases known
  | some side =>
      dsimp only
      split
      · rename_i finished
        refine .inr ⟨fun welcome => ?_, _, rfl⟩
        rw [welcome.ongoing] at finished
        cases finished
      split
      · rename_i other
        refine .inr ⟨fun welcome => other ?_, _, rfl⟩
        exact Option.some.inj (known.symm.trans welcome.turn)
      split
      · rename_i stale
        exact .inr ⟨fun welcome => stale welcome.fresh, _, rfl⟩
      split
      · rename_i finished turn fresh legal
        refine .inl ⟨⟨?_, not_not.1 fresh, Bool.eq_false_iff.2 finished, legal⟩, rfl⟩
        rw [known, not_not.1 turn]
      · rename_i illegal
        exact .inr ⟨fun welcome => illegal welcome.legal, _, rfl⟩

theorem play?_eq_some {g next : Game} {m : Move} : g.play? m = some next ↔
    g.current.status.isOver = false ∧ g.isLegalNow m = true ∧ g.record m = next := by
  rw [← and_assoc, play?]
  obtain ⟨fits, played⟩ | ⟨unfit, played⟩ := g.play_cases m
  · simp [played, fits]
  · simp only [played, reduceCtorEq, false_iff, not_and]
    exact fun fits => (unfit fits).elim

theorem submit_eq_ok {g next : Game} {player : String} {index : Nat} {m : Move} :
    g.submit player index m = .ok next ↔ g.sideOf player = some g.current.toMove ∧
      index = g.currentIndex ∧ g.current.status.isOver = false ∧ g.isLegalNow m = true ∧
      g.record m = next := by
  rw [submit]
  obtain ⟨welcome, sent⟩ | ⟨unwelcome, e, sent⟩ := g.send_cases player index m
  · rw [sent]
    simp [welcome.turn, welcome.fresh, welcome.ongoing, welcome.legal]
  · simp only [sent, reduceCtorEq, false_iff, not_and]
    exact fun turn fresh ongoing legal => (unwelcome ⟨turn, fresh, ongoing, legal⟩).elim

/-- The answer is the game after the request if there is one, and the same game otherwise. -/
theorem answer_eq (g : Game) (r : Request) : g.answer r = (g.accept? r).getD g := by
  cases r with
  | play m =>
      obtain ⟨_, played⟩ | ⟨_, played⟩ := g.play_cases m <;> rw [answer, accept?, play?, played] <;> rfl
  | submit player index m =>
      obtain ⟨_, sent⟩ | ⟨_, e, sent⟩ := g.send_cases player index m <;>
        rw [answer, accept?, submit, sent] <;> rfl

theorem accept?_eq_some {g next : Game} {r : Request} (h : g.accept? r = some next) :
    g.current.status.isOver = false ∧ g.isLegalNow r.move = true ∧ next = g.record r.move := by
  cases r with
  | play m =>
      obtain ⟨ongoing, legal, recorded⟩ := play?_eq_some.1 h
      exact ⟨ongoing, legal, recorded.symm⟩
  | submit player index m =>
      have accepted : g.submit player index m = .ok next := by
        cases answer : g.submit player index m with
        | error e =>
            simp [accept?, answer, Except.toOption] at h
        | ok other =>
            simp only [accept?, answer, Except.toOption, Option.some.injEq] at h
            rw [h]
      obtain ⟨_, _, ongoing, legal, recorded⟩ := submit_eq_ok.1 accepted
      exact ⟨ongoing, legal, recorded.symm⟩

theorem answer_of_refused {g : Game} {r : Request} (h : g.accept? r = none) : g.answer r = g := by
  rw [answer_eq, h, Option.getD_none]

theorem answer_cases (g : Game) (r : Request) :
    g.answer r = g ∨ g.isLegalNow r.move = true ∧ g.answer r = g.record r.move := by
  cases h : g.accept? r with
  | none => exact Or.inl (answer_of_refused h)
  | some next =>
      obtain ⟨_, legal, rfl⟩ := accept?_eq_some h
      refine Or.inr ⟨legal, ?_⟩
      rw [answer_eq, h, Option.getD_some]

/-- What every request keeps, a run of requests keeps. -/
theorem run_induction {P : Game → Prop} {g : Game} (requests : List Request) (first : P g)
    (step : ∀ g m, P g → g.isLegalNow m = true → P (g.record m)) : P (g.run requests) := by
  induction requests generalizing g with
  | nil => exact first
  | cons r rest ih =>
      apply ih
      rcases answer_cases g r with same | ⟨legal, recorded⟩
      · rw [same]
        exact first
      · rw [recorded]
        exact step g r.move first legal

/-! What stays of a game. -/

/-- The later game has the same players and types, and everything so far is still there. -/
structure Extends (g later : Game) : Prop where
  players : later.players = g.players
  types : later.types = g.types
  dims : later.dims = g.dims
  positions : g.positions <+: later.positions
  moves : g.moves <+: later.moves
  notations : g.notations <+: later.notations

theorem Extends.refl (g : Game) : g.Extends g :=
  ⟨rfl, rfl, rfl, List.prefix_refl _, List.prefix_refl _, List.prefix_refl _⟩

theorem Extends.record {g later : Game} (h : g.Extends later) (m : Move) :
    g.Extends (later.record m) :=
  ⟨h.players, h.types, h.dims, h.positions.trans (List.prefix_append _ _),
    h.moves.trans (List.prefix_append _ _), h.notations.trans (List.prefix_append _ _)⟩

theorem extends_run (g : Game) (requests : List Request) : g.Extends (g.run requests) :=
  run_induction requests (Extends.refl g) fun _ m extended _ => extended.record m

/-! What is true of every position of a game. -/

/-- A legal move and what it leads to: its position with another status. -/
structure Follows (types : Roster) (p : Position) (m : Move) (next : Position) : Prop where
  legal : p.isLegal types m = true
  played : next = { p.after m with status := next.status }
  turn : next.toMove = p.toMove.other

theorem Follows.isSane {types : Roster} {p next : Position} {m : Move} (h : Follows types p m next)
    (sane : p.board.isSane = true) : next.board.isSane = true := by
  rw [h.played]
  exact Position.isSane_after sane (Position.fits_of_isLegal sane h.legal)

structure Consistent (g : Game) : Prop where
  positions_length : g.positions.length = g.moves.length + 1
  notations_length : g.notations.length = g.moves.length
  follows : ∀ n p m next, g.positions[n]? = some p → g.moves[n]? = some m →
    g.positions[n + 1]? = some next → Follows g.types p m next
  shown : ∀ p ∈ g.positions, p.status = p.outcome g.types

theorem consistent_start (players : Players) (types : Roster) (initial : Position) :
    (start players types initial).Consistent := by
  refine ⟨rfl, rfl, ?_, ?_⟩
  · intro n p m next _ moved
    simp [start] at moved
  · intro p only
    obtain rfl := List.mem_singleton.1 only
    exact Position.status_settled types initial

theorem Consistent.current_eq {g : Game} (h : g.Consistent) :
    g.positions[g.moves.length]? = some g.current := by
  have begun : g.positions ≠ [] := by
    apply List.ne_nil_of_length_pos
    rw [h.positions_length]
    exact Nat.succ_pos _
  rw [← current?_eq_some begun, current?, List.getLast?_eq_getElem?, h.positions_length,
    Nat.add_sub_cancel]

/-- A log entry, the move and the positions before and after it, is an old one or the one just made. -/
theorem Consistent.entry_record {g : Game} (h : g.Consistent) {m move : Move} {n : Nat}
    {p next : Position} (at_n : (g.record m).positions[n]? = some p)
    (moved : (g.record m).moves[n]? = some move)
    (at_next : (g.record m).positions[n + 1]? = some next) :
    (n < g.moves.length ∧ g.positions[n]? = some p ∧ g.moves[n]? = some move ∧
        g.positions[n + 1]? = some next) ∨
      (n = g.moves.length ∧ p = g.current ∧ move = m ∧ next = (g.current.after m).settled g.types) := by
  have size := h.positions_length
  simp only [Game.record] at at_n moved at_next
  have bound : n < g.moves.length + 1 := by
    have inside := (List.getElem?_eq_some_iff.1 moved).1
    simpa using inside
  rw [List.getElem?_append_left (by omega)] at at_n
  by_cases old : n < g.moves.length
  · rw [List.getElem?_append_left old] at moved
    rw [List.getElem?_append_left (by omega)] at at_next
    exact Or.inl ⟨old, at_n, moved, at_next⟩
  · obtain rfl : n = g.moves.length := by omega
    rw [List.getElem?_concat_length] at moved
    rw [← size, List.getElem?_concat_length] at at_next
    have here := Option.some.inj (at_n.symm.trans h.current_eq)
    exact Or.inr ⟨rfl, here, (Option.some.inj moved).symm, (Option.some.inj at_next).symm⟩

theorem Consistent.record {g : Game} (h : g.Consistent) {m : Move} (legal : g.isLegalNow m = true) :
    (g.record m).Consistent := by
  refine ⟨?_, ?_, ?_, ?_⟩
  · simp [Game.record, h.positions_length]
  · simp [Game.record, h.notations_length]
  · intro n p move next at_n moved at_next
    rcases h.entry_record at_n moved at_next with ⟨_, old, made, led⟩ | ⟨_, rfl, rfl, rfl⟩
    · exact h.follows n p move next old made led
    · exact ⟨legal, rfl, rfl⟩
  · intro p at_p
    rcases List.mem_append.1 at_p with old | new
    · exact h.shown p old
    · obtain rfl := List.mem_singleton.1 new
      exact Position.status_settled _ _

theorem consistent_run {g : Game} (h : g.Consistent) (requests : List Request) :
    (g.run requests).Consistent :=
  run_induction requests h fun _ _ consistent legal => consistent.record legal

theorem IsNew.consistent {g : Game} (new : g.IsNew) : g.Consistent := by
  obtain ⟨players, types, initial, rfl⟩ := new.exists_start
  exact consistent_start players types initial

section Current

variable {g : Game} (h : g.Consistent)
include h

/-- What every move of the log keeps holds from one position on. It may speak of the number of moves. -/
theorem Consistent.positions_induction_at {P : Nat → Position → Prop} {k n : Nat} {p q : Position}
    (at_k : g.positions[k]? = some p) (first : P k p)
    (step : ∀ i p m next, g.positions[i]? = some p → g.moves[i]? = some m → P i p →
      Follows g.types p m next → P (i + 1) next) (later : k ≤ n)
    (at_n : g.positions[n]? = some q) : P n q := by
  induction n, later using Nat.le_induction generalizing q with
  | base =>
      obtain rfl := Option.some.inj (at_k.symm.trans at_n)
      exact first
  | succ n later ih =>
      have inside := (List.getElem?_eq_some_iff.1 at_n).1
      have size := h.positions_length
      have before : g.positions[n]? = some g.positions[n] := List.getElem?_eq_getElem (by omega)
      have moved : g.moves[n]? = some g.moves[n] := List.getElem?_eq_getElem (by omega)
      exact step _ _ _ _ before moved (ih before) (h.follows n _ _ _ before moved at_n)

theorem Consistent.positions_induction {P : Position → Prop} {k n : Nat} {p q : Position}
    (at_k : g.positions[k]? = some p) (first : P p)
    (step : ∀ p m next, P p → Follows g.types p m next → P next) (later : k ≤ n)
    (at_n : g.positions[n]? = some q) : P q := by
  refine h.positions_induction_at (P := fun _ => P) at_k first ?_ later at_n
  exact fun _ p m next _ _ => step p m next

/-- Boards stay sane on the way, so a step may rely on it. -/
theorem Consistent.sane_induction {P : Position → Prop} {k n : Nat} {p q : Position}
    (at_k : g.positions[k]? = some p) (sane : p.board.isSane = true) (first : P p)
    (step : ∀ p m next, p.board.isSane = true → P p → Follows g.types p m next → P next)
    (later : k ≤ n) (at_n : g.positions[n]? = some q) : q.board.isSane = true ∧ P q := by
  apply h.positions_induction (P := fun q => q.board.isSane = true ∧ P q) at_k ⟨sane, first⟩ ?_ later at_n
  intro p m next ⟨sane, kept⟩ follows
  exact ⟨follows.isSane sane, step p m next sane kept follows⟩

theorem Consistent.isSane_positions {n : Nat} {p q : Position} (at_zero : g.positions[0]? = some p)
    (sane : p.board.isSane = true) (at_n : g.positions[n]? = some q) : q.board.isSane = true :=
  (h.sane_induction (P := fun _ => True) at_zero sane trivial (fun _ _ _ _ _ _ => trivial)
    n.zero_le at_n).1

theorem Consistent.status_current : g.current.status = g.current.outcome g.types :=
  h.shown _ (List.mem_of_getElem? h.current_eq)

theorem Consistent.isOver_current :
    g.current.status.isOver = false ↔ g.current.legal g.types ≠ [] := by
  rw [h.status_current, ← Position.outcome_eq_ongoing, Status.isOver, bne_eq_false_iff_eq]

/-- Asking whether the game is over refuses no legal move. -/
theorem Consistent.play?_isSome {m : Move} :
    (g.play? m).isSome = true ↔ g.current.isLegal g.types m = true := by
  have ongoing (legal : g.isLegalNow m = true) : g.current.status.isOver = false := by
    rw [h.isOver_current]
    exact List.ne_nil_of_mem (Position.mem_legal_of_isLegal legal)
  rw [Option.isSome_iff_exists]
  refine ⟨?_, ?_⟩
  · intro ⟨next, played⟩
    exact (play?_eq_some.1 played).2.1
  · intro legal
    exact ⟨g.record m, play?_eq_some.2 ⟨ongoing legal, legal, rfl⟩⟩

theorem Consistent.result_isSome : g.result.isSome = true ↔ g.current.legal g.types = [] := by
  have finished := h.isOver_current
  unfold result
  cases status : g.current.status with
  | ongoing => simpa [status, Status.isOver] using finished
  | stalemate => simpa [status, Status.isOver] using finished
  | checkmate => cases side : g.current.toMove <;> simpa [status, Status.isOver] using finished

theorem Consistent.run_of_result (finished : g.result.isSome = true) (requests : List Request) :
    g.run requests = g := by
  have ended : ¬ g.current.status.isOver = false := by
    rw [h.isOver_current, not_not]
    exact h.result_isSome.1 finished
  have stays (r : Request) : g.answer r = g := by
    apply answer_of_refused
    by_contra accepted
    obtain ⟨next, taken⟩ := Option.ne_none_iff_exists'.1 accepted
    exact ended (accept?_eq_some taken).1
  induction requests with
  | nil => rfl
  | cons r rest ih => rw [run, List.foldl_cons, stays r, ← run, ih]

end Current

theorem history_invariant {g₀ : Game} (new : g₀.IsNew) (requests : List Request) :
    let g := g₀.run requests
    g.Consistent ∧
    (∀ later, g.Extends (g.run later)) ∧
    (∀ r, g.accept? r = none → g.answer r = g) ∧
    (∀ r next, g.accept? r = some next → g.answer r = next ∧ next = g.record r.move) ∧
    (∀ m, (g.play? m).isSome = true ↔ g.current.isLegal g.types m = true) ∧
    (g.result.isSome = true ↔ g.current.legal g.types = []) ∧
    (g.result.isSome = true → ∀ later, g.run later = g) := by
  intro g
  have consistent : g.Consistent := consistent_run new.consistent requests
  refine ⟨consistent, extends_run g, fun r => answer_of_refused, ?_,
    fun m => consistent.play?_isSome, consistent.result_isSome, consistent.run_of_result⟩
  intro r next accepted
  refine ⟨?_, (accept?_eq_some accepted).2.2⟩
  rw [answer_eq, accepted, Option.getD_some]

end Game

/-- Black asks for a move out of turn before White mates. -/
def Endgame.mated : Game := game.run [.submit "black" 0 mate, .play mate]

theorem Endgame.mated_stays : game.IsNew ∧ mated.Consistent ∧ mated.result.isSome = true ∧
    ∀ later, mated.run later = mated := by
  have new : game.IsNew := .made (rfl : Game.make _ types initial = .ok _)
  have finished : mated.result.isSome = true := by decide +kernel
  obtain ⟨consistent, _, _, _, _, _, ended⟩ :=
    Game.history_invariant new [.submit "black" 0 mate, .play mate]
  exact ⟨new, consistent, finished, ended finished⟩

end VariantChess
