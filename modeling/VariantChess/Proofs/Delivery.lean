import VariantChess.Proofs.History

/-!
Moves as players send them. Whatever arrives, in any order and any number of times, a game takes only
what the player whose turn it is sent for the current position, and then stands at the next one. So the
submissions that are taken are numbered from 0 without a gap, each is recorded at its own number, and
those that are refused might as well never have arrived.
-/

namespace VariantChess

/-- A move sent by a player, with the number of the position that the player saw. -/
structure Submission where
  player : String
  index : Nat
  move : Move
deriving DecidableEq, Repr

theorem getElem?_of_isPrefix {α : Type} {xs ys : List α} (h : xs <+: ys) {i : Nat} {x : α}
    (held : xs[i]? = some x) : ys[i]? = some x := by
  obtain ⟨inside, rfl⟩ := List.getElem?_eq_some_iff.1 held
  exact List.prefix_iff_getElem?.1 h i inside

def Submission.request (s : Submission) : Request := .submit s.player s.index s.move

namespace Game

def receive (g : Game) (s : Submission) : Except Error Game := g.submit s.player s.index s.move

/-- The game after a submission, accepted or not. -/
def deliver (g : Game) (s : Submission) : Game := (g.send s.player s.index s.move).2

def deliverAll (g : Game) (sent : List Submission) : Game := sent.foldl deliver g

/-- The submissions that are accepted as they arrive, in that order. -/
def accepted (g : Game) : List Submission → List Submission
  | [] => []
  | s :: rest =>
    match g.receive s with
    | .ok next => s :: next.accepted rest
    | .error _ => g.accepted rest

@[simp] theorem deliverAll_cons (g : Game) (s : Submission) (rest : List Submission) :
    g.deliverAll (s :: rest) = (g.deliver s).deliverAll rest := rfl

section

variable {g next : Game} {s : Submission} {e : Error} {rest : List Submission}

theorem deliver_eq_answer (g : Game) (s : Submission) : g.deliver s = g.answer s.request := rfl

theorem deliver_of_ok (h : g.receive s = .ok next) : g.deliver s = next := by
  have taken : g.accept? s.request = some next := congrArg Except.toOption h
  rw [deliver_eq_answer, answer_eq, taken, Option.getD_some]

theorem deliver_of_error (h : g.receive s = .error e) : g.deliver s = g := by
  have refused : g.accept? s.request = none := congrArg Except.toOption h
  rw [deliver_eq_answer, answer_of_refused refused]

theorem accepted_of_ok (h : g.receive s = .ok next) :
    g.accepted (s :: rest) = s :: next.accepted rest := by
  rw [accepted, h]

theorem accepted_of_error (h : g.receive s = .error e) :
    g.accepted (s :: rest) = g.accepted rest := by
  rw [accepted, h]

end

/-- What holds when nothing more arrives, and is carried back over a submission that is refused and
over one that is recorded, holds of every delivery. -/
theorem delivery_induction {P : Game → List Submission → Prop} (nothing : ∀ g, P g [])
    (refused : ∀ g s rest e, g.receive s = .error e → P g rest → P g (s :: rest))
    (taken : ∀ g s rest, g.receive s = .ok (g.record s.move) → P (g.record s.move) rest →
      P g (s :: rest)) (g : Game) (sent : List Submission) : P g sent := by
  induction sent generalizing g with
  | nil => exact nothing g
  | cons s rest ih =>
      cases answer : g.receive s with
      | error e => exact refused g s rest e answer (ih g)
      | ok next =>
          obtain ⟨_, _, _, _, rfl⟩ := submit_eq_ok.1 answer
          exact taken g s rest answer (ih _)

theorem deliverAll_eq_run (g : Game) (sent : List Submission) :
    g.deliverAll sent = g.run (sent.map Submission.request) := by
  induction sent generalizing g with
  | nil => rfl
  | cons s rest ih => rw [deliverAll_cons, deliver_eq_answer, ih, List.map_cons, run, run, List.foldl_cons]

theorem extends_deliverAll (g : Game) (sent : List Submission) : g.Extends (g.deliverAll sent) := by
  rw [deliverAll_eq_run]
  exact extends_run g _

theorem moves_deliverAll (g : Game) (sent : List Submission) :
    (g.deliverAll sent).moves = g.moves ++ (g.accepted sent).map (·.move) := by
  induction g, sent using delivery_induction with
  | nothing g => exact (List.append_nil _).symm
  | refused g s rest e answer ih =>
      rw [deliverAll_cons, deliver_of_error answer, accepted_of_error answer, ih]
  | taken g s rest answer ih =>
      rw [deliverAll_cons, deliver_of_ok answer, accepted_of_ok answer, ih]
      simp [record]

/-- Only what is accepted makes a difference. -/
theorem deliverAll_accepted (g : Game) (sent : List Submission) :
    g.deliverAll (g.accepted sent) = g.deliverAll sent := by
  induction g, sent using delivery_induction with
  | nothing g => rfl
  | refused g s rest e answer ih =>
      rw [deliverAll_cons, deliver_of_error answer, accepted_of_error answer, ih]
  | taken g s rest answer ih =>
      rw [accepted_of_ok answer, deliverAll_cons, deliverAll_cons, deliver_of_ok answer, ih]

theorem accepted_accepted (g : Game) (sent : List Submission) :
    g.accepted (g.accepted sent) = g.accepted sent := by
  induction g, sent using delivery_induction with
  | nothing g => rfl
  | refused g s rest e answer ih => rw [accepted_of_error answer, ih]
  | taken g s rest answer ih => rw [accepted_of_ok answer, accepted_of_ok answer, ih]

/-- The submission stands in the log at its own number, where it was its player's turn. -/
structure Recorded (g : Game) (s : Submission) : Prop where
  move : g.moves[s.index]? = some s.move
  played : ∃ p, g.positions[s.index]? = some p ∧ g.sideOf s.player = some p.toMove ∧
    p.isLegal g.types s.move = true

theorem Recorded.extends {g later : Game} {s : Submission} (h : g.Recorded s)
    (extended : g.Extends later) : later.Recorded s := by
  obtain ⟨p, at_index, turn, legal⟩ := h.played
  refine ⟨getElem?_of_isPrefix extended.moves h.move, p,
    getElem?_of_isPrefix extended.positions at_index, ?_, ?_⟩
  · rw [sideOf, extended.players]
    exact turn
  · rw [extended.types]
    exact legal

theorem Consistent.currentIndex_eq {g : Game} (h : g.Consistent) :
    g.currentIndex = g.moves.length := by
  rw [currentIndex, h.positions_length, Nat.add_sub_cancel]

theorem Consistent.recorded {g : Game} (h : g.Consistent) {s : Submission}
    (answer : g.receive s = .ok (g.record s.move)) : (g.record s.move).Recorded s := by
  obtain ⟨turn, fresh, _, legal, _⟩ := submit_eq_ok.1 answer
  have at_end : s.index = g.moves.length := fresh.trans h.currentIndex_eq
  have stood : (g.record s.move).positions[s.index]? = some g.current := by
    have inside : s.index < g.positions.length := by
      rw [at_end, h.positions_length]
      exact Nat.lt_succ_self _
    rw [Game.record, List.getElem?_append_left inside, at_end, h.current_eq]
  refine ⟨?_, g.current, stood, turn, legal⟩
  rw [Game.record, at_end, List.getElem?_concat_length]

theorem Consistent.recorded_of_mem_accepted {g : Game} (h : g.Consistent)
    (sent : List Submission) : ∀ s ∈ g.accepted sent, (g.deliverAll sent).Recorded s := by
  induction g, sent using delivery_induction with
  | nothing g => exact List.forall_mem_nil _
  | refused g s rest e answer ih =>
      rw [deliverAll_cons, deliver_of_error answer, accepted_of_error answer]
      exact ih h
  | taken g s rest answer ih =>
      have legal := (submit_eq_ok.1 answer).2.2.2.1
      rw [deliverAll_cons, deliver_of_ok answer, accepted_of_ok answer]
      exact List.forall_mem_cons.2
        ⟨(h.recorded answer).extends (extends_deliverAll _ rest), ih (h.record legal)⟩

/-- What is accepted is numbered on from the moves that the game has. -/
theorem Consistent.index_accepted {g : Game} (h : g.Consistent) (sent : List Submission) :
    (g.accepted sent).map (·.index) = List.range' g.moves.length (g.accepted sent).length := by
  induction g, sent using delivery_induction with
  | nothing g => rfl
  | refused g s rest e answer ih =>
      rw [accepted_of_error answer]
      exact ih h
  | taken g s rest answer ih =>
      obtain ⟨_, fresh, _, legal, _⟩ := submit_eq_ok.1 answer
      have next : (g.record s.move).moves.length = g.moves.length + 1 := by
        simp [Game.record]
      rw [accepted_of_ok answer, List.map_cons, ih (h.record legal), next, List.length_cons,
        List.range'_succ, fresh, h.currentIndex_eq]

/-- A number that has been used is stale from then on, whoever uses it again. -/
theorem Consistent.receive_of_recorded {g : Game} (h : g.Consistent) {s again : Submission}
    (recorded : g.Recorded s) (same : again.index = s.index) : ∃ e, g.receive again = .error e := by
  cases answer : g.receive again with
  | error e => exact ⟨e, rfl⟩
  | ok next =>
      obtain ⟨_, fresh, _⟩ := submit_eq_ok.1 answer
      have used := (List.getElem?_eq_some_iff.1 recorded.move).1
      have size := h.currentIndex_eq
      omega

theorem sideOf_player {g : Game} (apart : g.players.white ≠ g.players.black) (side : Side) :
    g.sideOf (g.players.player side) = some side := by
  cases side with
  | white => simp [sideOf, Players.player]
  | black => simp [sideOf, Players.player, apart]

theorem Consistent.submit_eq_play? {g : Game} (h : g.Consistent)
    (apart : g.players.white ≠ g.players.black) {m : Move}
    (legal : g.current.isLegal g.types m = true) :
    g.submit (g.players.player g.current.toMove) g.currentIndex m = .ok (g.record m) ∧
      g.play? m = some (g.record m) := by
  have ongoing : g.current.status.isOver = false := by
    rw [h.isOver_current]
    exact List.ne_nil_of_mem (Position.mem_legal_of_isLegal legal)
  exact ⟨submit_eq_ok.2 ⟨sideOf_player apart _, rfl, ongoing, legal, rfl⟩,
    play?_eq_some.2 ⟨ongoing, legal, rfl⟩⟩

/-- Submissions may be lost, late, repeated or made up. -/
theorem submissions_in_order {players : Players} {types : Roster} {initial : Position} {g₀ : Game}
    (made : make players types initial = .ok g₀) (sent : List Submission) :
    let g := g₀.deliverAll sent
    let taken := g₀.accepted sent
    g.moves = taken.map (·.move) ∧
    taken.map (·.index) = List.range taken.length ∧
    (∀ s ∈ taken, g.Recorded s) ∧
    (∀ s ∈ taken, ∀ again, again.index = s.index → ∃ e, g.receive again = .error e) ∧
    (∀ s e, g.receive s = .error e → g.deliver s = g) ∧
    g₀.deliverAll taken = g ∧ g₀.accepted taken = taken ∧
    (players.white ≠ players.black → ∀ m, g.current.isLegal types m = true →
      ∃ next, g.submit (players.player g.current.toMove) g.currentIndex m = .ok next ∧
        g.play? m = some next) := by
  intro g taken
  obtain rfl := eq_start_of_make made
  have first : (start players types initial).Consistent := consistent_start players types initial
  have consistent : g.Consistent := by
    rw [show g = _ from deliverAll_eq_run _ sent]
    exact consistent_run first _
  have extended : (start players types initial).Extends g := extends_deliverAll _ sent
  have recorded : ∀ s ∈ taken, g.Recorded s := first.recorded_of_mem_accepted sent
  refine ⟨moves_deliverAll _ sent, ?_, recorded, ?_, fun _ _ => deliver_of_error,
    deliverAll_accepted _ sent, accepted_accepted _ sent, ?_⟩
  · rw [List.range_eq_range']
    exact first.index_accepted sent
  · intro s listed again
    exact consistent.receive_of_recorded (recorded s listed)
  · intro apart m legal
    have same : g.players = players := extended.players
    have roster : g.types = types := extended.types
    rw [← same] at apart ⊢
    rw [← roster] at legal
    exact ⟨g.record m, consistent.submit_eq_play? apart legal⟩

end Game

/-! White steps aside and Black answers, with stale, forged and repeated submissions in between. -/

namespace Endgame

def aside : Submission := ⟨"white", 0, .go rook ⟨0, 2⟩⟩

def reply : Submission := ⟨"black", 1, .go (.unmoved ⟨3, 0⟩ .black 0) ⟨3, 1⟩⟩

def sent : List Submission :=
  [reply, ⟨"carol", 0, mate⟩, aside, aside, ⟨"white", 1, reply.move⟩, reply, ⟨"black", 1, mate⟩, aside]

theorem sent_in_order : Game.make game.players types initial = .ok game ∧
    game.players.white ≠ game.players.black ∧
    (game.deliverAll sent).moves = [aside.move, reply.move] ∧
    (game.deliverAll sent).Recorded reply ∧
    ∃ next, (game.deliverAll sent).submit "white" 2
      (.go ((Piece.unmoved ⟨0, 3⟩ .white 1).movedTo ⟨0, 2⟩) ⟨2, 2⟩) = .ok next := by
  have made : Game.make game.players types initial = .ok game := rfl
  have apart : game.players.white ≠ game.players.black := by decide
  have accepted : game.accepted sent = [aside, reply] := by decide +kernel
  obtain ⟨moves, _, recorded, _, _, _, _, taken⟩ := Game.submissions_in_order made sent
  rw [accepted] at moves recorded
  obtain ⟨next, submitted, _⟩ := taken apart
    (.go ((Piece.unmoved ⟨0, 3⟩ .white 1).movedTo ⟨0, 2⟩) ⟨2, 2⟩) (by decide +kernel)
  have turn : (game.deliverAll sent).current.toMove = .white := by decide +kernel
  have index : (game.deliverAll sent).currentIndex = 2 := by decide +kernel
  rw [turn, index] at submitted
  exact ⟨made, apart, moves, recorded reply (by simp), next, submitted⟩

end Endgame

end VariantChess
