import VariantChess.Proofs.Legality

/-!
Queues of moves in use. However asking for the next move and striking moves out are mixed, every move of
the position is given out, still to come or struck out, and just one of the three; the order stays that of
the position. A queue may be kept as one list of all moves that were not struck out, with the number of
those given out before the others: then no reading or counting ever passes the end of the list.
-/

namespace VariantChess

namespace MoveQueue

/-- A use of a queue. -/
inductive Use
  | next
  | remove (m : Move)
deriving DecidableEq, Repr

/-- What a use answers: the next move, if there is one, or whether a move was struck out. -/
inductive Reply
  | move (found : Option Move)
  | struck (found : Bool)
deriving DecidableEq, Repr

def use (q : MoveQueue) : Use → Reply × MoveQueue
  | .next => (.move q.next.1, q.next.2)
  | .remove m => (.struck (q.remove m).1, (q.remove m).2)

def run (q : MoveQueue) : List Use → List Reply × MoveQueue
  | [] => ([], q)
  | u :: rest => ((q.use u).1 :: ((q.use u).2.run rest).1, ((q.use u).2.run rest).2)

/-- The moves that were given out. -/
def given (replies : List Reply) : List Move :=
  replies.filterMap fun
    | .move found => found
    | .struck _ => none

/-- The moves that were struck out. -/
def struck (uses : List Use) (replies : List Reply) : List Move :=
  (uses.zip replies).filterMap fun
    | (.remove m, .struck true) => some m
    | _ => none

/-- Asked again and again, the queue gives out these moves and then no more. -/
inductive Yields : MoveQueue → List Move → Prop
  | done {q : MoveQueue} (ended : q.next.1 = none) : Yields q []
  | more {q : MoveQueue} {m : Move} {rest : List Move} (found : q.next.1 = some m)
      (later : Yields q.next.2 rest) : Yields q (m :: rest)

/-! Single uses. -/

theorem next_eq_none {q : MoveQueue} : q.next.1 = none ↔ q.pending = [] := by
  obtain ⟨_ | ⟨m, rest⟩⟩ := q <;> simp [next]

theorem yields_pending (q : MoveQueue) : q.Yields q.pending := by
  obtain ⟨pending⟩ := q
  induction pending with
  | nil => exact .done rfl
  | cons m rest ih => exact .more rfl ih

theorem remove_found {q : MoveQueue} {m : Move} : (q.remove m).1 = true ↔ m ∈ q.pending := by
  simp [remove]

/-! Whole runs. -/

/-- The course of a run, from the moves to come at its beginning to those at its end. -/
inductive Runs : List Move → List Use → List Reply → List Move → Prop
  | nil (ms : List Move) : Runs ms [] [] ms
  | ended {uses : List Use} {replies : List Reply} {left : List Move} (later : Runs [] uses replies left) :
      Runs [] (.next :: uses) (.move none :: replies) left
  | found {m : Move} {ms left : List Move} {uses : List Use} {replies : List Reply}
      (later : Runs ms uses replies left) :
      Runs (m :: ms) (.next :: uses) (.move (some m) :: replies) left
  | removed {m : Move} {ms left : List Move} {uses : List Use} {replies : List Reply} (listed : m ∈ ms)
      (later : Runs (ms.erase m) uses replies left) :
      Runs ms (.remove m :: uses) (.struck true :: replies) left
  | missed {m : Move} {ms left : List Move} {uses : List Use} {replies : List Reply} (absent : m ∉ ms)
      (later : Runs ms uses replies left) :
      Runs ms (.remove m :: uses) (.struck false :: replies) left

theorem runs_run (ms : List Move) (uses : List Use) :
    Runs ms uses (run ⟨ms⟩ uses).1 (run ⟨ms⟩ uses).2.pending := by
  induction uses generalizing ms with
  | nil => exact .nil ms
  | cons u rest ih =>
      cases u with
      | next =>
          cases ms with
          | nil => exact .ended (ih [])
          | cons m ms => exact .found (ih ms)
      | remove m =>
          by_cases listed : m ∈ ms
          · simp only [run, use, remove, List.contains_iff_mem.2 listed]
            exact .removed listed (ih _)
          · have absent : ms.contains m = false := by simpa using listed
            simp only [run, use, remove, absent, List.erase_of_not_mem listed]
            exact .missed listed (ih ms)

variable {ms left : List Move} {uses : List Use} {replies : List Reply}

/-- Every move is given out, still to come or struck out, and just one of the three. -/
theorem Runs.perm (h : Runs ms uses replies left) :
    (given replies ++ left ++ struck uses replies).Perm ms := by
  induction h with
  | nil ms => simp [given, struck]
  | ended later ih => exact ih
  | found later ih => exact ih.cons _
  | removed listed later ih =>
      have moved := (List.perm_middle.trans (ih.cons _)).trans (List.perm_cons_erase listed).symm
      exact moved
  | missed absent later ih => exact ih

/-- What is not struck out keeps its order. -/
theorem Runs.given_append (h : Runs ms uses replies left) (nodup : ms.Nodup) :
    given replies ++ left = ms.filter (· ∉ struck uses replies) := by
  induction h with
  | nil ms => simp [given, struck]
  | ended later ih => exact ih nodup
  | @found m ms left uses replies later ih =>
      obtain ⟨apart, nodup⟩ := List.nodup_cons.1 nodup
      -- only moves to come are struck out, and this one is not among them any more
      have kept : m ∉ struck uses replies := fun listed =>
        apart (later.perm.subset (List.mem_append_right _ listed))
      change m :: (given replies ++ left) = (m :: ms).filter (· ∉ struck uses replies)
      rw [List.filter_cons_of_pos (by simpa using kept), ih nodup]
  | @removed m ms left uses replies listed later ih =>
      change given replies ++ left = ms.filter (· ∉ m :: struck uses replies)
      rw [ih (nodup.erase m), nodup.erase_eq_filter, List.filter_filter]
      refine List.filter_congr fun n _ => ?_
      rw [Bool.eq_iff_iff]
      simp [and_comm]
  | missed absent later ih => exact ih nodup

/-- Once no move is to come, none will ever be. -/
theorem Runs.eq_nil (h : Runs ms uses replies left) (ended : ms = []) : left = [] := by
  induction h with
  | nil => exact ended
  | ended later ih => exact ih rfl
  | found later ih => cases ended
  | removed listed later ih =>
      subst ended
      cases listed
  | missed absent later ih => exact ih ended

/-! A queue kept as one list and a number. -/

/-- The moves that were not struck out, and how many of them were given out. -/
structure Indexed where
  moves : List Move
  index : Nat
deriving DecidableEq, Repr

namespace Indexed

def next (v : Indexed) : Option Move × Indexed :=
  match v.moves[v.index]? with
  | none => (none, v)
  | some m => (some m, ⟨v.moves, v.index + 1⟩)

/-- The moves from the index on, which must not lie past the end. -/
def tail? (v : Indexed) : Option (List Move) :=
  if v.index ≤ v.moves.length then some (v.moves.drop v.index) else none

/-- The number of moves from the index on, which must not be below zero. -/
def size? (v : Indexed) : Option Nat :=
  if v.index ≤ v.moves.length then some (v.moves.length - v.index) else none

/-- Looks for a move from the index on and takes it out where it was found. -/
def remove? (v : Indexed) (m : Move) : Option (Bool × Indexed) := do
  match (← v.tail?).idxOf? m with
  | none => return (false, v)
  | some i =>
    if v.index + i < v.moves.length then return (true, ⟨v.moves.eraseIdx (v.index + i), v.index⟩)
    else none

def use? (v : Indexed) : Use → Option (Reply × Indexed)
  | .next => some (.move v.next.1, v.next.2)
  | .remove m => (v.remove? m).map fun (found, v) => (.struck found, v)

/-- There is no answer if a use reads or counts past the end of the list. -/
def run? (v : Indexed) : List Use → Option (List Reply × Indexed)
  | [] => some ([], v)
  | u :: rest => do
    let (reply, v) ← v.use? u
    let (replies, v) ← v.run? rest
    return (reply :: replies, v)

/-! What was given out stands before the index, and what is to come behind it. -/

variable (before : List Move)

theorem next_found (m : Move) (ms : List Move) : next ⟨before ++ m :: ms, before.length⟩ =
    (some m, ⟨before ++ [m] ++ ms, (before ++ [m]).length⟩) := by
  simp [next]

theorem next_ended : next ⟨before ++ [], before.length⟩ = (none, ⟨before ++ [], before.length⟩) := by
  simp [next]

theorem size?_append (ms : List Move) : size? ⟨before ++ ms, before.length⟩ = some ms.length := by
  simp [size?]

theorem tail?_append (ms : List Move) : tail? ⟨before ++ ms, before.length⟩ = some ms := by
  simp [tail?]

theorem remove?_of_mem {m : Move} {ms : List Move} (listed : m ∈ ms) :
    remove? ⟨before ++ ms, before.length⟩ m = some (true, ⟨before ++ ms.erase m, before.length⟩) := by
  obtain ⟨i, found⟩ := Option.isSome_iff_exists.1 (List.isSome_idxOf?.2 listed)
  obtain ⟨inside, _⟩ := List.idxOf?_eq_some_iff.1 found
  have bound : before.length + i < (before ++ ms).length := by
    rw [List.length_append]
    exact Nat.add_lt_add_left inside _
  have erased : (before ++ ms).eraseIdx (before.length + i) = before ++ ms.erase m := by
    rw [List.eraseIdx_append_of_length_le (Nat.le_add_right _ _), Nat.add_sub_cancel_left,
      List.erase_eq_eraseIdx, found]
  simp only [remove?, tail?_append, Option.bind_eq_bind, Option.bind_some, found, if_pos bound, erased]
  rfl

theorem remove?_of_not_mem {m : Move} {ms : List Move} (absent : m ∉ ms) :
    remove? ⟨before ++ ms, before.length⟩ m = some (false, ⟨before ++ ms, before.length⟩) := by
  have missing : ms.idxOf? m = none := List.idxOf?_eq_none_iff.2 absent
  simp [remove?, tail?_append, missing]

theorem run?_cons {v w x : Indexed} {u : Use} {reply : Reply} {uses : List Use} {replies : List Reply}
    (first : v.use? u = some (reply, w)) (later : w.run? uses = some (replies, x)) :
    v.run? (u :: uses) = some (reply :: replies, x) := by
  simp [run?, first, later]

/-- The list answers as the queue does, and what it gave out is never touched. -/
theorem run?_append {ms left : List Move} {uses : List Use} {replies : List Reply}
    (h : Runs ms uses replies left) : run? ⟨before ++ ms, before.length⟩ uses =
      some (replies, ⟨before ++ given replies ++ left, (before ++ given replies).length⟩) := by
  induction h generalizing before with
  | nil ms => simp [run?, given]
  | ended later ih =>
      refine run?_cons ?_ (ih before)
      rw [use?, next_ended]
  | @found m ms left uses replies later ih =>
      have told : before ++ given (.move (some m) :: replies) = before ++ [m] ++ given replies := by
        simp [given]
      rw [told]
      refine run?_cons ?_ (ih (before ++ [m]))
      rw [use?, next_found]
  | removed listed later ih =>
      refine run?_cons ?_ (ih before)
      rw [use?, remove?_of_mem before listed, Option.map_some]
  | missed absent later ih =>
      refine run?_cons ?_ (ih before)
      rw [use?, remove?_of_not_mem before absent, Option.map_some]

end Indexed

/-- The moves given out so far and those still to come are the moves of the position without those that
were struck out. What is to come is what asking for the next move brings, what can be struck out and what
is counted, and when it has run out nothing brings it back. Kept as one list with an index, the queue
answers all the same, and the index never passes the end. -/
theorem moves_kept (types : Roster) {p : Position} (sane : p.board.isSane = true) {moves : List Move}
    (listed : moves = p.legal types ∨ moves = p.semiLegal types) (uses : List Use) :
    let replies := (run ⟨moves⟩ uses).1
    let q := (run ⟨moves⟩ uses).2
    ∃ rest, q.Yields rest ∧
      given replies ++ rest = moves.filter (· ∉ struck uses replies) ∧
      (given replies ++ rest ++ struck uses replies).Perm moves ∧
      (∀ m, (q.remove m).1 = true ↔ m ∈ rest) ∧
      q.size = rest.length ∧ q.sizeHint = (rest.length, some rest.length) ∧
      (q.next.1 = none → ∀ later, (q.run later).2.next.1 = none) ∧
      ∃ v : Indexed, Indexed.run? ⟨moves, 0⟩ uses = some (replies, v) ∧
        v.moves = given replies ++ rest ∧ v.index = (given replies).length ∧
        v.size? = some rest.length := by
  intro replies q
  have nodup : moves.Nodup := by
    rcases listed with rfl | rfl
    · exact Position.legal_nodup sane
    · exact Position.semiLegal_nodup sane
  have course : Runs moves uses replies q.pending := runs_run moves uses
  have ended (none_left : q.next.1 = none) (later : List Use) : (q.run later).2.next.1 = none :=
    next_eq_none.2 ((runs_run q.pending later).eq_nil (next_eq_none.1 none_left))
  exact ⟨q.pending, yields_pending q, course.given_append nodup, course.perm, fun _ => remove_found,
    rfl, rfl, ended, _, Indexed.run?_append [] course, rfl, rfl, Indexed.size?_append _ _⟩

end MoveQueue

/-! Mate is struck out once, before it is come to. A move that was given out is not struck out any more. -/

namespace Endgame

def step : Move := .go rook ⟨1, 3⟩

def strikes : List MoveQueue.Use := [.next, .remove mate, .remove step, .remove mate]

theorem mate_struck_out : initial.board.isSane = true ∧
    (MoveQueue.run ⟨initial.legal types⟩ strikes).1 =
      [.move (some step), .struck true, .struck false, .struck false] ∧
    ∃ rest, (MoveQueue.run ⟨initial.legal types⟩ strikes).2.Yields rest ∧
      step :: rest = (initial.legal types).filter (· ∉ [mate]) := by
  have sane : initial.board.isSane = true := by decide +kernel
  have replies : (MoveQueue.run ⟨initial.legal types⟩ strikes).1 =
      [.move (some step), .struck true, .struck false, .struck false] := by decide +kernel
  obtain ⟨rest, yields, order, _⟩ := MoveQueue.moves_kept types sane (.inl rfl) strikes
  rw [replies] at order
  exact ⟨sane, replies, rest, yields, order⟩

end Endgame

end VariantChess
