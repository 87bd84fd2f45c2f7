import VariantChess.Proofs.Legality
import VariantChess.Proofs.Mobility

/-!
The exhaustive search. The best lead is decided on the legal moves: the side to move takes the
greatest of what its moves lead to, and the other side sees the same game with every score
reversed. As long as the material is worth no more than a mate, no score of any line is.
-/

namespace VariantChess

namespace Evaluator

theorem choose_cons_cons (greatest : Bool) (x y : Int) (rest : List Int) :
    choose greatest (x :: y :: rest) =
      choose greatest ((if greatest then max x y else min x y) :: rest) := rfl

theorem choose_mem (greatest : Bool) {xs : List Int} (some_score : xs ≠ []) :
    choose greatest xs ∈ xs := by
  obtain ⟨x, rest, rfl⟩ := List.exists_cons_of_ne_nil some_score
  induction rest generalizing x with
  | nil => exact List.mem_singleton_self x
  | cons y rest ih =>
      have either : (if greatest then max x y else min x y) = x ∨
          (if greatest then max x y else min x y) = y := by
        cases greatest
        · exact min_choice x y
        · exact max_choice x y
      have listed := ih _ (List.cons_ne_nil (if greatest then max x y else min x y) rest)
      rw [choose_cons_cons]
      rcases List.mem_cons.1 listed with first | later
      · rw [first]
        rcases either with left | right
        · rw [left]
          exact List.mem_cons_self
        · rw [right]
          exact List.mem_cons_of_mem _ List.mem_cons_self
      · exact List.mem_cons_of_mem _ (List.mem_cons_of_mem _ later)

theorem le_choose {xs : List Int} {z : Int} (listed : z ∈ xs) : z ≤ choose true xs := by
  cases xs with
  | nil => cases listed
  | cons x rest =>
      induction rest generalizing x z with
      | nil => exact le_of_eq (List.mem_singleton.1 listed)
      | cons y rest ih =>
          rw [choose_cons_cons, if_pos rfl]
          rcases List.mem_cons.1 listed with rfl | later
          · exact (le_max_left z y).trans (ih _ List.mem_cons_self)
          · rcases List.mem_cons.1 later with rfl | later
            · exact (le_max_right x z).trans (ih _ List.mem_cons_self)
            · exact ih _ (List.mem_cons_of_mem _ later)

/-- The least score is the greatest one of who counts the other way. -/
theorem choose_neg (greatest : Bool) (xs : List Int) :
    choose (!greatest) (xs.map Neg.neg) = -choose greatest xs := by
  cases xs with
  | nil => rfl
  | cons x rest =>
      induction rest generalizing x with
      | nil => rfl
      | cons y rest ih =>
          have flipped : (if !greatest then max (-x) (-y) else min (-x) (-y)) =
              -(if greatest then max x y else min x y) := by
            cases greatest
            · change max (-x) (-y) = -min x y
              omega
            · change min (-x) (-y) = -max x y
              omega
          rw [List.map_cons, List.map_cons, choose_cons_cons, flipped, ← List.map_cons, ih,
            choose_cons_cons]

variable {e : Evaluator} {p : Position} {side : Side}

/-- A search ends at its horizon or where no move is legal, and else goes on after every legal
move. -/
theorem ply_induction {P : Nat → Position → Prop} (e : Evaluator)
    (ended : ∀ plies p, p.legal e.types = [] → P plies p)
    (horizon : ∀ p, p.legal e.types ≠ [] → P 0 p)
    (ahead : ∀ plies p, p.legal e.types ≠ [] → (∀ m ∈ p.legal e.types, P plies (p.after m)) →
      P (plies + 1) p) (plies : Nat) (p : Position) : P plies p := by
  induction plies generalizing p with
  | zero =>
      by_cases stuck : p.legal e.types = []
      · exact ended 0 p stuck
      · exact horizon p stuck
  | succ plies ih =>
      by_cases stuck : p.legal e.types = []
      · exact ended (plies + 1) p stuck
      · exact ahead plies p stuck fun m _ => ih (p.after m)

theorem bestLead_of_legal_eq_nil (stuck : p.legal e.types = []) (plies : Nat) :
    e.bestLead side plies p = e.finalScore p side := by
  cases plies with
  | zero => rw [bestLead, if_neg (Position.not_hasLegal stuck)]
  | succ plies => rw [bestLead, stuck, List.isEmpty_nil, if_pos rfl]

theorem bestLead_zero (able : p.legal e.types ≠ []) :
    e.bestLead side 0 p = e.lead p.board side := by
  rw [bestLead, if_pos (Position.hasLegal_iff.2 able)]

theorem bestLead_succ (able : p.legal e.types ≠ []) (plies : Nat) :
    e.bestLead side (plies + 1) p = choose (p.toMove = side)
      ((p.legal e.types).map fun m => e.bestLead side plies (p.after m)) := by
  have some_move : ¬ (p.legal e.types).isEmpty = true := by
    rwa [List.isEmpty_iff]
  rw [bestLead, if_neg some_move]

theorem finalScore_other (e : Evaluator) (p : Position) (side : Side) :
    e.finalScore p side.other = -e.finalScore p side := by
  unfold finalScore
  cases p.board.inCheck e.types p.toMove <;> cases p.toMove <;> cases side <;>
    simp [Side.other]

theorem bestLead_other (e : Evaluator) (side : Side) (plies : Nat) (p : Position) :
    e.bestLead side.other plies p = -e.bestLead side plies p := by
  induction plies, p using ply_induction e with
  | ended plies p stuck =>
      rw [bestLead_of_legal_eq_nil stuck, bestLead_of_legal_eq_nil stuck, finalScore_other]
  | horizon p able => rw [bestLead_zero able, bestLead_zero able, lead_other]
  | ahead plies p able ih =>
      have turned : decide (p.toMove = side.other) = !decide (p.toMove = side) := by
        cases p.toMove <;> cases side <;> rfl
      have replies : ((p.legal e.types).map fun m => e.bestLead side.other plies (p.after m)) =
          ((p.legal e.types).map fun m => e.bestLead side plies (p.after m)).map Neg.neg := by
        rw [List.map_map]
        exact List.map_congr_left ih
      rw [bestLead_succ able, bestLead_succ able, turned, replies, choose_neg]

/-- The side to move after a move is the other one. -/
theorem neg_bestLead_after (e : Evaluator) (plies : Nat) (p : Position) (m : Move) :
    -e.bestLead (p.after m).toMove plies (p.after m) = e.bestLead p.toMove plies (p.after m) := by
  rw [Position.toMove_after, bestLead_other, neg_neg]

theorem bestLead_after_le {m : Move} (listed : m ∈ p.legal e.types) (plies : Nat) :
    e.bestLead p.toMove plies (p.after m) ≤ e.bestLead p.toMove (plies + 1) p := by
  rw [bestLead_succ (List.ne_nil_of_mem listed), decide_eq_true rfl]
  exact le_choose (List.mem_map_of_mem listed)

theorem exists_bestLead_after (able : p.legal e.types ≠ []) (side : Side) (plies : Nat) :
    ∃ m ∈ p.legal e.types, e.bestLead side plies (p.after m) = e.bestLead side (plies + 1) p := by
  rw [bestLead_succ able]
  apply List.mem_map.1
  apply choose_mem
  rwa [Ne, List.map_eq_nil_iff]

/-- No score is better than a mate or worse than being mated. -/
def InRange (score : Int) : Prop := -mateScore ≤ score ∧ score ≤ mateScore

theorem inRange_finalScore (e : Evaluator) (p : Position) (side : Side) :
    InRange (e.finalScore p side) := by
  unfold finalScore
  split
  · exact ⟨by decide, by decide⟩
  · split <;> exact ⟨by decide, by decide⟩

/-- Every line from such a position is worth no more than so much. -/
structure Bounded (e : Evaluator) (most : Int) (p : Position) : Prop where
  fair : e.Fair
  sane : p.board.isSane = true
  bounded : e.material p.board ≤ most

theorem Bounded.after {most : Int} {m : Move} (h : e.Bounded most p) (listed : m ∈ p.legal e.types) :
    e.Bounded most (p.after m) := by
  have fits := Position.fits_of_mem_legal h.sane listed
  exact ⟨h.fair, Position.isSane_after h.sane fits,
    (material_boardAfter_le h.fair fits).trans h.bounded⟩

/-- Every line from such a position is scored in range. -/
abbrev Moderate (e : Evaluator) (p : Position) : Prop := e.Bounded mateScore p

theorem Moderate.after {m : Move} (h : e.Moderate p) (listed : m ∈ p.legal e.types) :
    e.Moderate (p.after m) :=
  Bounded.after h listed

theorem Moderate.inRange_lead (h : e.Moderate p) (side : Side) : InRange (e.lead p.board side) := by
  have most := lead_le_material h.fair p.board side
  have least := neg_material_le_lead h.fair p.board side
  have bounded := h.bounded
  unfold InRange
  omega

theorem Moderate.inRange_bestLead (h : e.Moderate p) (side : Side) (plies : Nat) :
    InRange (e.bestLead side plies p) := by
  induction plies, p using ply_induction e with
  | ended plies p stuck =>
      rw [bestLead_of_legal_eq_nil stuck]
      exact inRange_finalScore e p side
  | horizon p able =>
      rw [bestLead_zero able]
      exact h.inRange_lead side
  | ahead plies p able ih =>
      obtain ⟨m, listed, score⟩ := exists_bestLead_after able side plies
      rw [← score]
      exact ih m listed (h.after listed)

/-! Leads that are numbers. -/

theorem eq_of_bestLead? {plies : Nat} {n : Int} (h : e.bestLead? side plies p = some n) :
    n = e.bestLead side plies p := by
  induction plies generalizing p n with
  | zero =>
      rw [bestLead?] at h
      rw [bestLead]
      split at h
      · rename_i able
        rw [if_pos able, eq_of_lead? h]
      · rename_i stuck
        rw [if_neg stuck, Option.some.inj h]
  | succ plies ih =>
      rw [bestLead?] at h
      rw [bestLead]
      split at h
      · rename_i stuck
        rw [if_pos stuck, Option.some.inj h]
      · rename_i able
        simp only [Option.bind_eq_bind, Option.bind_eq_some_iff] at h
        obtain ⟨scores, searched, best⟩ := h
        rw [if_neg able, ← Option.some.inj best, eq_map_of_mapM (fun _ _ _ => ih) searched]

/-- The material shrinks along every line, so that the leads at its end are numbers as well. -/
theorem Bounded.bestLead?_eq {most : Int} (h : e.Bounded most p) (short : 2 * most < UInt32.size)
    (side : Side) (plies : Nat) : e.bestLead? side plies p = some (e.bestLead side plies p) := by
  induction plies generalizing p with
  | zero =>
      have standing := h.bounded
      rw [bestLead?, bestLead, lead?_eq h.fair (by omega)]
      split <;> rfl
  | succ plies ih =>
      have replies : (p.legal e.types).mapM (fun m => e.bestLead? side plies (p.after m)) =
          some ((p.legal e.types).map fun m => e.bestLead side plies (p.after m)) :=
        mapM_eq_some_map fun m listed => ih (h.after listed)
      rw [bestLead?, bestLead, replies]
      split <;> rfl

end Evaluator

end VariantChess
