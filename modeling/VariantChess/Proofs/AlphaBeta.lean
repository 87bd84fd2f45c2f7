import VariantChess.Proofs.Minimax

/-!
The search with cut-offs. A search on a window may stop early, but what it returns is still a
bound on the side on which it left the window, and the exact score inside. So a move that is tried
with the best score so far as its window either beats that score, and is then scored exactly, or
is rightly passed over: the move that is kept is the first with the greatest exact score.
-/

namespace VariantChess

namespace Evaluator

/-- Below `beta` nothing better was missed, and above `alpha` the score is really secured. -/
structure Brackets (alpha beta forced score : Int) : Prop where
  complete : score < beta → forced ≤ score
  secured : alpha < score → score ≤ forced

namespace Brackets

variable {alpha beta forced score : Int}

theorem refl (alpha beta forced : Int) : Brackets alpha beta forced forced :=
  ⟨fun _ => le_rfl, fun _ => le_rfl⟩

/-- The other side sees the window, and the scores, reversed. -/
theorem neg (h : Brackets (-beta) (-alpha) forced score) :
    Brackets alpha beta (-forced) (-score) := by
  refine ⟨?_, ?_⟩
  · intro below
    have secured := h.secured (by omega)
    omega
  · intro above
    have complete := h.complete (by omega)
    omega

end Brackets

variable {e : Evaluator} {p : Position}

/-- What the moves still to be tried add to the best score so far. The window narrows from below as
better moves are found, and the first that reaches `beta` ends the search. -/
theorem cutoff_spec {reply : Int → Int → Position → Int} {forced : Move → Int} {beta : Int}
    {moves : List Move} {alpha best : Int} (below : best ≤ alpha) (window : alpha < beta)
    (brackets : ∀ m ∈ moves, ∀ low, alpha ≤ low → low < beta →
      Brackets low beta (forced m) (-reply (-beta) (-low) (p.after m))) :
    best ≤ cutoff reply p beta alpha best moves ∧
    (cutoff reply p beta alpha best moves < beta →
      ∀ m ∈ moves, forced m ≤ cutoff reply p beta alpha best moves) ∧
    (alpha < cutoff reply p beta alpha best moves →
      ∃ m ∈ moves, cutoff reply p beta alpha best moves ≤ forced m) := by
  induction moves generalizing alpha best with
  | nil =>
      rw [cutoff]
      refine ⟨le_rfl, fun _ => List.forall_mem_nil _, ?_⟩
      intro above
      omega
  | cons m rest ih =>
      have first := brackets m List.mem_cons_self alpha le_rfl window
      rw [cutoff]
      generalize -reply (-beta) (-alpha) (p.after m) = score at first ⊢
      by_cases reached : max alpha (max best score) ≥ beta
      · -- only the new score can have reached the end of the window
        have new : max best score = score := by omega
        rw [if_pos reached, new]
        refine ⟨by omega, ?_, ?_⟩
        · intro inside
          omega
        · intro above
          exact ⟨m, List.mem_cons_self, first.secured above⟩
      · rw [if_neg reached]
        have below_next : max best score ≤ max alpha (max best score) := le_max_right _ _
        have window_next : max alpha (max best score) < beta := by omega
        have brackets_next : ∀ n ∈ rest, ∀ low, max alpha (max best score) ≤ low → low < beta →
            Brackets low beta (forced n) (-reply (-beta) (-low) (p.after n)) := by
          intro n listed low above
          exact brackets n (List.mem_cons_of_mem m listed) low (by omega)
        obtain ⟨grown, complete, secured⟩ := ih below_next window_next brackets_next
        generalize cutoff reply p beta (max alpha (max best score)) (max best score) rest = result
          at grown complete secured ⊢
        refine ⟨by omega, ?_, ?_⟩
        · intro inside n listed
          rcases List.mem_cons.1 listed with rfl | later
          · have bound := first.complete (by omega)
            omega
          · exact complete inside n later
        · intro above
          by_cases improved : max alpha (max best score) < result
          · obtain ⟨n, later, bound⟩ := secured improved
            exact ⟨n, List.mem_cons_of_mem m later, bound⟩
          · have bound := first.secured (by omega)
            exact ⟨m, List.mem_cons_self, by omega⟩

theorem search_of_legal_eq_nil (stuck : p.legal e.types = []) (plies : Nat) (alpha beta : Int) :
    e.search plies alpha beta p = e.finalScore p p.toMove := by
  cases plies with
  | zero => rw [search, if_neg (Position.not_hasLegal stuck)]
  | succ plies => rw [search, stuck, List.isEmpty_nil, if_pos rfl]

theorem search_zero (able : p.legal e.types ≠ []) (alpha beta : Int) :
    e.search 0 alpha beta p = e.lead p.board p.toMove := by
  rw [search, if_pos (Position.hasLegal_iff.2 able)]

theorem search_succ (able : p.legal e.types ≠ []) (plies : Nat) (alpha beta : Int) :
    e.search (plies + 1) alpha beta p =
      cutoff (e.search plies) p beta alpha (-infinity) (p.legal e.types) := by
  have some_move : ¬ (p.legal e.types).isEmpty = true := by
    rwa [List.isEmpty_iff]
  rw [search, if_neg some_move]

theorem search_brackets (e : Evaluator) (plies : Nat) (p : Position) {alpha beta : Int}
    (low : -infinity ≤ alpha) (window : alpha < beta) (high : beta ≤ infinity) :
    Brackets alpha beta (e.bestLead p.toMove plies p) (e.search plies alpha beta p) := by
  induction plies, p using ply_induction e generalizing alpha beta with
  | ended plies p stuck =>
      rw [bestLead_of_legal_eq_nil stuck, search_of_legal_eq_nil stuck]
      exact .refl alpha beta _
  | horizon p able =>
      rw [bestLead_zero able, search_zero able]
      exact .refl alpha beta _
  | ahead plies p able ih =>
      have replies : ∀ m ∈ p.legal e.types, ∀ low, alpha ≤ low → low < beta →
          Brackets low beta (e.bestLead p.toMove plies (p.after m))
            (-e.search plies (-beta) (-low) (p.after m)) := by
        intro m listed low' above inside
        rw [← neg_bestLead_after]
        exact (ih m listed (by omega) (by omega) (by omega)).neg
      obtain ⟨_, complete, secured⟩ := cutoff_spec low window replies
      rw [search_succ able]
      refine ⟨?_, ?_⟩
      · intro inside
        obtain ⟨m, listed, score⟩ := exists_bestLead_after able p.toMove plies
        rw [← score]
        exact complete inside m listed
      · intro above
        obtain ⟨m, listed, bound⟩ := secured above
        exact bound.trans (bestLead_after_le listed plies)

/-! Whatever the window, no score is out of range. -/

theorem InRange.neg {score : Int} (h : InRange score) : InRange (-score) := by
  obtain ⟨least, most⟩ := h
  unfold InRange
  omega

theorem InRange.max {score other : Int} (h : InRange score) (h' : InRange other) :
    InRange (max score other) := by
  rcases max_choice score other with same | same <;> rwa [same]

theorem InRange.cutoff {reply : Int → Int → Position → Int} {alpha beta best : Int} {moves : List Move}
    (start : InRange best) (replies : ∀ m ∈ moves, ∀ low high, InRange (reply low high (p.after m))) :
    InRange (cutoff reply p beta alpha best moves) := by
  induction moves generalizing alpha best with
  | nil => exact start
  | cons m rest ih =>
      obtain ⟨first, others⟩ := List.forall_mem_cons.1 replies
      have next := start.max (first (-beta) (-alpha)).neg
      rw [Evaluator.cutoff]
      split
      · exact next
      · exact ih next others

/-- The search starts below every score, and any reply brings it into the range. -/
theorem inRange_cutoff_of_ne_nil {reply : Int → Int → Position → Int} {alpha beta : Int} {moves : List Move}
    (able : moves ≠ []) (replies : ∀ m ∈ moves, ∀ low high, InRange (reply low high (p.after m))) :
    InRange (cutoff reply p beta alpha (-infinity) moves) := by
  obtain ⟨m, rest, rfl⟩ := List.exists_cons_of_ne_nil able
  obtain ⟨first, others⟩ := List.forall_mem_cons.1 replies
  have score := (first (-beta) (-alpha)).neg
  have raised : max (-infinity) (-reply (-beta) (-alpha) (p.after m)) =
      -reply (-beta) (-alpha) (p.after m) := by
    have less : -infinity < -mateScore := by decide
    exact max_eq_right (less.le.trans score.1)
  rw [cutoff, raised]
  split
  · exact score
  · exact score.cutoff others

theorem Moderate.inRange_search (h : e.Moderate p) (plies : Nat) (alpha beta : Int) :
    InRange (e.search plies alpha beta p) := by
  induction plies, p using ply_induction e generalizing alpha beta with
  | ended plies p stuck =>
      rw [search_of_legal_eq_nil stuck]
      exact inRange_finalScore e p p.toMove
  | horizon p able =>
      rw [search_zero able]
      exact h.inRange_lead p.toMove
  | ahead plies p able ih =>
      rw [search_succ able]
      exact inRange_cutoff_of_ne_nil able fun m listed => ih m listed (h.after listed)

/-- The first of the moves with the greatest score. -/
def FirstBest (score : Move → Int) (moves : List Move) (m : Move) : Prop :=
  ∃ before after, moves = before ++ m :: after ∧
    (∀ n ∈ before, score n < score m) ∧ ∀ n ∈ after, score n ≤ score m

namespace FirstBest

variable {score : Move → Int} {moves : List Move} {m n : Move}

theorem head (bound : ∀ n ∈ moves, score n ≤ score m) : FirstBest score (m :: moves) m := by
  exact ⟨[], moves, rfl, List.forall_mem_nil _, bound⟩

theorem cons (h : FirstBest score moves m) (worse : score n < score m) :
    FirstBest score (n :: moves) m := by
  obtain ⟨before, after, rfl, lower, bound⟩ := h
  refine ⟨n :: before, after, rfl, ?_, bound⟩
  intro k listed
  rcases List.mem_cons.1 listed with rfl | earlier
  · exact worse
  · exact lower k earlier

theorem mem (h : FirstBest score moves m) : m ∈ moves := by
  obtain ⟨before, after, rfl, _, _⟩ := h
  exact List.mem_append_right before List.mem_cons_self

theorem le (h : FirstBest score moves m) (listed : n ∈ moves) : score n ≤ score m := by
  obtain ⟨before, after, rfl, lower, bound⟩ := h
  rcases List.mem_append.1 listed with earlier | rest
  · exact (lower n earlier).le
  · rcases List.mem_cons.1 rest with rfl | later
    · exact le_rfl
    · exact bound n later

theorem find? (h : FirstBest score moves m) :
    moves.find? (fun n => score n = score m) = some m := by
  obtain ⟨before, after, rfl, lower, _⟩ := h
  rw [List.find?_eq_some_iff_append]
  refine ⟨decide_eq_true rfl, before, after, rfl, ?_⟩
  intro n earlier
  have worse := lower n earlier
  simpa using worse.ne

end FirstBest

/-- A move tried with the best score so far as its window is scored exactly if it beats that score,
and does not beat it otherwise. -/
structure Tried (alpha forced score : Int) : Prop where
  beaten : alpha < score → score = forced
  passed : score ≤ alpha → forced ≤ alpha

theorem search_tried (plies : Nat) {m : Move} {alpha : Int}
    (range : InRange (e.bestLead p.toMove plies (p.after m))) (low : -infinity ≤ alpha)
    (high : alpha < infinity) :
    Tried alpha (e.bestLead p.toMove plies (p.after m))
      (-e.search plies (-infinity) (-alpha) (p.after m)) := by
  have reply : Brackets (-infinity) (-alpha) (e.bestLead (p.after m).toMove plies (p.after m))
      (e.search plies (-infinity) (-alpha) (p.after m)) :=
    search_brackets e plies (p.after m) le_rfl (by omega) (by omega)
  have brackets : Brackets alpha infinity (e.bestLead p.toMove plies (p.after m))
      (-e.search plies (-infinity) (-alpha) (p.after m)) := by
    rw [← neg_bestLead_after]
    exact reply.neg
  have most := range.2
  have more : mateScore < infinity := by decide
  refine ⟨?_, ?_⟩
  · intro better
    have secured := brackets.secured better
    have complete := brackets.complete (by omega)
    omega
  · intro worse
    have complete := brackets.complete (by omega)
    omega

/-- Either no move beats the score to beat, or the first of the best moves is kept. -/
theorem improve_spec (plies : Nat) {forced : Move → Int} {moves : List Move} {alpha : Int}
    (best : Option (Move × Int)) (range : ∀ m ∈ moves, InRange (forced m))
    (tried : ∀ m ∈ moves, ∀ alpha, -infinity ≤ alpha → alpha < infinity →
      Tried alpha (forced m) (-e.search plies (-infinity) (-alpha) (p.after m)))
    (low : -infinity ≤ alpha) (high : alpha < infinity) :
    (e.improve plies p alpha best moves = best ∧ ∀ m ∈ moves, forced m ≤ alpha) ∨
    ∃ m, e.improve plies p alpha best moves = some (m, forced m) ∧ alpha < forced m ∧
      FirstBest forced moves m := by
  induction moves generalizing alpha best with
  | nil => exact Or.inl ⟨rfl, List.forall_mem_nil _⟩
  | cons m rest ih =>
      obtain ⟨most, range_rest⟩ := List.forall_mem_cons.1 range
      obtain ⟨tried_first, tried_rest⟩ := List.forall_mem_cons.1 tried
      obtain ⟨beaten, passed⟩ := tried_first alpha low high
      rw [improve]
      generalize -e.search plies (-infinity) (-alpha) (p.after m) = score at beaten passed ⊢
      by_cases better : score > alpha
      · have more : mateScore < infinity := by decide
        have bound := most.2
        obtain rfl := beaten better
        have low_next : -infinity ≤ forced m := by omega
        have high_next : forced m < infinity := by omega
        rw [if_pos better]
        rcases ih (some (m, forced m)) range_rest tried_rest low_next high_next with kept | later
        · exact Or.inr ⟨m, kept.1, better, .head kept.2⟩
        · obtain ⟨n, found, above, first⟩ := later
          exact Or.inr ⟨n, found, better.trans above, first.cons above⟩
      · rw [if_neg better]
        have worse := passed (by omega)
        rcases ih best range_rest tried_rest low high with kept | later
        · exact Or.inl ⟨kept.1, List.forall_mem_cons.2 ⟨worse, kept.2⟩⟩
        · obtain ⟨n, found, above, first⟩ := later
          exact Or.inr ⟨n, found, above, first.cons (worse.trans_lt above)⟩

theorem bestLead_of_firstBest {m : Move} {plies : Nat}
    (first : FirstBest (fun n => e.bestLead p.toMove plies (p.after n)) (p.legal e.types) m) :
    e.bestLead p.toMove plies (p.after m) = e.bestLead p.toMove (plies + 1) p := by
  have able := List.ne_nil_of_mem first.mem
  obtain ⟨n, listed, score⟩ := exists_bestLead_after able p.toMove plies
  have most := first.le listed
  have least := bestLead_after_le first.mem plies
  omega

theorem bestMove_of_legal_eq_nil (stuck : p.legal e.types = []) (plies : Nat) :
    e.bestMove p plies = none := by
  rw [bestMove, stuck, improve]

theorem Moderate.bestMove_eq_some (h : e.Moderate p) (able : p.legal e.types ≠ []) (plies : Nat) :
    ∃ m, e.bestMove p plies = some (m, e.bestLead p.toMove (plies - 1 + 1) p) ∧
      (p.legal e.types).find? (fun n => e.bestLead p.toMove (plies - 1) (p.after n) =
        e.bestLead p.toMove (plies - 1 + 1) p) = some m := by
  let forced (m : Move) : Int := e.bestLead p.toMove (plies - 1) (p.after m)
  have range : ∀ m ∈ p.legal e.types, InRange (forced m) := by
    intro m listed
    exact (h.after listed).inRange_bestLead p.toMove (plies - 1)
  have tried : ∀ m ∈ p.legal e.types, ∀ alpha, -infinity ≤ alpha → alpha < infinity →
      Tried alpha (forced m) (-e.search (plies - 1) (-infinity) (-alpha) (p.after m)) := by
    intro m listed alpha low high
    exact search_tried (plies - 1) (range m listed) low high
  rcases improve_spec (plies - 1) none range tried le_rfl (by decide) with none_better | found
  · obtain ⟨m, listed⟩ := List.exists_mem_of_ne_nil _ able
    have worse := none_better.2 m listed
    have least := (range m listed).1
    have less : -infinity < -mateScore := by decide
    omega
  · obtain ⟨m, kept, _, first⟩ := found
    have secured : forced m = e.bestLead p.toMove (plies - 1 + 1) p := bestLead_of_firstBest first
    refine ⟨m, ?_, ?_⟩
    · rw [bestMove, kept, secured]
    · rw [← secured]
      exact first.find?

end Evaluator

/-- A search to no depth looks one ply ahead all the same. -/
theorem Game.bestMove_minimax (g : Game) {p : Position} (sane : p.board.isSane = true)
    (bounded : (p.board.pieces.map fun q => g.evaluator.value q.kind).sum ≤ Evaluator.mateScore)
    (plies : Nat) :
    (g.evaluator.bestMove p plies = none ↔ p.legal g.types = []) ∧
    ∀ m v, g.evaluator.bestMove p plies = some (m, v) →
      v = g.evaluator.bestLead p.toMove (max plies 1) p ∧
      (p.legal g.types).find? (fun n =>
        g.evaluator.bestLead p.toMove (max plies 1 - 1) (p.after n) = v) = some m := by
  have moderate : g.evaluator.Moderate p := ⟨Evaluator.fair_make g.types g.dims, sane, bounded⟩
  have depth : max plies 1 = plies - 1 + 1 := by omega
  by_cases stuck : p.legal g.types = []
  · have nothing : g.evaluator.bestMove p plies = none :=
      Evaluator.bestMove_of_legal_eq_nil stuck plies
    rw [nothing]
    refine ⟨iff_of_true rfl stuck, ?_⟩
    intro m v found
    cases found
  · obtain ⟨m, found, first⟩ := moderate.bestMove_eq_some stuck plies
    rw [found, depth, Nat.add_sub_cancel]
    refine ⟨iff_of_false (Option.some_ne_none _) stuck, ?_⟩
    intro n v same
    cases same
    exact ⟨rfl, first⟩

theorem Endgame.material_le : (Endgame.board.pieces.map fun q => Endgame.game.evaluator.value q.kind).sum ≤
    Evaluator.mateScore := by decide +kernel

theorem Game.bestMove_mate : Endgame.initial.board.isSane = true ∧
    (Endgame.board.pieces.map fun q => Endgame.game.evaluator.value q.kind).sum ≤
      Evaluator.mateScore ∧
    Endgame.game.evaluator.bestLead .white 1 Endgame.initial = Evaluator.mateScore := by
  have sane := Endgame.isSane_initial
  have bounded := Endgame.material_le
  have found : Endgame.game.evaluator.bestMove Endgame.initial 1 =
      some (Endgame.mate, Evaluator.mateScore) := by decide +kernel
  have minimax := (bestMove_minimax Endgame.game sane bounded 1).2 _ _ found
  exact ⟨sane, bounded, minimax.1.symm⟩

/-- Inside the window the search finds the best lead, and outside a bound for it. -/
theorem Game.search_window (g : Game) (p : Position) (plies : Nat) (alpha beta : Int)
    (low : -Evaluator.infinity ≤ alpha) (window : alpha < beta) (high : beta ≤ Evaluator.infinity) :
    let score := g.evaluator.search plies alpha beta p
    let forced := g.evaluator.bestLead p.toMove plies p
    (alpha < score → score < beta → score = forced) ∧
    (score ≤ alpha → forced ≤ score) ∧
    (beta ≤ score → score ≤ forced) ∧
    (p.board.isSane = true →
      (p.board.pieces.map fun q => g.evaluator.value q.kind).sum ≤ Evaluator.mateScore →
      -Evaluator.mateScore ≤ score ∧ score ≤ Evaluator.mateScore) := by
  intro score forced
  obtain ⟨complete, secured⟩ := Evaluator.search_brackets g.evaluator plies p low window high
  refine ⟨?_, ?_, ?_, ?_⟩
  · intro above below
    exact le_antisymm (secured above) (complete below)
  · intro failed
    exact complete (failed.trans_lt window)
  · intro reached
    exact secured (window.trans_le reached)
  · intro sane bounded
    have moderate : g.evaluator.Moderate p := ⟨Evaluator.fair_make g.types g.dims, sane, bounded⟩
    exact moderate.inRange_search plies alpha beta

/-- A window below the mate is left at its end, and one with the mate inside is searched to the mate. -/
theorem Game.search_window_mate :
    let e := Endgame.game.evaluator
    e.search 1 0 6 Endgame.initial = 6 ∧ 6 ≤ e.bestLead .white 1 Endgame.initial ∧
    e.search 1 6 Evaluator.infinity Endgame.initial = Evaluator.mateScore ∧
    Evaluator.mateScore = e.bestLead .white 1 Endgame.initial ∧
    Evaluator.InRange (e.search 1 0 6 Endgame.initial) := by
  intro e
  have early : e.search 1 0 6 Endgame.initial = 6 := by decide +kernel
  have whole : e.search 1 6 Evaluator.infinity Endgame.initial = Evaluator.mateScore := by decide +kernel
  obtain ⟨_, _, reached, range⟩ :=
    search_window Endgame.game Endgame.initial 1 0 6 (by decide) (by decide) (by decide)
  obtain ⟨inside, _⟩ := search_window Endgame.game Endgame.initial 1 6 Evaluator.infinity
    (by decide) (by decide) (by decide)
  refine ⟨early, ?_, whole, ?_, range Endgame.isSane_initial Endgame.material_le⟩
  · have bound := reached early.ge
    exact early.ge.trans bound
  · rw [← whole]
    exact inside (by rw [whole]; decide) (by rw [whole]; decide)

end VariantChess
