import VariantChess.Proofs.DrawnPlans
import VariantChess.Random.Stream

/-!
The standard types that are drawn. Each is what its tier may draw, whatever the source yields. The routes of
what is drawn can be worked out on every board that has squares and on which a leap of four, the longest that
is ever repeated, can be written down on top of the board.
-/

namespace VariantChess

/-! The standard types. -/

theorem Tier.Draws.of_drawing {tier : Tier} {kinds own : Nat} {plan : Plan}
    (h : tier.Draws kinds own plan) (above : tier ≠ .lowly) (under : tier ≠ .king) :
    plan.Drawn tier kinds own := by
  cases tier with
  | lowly => exact (above rfl).elim
  | king => exact (under rfl).elim
  | _ => exact h

/-- Which of the standard types have a tier of their own. -/
theorem number_of_listed {i : Nat} {name : String} {tier : Tier}
    (listed : standardTypes[i]? = some (name, tier)) :
    (tier = .lowly ↔ i = 0) ∧ (tier = .queen ↔ i = 4) ∧ (tier = .king ↔ i = 5) := by
  have inside : i < 6 := (List.getElem?_eq_some_iff.1 listed).1
  obtain rfl | rfl | rfl | rfl | rfl | rfl :
    i = 0 ∨ i = 1 ∨ i = 2 ∨ i = 3 ∨ i = 4 ∨ i = 5 := by omega
  all_goals
    cases listed
    decide

/-- The routes of a drawn type are those of its motions. -/
theorem PieceType.Drawn.make {d : Dimensions} {own : Nat} {name : String} {tier : Tier} {t : PieceType}
    (h : t.Drawn d own name tier) : ∀ m ∈ t.rule.parts, m.motion.Drawn tier ∧ m = .make d m.motion := by
  rw [h.built, Plan.build, Pattern.parts_map, List.forall_mem_map]
  exact fun m part => ⟨h.plan.drawn m part, rfl⟩

namespace Roster.Drawn

variable {d : Dimensions} {types : Roster}

section Entries

variable {own : Nat} {table : List (String × Tier)} (h : types.Drawn d own table) {t : PieceType}
include h

theorem of_getElem? {i : Nat} (found : types[i]? = some t) :
    ∃ name tier, table[i]? = some (name, tier) ∧ t.Drawn d (own + i) name tier := by
  have inside := (List.getElem?_eq_some_iff.1 found).1
  have listed := List.getElem?_eq_getElem (h.length ▸ inside)
  exact ⟨_, _, listed, h.each i _ _ t listed found⟩

theorem of_mem (listed : t ∈ types) : ∃ i name tier, t.Drawn d (own + i) name tier := by
  obtain ⟨i, found⟩ := List.mem_iff_getElem?.1 listed
  obtain ⟨name, tier, _, drawn⟩ := h.of_getElem? found
  exact ⟨i, name, tier, drawn⟩

end Entries

theorem texts {own : Nat} {table : List (String × Tier)} (h : types.Drawn d own table) :
    types.map (·.name) = table.map (·.1) ∧ types.map (·.icon) = table.map (·.1) := by
  have same (text : PieceType → String)
      (each : ∀ i name tier t, t.Drawn d (own + i) name tier → text t = name) :
      types.map text = table.map (·.1) := by
    refine List.ext_getElem (by simp [h.length]) ?_
    intro i inside listed
    rw [List.length_map] at inside listed
    rw [List.getElem_map, List.getElem_map]
    refine each i _ _ _ (h.each i _ (table[i]).2 _ ?_ (List.getElem?_eq_getElem inside))
    exact List.getElem?_eq_getElem listed
  exact ⟨same _ fun _ _ _ _ drawn => drawn.named, same _ fun _ _ _ _ drawn => drawn.icon⟩

theorem eq_six {α : Type} {xs : List α} (count : xs.length = 6) :
    ∃ a b c d e f, xs = [a, b, c, d, e, f] := by
  rcases xs with _ | ⟨a, _ | ⟨b, _ | ⟨c, _ | ⟨d, _ | ⟨e, _ | ⟨f, _ | ⟨g, rest⟩⟩⟩⟩⟩⟩⟩ <;> simp at count
  exact ⟨a, b, c, d, e, f, rfl⟩

/-- The standard types are these six. -/
theorem six (h : types.Drawn d 0 standardTypes) : ∃ pawn rook knight bishop queen king,
    types = [pawn, rook, knight, bishop, queen, king] ∧
    pawn.Drawn d 0 "Pawn" .lowly ∧ rook.Drawn d 1 "Rook" .major ∧ knight.Drawn d 2 "Knight" .minor ∧
    bishop.Drawn d 3 "Bishop" .minor ∧ queen.Drawn d 4 "Queen" .queen ∧
    king.Drawn d 5 "King" .king := by
  obtain ⟨length, each⟩ := h
  obtain ⟨pawn, rook, knight, bishop, queen, king, rfl⟩ := eq_six length
  refine ⟨pawn, rook, knight, bishop, queen, king, rfl, ?_, ?_, ?_, ?_, ?_, ?_⟩
  · exact each 0 "Pawn" .lowly pawn rfl rfl
  · exact each 1 "Rook" .major rook rfl rfl
  · exact each 2 "Knight" .minor knight rfl rfl
  · exact each 3 "Bishop" .minor bishop rfl rfl
  · exact each 4 "Queen" .queen queen rfl rfl
  · exact each 5 "King" .king king rfl rfl

end Roster.Drawn

namespace PieceType.Drawn

variable {d : Dimensions} {own : Nat} {name : String} {tier : Tier} {t : PieceType}
  (h : t.Drawn d own name tier)
include h

theorem not_royal (common : tier ≠ .queen ∧ tier ≠ .king) : t.royal = false :=
  Bool.eq_false_iff.2 fun royal => (h.royal royal).elim common.1 common.2

theorem rule_eq {plan : Plan} (same : t.rule.plan = plan) : t.rule = plan.build d := by
  rw [← same]
  exact h.built

end PieceType.Drawn

/-! Routes of drawn motions. -/

namespace Motion.Drawn

variable {d : Dimensions} {tier : Tier} {m : Motion} (h : m.Drawn tier)
include h

theorem writable : m.Writable := by
  have mild {steps : List Step} (choice : Step.Choice steps) : ∀ s ∈ steps, s.Mild :=
    fun s listed => Square.mild_of_mem_canonical (choice.canonical s listed)
  have short {span : LeapSpan} (within : span.Within 0 5) : span.isReversible = true := by
    obtain ⟨_, _, _, _, _, _⟩ := within
    simp only [LeapSpan.isReversible, List.all_cons, List.all_nil, Bool.and_true, Bool.or_eq_true,
      Bool.and_eq_true, Square.reversible_iff, UInt32.size]
    omega
  cases m with
  | walker steps min max | rider steps | catapult steps | grasshopper steps => exact mild h.1
  | leaper span => exact short h
  | leaprider span => exact short (LeapSpan.Within.mono h (by decide) (by decide))
  | leapfrog steps limit =>
      obtain ⟨choice, _, _, few⟩ := h
      refine ⟨mild choice, ?_⟩
      unfold UInt64.size
      omega

theorem repeatable (rows : 2 * (d.rows + 4) ≤ UInt32.size) (cols : 2 * (d.cols + 4) ≤ UInt32.size) :
    m.Repeatable d := by
  cases m with
  | leaprider span =>
      intro v listed
      obtain ⟨holds, fits⟩ := LeapSpan.mem_leaps.1 listed
      obtain ⟨_, _, _, _, _, _⟩ := h
      have short : v.row.natAbs ≤ 4 ∧ v.col.natAbs ≤ 4 := by
        obtain ⟨_, m, n, _, _, made⟩ := holds
        omega
      exact scale?_beyond holds.1 fits (by omega) (by omega)
  | walker | rider | leaper | catapult | grasshopper | leapfrog => trivial

theorem make? (some_way : 0 < max d.rows d.cols) (rows : 2 * (d.rows + 4) ≤ UInt32.size)
    (cols : 2 * (d.cols + 4) ≤ UInt32.size) : Mover.make? d m = some (.make d m) := by
  have addressable : d.Addressable := by
    unfold Dimensions.Addressable
    omega
  exact Mover.make?_eq addressable some_way h.writable (h.repeatable rows cols)

end Motion.Drawn

namespace Draw

variable {σ : Type} [RandomSource σ] {d : Dimensions} (some_type : 1 ≤ d.kinds)
  (listed : Capacity.holds d.kinds 8 = true)
include some_type listed

/-- What is drawn does not depend on whether its routes can be worked out. -/
theorem always_drawn : Always (Roster.Drawn d 0 standardTypes) (pieceTypes d : StateM σ Roster) := by
  have built (tier : Tier) (m : Motion) (_ : m.Drawn tier) :
      (fun m => some (Mover.make d m)) m = some (.make d m) := rfl
  exact (Guarded.yields_pieceTypesFrom some_type listed built (.inl (by decide))).always

/-- Whatever the source yields, drawing the standard types comes to an end without a failure, and the types
are well formed. The pawn and the king keep their rules; the other four have rules of kinds that their tiers
draw, with parameters from their tiers' tables and routes for this board. -/
theorem pieceTypes_wellFormed (some_way : 0 < max d.rows d.cols) (rows : 2 * (d.rows + 4) ≤ UInt32.size)
    (cols : 2 * (d.cols + 4) ≤ UInt32.size) (source : σ) :
    ∃ types next, (Guarded.pieceTypes d).run.run source = (some types, next) ∧
      (pieceTypes d).run source = (types, next) ∧
      types.map (·.name) = standardTypes.map (·.1) ∧
      types.map (·.icon) = standardTypes.map (·.1) ∧
      (∃ queen, types.map (·.royal) = [false, false, false, false, queen, true]) ∧
      types[0]?.map (·.rule) = some (Plan.pawn.build d) ∧
      types[5]?.map (·.rule) = some (Plan.king.build d) ∧
      ∀ own name tier t, standardTypes[own]? = some (name, tier) → types[own]? = some t →
        (1 ≤ own → own ≤ 4 → t.rule.plan.Drawn tier d.kinds own) ∧
        ∀ m ∈ t.rule.parts, m.motion.Drawn tier ∧ Mover.make? d m.motion = some m ∧
          m.whiteRoutes = m.motion.routes d ∧
          m.blackRoutes = (m.motion.routes d).map Route.flipRow := by
  have built (tier : Tier) (m : Motion) (drawn : m.Drawn tier) : Mover.make? d m = some (.make d m) :=
    drawn.make? some_way rows cols
  have yields : Guarded.Yields (Roster.Drawn d 0 standardTypes)
      (Guarded.pieceTypes d : OptionT (StateM σ) Roster) (pieceTypes d) :=
    Guarded.yields_pieceTypesFrom some_type listed built (.inl (by decide))
  obtain ⟨same, drawn⟩ := yields source
  generalize (pieceTypes d : StateM σ Roster).run source = answer at same drawn
  obtain ⟨types, next⟩ := answer
  obtain ⟨names, icons⟩ := drawn.texts
  refine ⟨types, next, same, rfl, names, icons, ?_, ?_, ?_, ?_⟩
  · obtain ⟨_, _, _, _, queen, _, rfl, pawn, rook, knight, bishop, _, king⟩ := drawn.six
    refine ⟨queen.royal, ?_⟩
    simp [pawn.not_royal, rook.not_royal, knight.not_royal, bishop.not_royal, king.king]
  · obtain ⟨_, _, _, _, _, _, rfl, pawn, _⟩ := drawn.six
    exact congrArg some (pawn.rule_eq pawn.plan)
  · obtain ⟨_, _, _, _, _, _, rfl, _, _, _, _, _, king⟩ := drawn.six
    exact congrArg some (king.rule_eq king.plan)
  · intro own name tier t entry found
    have type := drawn.each own name tier t entry found
    rw [Nat.zero_add] at type
    refine ⟨?_, ?_⟩
    · intro low high
      obtain ⟨lowly, _, king⟩ := number_of_listed entry
      refine type.plan.of_drawing (fun above => ?_) (fun under => ?_)
      · have first := lowly.1 above
        omega
      · have last := king.1 under
        omega
    · intro m part
      obtain ⟨params, made⟩ := type.make m part
      refine ⟨params, ?_, ?_, ?_⟩
      · rw [built tier m.motion params, ← made]
      · rw [made]
        rfl
      · rw [made]
        rfl

end Draw

/-- Without squares there is not even a pawn. -/
theorem Draw.pieceTypes_fails : (Guarded.pieceTypes ⟨0, 0, 6⟩).run.run (Stream.ofSeed 7) =
    (none, Stream.ofSeed 7) :=
  rfl

/-- On a board of one type the only exchange is with pawns. -/
theorem Draw.exchange_with_pawns : 1 ≤ (⟨4, 1, 1⟩ : Dimensions).kinds ∧
    Capacity.holds (⟨4, 1, 1⟩ : Dimensions).kinds 8 = true ∧
    ∃ types next, (Guarded.pieceTypes ⟨4, 1, 1⟩).run.run (Stream.ofSeed 7) = (some types, next) ∧
      ∀ own (t : PieceType) partner mover, 1 ≤ own → own ≤ 4 → types[own]? = some t →
        t.rule = .exchange partner mover → partner = 0 := by
  have one : 1 ≤ (⟨4, 1, 1⟩ : Dimensions).kinds := by decide
  have fits : Capacity.holds (⟨4, 1, 1⟩ : Dimensions).kinds 8 = true := by decide
  obtain ⟨types, next, same, _, _, _, _, _, _, each⟩ :=
    pieceTypes_wellFormed one fits (by decide) (by decide) (by decide) (Stream.ofSeed 7)
  refine ⟨one, fits, types, next, same, ?_⟩
  intro own t partner mover low high found exchange
  have short : own < standardTypes.length := Nat.lt_of_le_of_lt high (by decide)
  have listed := List.getElem?_eq_getElem short
  have drawn := (each own _ _ t listed found).1 low high
  have swaps : t.rule.plan = .exchange partner mover.motion := by
    rw [exchange]
    rfl
  exact Nat.lt_one_iff.1 (drawn.partner partner mover.motion swaps).2

end VariantChess
