import Mathlib.Data.Nat.Prime.Basic
import VariantChess.Proofs.DrawnRosters
import VariantChess.Proofs.Hops
import VariantChess.Proofs.Intents
import VariantChess.Proofs.RouteShapes
import VariantChess.Proofs.Royals
import VariantChess.Proofs.Slides

/-!
Why nobody is in check at the start. A side that has not left its first two rows has seven rows to go to
the other side's royal pieces, its pawns six. Walkers and leapers are too short for that, leapfrogs only go
an even number of rows, and a leaprider that goes seven times strays too many files. Whatever goes one row
at a time comes over the pawns in front of the royal pieces, unless it is a grasshopper: that is stopped
behind its own pawns. On a board with more rows some of these pieces would get there.
-/

namespace VariantChess

/-! Steps of drawn motions. -/

namespace Square

/-- No row or file further than one. -/
def Near (s : Square) : Prop := s.row.natAbs ≤ 1 ∧ s.col.natAbs ≤ 1

/-- Between `low` and `high` rows, and at least `low` files. -/
def Far (low high : Nat) (s : Square) : Prop :=
  low ≤ s.row.natAbs ∧ s.row.natAbs ≤ high ∧ low ≤ s.col.natAbs

variable {low high : Nat} {s : Square}

theorem Near.flipCol (h : s.Near) : s.flipCol.Near := by simpa [Near, Square.flipCol] using h

theorem Near.flipRow (h : s.Near) : s.flipRow.Near := by simpa [Near, Square.flipRow] using h

theorem Far.flipCol (h : s.Far low high) : s.flipCol.Far low high := by
  simpa [Far, Square.flipCol] using h

theorem Far.flipRow (h : s.Far low high) : s.flipRow.Far low high := by
  simpa [Far, Square.flipRow] using h

end Square

theorem Step.Choice.near {steps : List Step} (choice : Step.Choice steps) : ∀ s ∈ steps, s.Near := by
  have each : ∀ s ∈ Step.canonical, s.row.natAbs ≤ 1 ∧ s.col.natAbs ≤ 1 := by decide
  intro s listed
  exact each s (choice.canonical s listed)

theorem LeapSpan.Within.far {low high : Nat} {span : LeapSpan} (within : span.Within low high)
    (d : Dimensions) : ∀ s ∈ span.leaps d, s.Far low high := by
  intro s listed
  obtain ⟨mMin, _, mMax, nMin, _, nMax⟩ := within
  obtain ⟨⟨_, m, n, m_bounds, n_bounds, made⟩, _⟩ := mem_leaps.1 listed
  unfold Square.Far
  omega

section Routes

variable {d : Dimensions} {m : Motion} {side : Side} {route : Route}
  (listed : route ∈ (Mover.make d m).routes side)
include listed

theorem near_of_mem_routes (each : ∀ s ∈ m.steps, s.Near) (none : m.leaps d = []) :
    ∀ s ∈ route, s.Near := by
  refine Mover.forall_mem_of_mem_routes listed (fun _ => .flipCol) (fun _ => .flipRow) each ?_
  rw [none]
  exact List.forall_mem_nil _

theorem far_of_mem_routes {low high : Nat} (none : m.steps = [])
    (far : ∀ s ∈ m.leaps d, s.Far low high) : ∀ s ∈ route, s.Far low high := by
  refine Mover.forall_mem_of_mem_routes listed (fun _ => .flipCol) (fun _ => .flipRow) ?_ far
  rw [none]
  exact List.forall_mem_nil _

end Routes

/-! Boards on which a side cannot reach the other's royal pieces. -/

/-- The squares of the queen and the king at the start. -/
def Square.IsThrone (side : Side) (s : Square) : Prop :=
  s.row = side.homeRow 8 ∧ (s.col = 3 ∨ s.col = 4)

instance (side : Side) (s : Square) : Decidable (s.IsThrone side) :=
  inferInstanceAs (Decidable (_ ∧ _))

/-- The pieces of `side` are on their first two rows, behind a full row of pawns. The other side's royal
pieces are at home, and nobody is missing in front of them. -/
structure Board.Fenced (b : Board) (side : Side) : Prop where
  dims : b.dims = .standard
  sane : b.isSane = true
  pawns : ∀ q ∈ b.piecesOf side, q.kind = 0 → q.square.row = side.secondRow 8
  others : ∀ q ∈ b.piecesOf side, q.kind ≠ 0 → q.square.row = side.homeRow 8
  front : ∀ col ∈ List.range 8, b.pieceOn ⟨side.secondRow 8, (col : Nat)⟩ ≠ none
  shield : ∀ col ∈ List.range' 2 4, b.pieceOn ⟨side.other.secondRow 8, (col : Nat)⟩ ≠ none
  royals : ∀ q ∈ b.piecesOf side.other, q.kind = 4 ∨ q.kind = 5 → q.square.IsThrone side.other

instance (b : Board) (side : Side) : Decidable (b.Fenced side) :=
  decidable_of_iff (b.dims = .standard ∧ b.isSane = true ∧
      (∀ q ∈ b.piecesOf side, q.kind = 0 → q.square.row = side.secondRow 8) ∧
      (∀ q ∈ b.piecesOf side, q.kind ≠ 0 → q.square.row = side.homeRow 8) ∧
      (∀ col ∈ List.range 8, b.pieceOn ⟨side.secondRow 8, (col : Nat)⟩ ≠ none) ∧
      (∀ col ∈ List.range' 2 4, b.pieceOn ⟨side.other.secondRow 8, (col : Nat)⟩ ≠ none) ∧
      ∀ q ∈ b.piecesOf side.other, q.kind = 4 ∨ q.kind = 5 → q.square.IsThrone side.other)
    ⟨fun ⟨dims, sane, pawns, others, front, shield, royals⟩ =>
      ⟨dims, sane, pawns, others, front, shield, royals⟩,
    fun ⟨dims, sane, pawns, others, front, shield, royals⟩ =>
      ⟨dims, sane, pawns, others, front, shield, royals⟩⟩

theorem Side.far_home (side : Side) : side.other.homeRow 8 = side.homeRow 8 + 7 * side.advance := by
  cases side <;> rfl

theorem Side.natAbs_advance (side : Side) : side.advance.natAbs = 1 := by cases side <;> rfl

/-- A step that leads over seven rows by being repeated, if it is no longer than six rows. -/
theorem seven_steps {step : Step} {n : Nat} {side : Side} (short : step.row.natAbs ≤ 6)
    (rows : (n : Int) * step.row = 7 * side.advance) : n = 7 ∧ step.row = side.advance := by
  have total : n * step.row.natAbs = 7 := by
    have lengths := congrArg Int.natAbs rows
    rwa [Int.natAbs_mul, Int.natAbs_mul, side.natAbs_advance] at lengths
  have seven : n = 7 := by
    have divisor : step.row.natAbs ∣ 7 := ⟨n, by rw [Nat.mul_comm, total]⟩
    rcases (Nat.dvd_prime (by decide)).1 divisor with one | all
    · rwa [one, Nat.mul_one] at total
    · omega
  subst seven
  exact ⟨rfl, by omega⟩

theorem Board.held_in_row {b : Board} {row : Int} {cols : List Nat}
    (held : ∀ col ∈ cols, b.pieceOn ⟨row, (col : Nat)⟩ ≠ none) {s : Square} (same : s.row = row)
    (nonneg : 0 ≤ s.col) (listed : s.col.toNat ∈ cols) : b.pieceOn s ≠ none := by
  have here : (⟨row, (s.col.toNat : Nat)⟩ : Square) = s := by
    rw [← same, Int.toNat_of_nonneg nonneg]
  exact here ▸ held _ listed

/-- A walker goes no more rows than it may take steps. -/
theorem Mover.walker_rows {b : Board} {d : Dimensions} {q : Piece} {i : Intent} {s : Square}
    {steps : List Step} {min max : Nat} (near : ∀ s ∈ steps, s.Near)
    (listed : s ∈ (make d (.walker steps min max)).destinations i b q) :
    (s.row - q.square.row).natAbs ≤ max := by
  obtain ⟨route, among, leads⟩ := List.mem_filterMap.1 listed
  have each := near_of_mem_routes among near rfl
  have few : route.length ≤ max := shape_of_mem_routes among
  rw [Gait.follow_leads leads]
  exact (Route.natAbs_leads_row (fun step inside => (each step inside).1) q.square).trans few

namespace Board.Fenced

variable {b : Board} {side : Side} (fenced : b.Fenced side)
include fenced

theorem contains_iff {s : Square} :
    b.contains s = true ↔ 0 ≤ s.row ∧ 0 ≤ s.col ∧ s.row < 8 ∧ s.col < 8 := by
  rw [Board.contains, fenced.dims]
  exact Dimensions.contains_iff

/-- One step ahead of a throne there is a pawn. -/
theorem shielded {s : Square} {step : Step} (near : step.Near) (ahead : step.row = side.advance)
    (throne : (s + step).IsThrone side.other) : b.pieceOn s ≠ none := by
  obtain ⟨row, col⟩ := throne
  obtain ⟨_, narrow⟩ := near
  rw [Square.add_row] at row
  rw [Square.add_col] at col
  refine held_in_row fenced.shield ?_ (by omega) ?_
  · rw [Side.secondRow, Side.advance_other]
    omega
  · rw [List.mem_range'_1]
    omega

/-- One step ahead of the home row there is a pawn. -/
theorem fronted {s : Square} (row : s.row = side.secondRow 8) (inside : b.contains s = true) :
    b.pieceOn s ≠ none := by
  obtain ⟨_, nonneg, _, right⟩ := fenced.contains_iff.1 inside
  refine held_in_row fenced.front row nonneg ?_
  rw [List.mem_range]
  omega

end Board.Fenced

/-! The ways from a home row to a throne. -/

section Ways

variable {side : Side} {s t : Square} (home : s.row = side.homeRow 8) (throne : t.IsThrone side.other)
include home throne

theorem rows_to_throne : t.row - s.row = 7 * side.advance := by
  rw [throne.1, home, side.far_home]
  omega

theorem straight_to_throne {step : Step} {n : Nat} (leads : t = (straightRoute step n).leads s) :
    (n : Int) * step.row = 7 * side.advance ∧ t.col = s.col + n * step.col := by
  have far := rows_to_throne home throne
  rw [leads, Route.leads_straightRoute] at far ⊢
  dsimp only [Square.along] at far ⊢
  exact ⟨by omega, rfl⟩

theorem mem_of_to_throne {step : Step} {n : Nat} (leads : t = (straightRoute step n).leads s) :
    step ∈ straightRoute step n := by
  obtain ⟨rows, _⟩ := straight_to_throne home throne leads
  have some_way : n ≠ 0 := by
    rintro rfl
    have unit := side.natAbs_advance
    omega
  exact List.mem_replicate.2 ⟨some_way, rfl⟩

/-- In near steps it is a straight way of seven. -/
theorem near_to_throne {step : Step} {n : Nat} (near : ∀ s ∈ straightRoute step n, s.Near)
    (leads : t = (straightRoute step n).leads s) : n = 7 ∧ step.row = side.advance ∧ step.Near := by
  obtain ⟨rows, _⟩ := straight_to_throne home throne leads
  have near_step := near step (mem_of_to_throne home throne leads)
  obtain ⟨seven, ahead⟩ := seven_steps (near_step.1.trans (by decide)) rows
  exact ⟨seven, ahead, near_step⟩

end Ways

/-- No piece of a kind that may be drawn comes from its home row to a throne. -/
theorem Board.Fenced.throne_out_of_reach {b : Board} {q : Piece} (fenced : b.Fenced q.side)
    (home : q.square.row = q.side.homeRow 8) (inside : b.contains q.square = true) {m : Motion}
    {tier : Tier} (drawn : m.Drawn tier) {i : Intent} {s : Square}
    (listed : s ∈ (Mover.make b.dims m).destinations i b q) : ¬ s.IsThrone q.side.other := by
  intro throne
  rw [Mover.destinations_eq_filter] at listed
  have reached := List.mem_of_mem_filter listed
  obtain ⟨route, among, leads⟩ := List.mem_filterMap.1 reached
  have ends := Gait.follow_leads leads
  have rows := rows_to_throne home throne
  have unit := q.side.natAbs_advance
  cases m with
  | walker steps min max =>
      obtain ⟨choice, _, _, few⟩ := drawn
      have short := Mover.walker_rows choice.near reached
      omega
  | rider steps =>
      obtain ⟨step, n, rfl⟩ := Mover.shape_of_mem_routes among
      have near := near_of_mem_routes among drawn.1.near rfl
      obtain ⟨rfl, ahead, near_step⟩ := near_to_throne home throne near ends
      obtain ⟨_, clear⟩ := (Gait.slide_ray (by decide)).1 leads
      rw [ends, Route.leads_straightRoute, Square.along_succ] at throne
      exact fenced.shielded near_step ahead throne (clear 6 (by decide) (by decide))
  | leaper span =>
      obtain ⟨step, rfl⟩ := Mover.shape_of_mem_routes among
      have within : span.Within (0 : Nat) (5 : Nat) := drawn
      have far := far_of_mem_routes among rfl (within.far b.dims) step (List.mem_singleton_self step)
      obtain ⟨_, _⟩ := straight_to_throne home throne ends
      obtain ⟨_, _, _⟩ := far
      omega
  | leaprider span =>
      obtain ⟨step, n, rfl⟩ := Mover.shape_of_mem_routes among
      have within : span.Within (1 : Nat) (4 : Nat) := drawn
      obtain ⟨_, short, wide⟩ := far_of_mem_routes among rfl (within.far b.dims) step
        (mem_of_to_throne home throne ends)
      obtain ⟨far, files⟩ := straight_to_throne home throne ends
      obtain ⟨rfl, _⟩ := seven_steps (Nat.le_trans short (by decide)) far
      obtain ⟨_, left, _, right⟩ := fenced.contains_iff.1 inside
      have middle := throne.2
      omega
  | catapult steps =>
      obtain ⟨step, n, rfl⟩ := Mover.shape_of_mem_routes among
      have near := near_of_mem_routes among drawn.1.near rfl
      obtain ⟨rfl, ahead, near_step⟩ := near_to_throne home throne near ends
      obtain ⟨_, _, clear⟩ := (Gait.catapult_ray (by decide)).1 leads
      rw [ends, Route.leads_straightRoute, Square.along_succ] at throne
      exact fenced.shielded near_step ahead throne (clear 6 (by decide) (by decide))
  | grasshopper steps =>
      obtain ⟨step, n, rfl⟩ := Mover.shape_of_mem_routes among
      have near := near_of_mem_routes among drawn.1.near rfl
      obtain ⟨rfl, ahead, near_step⟩ := near_to_throne home throne near ends
      obtain ⟨ray, clear, _⟩ := (Gait.grasshopper_ray (by decide)).1 leads
      refine fenced.fronted ?_ (ray.inside 1 le_rfl (by decide)) (clear 1 le_rfl (by decide))
      rw [Square.along_one, Square.add_row, home, ahead, Side.secondRow]
  | leapfrog steps limit =>
      obtain ⟨step, hops, rfl⟩ := Mover.shape_of_mem_routes among
      have near := near_of_mem_routes among drawn.1.near rfl
      obtain ⟨even, _⟩ := near_to_throne home throne near ends
      omega

/-- Of the standard types only the queen and the king may be royal. -/
theorem Roster.Drawn.royal_kind {d : Dimensions} {types : Roster} (drawn : types.Drawn d 0 standardTypes)
    {q : Piece} (royal : q.isRoyal types = true) : q.kind = 4 ∨ q.kind = 5 := by
  obtain ⟨known, is_royal⟩ := (Option.any_eq_true_iff_get _ _).1 royal
  have found := (Option.some_get known).symm
  obtain ⟨name, tier, listed, type⟩ := drawn.of_getElem? found
  obtain ⟨_, queen, king⟩ := number_of_listed listed
  exact (type.royal is_royal).imp queen.1 king.1

/-- A pawn goes one row. -/
theorem PieceType.Drawn.pawn_rows {b : Board} {d : Dimensions} {own : Nat} {name : String} {t : PieceType}
    (type : t.Drawn d own name .lowly) {mover : Mover} (part : mover ∈ t.rule.parts) {q : Piece}
    {i : Intent} {s : Square} (reached : s ∈ mover.destinations i b q) :
    (s.row - q.square.row).natAbs ≤ 1 := by
  rw [type.rule_eq type.plan] at part
  simp only [Plan.pawn, Plan.build, Pattern.map, Pattern.parts, List.mem_cons, List.not_mem_nil,
    or_false] at part
  rcases part with rfl | rfl
  · exact Mover.walker_rows (choice_ahead (by decide)).near reached
  · exact Mover.walker_rows (choice_ahead (by decide)).near reached

/-- A side behind its fence does not give check. -/
theorem Board.Fenced.safe {b : Board} {side : Side} (fenced : b.Fenced side) {types : Roster}
    (drawn : types.Drawn .standard 0 standardTypes) : b.inCheck types side.other = false := by
  rw [Bool.eq_false_iff]
  intro check
  obtain ⟨q, among, s, landing, royal⟩ := Board.inCheck_iff.1 check
  rw [Side.other_other] at among
  obtain ⟨on, rfl⟩ := (Board.mem_piecesOf_iff_pieceOn fenced.sane).1 among
  obtain ⟨k, stands, theirs, is_royal⟩ := Board.hasRoyal_iff.1 royal
  have throne : s.IsThrone q.side.other := by
    have here := Board.square_of_pieceOn fenced.sane stands
    have listed := (Board.mem_piecesOf_iff_pieceOn fenced.sane).2 ⟨here.symm ▸ stands, theirs⟩
    exact here ▸ fenced.royals k listed (drawn.royal_kind is_royal)
  have away := q.side.far_home
  have unit := q.side.natAbs_advance
  have row := throne.1
  obtain ⟨t, found, landing⟩ := Board.mem_landings.1 landing
  obtain ⟨name, tier, listed, type⟩ := drawn.of_getElem? found
  rcases Rule.exists_of_mem_landings landing with ⟨mover, part, i, reached⟩ | ⟨refuge, haven⟩
  · by_cases pawn : q.kind = 0
    · obtain rfl := (number_of_listed listed).1.2 pawn
      have near := type.pawn_rows part reached
      rw [row, fenced.pawns q among pawn, Side.secondRow] at near
      omega
    · obtain ⟨params, made⟩ := type.make mover part
      rw [made, ← fenced.dims] at reached
      exact fenced.throne_out_of_reach (fenced.others q among pawn) (Board.contains_of_pieceOn on) params
        reached throne
  · have home := (Rule.mem_havens.1 haven).1
    rw [fenced.dims, row] at home
    change q.side.other.homeRow 8 = q.side.homeRow 8 at home
    omega

end VariantChess
