import VariantChess.Proofs.Validity
import VariantChess.Stored.Games

/-!
What is stored is restored. A value lasts if restoring its stored form gives it back. Numbers last if
they fit the words they are read into, motions if they have no more steps than can be read, and boards
if their cells are in order; everything else lasts if its parts do.
-/

namespace VariantChess

/-- Stored and restored, the value is the same. -/
def Lasts {α : Type} [Stored α] (x : α) : Prop := restore? (store x) = some x

namespace Stored

theorem lasts_bool (b : Bool) : Lasts b := rfl

theorem lasts_text (s : String) : Lasts s := rfl

/-- A signed number of 32 bits. -/
def FitsInt (n : Int) : Prop := Int32.minValue.toInt ≤ n ∧ n ≤ Int32.maxValue.toInt

/-- A natural number of 64 bits. -/
def FitsNat (n : Nat) : Prop := n < UInt64.size

theorem lasts_int {n : Int} (fits : FitsInt n) : Lasts n := if_pos fits

theorem lasts_nat {n : Nat} (fits : FitsNat n) : Lasts n := by
  have inside : 0 ≤ (n : Int) ∧ (n : Int) < UInt64.size := ⟨Int.natCast_nonneg n, Int.ofNat_lt.2 fits⟩
  simp only [Lasts, restore?, store, Datum.nat?]
  rw [if_pos inside, Int.toNat_natCast]

variable {α β : Type} [Stored α] [Stored β]

theorem lasts_list {xs : List α} (items : ∀ x ∈ xs, Lasts x) : Lasts xs := by
  change (xs.map store).mapM restore? = some xs
  induction xs with
  | nil => rfl
  | cons x rest ih =>
      obtain ⟨first, others⟩ := List.forall_mem_cons.1 items
      unfold Lasts at first
      rw [List.map_cons, List.mapM_cons, first, ih others]
      rfl

/-- Nothing is told from something if something is never stored as nothing. -/
theorem lasts_option {o : Option α} (solid : ∀ x : α, store x ≠ .null) (item : ∀ x ∈ o, Lasts x) :
    Lasts o := by
  cases o with
  | none => rfl
  | some x =>
      have inner : restore? (store x) = some x := item x rfl
      change restoreOption? (store x) = some (some x)
      cases form : store x with
      | null => exact (solid x form).elim
      | _ =>
          rw [form] at inner
          rw [restoreOption?, inner]
          · rfl
          · nofun

theorem lasts_pair {p : α × β} (first : Lasts p.1) (second : Lasts p.2) : Lasts p := by
  unfold Lasts at first second
  change restorePair? (storePair p) = some p
  simp [restorePair?, storePair, first, second]

end Stored

open Stored

/-! Squares, pieces and moves. -/

namespace Square

/-- Its numbers fit the words they are restored into. -/
structure Storable (s : Square) : Prop where
  row : FitsInt s.row
  col : FitsInt s.col

theorem ofDatum?_of_fields {d x y : Datum} {s : Square} (read : d.fields? ["row", "col"] = some [x, y])
    (row : restore? x = some s.row) (col : restore? y = some s.col) : ofDatum? d = some s := by
  simp [ofDatum?, read, row, col]

theorem Storable.lasts {s : Square} (fits : s.Storable) : Lasts s :=
  ofDatum?_of_fields rfl (lasts_int fits.row) (lasts_int fits.col)

end Square

theorem Side.lasts (side : Side) : Lasts side := by
  cases side <;> rfl

namespace Dimensions

structure Storable (d : Dimensions) : Prop where
  rows : FitsNat d.rows
  cols : FitsNat d.cols
  kinds : FitsNat d.kinds

theorem ofDatum?_of_fields {e x y z : Datum} {d : Dimensions}
    (read : e.fields? ["num_rows", "num_cols", "num_piece_types"] = some [x, y, z])
    (rows : restore? x = some d.rows) (cols : restore? y = some d.cols)
    (kinds : restore? z = some d.kinds) : ofDatum? e = some d := by
  simp [ofDatum?, read, rows, cols, kinds]

theorem Storable.lasts {d : Dimensions} (fits : d.Storable) : Lasts d :=
  ofDatum?_of_fields rfl (lasts_nat fits.rows) (lasts_nat fits.cols) (lasts_nat fits.kinds)

end Dimensions

namespace Piece

structure Storable (q : Piece) : Prop where
  square : q.square.Storable
  kind : FitsNat q.kind

theorem ofDatum?_of_fields {d w x y z : Datum} {q : Piece}
    (read : d.fields? ["location", "color", "type_index", "has_moved_yet"] = some [w, x, y, z])
    (square : restore? w = some q.square) (side : restore? x = some q.side)
    (kind : restore? y = some q.kind) (moved : restore? z = some q.moved) : ofDatum? d = some q := by
  simp [ofDatum?, read, square, side, kind, moved]

theorem Storable.lasts {q : Piece} (fits : q.Storable) : Lasts q :=
  ofDatum?_of_fields rfl fits.square.lasts q.side.lasts (lasts_nat fits.kind) (lasts_bool q.moved)

end Piece

namespace Move

structure Storable (m : Move) : Prop where
  piece : m.piece.Storable
  target : m.target.Storable

theorem lasts_action {m : Move} (target : m.target.Storable) : Lasts m.action := by
  have read : restore? (store m.target) = some m.target := target.lasts
  unfold Move.target at read
  change Action.ofDatum? m.action.toDatum = some m.action
  cases form : m.action with
  | go s =>
      rw [form] at read
      simp [Action.ofDatum?, Action.toDatum, Datum.case?, read]
  | swap s =>
      rw [form] at read
      simp [Action.ofDatum?, Action.toDatum, Datum.case?, read]

theorem ofDatum?_of_fields {d x y : Datum} {m : Move} (read : d.fields? ["piece", "kind"] = some [x, y])
    (piece : restore? x = some m.piece) (action : restore? y = some m.action) :
    ofDatum? d = some m := by
  simp [ofDatum?, read, piece, action]

theorem Storable.lasts {m : Move} (fits : m.Storable) : Lasts m :=
  ofDatum?_of_fields rfl fits.piece.lasts (lasts_action fits.target)

end Move

/-! Boards and positions. -/

theorem BoardRecord.ofDatum?_of_fields {d x y : Datum} {r : BoardRecord}
    (read : d.fields? ["info", "squares"] = some [x, y]) (dims : restore? x = some r.dims)
    (cells : restore? y = some r.cells) : ofDatum? d = some r := by
  simp [ofDatum?, read, dims, cells]

namespace Board

structure Storable (b : Board) : Prop where
  dims : b.dims.Storable
  pieces : ∀ q ∈ b.pieces, q.Storable

theorem Storable.lasts_cells {b : Board} (fits : b.Storable) : Lasts b.cells.toList := by
  refine lasts_list ?_
  intro cell listed
  refine lasts_option (fun _ => nofun) ?_
  intro q held
  have standing : q ∈ b.pieces := by
    rw [Board.pieces, Array.toList_filterMap]
    exact List.mem_filterMap.2 ⟨cell, listed, held⟩
  exact (fits.pieces q standing).lasts

theorem Storable.lasts {b : Board} (fits : b.Storable) (valid : b.Valid) : Lasts b := by
  have record : BoardRecord.ofDatum? (toDatum b) = some (.ofBoard b) :=
    BoardRecord.ofDatum?_of_fields rfl fits.dims.lasts fits.lasts_cells
  have checked : (BoardRecord.ofBoard b).board = .ok b := ofCells_eq_ok.2 valid
  change ofDatum? (toDatum b) = some b
  rw [ofDatum?, record, Option.bind_some, checked]
  rfl

end Board

theorem Status.lasts (status : Status) : Lasts status := by
  cases status <;> rfl

namespace Position

structure Storable (p : Position) : Prop where
  board : p.board.Storable
  captured : ∀ q ∈ p.captured, q.Storable

theorem ofDatum?_of_fields {d w x y z : Datum} {p : Position}
    (read : d.fields? ["board", "player_to_move", "status", "captured_pieces"] = some [w, x, y, z])
    (board : restore? w = some p.board) (toMove : restore? x = some p.toMove)
    (status : restore? y = some p.status) (captured : restore? z = some p.captured) :
    ofDatum? d = some p := by
  simp [ofDatum?, read, board, toMove, status, captured]

theorem Storable.lasts {p : Position} (fits : p.Storable) (valid : p.board.Valid) : Lasts p :=
  ofDatum?_of_fields rfl (fits.board.lasts valid) p.toMove.lasts p.status.lasts
    (lasts_list fun q listed => (fits.captured q listed).lasts)

end Position

/-! Motions, rules and piece types. -/

namespace LeapSpan

structure Storable (r : LeapSpan) : Prop where
  mMin : FitsInt r.mMin
  mMax : FitsInt r.mMax
  nMin : FitsInt r.nMin
  nMax : FitsInt r.nMax

theorem ofDatum?_of_fields {d w x y z : Datum} {r : LeapSpan}
    (read : d.fields? ["m_min", "m_max", "n_min", "n_max"] = some [w, x, y, z])
    (mMin : restore? w = some r.mMin) (mMax : restore? x = some r.mMax)
    (nMin : restore? y = some r.nMin) (nMax : restore? z = some r.nMax) : ofDatum? d = some r := by
  simp [ofDatum?, read, mMin, mMax, nMin, nMax]

theorem Storable.lasts {r : LeapSpan} (fits : r.Storable) : Lasts r :=
  ofDatum?_of_fields rfl (lasts_int fits.mMin) (lasts_int fits.mMax) (lasts_int fits.nMin)
    (lasts_int fits.nMax)

end LeapSpan

namespace Motion

/-- No more steps than a motion may have. -/
structure StepsFit (steps : List Step) : Prop where
  few : steps.length ≤ maxSteps
  each : ∀ s ∈ steps, s.Storable

def Storable : Motion → Prop
  | walker steps min max => StepsFit steps ∧ FitsNat min ∧ FitsNat max
  | rider steps | catapult steps | grasshopper steps => StepsFit steps
  | leaper span | leaprider span => span.Storable
  | leapfrog steps limit => StepsFit steps ∧ FitsNat limit

theorem StepsFit.restored {steps : List Step} (fit : StepsFit steps) :
    restoreSteps? (store steps) = some steps := by
  have read : restore? (store steps) = some steps :=
    lasts_list fun s listed => (fit.each s listed).lasts
  rw [restoreSteps?, read, Option.filter_some, if_pos (decide_eq_true fit.few)]

theorem restoreOnlySteps?_of_fields {d x : Datum} {steps : List Step}
    (read : d.named? ["vectors"] = some [x]) (first : restoreSteps? x = some steps) :
    restoreOnlySteps? d = some steps := by
  simp [restoreOnlySteps?, read, first]

theorem restoreWithLimit?_of_fields {d x y : Datum} {steps : List Step} {limit : Nat}
    (read : d.named? ["vectors", "limit"] = some [x, y]) (first : restoreSteps? x = some steps)
    (second : restore? y = some limit) : restoreWithLimit? d = some (steps, limit) := by
  simp [restoreWithLimit?, read, first, second]

theorem restoreWithSpan?_of_fields {d x y z : Datum} {steps : List Step} {min max : Nat}
    (read : d.named? ["vectors", "min", "max"] = some [x, y, z])
    (first : restoreSteps? x = some steps) (second : restore? y = some min)
    (third : restore? z = some max) : restoreWithSpan? d = some (steps, min, max) := by
  simp [restoreWithSpan?, read, first, second, third]

theorem Storable.lasts {m : Motion} (fits : m.Storable) : Lasts m := by
  have only {steps : List Step} (fit : StepsFit steps) :
      restoreOnlySteps? (.record [("vectors", store steps)]) = some steps :=
    restoreOnlySteps?_of_fields rfl fit.restored
  change ofDatum? m.toDatum = some m
  cases m with
  | walker steps min max =>
      obtain ⟨fit, min_fits, max_fits⟩ := fits
      have content : restoreWithSpan?
          (.record [("vectors", store steps), ("min", store min), ("max", store max)]) =
            some (steps, min, max) :=
        restoreWithSpan?_of_fields rfl fit.restored (lasts_nat min_fits) (lasts_nat max_fits)
      change (restoreWithSpan? _).map _ = _
      rw [content]
      rfl
  | rider steps =>
      change (restoreOnlySteps? _).map _ = _
      rw [only fits]
      rfl
  | leaper span =>
      have content : restore? (store span) = some span := LeapSpan.Storable.lasts fits
      change (restore? _).map _ = _
      rw [content]
      rfl
  | leaprider span =>
      have content : restore? (store span) = some span := LeapSpan.Storable.lasts fits
      change (restore? _).map _ = _
      rw [content]
      rfl
  | catapult steps =>
      change (restoreOnlySteps? _).map _ = _
      rw [only fits]
      rfl
  | grasshopper steps =>
      change (restoreOnlySteps? _).map _ = _
      rw [only fits]
      rfl
  | leapfrog steps limit =>
      obtain ⟨fit, limit_fits⟩ := fits
      have content : restoreWithLimit? (.record [("vectors", store steps), ("limit", store limit)]) =
          some (steps, limit) :=
        restoreWithLimit?_of_fields rfl fit.restored (lasts_nat limit_fits)
      change (restoreWithLimit? _).map _ = _
      rw [content]
      rfl

end Motion

namespace Mover

structure Storable (m : Mover) : Prop where
  motion : m.motion.Storable
  white : ∀ route ∈ m.whiteRoutes, ∀ s ∈ route, s.Storable
  black : ∀ route ∈ m.blackRoutes, ∀ s ∈ route, s.Storable

theorem ofDatum?_of_fields {d x y : Datum} {m : Mover}
    (read : d.fields? ["motion", "paths"] = some [x, y])
    (motion : restore? x = some m.motion) (routes : restore? y = some (m.whiteRoutes, m.blackRoutes)) :
    ofDatum? d = some m := by
  simp [ofDatum?, read, motion, routes]

theorem Storable.lasts {m : Mover} (fits : m.Storable) : Lasts m := by
  have routes {rs : List Route} (fit : ∀ route ∈ rs, ∀ s ∈ route, s.Storable) : Lasts rs :=
    lasts_list fun route among => lasts_list fun s listed => (fit route among s listed).lasts
  exact ofDatum?_of_fields rfl fits.motion.lasts (lasts_pair (routes fits.white) (routes fits.black))

end Mover

theorem Refuge.lasts (refuge : Refuge) : Lasts refuge := by
  cases refuge <;> rfl

namespace Pattern

variable {α : Type} [Stored α]

/-- The number of the partner fits, and what holds of a part holds of every part. -/
def Storable (P : α → Prop) (r : Pattern α) : Prop :=
  (∀ partner m, r = .exchange partner m → FitsNat partner) ∧ ∀ m ∈ r.parts, P m

theorem restoreParts?_record {β γ : Type} [Stored β] [Stored γ] {first second : String}
    (apart : first ≠ second) {b : β} {c : γ} (left : Lasts b) (right : Lasts c) :
    restoreParts? first second (.record [(first, store b), (second, store c)]) = some (b, c) := by
  have read : (Datum.record [(first, store b), (second, store c)]).named? [first, second] =
      some [store b, store c] := by
    simp [Datum.named?, Datum.field?, apart]
  unfold Lasts at left right
  simp [restoreParts?, read, left, right]

theorem Storable.lasts {P : α → Prop} {r : Pattern α} (fits : r.Storable P)
    (parts : ∀ m, P m → Lasts m) : Lasts r := by
  have last : ∀ m ∈ r.parts, Lasts m := fun m listed => parts m (fits.2 m listed)
  change ofDatum? r.toDatum = some r
  cases r with
  | simple m =>
      have content : restore? (store m) = some m := last m List.mem_cons_self
      change (restore? _).map _ = _
      rw [content]
      rfl
  | exchange partner m =>
      have content := restoreParts?_record (by decide : "with" ≠ "regular")
        (lasts_nat (fits.1 partner m rfl)) (last m List.mem_cons_self)
      -- Said of any datum, so that the stored number is not computed with.
      have read (d : Datum) : ofDatum? (.record [("Composite", .record [("Exchange", d)])]) =
          (restoreParts? "with" "regular" d).map fun (parts : Nat × α) =>
            exchange parts.1 parts.2 := rfl
      exact (read _).trans (congrArg (Option.map _) content)
  | retreat refuge m =>
      have content := restoreParts?_record (by decide : "squares" ≠ "regular") refuge.lasts
        (last m List.mem_cons_self)
      change (restoreParts? _ _ _).map _ = _
      rw [content]
      rfl
  | moveCapture m c =>
      have content := restoreParts?_record (by decide : "movement" ≠ "capture")
        (last m List.mem_cons_self) (last c (List.mem_cons_of_mem m List.mem_cons_self))
      change (restoreParts? _ _ _).map _ = _
      rw [content]
      rfl
  | combination a b =>
      have content := restoreParts?_record (by decide : "first" ≠ "second")
        (last a List.mem_cons_self) (last b (List.mem_cons_of_mem a List.mem_cons_self))
      change (restoreParts? _ _ _).map _ = _
      rw [content]
      rfl

end Pattern

namespace PieceType

def Storable (t : PieceType) : Prop := t.rule.Storable Mover.Storable

theorem ofDatum?_of_fields {d w x y z : Datum} {t : PieceType}
    (read : d.fields? ["movement_rule", "name", "icon", "royal"] = some [w, x, y, z])
    (rule : restore? w = some t.rule) (name : restore? x = some t.name)
    (icon : restore? y = some t.icon) (royal : restore? z = some t.royal) : ofDatum? d = some t := by
  simp [ofDatum?, read, rule, name, icon, royal]

theorem Storable.lasts {t : PieceType} (fits : t.Storable) : Lasts t :=
  ofDatum?_of_fields rfl (Pattern.Storable.lasts fits fun _ => Mover.Storable.lasts) (lasts_text t.name)
    (lasts_text t.icon) (lasts_bool t.royal)

end PieceType

/-! Games. -/

theorem Players.ofDatum?_of_fields {d x y : Datum} {p : Players}
    (read : d.fields? ["white", "black"] = some [x, y]) (white : restore? x = some p.white)
    (black : restore? y = some p.black) : ofDatum? d = some p := by
  simp [ofDatum?, read, white, black]

theorem Players.lasts (p : Players) : Lasts p :=
  ofDatum?_of_fields rfl (lasts_text p.white) (lasts_text p.black)

namespace Game

/-- All its numbers fit, and its motions have no more steps than they may. -/
structure Storable (g : Game) : Prop where
  types : ∀ t ∈ g.types, t.Storable
  dims : g.dims.Storable
  positions : ∀ p ∈ g.positions, p.Storable
  moves : ∀ m ∈ g.moves, m.Storable

theorem ofDatum?_of_fields {d u v w x y z : Datum} {g : Game}
    (read : d.fields? ["players", "piece_types", "board_info", "states", "moves", "notations"] =
      some [u, v, w, x, y, z])
    (players : restore? u = some g.players) (types : restore? v = some g.types)
    (dims : restore? w = some g.dims) (positions : restore? x = some g.positions)
    (moves : restore? y = some g.moves) (notations : restore? z = some g.notations) :
    ofDatum? d = some g := by
  simp [ofDatum?, read, players, types, dims, positions, moves, notations]

theorem Storable.lasts {g : Game} (fits : g.Storable)
    (valid : ∀ p ∈ g.positions, p.board.Valid) : Lasts g :=
  ofDatum?_of_fields rfl g.players.lasts (lasts_list fun t listed => (fits.types t listed).lasts)
    fits.dims.lasts (lasts_list fun p listed => (fits.positions p listed).lasts (valid p listed))
    (lasts_list fun m listed => (fits.moves m listed).lasts) (lasts_list fun s _ => lasts_text s)

end Game

end VariantChess
