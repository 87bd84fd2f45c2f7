import Mathlib.Data.List.Basic
import VariantChess.Proofs.Occupants

/-!
Boards that are accepted when they are read back: the dimensions can hold a game, every piece names
its own square, and every type is one that the board has. The checks are made one after the other, and
the first that fails is reported.
-/

namespace VariantChess

/-! Checks one after the other. -/

section Steps

variable {ε α β : Type} {x : Except ε α} {b : β}

theorem bind_eq_ok {f : α → Except ε β} : x >>= f = .ok b ↔ ∃ a, x = .ok a ∧ f a = .ok b := by
  cases x <;> simp [bind, Except.bind]

theorem map_eq_ok {f : α → β} : x.map f = .ok b ↔ ∃ a, x = .ok a ∧ f a = b := by
  cases x <;> simp [Except.map]

end Steps

/-- The error is a fault of an item, and all items before it are fine. -/
def FirstFault {α : Type} (fine : α → Prop) (fault : α → Error → Prop) (items : List α)
    (error : Error) : Prop :=
  ∃ (i : Nat) (x : α), items[i]? = some x ∧ fault x error ∧
    ∀ j < i, ∀ y, items[j]? = some y → fine y

section FirstFault

variable {α : Type} {fine : α → Prop} {fault : α → Error → Prop} {x : α} {items : List α}
  {error : Error}

theorem not_firstFault_nil : ¬ FirstFault fine fault [] error := by
  rintro ⟨i, x, here, _⟩
  simp at here

theorem firstFault_cons : FirstFault fine fault (x :: items) error ↔
    fault x error ∨ fine x ∧ FirstFault fine fault items error := by
  refine ⟨?_, ?_⟩
  · rintro ⟨_ | i, y, here, bad, before⟩
    · obtain rfl : x = y := by simpa using here
      exact Or.inl bad
    · have first : fine x := before 0 (Nat.succ_pos i) x rfl
      exact Or.inr ⟨first, i, y, here, bad, fun j earlier => before (j + 1) (by omega)⟩
  · rintro (bad | ⟨first, i, y, here, bad, before⟩)
    · exact ⟨0, x, rfl, bad, nofun⟩
    · refine ⟨i + 1, y, here, bad, ?_⟩
      rintro (_ | j) earlier z at_j
      · obtain rfl : x = z := by simpa using at_j
        exact first
      · exact before j (by omega) z at_j

theorem exists_firstFault (blame : ∀ y, ¬ fine y → ∃ e, fault y e) (unfit : ¬ ∀ y ∈ items, fine y) :
    ∃ e, FirstFault fine fault items e := by
  induction items with
  | nil => exact absurd (List.forall_mem_nil fine) unfit
  | cons x rest ih =>
      simp only [firstFault_cons]
      by_cases first : fine x
      · obtain ⟨e, later⟩ := ih fun others => unfit (List.forall_mem_cons.2 ⟨first, others⟩)
        exact ⟨e, Or.inr ⟨first, later⟩⟩
      · obtain ⟨e, bad⟩ := blame x first
        exact ⟨e, Or.inl bad⟩

end FirstFault

theorem checkCells_eq_ok {kinds : Nat} {cells : List (Square × Option Piece)} :
    checkCells kinds cells = .ok () ↔
      ∀ cell ∈ cells, ∀ q, cell.2 = some q → q.square = cell.1 ∧ q.kind < kinds := by
  induction cells with
  | nil => simp [checkCells]
  | cons cell rest ih =>
      rw [List.forall_mem_cons, ← ih]
      obtain ⟨s, _ | q⟩ := cell
      · simp [checkCells]
      · by_cases placed : q.square = s <;> by_cases known : q.kind < kinds <;>
          simp [checkCells, placed, known, Nat.not_le.2, Nat.not_lt.1]

/-- Either side has two rows, and there is something to place on them. -/
def Dimensions.Playable (d : Dimensions) : Prop := 4 ≤ d.rows ∧ 1 ≤ d.cols ∧ 1 ≤ d.kinds

instance (d : Dimensions) : Decidable d.Playable := inferInstanceAs (Decidable (_ ∧ _ ∧ _))

theorem Dimensions.make_eq_ok {d : Dimensions} :
    make d.rows d.cols d.kinds = .ok d ↔ d.Playable := by
  unfold make Playable
  split <;> simp_all <;> omega

theorem Dimensions.eq_of_make {rows cols kinds : Nat} {d : Dimensions}
    (h : make rows cols kinds = .ok d) :
    d = ⟨rows, cols, kinds⟩ ∧ 4 ≤ rows ∧ 1 ≤ cols ∧ 1 ≤ kinds := by
  unfold make at h
  split at h
  · cases h
  · rename_i accepted
    simp only [Bool.or_eq_true, decide_eq_true_eq, not_or, not_lt] at accepted
    cases h
    exact ⟨rfl, accepted.1.1, accepted.1.2, accepted.2⟩

theorem Dimensions.make_eq_error {rows cols kinds : Nat}
    (h : ¬ (4 ≤ rows ∧ 1 ≤ cols ∧ 1 ≤ kinds)) :
    make rows cols kinds = .error (.dimensions rows cols kinds) := by
  rw [make, if_pos]
  simp only [Bool.or_eq_true, decide_eq_true_eq]
  omega

/-- What a signed number of 32 bits can hold, one of 64 bits can. -/
theorem lt_size64_of_two_mul_lt {n : Nat} (h : 2 * n < UInt32.size) : n < UInt64.size := by
  have wider : UInt32.size < UInt64.size := by decide
  omega

/-- Rows and columns are few enough for signed 32-bit coordinates. -/
def Dimensions.Addressable (d : Dimensions) : Prop :=
  2 * d.rows < UInt32.size ∧ 2 * d.cols < UInt32.size

instance (d : Dimensions) : Decidable d.Addressable := inferInstanceAs (Decidable (_ ∧ _))

namespace Board

/-- A board that a game can be played on. -/
structure Valid (b : Board) : Prop where
  rows : 4 ≤ b.dims.rows
  cols : 1 ≤ b.dims.cols
  kinds : 1 ≤ b.dims.kinds
  sane : b.isSane = true
  known : ∀ q ∈ b.pieces, q.kind < b.dims.kinds

variable {b : Board}

theorem valid_empty {d : Dimensions} (playable : d.Playable) : (empty d).Valid := by
  obtain ⟨rows, cols, kinds⟩ := playable
  refine ⟨rows, cols, kinds, isSane_empty d, ?_⟩
  intro q listed
  obtain ⟨s, on⟩ := mem_pieces.1 listed
  simp at on

theorem Valid.set (valid : b.Valid) {s : Square} (inside : b.contains s = true) {q : Piece}
    (known : q.kind < b.dims.kinds) : (b.set s (some q)).Valid := by
  refine ⟨valid.rows, valid.cols, valid.kinds, isSane_set valid.sane inside _, ?_⟩
  intro other listed
  obtain ⟨t, on⟩ := mem_pieces.1 listed
  rw [pieceOn_set inside] at on
  split at on
  · rw [← Option.some.inj on]
    exact known
  · exact valid.known other (mem_pieces.2 ⟨t, on⟩)

theorem checkCells_cells (b : Board) (kinds : Nat) :
    checkCells kinds (b.dims.squares.zip b.cells.toList) = .ok () ↔
      b.isSane = true ∧ ∀ q ∈ b.pieces, q.kind < kinds := by
  have held : b.dims.squares.zip b.cells.toList = b.dims.squares.map fun s => (s, b.pieceOn s) := by
    rw [cells_toList, List.map_prod_left_eq_zip]
  rw [held, checkCells_eq_ok, isSane_iff]
  simp only [List.forall_mem_map, Dimensions.mem_squares, mem_pieces]
  refine ⟨?_, ?_⟩
  · intro checked
    refine ⟨?_, ?_⟩
    · intro s q on
      exact (checked s (contains_of_pieceOn on) q on).1
    · intro q ⟨s, on⟩
      exact (checked s (contains_of_pieceOn on) q on).2
  · intro ⟨sane, known⟩ s _ q on
    exact ⟨sane s q on, known q ⟨s, on⟩⟩

/-- On good dimensions only the cells are left to check. -/
theorem ofCells_of_make
    (made : Dimensions.make b.dims.rows b.dims.cols b.dims.kinds = .ok b.dims) :
    ofCells b.dims b.cells.toList =
      (checkCells b.dims.kinds (b.dims.squares.zip b.cells.toList)).map fun _ => b := by
  have size : b.cells.toList.length = b.dims.squareCount := by simp [b.size_cells]
  unfold ofCells
  rw [made]
  simp only [bind, Except.bind, dif_pos size]
  cases checkCells b.dims.kinds (b.dims.squares.zip b.cells.toList) <;> rfl

theorem ofCells_eq_ok : ofCells b.dims b.cells.toList = .ok b ↔ b.Valid := by
  by_cases fits : 4 ≤ b.dims.rows ∧ 1 ≤ b.dims.cols ∧ 1 ≤ b.dims.kinds
  · have cells := checkCells_cells b b.dims.kinds
    rw [ofCells_of_make (Dimensions.make_eq_ok.2 fits)]
    cases checked : checkCells b.dims.kinds (b.dims.squares.zip b.cells.toList) with
    | error e =>
        refine ⟨nofun, ?_⟩
        intro valid
        rw [cells.2 ⟨valid.sane, valid.known⟩] at checked
        cases checked
    | ok =>
        obtain ⟨sane, known⟩ := cells.1 checked
        exact ⟨fun _ => ⟨fits.1, fits.2.1, fits.2.2, sane, known⟩, fun _ => rfl⟩
  · refine ⟨?_, ?_⟩
    · intro accepted
      rw [ofCells, Dimensions.make_eq_error fits] at accepted
      cases accepted
    · intro valid
      exact (fits ⟨valid.rows, valid.cols, valid.kinds⟩).elim

end Board

end VariantChess
