import VariantChess.Proofs.RowText

/-!
The rows of a layout together. They are listed from the top of the board down and each from left to
right, so what they place comes in one order, no square twice, and a list in this order is known by its
members. The text of a grid has no blanks, and its rows have no slashes, so the words and the rows that
are read are those that were written.
-/

namespace VariantChess

/-- Higher rows come first, and in a row the squares further left. -/
def Placement.Before (p q : Placement) : Prop :=
  q.square.row < p.square.row ∨ p.square.row = q.square.row ∧ p.square.col < q.square.col

theorem Placement.Before.asymm {p q : Placement} (h : p.Before q) : ¬ q.Before p := by
  unfold Before at h ⊢
  omega

theorem Placement.Before.square_ne {p q : Placement} (h : p.Before q) : p.square ≠ q.square := by
  intro same
  unfold Before at h
  rw [same] at h
  omega

theorem Setup.distinct_of_before {placements : List Placement}
    (order : placements.Pairwise Placement.Before) : Distinct placements :=
  List.pairwise_map.2 (order.imp Placement.Before.square_ne)

/-- What is listed in the order of the text is listed in one way only. -/
theorem eq_of_before {ps qs : List Placement} (first : ps.Pairwise Placement.Before)
    (second : qs.Pairwise Placement.Before) (same : ∀ p, p ∈ ps ↔ p ∈ qs) : ps = qs := by
  have apart {p q : Placement} (h : p.Before q) : p ≠ q := fun same => h.square_ne (same ▸ rfl)
  refine List.Perm.eq_of_pairwise ?_ first second ?_
  · intro p q _ _ less greater
    exact (less.asymm greater).elim
  · exact (List.perm_ext_iff_of_nodup (first.imp apart) (second.imp apart)).2 same

namespace Layout

/-! What a grid of items places. -/

theorem spec_of_mem_rowPlacements {row : Int} {col : Nat} {items : List Item} {p : Placement}
    (listed : p ∈ rowPlacements row col items) :
    p.square.row = row ∧ (col : Int) ≤ p.square.col ∧ p.square.col < col + rowWidth items ∧
      Item.man p.kind p.side ∈ items := by
  induction items generalizing col with
  | nil => cases listed
  | cons item rest ih =>
      rw [rowWidth_cons]
      cases item with
      | gap n =>
          rw [Item.width]
          obtain ⟨here, left, right, man⟩ := ih listed
          exact ⟨here, by omega, by omega, List.mem_cons_of_mem _ man⟩
      | man kind side =>
          rw [Item.width]
          rcases List.mem_cons.1 listed with rfl | later
          · exact ⟨rfl, le_refl _, by dsimp only; omega, List.mem_cons_self⟩
          · obtain ⟨here, left, right, man⟩ := ih later
            exact ⟨here, by omega, by omega, List.mem_cons_of_mem _ man⟩

theorem before_rowPlacements (row : Int) (col : Nat) (items : List Item) :
    (rowPlacements row col items).Pairwise Placement.Before := by
  induction items generalizing col with
  | nil => exact List.Pairwise.nil
  | cons item rest ih =>
      cases item with
      | gap n => exact ih (col + n)
      | man kind side =>
          refine List.pairwise_cons.2 ⟨?_, ih (col + 1)⟩
          intro q later
          obtain ⟨here, left, _⟩ := spec_of_mem_rowPlacements later
          exact Or.inr ⟨here.symm, by dsimp only; omega⟩

theorem spec_of_mem_gridPlacements {n : Nat} {rows : List (List Item)} {p : Placement}
    (listed : p ∈ gridPlacements n rows) :
    0 ≤ p.square.row ∧ p.square.row < n ∧
      ∃ items ∈ rows, 0 ≤ p.square.col ∧ p.square.col < rowWidth items ∧
        Item.man p.kind p.side ∈ items := by
  induction n generalizing rows with
  | zero => cases rows <;> cases listed
  | succ n ih =>
      cases rows with
      | nil => cases listed
      | cons items below =>
          rcases List.mem_append.1 listed with here | later
          · obtain ⟨row, left, right, man⟩ := spec_of_mem_rowPlacements here
            exact ⟨by omega, by omega, items, List.mem_cons_self, by omega, by omega, man⟩
          · obtain ⟨low, high, others, among, inside⟩ := ih later
            exact ⟨low, by omega, others, List.mem_cons_of_mem _ among, inside⟩

theorem before_gridPlacements (n : Nat) (rows : List (List Item)) :
    (gridPlacements n rows).Pairwise Placement.Before := by
  induction n generalizing rows with
  | zero => cases rows <;> exact List.Pairwise.nil
  | succ n ih =>
      cases rows with
      | nil => exact List.Pairwise.nil
      | cons items below =>
          refine List.pairwise_append.2 ⟨before_rowPlacements n 0 items, ih below, ?_⟩
          intro p here q later
          have high := (spec_of_mem_rowPlacements here).1
          have low := (spec_of_mem_gridPlacements later).2.1
          exact Or.inl (by omega)

theorem gridPlacements_range (n : Nat) (items : Nat → List Item) :
    gridPlacements n ((List.range n).reverse.map items) =
      (List.range n).reverse.flatMap fun (row : Nat) => rowPlacements row 0 (items row) := by
  induction n with
  | zero => rfl
  | succ n ih =>
      rw [List.range_succ, List.reverse_append, List.reverse_singleton, List.singleton_append,
        List.map_cons, List.flatMap_cons, gridPlacements, ih]

/-! Reading a grid. -/

theorem isBlank_of_isDigit {c : Char} (h : c.isDigit = true) : Text.isBlank c = false := by
  have bounds : 48 ≤ c.toNat ∧ c.toNat ≤ 57 := by
    simpa [Char.isDigit, UInt32.le_iff_toNat_le] using h
  simp only [Text.isBlank, Text.blankRanges, List.any_cons, List.any_nil, Bool.or_false,
    Bool.or_eq_false_iff, Bool.and_eq_false_iff, decide_eq_false_iff_not]
  omega

theorem plain_letter {kind : Nat} (known : kind < 6) (side : Side) :
    Text.isBlank (letter kind side) = false ∧ letter kind side ≠ '/' := by
  have all : ∀ kind < 6, ∀ side ∈ [Side.white, Side.black],
      Text.isBlank (letter kind side) = false ∧ letter kind side ≠ '/' := by
    decide
  cases side with
  | white => exact all kind known _ (by decide)
  | black => exact all kind known _ (by decide)

theorem forall_mem_intercalate {α : Type} {P : α → Prop} {x : α} (between : P x)
    {rows : List (List α)} (inside : ∀ row ∈ rows, ∀ a ∈ row, P a) :
    ∀ a ∈ [x].intercalate rows, P a := by
  induction rows with
  | nil => exact List.forall_mem_nil _
  | cons row rest ih =>
      obtain ⟨first, others⟩ := List.forall_mem_cons.1 inside
      cases rest with
      | nil => simpa [List.intercalate] using first
      | cons next rest =>
          rw [List.intercalate_cons_cons, List.forall_mem_append, List.forall_mem_append]
          exact ⟨⟨first, List.forall_mem_singleton.2 between⟩, ih others⟩

theorem intercalate_ne_nil {α : Type} (x : α) {rows : List (List α)} (two : 2 ≤ rows.length) :
    [x].intercalate rows ≠ [] := by
  match rows, two with
  | a :: b :: rest, _ => simp [List.intercalate]

/-- The letter of the side to move. -/
def sideLetter : Side → Char
  | .white => 'w'
  | .black => 'b'

theorem words_append_side {grid : List Char} (plain : ∀ c ∈ grid, Text.isBlank c = false)
    (some_row : grid ≠ []) (side : Side) :
    Text.words (grid ++ [' ', sideLetter side]) = [grid, [sideLetter side]] := by
  have last : ∀ c ∈ [sideLetter side], Text.isBlank c = false := by
    rw [List.forall_mem_singleton]
    cases side <;> rfl
  rw [Text.words, List.splitOnP_append_cons_of_forall_mem plain ' ' (by decide),
    List.splitOnP_eq_singleton last]
  simp [some_row]

theorem readGrid?_eq_some {cs : List Char} {grid : List (List Item)} {side : Side} :
    readGrid? cs = some (grid, side) ↔ ∃ word rest, Text.words cs = word :: rest ∧
      readSide? rest = some side ∧ (word.splitOn '/').mapM readRow? = some grid ∧
      ∀ items ∈ grid, rowWidth items = (grid.map rowWidth).headD 0 := by
  unfold readGrid?
  cases Text.words cs with
  | nil => simp
  | cons word rest =>
      simp [Option.bind_eq_some_iff]

/-- Rows that are read are of one width, and their pieces have letters. -/
theorem spec_of_readGrid? {cs : List Char} {rows : List (List Item)} {side : Side}
    (h : readGrid? cs = some (rows, side)) :
    ∀ items ∈ rows, rowWidth items = (rows.map rowWidth).headD 0 ∧
      ∀ kind side, .man kind side ∈ items → kind < 6 := by
  obtain ⟨_, _, _, _, texts, level⟩ := readGrid?_eq_some.1 h
  intro items listed
  obtain ⟨text, _, row⟩ := exists_of_mem_mapM texts items listed
  exact ⟨level items listed, fun kind side man => kind_lt_of_readRow? row man⟩

end Layout

end VariantChess
