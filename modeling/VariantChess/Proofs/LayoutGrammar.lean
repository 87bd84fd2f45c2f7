import Mathlib.Data.List.TakeWhile
import VariantChess.Proofs.LayoutText

/-!
The grammar of layouts. A row's text is a sequence of letters and of numbers that go on as far as there
are digits, and it stands for one square after another from left to right. What is read is exactly what
the grammar gives, with every piece on its square; of the texts that are refused, those that follow the
grammar are refused for the dimensions that they give, and all others as unreadable.
-/

namespace VariantChess

namespace Layout

/-- A square of a layout: the type and side of the piece on it, if there is one. -/
abbrev Cell := Option (Nat × Side)

/-- The text of a row, and its squares from left to right. A run of digits ends only where the digits
do, and is the number, which 64 bits must hold, of the empty squares that it stands for. -/
inductive RowText : List Char → List Cell → Prop
  | nil : RowText [] []
  | man {text : List Char} {cells : List Cell} {kind : Nat} (known : kind < 6) (side : Side)
      (rest : RowText text cells) : RowText (letter kind side :: text) (some (kind, side) :: cells)
  | gap {run text : List Char} {cells : List Cell} (some_digit : run ≠ [])
      (digits : ∀ c ∈ run, c.isDigit = true) (maximal : ∀ c ∈ text.head?, c.isDigit = false)
      (fits : Nat.ofDigitChars 10 run 0 < UInt64.size) (rest : RowText text cells) :
      RowText (run ++ text) (List.replicate (Nat.ofDigitChars 10 run 0) none ++ cells)

/-- The words after the rows give the side to move. Without any it is White's turn. -/
inductive SideWords : List (List Char) → Side → Prop
  | missing : SideWords [] .white
  | given (side : Side) (ignored : List (List Char)) : SideWords ([sideLetter side] :: ignored) side

/-- What a text says: the squares of its rows, from the top row down, how many there are in every row,
and the side to move. -/
structure Says (text : String) (rows : List (List Cell)) (width : Nat) (side : Side) : Prop where
  words : ∃ lines rest, Text.words text.toList = ['/'].intercalate lines :: rest ∧
    List.Forall₂ RowText lines rows ∧ SideWords rest side
  level : ∀ row ∈ rows, row.length = width

/-! Letters and numbers. -/

theorem toUpper_cases (c : Char) : c.toUpper = c ∨ c.toUpper.toLower = c := by
  have lower : ∀ n ∈ List.range' 97 26, (Char.ofNat n).toUpper.toLower = Char.ofNat n := by decide
  by_cases h : 'a'.val ≤ c.val ∧ c.val ≤ 'z'.val
  · have bounds : 97 ≤ c.toNat ∧ c.toNat ≤ 122 := h
    have back := lower c.toNat (List.mem_range'_1.2 ⟨bounds.1, by omega⟩)
    rw [Char.ofNat_toNat] at back
    exact Or.inr back
  · exact Or.inl (dif_neg h)

theorem toUpper_of_isUpper {c : Char} (h : c.isUpper = true) : c.toUpper = c := by
  have bounds : 65 ≤ c.toNat ∧ c.toNat ≤ 90 := of_decide_eq_true h
  refine dif_neg ?_
  intro lower
  have low : 97 ≤ c.toNat := lower.1
  omega

/-- The letters that are read are those that are written. -/
theorem readItem?_singleton {c : Char} (plain : c.isDigit = false) {item : Item} :
    readItem? [c] = some item ↔
      ∃ kind side, kind < 6 ∧ c = letter kind side ∧ item = .man kind side := by
  refine ⟨?_, ?_⟩
  · have upper : ∀ kind < 6, (letters.getD kind '?').isUpper = true := by decide
    intro read
    rw [readItem?, if_neg (by simp [plain])] at read
    obtain ⟨kind, found, same⟩ := Option.map_eq_some_iff.1 read
    obtain ⟨known, here, _⟩ := List.idxOf?_eq_some_iff.1 found
    have written : letters.getD kind '?' = c.toUpper := by
      rw [List.getD_eq_getElem?_getD, List.getElem?_eq_getElem known, here, Option.getD_some]
    refine ⟨kind, _, known, ?_, same.symm⟩
    split
    · rename_i white
      rw [letter, written, toUpper_of_isUpper white]
    · rename_i black
      rw [letter, written]
      rcases toUpper_cases c with kept | back
      · rw [← kept, ← written] at black
        exact (black (upper kind known)).elim
      · exact back.symm
  · rintro ⟨kind, side, known, rfl, rfl⟩
    exact readItem?_letter known side

theorem readItem?_run {run : List Char} (some_digit : run ≠ [])
    (digits : ∀ c ∈ run, c.isDigit = true) {item : Item} :
    readItem? run = some item ↔ Nat.ofDigitChars 10 run 0 < UInt64.size ∧
      item = .gap (Nat.ofDigitChars 10 run 0) := by
  have all : run.all Char.isDigit = true := List.all_eq_true.2 digits
  have number : Decimal.readNat? run = some (Nat.ofDigitChars 10 run 0) := by
    rw [Decimal.readNat?, all, if_neg (by simp [some_digit])]
  obtain ⟨c, rest, rfl⟩ := List.exists_cons_of_ne_nil some_digit
  rw [readItem?, if_pos (digits c List.mem_cons_self), Decimal.readBelow?_of_digits _ all, number]
  simp [Option.filter_some, eq_comm]

/-! Rows. -/

def Item.cells : Item → List Cell
  | gap n => List.replicate n none
  | man kind side => [some (kind, side)]

theorem length_cells (items : List Item) : (items.flatMap Item.cells).length = rowWidth items := by
  induction items with
  | nil => rfl
  | cons item rest ih =>
      rw [List.flatMap_cons, List.length_append, ih, rowWidth_cons]
      cases item <;> simp [Item.cells, Item.width]

theorem tokens_run {run text : List Char} (some_digit : run ≠ [])
    (digits : ∀ c ∈ run, c.isDigit = true) (maximal : ∀ c ∈ text.head?, c.isDigit = false) :
    tokens (run ++ text) = run :: tokens text := by
  have cut : tokens (run ++ text) = tokens run ++ tokens text := by
    refine List.splitBy_append ?_
    intro a _ b next
    simp [maximal b next]
  rw [cut, tokens_digits some_digit (List.all_eq_true.2 digits), List.singleton_append]

theorem readRow?_of_tokens {cs token rest : List Char} {items : List Item}
    (cut : tokens cs = token :: tokens rest) : readRow? cs = some items ↔
      ∃ item others, readItem? token = some item ∧ readRow? rest = some others ∧
        items = item :: others := by
  simp only [readRow?, mapM_eq_some_iff, cut, List.map_cons]
  rw [eq_comm, List.map_eq_cons_iff]
  refine ⟨?_, ?_⟩
  · rintro ⟨item, others, rfl, read, later⟩
    exact ⟨item, others, read.symm, later.symm, rfl⟩
  · rintro ⟨item, others, read, later, rfl⟩
    exact ⟨item, others, rfl, read.symm, later.symm⟩

theorem exists_of_rowText {cs : List Char} {cells : List Cell} (h : RowText cs cells) :
    ∃ items, readRow? cs = some items ∧ items.flatMap Item.cells = cells := by
  induction h with
  | nil => exact ⟨[], rfl, rfl⟩
  | man known side _ ih =>
      obtain ⟨others, later, rfl⟩ := ih
      have read := readItem?_letter known side
      refine ⟨.man _ side :: others, ?_, rfl⟩
      refine (readRow?_of_tokens ?_).2 ⟨_, others, read, later, rfl⟩
      exact tokens_append_cons (isDigit_letter known side) [] _
  | gap some_digit digits maximal fits _ ih =>
      obtain ⟨others, later, rfl⟩ := ih
      have read := (readItem?_run some_digit digits).2 ⟨fits, rfl⟩
      have cut := tokens_run some_digit digits maximal
      exact ⟨.gap _ :: others, (readRow?_of_tokens cut).2 ⟨_, others, read, later, rfl⟩, rfl⟩

theorem exists_run {c : Char} (digit : c.isDigit = true) (rest : List Char) :
    ∃ run text, run ++ text = c :: rest ∧ run ≠ [] ∧ (∀ d ∈ run, d.isDigit = true) ∧
      ∀ d ∈ text.head?, d.isDigit = false := by
  refine ⟨(c :: rest).takeWhile Char.isDigit, (c :: rest).dropWhile Char.isDigit,
    List.takeWhile_append_dropWhile, by simp [digit], fun d => List.mem_takeWhile_imp, ?_⟩
  intro d first
  have stop := List.head?_dropWhile_not Char.isDigit (c :: rest)
  rwa [show ((c :: rest).dropWhile Char.isDigit).head? = some d from first] at stop

/-- By induction on the length of the text, from which one token is taken at a time. -/
theorem rowText_of_readRow? {cs : List Char} {items : List Item} (read : readRow? cs = some items) :
    RowText cs (items.flatMap Item.cells) := by
  induction size : cs.length using Nat.strong_induction_on generalizing cs items with
  | h n ih =>
      subst size
      cases cs with
      | nil =>
          obtain rfl := Option.some.inj read
          exact .nil
      | cons c rest =>
          cases first_char : c.isDigit with
          | false =>
              obtain ⟨item, others, first, later, rfl⟩ :=
                (readRow?_of_tokens (tokens_append_cons first_char [] rest)).1 read
              obtain ⟨kind, side, known, rfl, rfl⟩ := (readItem?_singleton first_char).1 first
              exact .man known side (ih rest.length (Nat.lt_succ_self _) later rfl)
          | true =>
              obtain ⟨run, text, parts, some_digit, digits, maximal⟩ := exists_run first_char rest
              rw [← parts] at read ih ⊢
              have shorter : text.length < (run ++ text).length := by
                rw [List.length_append]
                have := List.length_pos_of_ne_nil some_digit
                omega
              obtain ⟨item, others, first, later, rfl⟩ :=
                (readRow?_of_tokens (tokens_run some_digit digits maximal)).1 read
              obtain ⟨fits, rfl⟩ := (readItem?_run some_digit digits).1 first
              exact .gap some_digit digits maximal fits (ih text.length shorter later rfl)

/-! Grids. -/

/-- A row places the pieces of its squares, from column `col` on. -/
theorem mem_rowPlacements {row : Int} {col : Nat} {items : List Item} {p : Placement} :
    p ∈ rowPlacements row col items ↔ ∃ c kind side,
      (items.flatMap Item.cells)[c]? = some (some (kind, side)) ∧
        p = ⟨⟨row, ↑(col + c)⟩, kind, side⟩ := by
  induction items generalizing col with
  | nil => simp [rowPlacements]
  | cons item rest ih =>
      rw [List.flatMap_cons]
      cases item with
      | gap n =>
          have size : (Item.gap n).cells.length = n := List.length_replicate
          rw [rowPlacements, ih]
          refine ⟨?_, ?_⟩
          · rintro ⟨c, kind, side, here, rfl⟩
            refine ⟨n + c, kind, side, ?_, by rw [Nat.add_assoc]⟩
            rw [List.getElem?_append_right (by omega), size, Nat.add_sub_cancel_left, here]
          · rintro ⟨c, kind, side, here, rfl⟩
            rcases Nat.lt_or_ge c n with early | late
            · rw [List.getElem?_append_left (by omega), Item.cells,
                List.getElem?_replicate_of_lt early] at here
              cases here
            · rw [List.getElem?_append_right (by omega), size] at here
              exact ⟨c - n, kind, side, here, by rw [Nat.add_assoc, Nat.add_sub_cancel' late]⟩
      | man kind side =>
          rw [rowPlacements, List.mem_cons, ih, Item.cells, List.singleton_append]
          refine ⟨?_, ?_⟩
          · rintro (rfl | ⟨c, kind', side', here, rfl⟩)
            · exact ⟨0, kind, side, rfl, rfl⟩
            · exact ⟨c + 1, kind', side', here, by rw [Nat.add_assoc, Nat.add_comm 1]⟩
          · rintro ⟨c | c, kind', side', here, rfl⟩
            · cases here
              exact Or.inl rfl
            · exact Or.inr ⟨c, kind', side', here, by rw [Nat.add_assoc, Nat.add_comm 1]⟩

/-- The first row is the top one. -/
theorem mem_gridPlacements {n : Nat} {grid : List (List Item)} {p : Placement} :
    p ∈ gridPlacements n grid ↔ ∃ i items, i < n ∧ grid[i]? = some items ∧
      p ∈ rowPlacements (n - 1 - i) 0 items := by
  induction n generalizing grid with
  | zero => cases grid <;> simp [gridPlacements]
  | succ n ih =>
      cases grid with
      | nil => simp [gridPlacements]
      | cons items below =>
          have top : ((n + 1 : Nat) : Int) - 1 - (0 : Nat) = n := by omega
          have down (i : Nat) : ((n + 1 : Nat) : Int) - 1 - (i + 1 : Nat) = n - 1 - i := by omega
          rw [gridPlacements, List.mem_append, ih]
          refine ⟨?_, ?_⟩
          · rintro (here | ⟨i, others, low, listed, here⟩)
            · exact ⟨0, items, n.succ_pos, rfl, top ▸ here⟩
            · exact ⟨i + 1, others, Nat.succ_lt_succ low, listed, down i ▸ here⟩
          · rintro ⟨i | i, others, low, listed, here⟩
            · cases listed
              exact Or.inl (top ▸ here)
            · exact Or.inr ⟨i, others, Nat.lt_of_succ_lt_succ low, listed, down i ▸ here⟩

theorem sideWords_iff {rest : List (List Char)} {side : Side} :
    SideWords rest side ↔ readSide? rest = some side := by
  refine ⟨?_, ?_⟩
  · rintro (_ | ⟨side, ignored⟩)
    · rfl
    · cases side <;> rfl
  · intro read
    unfold readSide? at read
    split at read
    · cases read
      exact .missing
    · split at read
      · cases read
        rename_i white
        rw [white]
        exact .given .white _
      · split at read
        · cases read
          rename_i black
          rw [black]
          exact .given .black _
        · cases read

/-- A row's text has no slash in it. -/
theorem slash_not_mem {cs : List Char} {cells : List Cell} (h : RowText cs cells) : '/' ∉ cs := by
  induction h with
  | nil => exact List.not_mem_nil
  | man known side _ ih => exact List.not_mem_cons_of_ne_of_not_mem (plain_letter known side).2.symm ih
  | gap _ digits _ _ _ ih =>
      intro slash
      rcases List.mem_append.1 slash with digit | later
      · cases digits _ digit
      · exact ih later

theorem exists_of_rowTexts {lines : List (List Char)} {rows : List (List Cell)}
    (h : List.Forall₂ RowText lines rows) : ∃ grid : List (List Item),
      lines.mapM readRow? = some grid ∧ rows = grid.map (·.flatMap Item.cells) := by
  induction h with
  | nil => exact ⟨[], rfl, rfl⟩
  | cons first _ ih =>
      obtain ⟨items, read, rfl⟩ := exists_of_rowText first
      obtain ⟨below, later, rfl⟩ := ih
      refine ⟨items :: below, ?_, rfl⟩
      rw [List.mapM_cons, read, later]
      rfl

theorem rowTexts_of_mapM {lines : List (List Char)} {grid : List (List Item)}
    (h : lines.mapM readRow? = some grid) :
    List.Forall₂ RowText lines (grid.map (·.flatMap Item.cells)) := by
  rw [mapM_eq_some_iff, ← List.forall₂_eq_eq_eq, List.forall₂_map_left_iff,
    List.forall₂_map_right_iff] at h
  rw [List.forall₂_map_right_iff]
  exact h.imp fun _ _ => rowText_of_readRow?

/-- What a text says is what is read of it. -/
theorem says_iff {text : String} {rows : List (List Cell)} {width : Nat} {side : Side} :
    Says text rows width side ↔ ∃ grid, readGrid? text.toList = some (grid, side) ∧
      rows = grid.map (·.flatMap Item.cells) ∧ width = (grid.map rowWidth).headD 0 := by
  simp only [readGrid?_eq_some]
  refine ⟨?_, ?_⟩
  · rintro ⟨⟨lines, rest, split, texts, turn⟩, level⟩
    obtain ⟨grid, read, rfl⟩ := exists_of_rowTexts texts
    have some_text : ['/'].intercalate lines ≠ [] := by
      have listed : ['/'].intercalate lines ∈ Text.words text.toList := split ▸ List.mem_cons_self
      simpa using (List.mem_filter.1 listed).2
    have some_line : lines ≠ [] := by
      rintro rfl
      exact some_text rfl
    have plain : ∀ line ∈ lines, '/' ∉ line := by
      intro line listed
      have among : readRow? line ∈ grid.map some :=
        mapM_eq_some_iff.1 read ▸ List.mem_map_of_mem listed
      obtain ⟨items, _, line_read⟩ := List.mem_map.1 among
      exact slash_not_mem (rowText_of_readRow? line_read.symm)
    have cut : (['/'].intercalate lines).splitOn '/' = lines :=
      List.splitOn_intercalate '/' plain some_line
    have widths : ∀ items ∈ grid, rowWidth items = width := by
      intro items listed
      rw [← length_cells, level _ (List.mem_map_of_mem listed)]
    have first : width = (grid.map rowWidth).headD 0 := by
      cases grid with
      | nil => exact (some_line (List.map_eq_nil_iff.1 (mapM_eq_some_iff.1 read))).elim
      | cons items below => exact (widths items List.mem_cons_self).symm
    exact ⟨grid, ⟨_, rest, split, sideWords_iff.1 turn, cut.symm ▸ read, first ▸ widths⟩, rfl, first⟩
  · rintro ⟨grid, ⟨word, rest, split, turn, read, level⟩, rfl, rfl⟩
    refine ⟨⟨word.splitOn '/', rest, ?_, rowTexts_of_mapM read, sideWords_iff.2 turn⟩, ?_⟩
    · rw [List.intercalate_splitOn, split]
    · rw [List.forall_mem_map]
      intro items listed
      rw [length_cells, level items listed]

theorem rowsOutgrow_eq_false {lines : List (List Char)} {grid : List (List Item)}
    (read : lines.mapM readRow? = some grid)
    (fits : ∀ items ∈ grid, Capacity.holds (rowWidth items) 16 = true) : rowsOutgrow lines = false := by
  induction lines generalizing grid with
  | nil => rfl
  | cons line rest ih =>
      rw [List.mapM_cons] at read
      obtain ⟨items, first, tail⟩ := Option.bind_eq_some_iff.1 read
      obtain ⟨below, later, same⟩ := Option.bind_eq_some_iff.1 tail
      obtain rfl := Option.some.inj same
      obtain ⟨held, others⟩ := List.forall_mem_cons.1 fits
      rw [rowsOutgrow, rowOutgrows_eq_false first (by rwa [Nat.zero_add]), ih later others, Bool.and_false,
        Bool.or_false]

/-- What follows the grammar is read if each of its rows can be held. -/
theorem outgrowsMemory_eq_false {text : String} {rows : List (List Cell)} {width : Nat} {side : Side}
    (said : Says text rows width side) (fits : Capacity.holds width 16 = true) :
    outgrowsMemory text = false := by
  obtain ⟨grid, found, rfl, rfl⟩ := says_iff.1 said
  obtain ⟨word, rest, split, _, read, level⟩ := readGrid?_eq_some.1 found
  have held : ∀ items ∈ grid, Capacity.holds (rowWidth items) 16 = true := by
    intro items listed
    rwa [level items listed]
  rw [outgrowsMemory, split]
  dsimp only
  rw [rowsOutgrow_eq_false read held, Bool.and_false]

end Layout

namespace Setup

open Layout

theorem ofLayout?_of_says {text : String} {rows : List (List Cell)} {width : Nat} {side : Side}
    (said : Says text rows width side) (fits : Capacity.holds width 16 = true) :
    ofLayout? text = some (ofLayout text) :=
  if_neg (by simp [outgrowsMemory_eq_false said fits])

/-- Every square that a text says shows its piece, the first row at the top; nothing is off the board. -/
structure Shows (u : Setup) (rows : List (List Cell)) (width : Nat) (side : Side) : Prop where
  dims : u.dims = ⟨rows.length, width, 6⟩
  toMove : u.toMove = side
  held : ∀ (i c : Nat) row cell, rows[i]? = some row → row[c]? = some cell →
    u.get? ⟨rows.length - 1 - i, c⟩ =
      cell.map fun (kind, side) => ⟨⟨rows.length - 1 - i, c⟩, kind, side⟩
  outside : ∀ s, u.dims.contains s = false → u.get? s = none

theorem get?_grid {u : Setup} {grid : List (List Item)}
    (placed : u.placements = gridPlacements grid.length grid) {i c : Nat} {items : List Item}
    {cell : Cell} (row : grid[i]? = some items) (here : (items.flatMap Item.cells)[c]? = some cell) :
    u.get? ⟨grid.length - 1 - i, c⟩ =
      cell.map fun (kind, side) => ⟨⟨grid.length - 1 - i, c⟩, kind, side⟩ := by
  have distinct : Distinct u.placements := by
    rw [placed]
    exact distinct_of_before (before_gridPlacements _ _)
  have low : i < grid.length := (List.getElem?_eq_some_iff.1 row).1
  apply Option.ext
  intro p
  rw [get?_eq_some_iff distinct, placed, mem_gridPlacements, Option.map_eq_some_iff]
  simp only [mem_rowPlacements]
  refine ⟨?_, ?_⟩
  · rintro ⟨⟨j, others, _, listed, d, kind, side, man, rfl⟩, same⟩
    obtain ⟨same_row, same_col⟩ := Square.mk.inj same
    obtain rfl : j = i := by omega
    obtain rfl : d = c := by omega
    obtain rfl := Option.some.inj (listed.symm.trans row)
    obtain rfl := Option.some.inj (man.symm.trans here)
    exact ⟨(kind, side), rfl, by simp⟩
  · rintro ⟨⟨kind, side⟩, rfl, rfl⟩
    exact ⟨⟨i, items, low, row, c, kind, side, here, by simp⟩, rfl⟩

section Said

variable {text : String} {rows : List (List Cell)} {width : Nat} {side : Side}
  (said : Says text rows width side)
include said

theorem ofLayout_isOk (tall : 4 ≤ rows.length) (wide : 1 ≤ width) : ∃ u, ofLayout text = .ok u := by
  obtain ⟨grid, read, rfl, rfl⟩ := says_iff.1 said
  rw [List.length_map] at tall
  let dims : Dimensions := ⟨grid.length, (grid.map rowWidth).headD 0, 6⟩
  have made : Dimensions.make dims.rows dims.cols dims.kinds = .ok dims :=
    Dimensions.make_eq_ok.2 ⟨tall, wide, Nat.le_add_left 1 5⟩
  rw [ofLayout_of_readGrid? read, made]
  exact ⟨_, rfl⟩

theorem ofLayout_of_small (small : ¬ (4 ≤ rows.length ∧ 1 ≤ width)) :
    ofLayout text = .error (.dimensions rows.length width 6) := by
  obtain ⟨grid, read, rfl, rfl⟩ := says_iff.1 said
  rw [List.length_map] at small ⊢
  rw [ofLayout_of_readGrid? read, Dimensions.make_eq_error fun fits => small ⟨fits.1, fits.2.1⟩]
  rfl

theorem shows_of_ofLayout {u : Setup} (h : ofLayout text = .ok u) :
    4 ≤ rows.length ∧ 1 ≤ width ∧ u.Shows rows width side := by
  have suits := (legible_of_ofLayout h).1.suits
  obtain ⟨grid, read, rfl, rfl⟩ := says_iff.1 said
  rw [ofLayout_of_readGrid? read] at h
  rw [List.length_map]
  obtain ⟨d, made, rfl⟩ := map_eq_ok.1 h
  obtain ⟨rfl, tall, wide, _⟩ := Dimensions.eq_of_make made
  refine ⟨tall, wide, ?_, rfl, ?_, ?_⟩
  · rw [List.length_map]
  · intro i c row cell listed here
    rw [List.getElem?_map, Option.map_eq_some_iff] at listed
    obtain ⟨items, listed, rfl⟩ := listed
    rw [List.length_map]
    exact get?_grid rfl listed here
  · intro s outside
    rw [Option.eq_none_iff_forall_ne_some]
    intro p got
    obtain ⟨listed, rfl⟩ := spec_of_get? got
    rw [(suits p listed).1] at outside
    cases outside

end Said

theorem ofLayout_of_not_says {text : String} (h : ¬ ∃ rows width side, Says text rows width side) :
    ofLayout text = .error (.unreadableLayout text) := by
  rw [ofLayout]
  cases read : readGrid? text.toList with
  | none => rfl
  | some found => exact (h ⟨_, _, found.2, says_iff.2 ⟨found.1, read, rfl, rfl⟩⟩).elim

/-- A text does not follow the grammar, or it says too few rows or none that are wide enough, or it is
read. -/
theorem ofLayout_cases (text : String) :
    (¬ ∃ rows width side, Says text rows width side) ∧
        ofLayout text = .error (.unreadableLayout text) ∨
      ∃ rows width side, Says text rows width side ∧
        (¬ (4 ≤ rows.length ∧ 1 ≤ width) ∧ ofLayout text = .error (.dimensions rows.length width 6) ∨
          (4 ≤ rows.length ∧ 1 ≤ width) ∧ ∃ u, ofLayout text = .ok u) := by
  by_cases follows : ∃ rows width side, Says text rows width side
  · obtain ⟨rows, width, side, said⟩ := follows
    refine Or.inr ⟨rows, width, side, said, ?_⟩
    by_cases fits : 4 ≤ rows.length ∧ 1 ≤ width
    · exact Or.inr ⟨fits, ofLayout_isOk said fits.1 fits.2⟩
    · exact Or.inl ⟨fits, ofLayout_of_small said fits⟩
  · exact Or.inl ⟨follows, ofLayout_of_not_says follows⟩

/-- A text is read exactly if it follows the grammar with at least four rows of at least one square, and
then it shows what it says. One that follows the grammar with fewer is refused for its dimensions, any
other as unreadable. -/
theorem layout_grammar (text : String) :
    ((∃ u, ofLayout text = .ok u) ↔
      ∃ rows width side, Says text rows width side ∧ 4 ≤ rows.length ∧ 1 ≤ width) ∧
    (∀ u rows width side, ofLayout text = .ok u → Says text rows width side →
      u.Shows rows width side) ∧
    ∀ e, ofLayout text = .error e ↔
      (∃ rows width side, Says text rows width side ∧ (rows.length < 4 ∨ width = 0) ∧
        e = .dimensions rows.length width 6) ∨
      (¬ ∃ rows width side, Says text rows width side) ∧ e = .unreadableLayout text := by
  refine ⟨⟨?_, ?_⟩, fun _ _ _ _ read said => (shows_of_ofLayout said read).2.2, fun e => ⟨?_, ?_⟩⟩
  · rintro ⟨u, read⟩
    rcases ofLayout_cases text with ⟨_, refused⟩ | ⟨rows, width, side, said, _⟩
    · cases refused.symm.trans read
    · obtain ⟨tall, wide, _⟩ := shows_of_ofLayout said read
      exact ⟨rows, width, side, said, tall, wide⟩
  · rintro ⟨rows, width, side, said, tall, wide⟩
    exact ofLayout_isOk said tall wide
  · intro refused
    rcases ofLayout_cases text with
      ⟨unsaid, other⟩ | ⟨rows, width, side, said, ⟨small, other⟩ | ⟨_, u, read⟩⟩
    · exact Or.inr ⟨unsaid, Except.error.inj (refused.symm.trans other)⟩
    · exact Or.inl ⟨rows, width, side, said, by omega, Except.error.inj (refused.symm.trans other)⟩
    · cases refused.symm.trans read
  · rintro (⟨rows, width, side, said, small, rfl⟩ | ⟨unsaid, rfl⟩)
    · exact ofLayout_of_small said (by omega)
    · exact ofLayout_of_not_says unsaid

end Setup

/-! Four by four, with a superfluous zero and a third word. -/

namespace Narrow

def text : String := "k3/1P2/04/3q b w"

def rows : List (List Layout.Cell) :=
  [[some (5, .black), none, none, none], [none, some (0, .white), none, none],
    [none, none, none, none], [none, none, none, some (4, .black)]]

open Setup Layout in
theorem letters_and_gaps : Says text rows 4 .black ∧ ∃ u, ofLayout text = .ok u ∧
    u.Shows rows 4 .black ∧ u.get? ⟨2, 1⟩ = some ⟨⟨2, 1⟩, 0, .white⟩ ∧ u.get? ⟨0, 4⟩ = none ∧
    ofLayout "4/4/4" = .error (.dimensions 3 4 6) ∧
    ofLayout "4/4/4/3" = .error (.unreadableLayout "4/4/4/3") := by
  have said : Says text rows 4 .black := by
    refine says_iff.2 ⟨[[.man 5 .black, .gap 3], [.gap 1, .man 0 .white, .gap 2], [.gap 4],
      [.gap 3, .man 4 .black]], ?_, rfl, rfl⟩
    decide +kernel
  have low : Says "4/4/4" [[none, none, none, none], [none, none, none, none],
      [none, none, none, none]] 4 .white := by
    refine says_iff.2 ⟨[[.gap 4], [.gap 4], [.gap 4]], ?_, rfl, rfl⟩
    decide +kernel
  have uneven : ¬ ∃ rows width side, Says "4/4/4/3" rows width side := by
    have unread : readGrid? "4/4/4/3".toList = none := by decide +kernel
    rintro ⟨_, _, _, said⟩
    obtain ⟨_, read, _⟩ := says_iff.1 said
    cases unread.symm.trans read
  obtain ⟨accepted, shown, _⟩ := layout_grammar text
  obtain ⟨u, read⟩ := accepted.2 ⟨rows, 4, .black, said, by decide, by decide⟩
  have shows := shown u rows 4 .black read said
  exact ⟨said, u, read, shows, shows.held 1 1 _ _ rfl rfl, shows.outside _ (by rw [shows.dims]; rfl),
    ((layout_grammar "4/4/4").2.2 _).2 (.inl ⟨_, _, _, low, by decide, rfl⟩),
    ((layout_grammar "4/4/4/3").2.2 _).2 (.inr ⟨uneven, rfl⟩)⟩

end Narrow

end VariantChess
