import Mathlib.Data.List.SplitBy
import Mathlib.Data.List.Sort
import VariantChess.Proofs.ItemByItem
import VariantChess.Proofs.Numerals
import VariantChess.Proofs.Setups
import VariantChess.Setup.Layout

/-!
One row of a layout. Its pieces are written from left to right with the lengths of the gaps between
them; a gap of no squares is not written, so two numbers never meet and the text falls apart into the
items that were written. Read again, the row is as wide as before and has its pieces where they stood.
-/

namespace VariantChess

namespace Layout

/-! Letters. -/

theorem isDigit_letter {kind : Nat} (known : kind < 6) (side : Side) :
    (letter kind side).isDigit = false := by
  have all : ∀ kind < 6, (letter kind .white).isDigit = false ∧
      (letter kind .black).isDigit = false := by
    decide
  cases side with
  | white => exact (all kind known).1
  | black => exact (all kind known).2

theorem readItem?_letter {kind : Nat} (known : kind < 6) (side : Side) :
    readItem? [letter kind side] = some (.man kind side) := by
  have all : ∀ kind < 6, readItem? [letter kind .white] = some (.man kind .white) ∧
      readItem? [letter kind .black] = some (.man kind .black) := by
    decide
  cases side with
  | white => exact (all kind known).1
  | black => exact (all kind known).2

theorem kind_lt_of_readItem? {token : List Char} {kind : Nat} {side : Side}
    (h : readItem? token = some (.man kind side)) : kind < 6 := by
  cases token with
  | nil => cases h
  | cons c rest =>
      rw [readItem?] at h
      split at h
      · obtain ⟨n, _, same⟩ := Option.map_eq_some_iff.1 h
        cases same
      · obtain ⟨i, found, same⟩ := Option.map_eq_some_iff.1 h
        cases same
        exact (List.findIdx?_eq_some_iff_getElem.1 found).1

theorem kind_lt_of_readRow? {cs : List Char} {items : List Item} (h : readRow? cs = some items)
    {kind : Nat} {side : Side} (listed : Item.man kind side ∈ items) : kind < 6 := by
  obtain ⟨token, _, read⟩ := exists_of_mem_mapM h _ listed
  exact kind_lt_of_readItem? read

/-! Tokens. -/

theorem tokens_digits {cs : List Char} (some_digit : cs ≠ []) (digits : cs.all Char.isDigit = true) :
    tokens cs = [cs] := by
  refine List.splitBy_of_isChain some_digit (List.Pairwise.isChain ?_)
  refine List.pairwise_of_forall_mem_list ?_
  intro a first b second
  rw [List.all_eq_true] at digits
  simp [digits a first, digits b second]

/-- A character that is no digit stands alone. -/
theorem tokens_append_cons {c : Char} (h : c.isDigit = false) (before after : List Char) :
    tokens (before ++ c :: after) = tokens before ++ [c] :: tokens after := by
  have alone : tokens (c :: after) = [c] :: tokens after := by
    refine (List.splitBy_append (l := [c]) (m := after) ?_).trans rfl
    simp [h]
  rw [← alone]
  refine List.splitBy_append_cons after ?_
  simp [h]

theorem readRow?_append_cons {c : Char} (h : c.isDigit = false) {before after : List Char}
    {left right : List Item} {item : Item} (first : readRow? before = some left)
    (middle : readItem? [c] = some item) (last : readRow? after = some right) :
    readRow? (before ++ c :: after) = some (left ++ item :: right) := by
  rw [readRow?] at first last ⊢
  rw [tokens_append_cons h, List.mapM_append, List.mapM_cons, first, middle, last]
  rfl

/-! Items. -/

/-- Gaps of no squares are left out. -/
def squeeze (items : List Item) : List Item := items.filter (0 < ·.width)

@[simp] theorem squeeze_man_cons (kind : Nat) (side : Side) (items : List Item) :
    squeeze (.man kind side :: items) = .man kind side :: squeeze items := rfl

theorem squeeze_gap_cons (n : Nat) (items : List Item) :
    squeeze (.gap n :: items) = squeeze [.gap n] ++ squeeze items :=
  List.filter_append (p := fun item : Item => decide (0 < item.width)) [.gap n] items

@[simp] theorem rowWidth_cons (item : Item) (items : List Item) :
    rowWidth (item :: items) = item.width + rowWidth items := rfl

theorem rowWidth_squeeze (items : List Item) : rowWidth (squeeze items) = rowWidth items := by
  induction items with
  | nil => rfl
  | cons item rest ih =>
      unfold squeeze at ih ⊢
      rw [List.filter_cons]
      split
      · rw [rowWidth_cons, rowWidth_cons, ih]
      · rename_i thin
        have none_wide : item.width = 0 := by simpa using thin
        rw [ih, rowWidth_cons, none_wide, Nat.zero_add]

theorem rowPlacements_squeeze (row : Int) (col : Nat) (items : List Item) :
    rowPlacements row col (squeeze items) = rowPlacements row col items := by
  induction items generalizing col with
  | nil => rfl
  | cons item rest ih =>
      cases item with
      | gap n =>
          cases n with
          | zero => exact ih col
          | succ n => exact ih (col + (n + 1))
      | man kind side => exact congrArg (_ :: ·) (ih (col + 1))

theorem readRow?_gap {n : Nat} (small : n < UInt64.size) :
    readRow? (Item.gap n).chars = some (squeeze [.gap n]) := by
  by_cases nothing : n = 0
  · subst nothing
    rfl
  · have digits := Decimal.all_isDigit_ofNat n
    have read : readItem? (Decimal.ofNat n) = some (.gap n) := by
      obtain ⟨c, rest, text⟩ := List.exists_cons_of_ne_nil (Decimal.ofNat_ne_nil n)
      have digit : c.isDigit = true := by
        rw [text, List.all_cons, Bool.and_eq_true] at digits
        exact digits.1
      rw [text, readItem?, if_pos digit, ← text, Decimal.readBelow?_ofNat small]
      rfl
    have kept : squeeze [.gap n] = [.gap n] := by
      simp [squeeze, Item.width, Nat.pos_of_ne_zero nothing]
    rw [Item.chars, if_neg nothing, readRow?, tokens_digits (Decimal.ofNat_ne_nil n) digits,
      List.mapM_cons, read, kept]
    rfl

/-! The items of a row. -/

/-- Columns from `col` on, from left to right, with types that have a letter. -/
structure Ranked (col cols : Nat) (men : List (Nat × Nat × Side)) : Prop where
  ascending : men.Pairwise (·.1 < ·.1)
  inside : ∀ m ∈ men, col ≤ m.1 ∧ m.1 < cols
  known : ∀ m ∈ men, m.2.1 < 6

theorem Ranked.tail {col cols : Nat} {m : Nat × Nat × Side} {men : List (Nat × Nat × Side)}
    (h : Ranked col cols (m :: men)) : Ranked (m.1 + 1) cols men := by
  obtain ⟨first, ascending⟩ := List.pairwise_cons.1 h.ascending
  obtain ⟨_, inside⟩ := List.forall_mem_cons.1 h.inside
  obtain ⟨_, known⟩ := List.forall_mem_cons.1 h.known
  exact ⟨ascending, fun n listed => ⟨first n listed, (inside n listed).2⟩, known⟩

variable {col cols : Nat} {men : List (Nat × Nat × Side)}

theorem readRow?_rowItems (ranked : Ranked col cols men) (small : cols < UInt64.size) :
    readRow? ((rowItems cols col men).flatMap Item.chars) = some (squeeze (rowItems cols col men)) := by
  induction men generalizing col with
  | nil =>
      rw [rowItems, List.flatMap_singleton]
      exact readRow?_gap (by omega)
  | cons m rest ih =>
      obtain ⟨next, kind, side⟩ := m
      have known : kind < 6 := ranked.known _ List.mem_cons_self
      have inside : col ≤ next ∧ next < cols := ranked.inside _ List.mem_cons_self
      have gap : next - col < UInt64.size := by omega
      rw [rowItems, List.flatMap_cons, List.flatMap_cons, squeeze_gap_cons, squeeze_man_cons]
      exact readRow?_append_cons (isDigit_letter known side) (readRow?_gap gap)
        (readItem?_letter known side) (ih ranked.tail)

theorem rowWidth_rowItems (ranked : Ranked col cols men) :
    rowWidth (rowItems cols col men) = cols - col := by
  induction men generalizing col with
  | nil => rfl
  | cons m rest ih =>
      obtain ⟨next, kind, side⟩ := m
      have inside : col ≤ next ∧ next < cols := ranked.inside _ List.mem_cons_self
      have later : rowWidth (rowItems cols (next + 1) rest) = cols - (next + 1) := ih ranked.tail
      rw [rowItems, rowWidth_cons, rowWidth_cons, later, Item.width, Item.width]
      omega

theorem rowPlacements_rowItems (ranked : Ranked col cols men) (row : Int) :
    rowPlacements row col (rowItems cols col men) =
      men.map fun (c, kind, side) => ⟨⟨row, c⟩, kind, side⟩ := by
  induction men generalizing col with
  | nil => rfl
  | cons m rest ih =>
      obtain ⟨next, kind, side⟩ := m
      have inside : col ≤ next ∧ next < cols := ranked.inside _ List.mem_cons_self
      have later := ih ranked.tail
      rw [rowItems, rowPlacements, rowPlacements, Nat.add_sub_cancel' inside.1, List.map_cons, later]

theorem isDigit_of_mem_gap {n : Nat} {c : Char} (listed : c ∈ (Item.gap n).chars) :
    c.isDigit = true := by
  rw [Item.chars] at listed
  split at listed
  · cases listed
  · exact Decimal.isDigit_of_mem_ofNat listed

/-- A row's text is made of digits and of letters. -/
theorem mem_chars_rowItems (ranked : Ranked col cols men) {c : Char}
    (listed : c ∈ (rowItems cols col men).flatMap Item.chars) :
    c.isDigit = true ∨ ∃ kind side, kind < 6 ∧ c = letter kind side := by
  induction men generalizing col with
  | nil =>
      rw [rowItems, List.flatMap_singleton] at listed
      exact Or.inl (isDigit_of_mem_gap listed)
  | cons m rest ih =>
      obtain ⟨next, kind, side⟩ := m
      rw [rowItems, List.flatMap_cons, List.flatMap_cons, List.mem_append, List.mem_append] at listed
      rcases listed with before | here | after
      · exact Or.inl (isDigit_of_mem_gap before)
      · exact Or.inr ⟨kind, side, ranked.known _ List.mem_cons_self, List.mem_singleton.1 here⟩
      · exact ih ranked.tail after

end Layout

/-! The men of a row. -/

namespace Setup

variable {u : Setup} {row : Int} {cols : Nat}

theorem mem_columns {c : Nat} :
    c ∈ u.columns row cols ↔ c < cols ∧ ∃ p ∈ u.placements, p.square = ⟨row, c⟩ := by
  simp only [columns, List.mem_eraseDups, List.mem_mergeSort, List.mem_map, List.mem_filter,
    Bool.and_eq_true, beq_iff_eq, decide_eq_true_eq]
  refine ⟨?_, ?_⟩
  · rintro ⟨p, ⟨listed, ⟨here, positive⟩, inside⟩, rfl⟩
    refine ⟨inside, p, listed, ?_⟩
    rw [Int.toNat_of_nonneg positive, ← here]
  · rintro ⟨inside, p, listed, here⟩
    refine ⟨p, ⟨listed, ⟨?_, ?_⟩, ?_⟩, ?_⟩ <;> simp [here, inside]

theorem columns_ascending (u : Setup) (row : Int) (cols : Nat) :
    (u.columns row cols).Pairwise (· < ·) := by
  dsimp only [columns]
  generalize (u.placements.filter _).map _ = found
  generalize listed : found.mergeSort (fun a b => decide (a ≤ b)) = cols'
  have sorted : cols'.Pairwise (· ≤ ·) := by
    rw [← listed]
    exact found.pairwise_mergeSort' (· ≤ ·)
  have kept := sorted.sublist (eraseDups_sublist cols')
  exact kept.imp₂ (fun _ _ le ne => Nat.lt_of_le_of_ne le ne) (nodup_eraseDups _)

theorem mem_rowMen {c kind : Nat} {side : Side} : (c, kind, side) ∈ u.rowMen row cols ↔
    c < cols ∧ u.get? ⟨row, c⟩ = some ⟨⟨row, c⟩, kind, side⟩ := by
  simp only [rowMen, List.mem_filterMap, mem_columns, Option.map_eq_some_iff, Prod.mk.injEq]
  refine ⟨?_, ?_⟩
  · rintro ⟨_, ⟨inside, _⟩, p, got, rfl, rfl, rfl⟩
    refine ⟨inside, got.trans ?_⟩
    rw [← (spec_of_get? got).2]
  · rintro ⟨inside, got⟩
    exact ⟨c, ⟨inside, _, spec_of_get? got⟩, _, got, rfl, rfl, rfl⟩

theorem ranked_rowMen (known : ∀ p ∈ u.placements, p.kind < 6) :
    Layout.Ranked 0 cols (u.rowMen row cols) := by
  refine ⟨?_, ?_, ?_⟩
  · refine (u.columns_ascending row cols).filterMap _ ?_
    intro c c' less m man m' man'
    obtain ⟨_, _, rfl⟩ := Option.map_eq_some_iff.1 man
    obtain ⟨_, _, rfl⟩ := Option.map_eq_some_iff.1 man'
    exact less
  · rintro ⟨c, kind, side⟩ listed
    exact ⟨Nat.zero_le c, (mem_rowMen.1 listed).1⟩
  · rintro ⟨c, kind, side⟩ listed
    exact known _ (List.mem_of_find?_eq_some (mem_rowMen.1 listed).2)

end Setup

end VariantChess
