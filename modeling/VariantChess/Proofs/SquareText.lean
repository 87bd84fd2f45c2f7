import VariantChess.Error
import VariantChess.Proofs.Legality
import VariantChess.Proofs.Numerals

/-!
The texts of squares and of moves. A square with a letter is read back from its text; what is read may have
been written with leading zeros or a plus sign, but its own text names the same square. No square's text
is the beginning of another's, unless a digit follows, so the two squares of a move can be told apart,
and what stands between them, wherever on however wide a board they are.
-/

namespace VariantChess

open Decimal

namespace Square

variable {a b s : Square}

theorem hasLetter_iff : s.hasLetter = true ↔ 0 ≤ s.row ∧ 0 ≤ s.col ∧ s.col < 26 := by
  simp [hasLetter, and_assoc]

theorem chars_of_hasLetter (h : s.hasLetter = true) :
    s.chars = fileLetter s.col.toNat :: ofNat (s.row.toNat + 1) := if_pos h

theorem chars_of_not_hasLetter (h : s.hasLetter = false) :
    s.chars = '(' :: (ofInt s.row ++ ',' :: ' ' :: (ofInt s.col ++ [')'])) := by
  simp [chars, h]

theorem fileLetter_spec {col : Nat} (h : col < 26) :
    (fileLetter col).isLower = true ∧ (fileLetter col).toNat = 'a'.toNat + col := by
  have all : ∀ col < 26, (fileLetter col).isLower = true ∧
      (fileLetter col).toNat = 'a'.toNat + col := by
    decide
  exact all col h

theorem isLower_iff {c : Char} : c.isLower = true ↔ 'a'.toNat ≤ c.toNat ∧ c.toNat < 'a'.toNat + 26 := by
  change (decide (c.val ≥ 'a'.val) && decide (c.val ≤ 'z'.val)) = true ↔ _
  simp only [Bool.and_eq_true, decide_eq_true_eq, ge_iff_le, UInt32.le_iff_toNat_le]
  change 97 ≤ c.toNat ∧ c.toNat ≤ 122 ↔ 97 ≤ c.toNat ∧ c.toNat < 123
  omega

theorem isDigit_of_isLower {c : Char} (h : c.isLower = true) : c.isDigit = false := by
  rw [isLower_iff] at h
  simp only [Char.isDigit, Bool.and_eq_false_iff, decide_eq_false_iff_not, ge_iff_le,
    UInt32.le_iff_toNat_le]
  change ¬ 48 ≤ c.toNat ∨ ¬ c.toNat ≤ 57
  change 97 ≤ c.toNat ∧ _ at h
  omega

theorem chars_ne_nil (s : Square) : s.chars ≠ [] := by
  cases h : s.hasLetter with
  | true => simp [chars_of_hasLetter h]
  | false => simp [chars_of_not_hasLetter h]

theorem mem_chars {c : Char} (h : c ∈ s.chars) :
    c.isLower = true ∨ c.isDigit = true ∨ c ∈ ['(', ',', ' ', ')', '-'] := by
  cases letter : s.hasLetter with
  | true =>
      obtain ⟨_, _, narrow⟩ := hasLetter_iff.1 letter
      rw [chars_of_hasLetter letter] at h
      rcases List.mem_cons.1 h with rfl | digit
      · exact .inl (fileLetter_spec (by omega)).1
      · exact .inr (.inl (isDigit_of_mem_ofNat digit))
  | false =>
      have number {z : Int} (listed : c ∈ ofInt z) :
          c.isDigit = true ∨ c ∈ ['(', ',', ' ', ')', '-'] := by
        rcases mem_ofInt listed with rfl | digit
        · exact .inr (by decide)
        · exact .inl digit
      rw [chars_of_not_hasLetter letter] at h
      simp only [List.mem_cons, List.mem_append, List.not_mem_nil, or_false] at h
      rcases h with rfl | row | rfl | rfl | col | rfl
      · exact .inr (.inr (by decide))
      · exact .inr (number row)
      · exact .inr (.inr (by decide))
      · exact .inr (.inr (by decide))
      · exact .inr (number col)
      · exact .inr (.inr (by decide))

/-! Reading. -/

theorem read?_chars (h : s.hasLetter = true) (fits : s.row.toNat + 1 < UInt32.size / 2) :
    read? s.chars = some s := by
  obtain ⟨row, col, narrow⟩ := hasLetter_iff.1 h
  obtain ⟨lower, code⟩ := fileLetter_spec (show s.col.toNat < 26 by omega)
  rw [chars_of_hasLetter h, read?, if_pos lower, readBelow?_ofNat fits, Option.filter_some,
    if_pos (by simp)]
  refine congrArg some ?_
  ext
  · simp [Int.toNat_of_nonneg row]
  · simp [code, Int.toNat_of_nonneg col]

/-- What is read has a letter and a row that can be counted from 1 in 32 bits. -/
theorem spec_of_read? {cs : List Char} (h : read? cs = some s) :
    s.hasLetter = true ∧ s.row.toNat + 1 < UInt32.size / 2 := by
  cases cs with
  | nil => cases h
  | cons file rest =>
      rw [read?] at h
      split at h
      · rename_i lower
        obtain ⟨_, named, rfl⟩ := Option.map_eq_some_iff.1 h
        obtain ⟨rank, found, same⟩ := Option.bind_eq_some_iff.1 named
        obtain rfl := Option.some.inj same
        obtain ⟨read, positive⟩ := Option.filter_eq_some_iff.1 found
        have bound := lt_of_readBelow? read
        have counted : 1 ≤ rank := of_decide_eq_true positive
        obtain ⟨low, high⟩ := isLower_iff.1 lower
        rw [hasLetter_iff]
        dsimp only
        omega
      · cases h

/-- The text of a square that was read is read as the same square. -/
theorem read?_chars_of_read? {cs : List Char} (h : read? cs = some s) : read? s.chars = some s := by
  obtain ⟨letter, fits⟩ := spec_of_read? h
  exact read?_chars letter fits

theorem parse_eq_ok {text : String} : parse text = .ok s ↔ read? text.toList = some s := by
  unfold parse
  cases read? text.toList <;> simp

@[simp] theorem toList_text (s : Square) : s.text.toList = s.chars := String.toList_ofList

/-! Telling squares apart. -/

/-- A text begins with a letter or a parenthesis. -/
theorem exists_first (s : Square) : ∃ c rest, s.chars = c :: rest ∧ (c.isLower = true ∨ c = '(') := by
  cases h : s.hasLetter with
  | true =>
      obtain ⟨_, _, narrow⟩ := hasLetter_iff.1 h
      exact ⟨_, _, chars_of_hasLetter h, .inl (fileLetter_spec (by omega)).1⟩
  | false => exact ⟨_, _, chars_of_not_hasLetter h, .inr rfl⟩

theorem endsBefore_chars (s : Square) : EndsBefore s.chars := by
  obtain ⟨c, rest, written, lower | paren⟩ := s.exists_first
  · rw [written]
    exact endsBefore_cons (isDigit_of_isLower lower) rest
  · rw [written, paren]
    exact endsBefore_cons rfl rest

theorem chars_ne_cons (s : Square) {c : Char} (first : c.isLower = false ∧ c ≠ '(') (rest : List Char) :
    s.chars ≠ c :: rest := by
  obtain ⟨d, others, written, begins⟩ := s.exists_first
  rw [written]
  intro same
  rw [(List.cons.inj same).1] at begins
  rcases begins with lower | paren
  · rw [lower] at first
    cases first.1
  · exact first.2 paren

theorem fileLetter_inj {c d : Nat} (hc : c < 26) (hd : d < 26) (same : fileLetter c = fileLetter d) :
    c = d := by
  have code : (fileLetter c).toNat = (fileLetter d).toNat := congrArg Char.toNat same
  rw [(fileLetter_spec hc).2, (fileLetter_spec hd).2] at code
  exact Nat.add_left_cancel code

/-- A letter is no parenthesis. -/
theorem chars_append_ne (ha : a.hasLetter = true) (hb : b.hasLetter = false) (xs ys : List Char) :
    a.chars ++ xs ≠ b.chars ++ ys := by
  obtain ⟨_, _, narrow⟩ := hasLetter_iff.1 ha
  have lower := (fileLetter_spec (show a.col.toNat < 26 by omega)).1
  rw [chars_of_hasLetter ha, chars_of_not_hasLetter hb]
  intro same
  rw [(List.cons.inj same).1] at lower
  cases lower

/-- Where a text ends is seen from what follows, if that does not begin with a digit. -/
theorem chars_append_inj {xs ys : List Char} (hx : EndsBefore xs) (hy : EndsBefore ys)
    (same : a.chars ++ xs = b.chars ++ ys) : a = b ∧ xs = ys := by
  cases ha : a.hasLetter with
  | true =>
      cases hb : b.hasLetter with
      | true =>
          obtain ⟨_, _, _⟩ := hasLetter_iff.1 ha
          obtain ⟨_, _, _⟩ := hasLetter_iff.1 hb
          rw [chars_of_hasLetter ha, chars_of_hasLetter hb] at same
          -- only the row has to end before what follows
          obtain ⟨file, rest⟩ := List.cons.inj same
          have col := fileLetter_inj (by omega) (by omega) file
          obtain ⟨row, others⟩ := ofNat_append_inj hx hy rest
          refine ⟨?_, others⟩
          ext <;> omega
      | false => exact absurd same (chars_append_ne ha hb xs ys)
  | false =>
      cases hb : b.hasLetter with
      | true => exact absurd same.symm (chars_append_ne hb ha ys xs)
      | false =>
          rw [chars_of_not_hasLetter ha, chars_of_not_hasLetter hb] at same
          simp only [List.append_assoc, List.cons_append, List.nil_append] at same
          -- the comma ends the row, and the parenthesis ends the column
          have inner := (List.cons.inj same).2
          obtain ⟨row, rest⟩ := ofInt_append_inj (endsBefore_cons rfl _) (endsBefore_cons rfl _) inner
          have last := (List.cons.inj (List.cons.inj rest).2).2
          obtain ⟨col, closed⟩ := ofInt_append_inj (endsBefore_cons rfl _) (endsBefore_cons rfl _) last
          exact ⟨Square.ext row col, (List.cons.inj closed).2⟩

theorem chars_inj (same : a.chars = b.chars) : a = b := by
  have ended : a.chars ++ [] = b.chars ++ [] := by rw [same]
  exact (chars_append_inj endsBefore_nil endsBefore_nil ended).1

end Square

namespace Move

variable {m n : Move}

@[simp] theorem toList_text (m : Move) : m.text.toList = m.chars := String.toList_ofList

/-- What follows the origin in the text of a move. -/
def actionChars (m : Move) : List Char :=
  match m.action with
  | .go s => s.chars
  | .swap s => '<' :: '>' :: s.chars

theorem chars_eq (m : Move) : m.chars = m.origin.chars ++ m.actionChars := by
  unfold chars actionChars
  cases m.action <;> rfl

theorem endsBefore_actionChars (m : Move) : EndsBefore m.actionChars := by
  unfold actionChars
  cases m.action with
  | go s => exact s.endsBefore_chars
  | swap s => exact endsBefore_cons rfl _

theorem action_of_actionChars (same : m.actionChars = n.actionChars) : m.action = n.action := by
  have apart (s t : Square) : s.chars ≠ '<' :: '>' :: t.chars := s.chars_ne_cons (by decide) _
  unfold actionChars at same
  cases hm : m.action with
  | go s =>
      cases hn : n.action with
      | go t =>
          simp only [hm, hn] at same
          rw [Square.chars_inj same]
      | swap t =>
          simp only [hm, hn] at same
          exact absurd same (apart s t)
  | swap s =>
      cases hn : n.action with
      | go t =>
          simp only [hm, hn] at same
          exact absurd same.symm (apart t s)
      | swap t =>
          simp only [hm, hn, List.cons.injEq, true_and] at same
          rw [Square.chars_inj same]

/-- A text shows where a move starts and what it does. -/
theorem chars_inj (same : m.chars = n.chars) : m.origin = n.origin ∧ m.action = n.action := by
  rw [chars_eq, chars_eq] at same
  obtain ⟨origin, rest⟩ := Square.chars_append_inj m.endsBefore_actionChars n.endsBefore_actionChars same
  exact ⟨origin, action_of_actionChars rest⟩

end Move

/-- On a sane board the piece of a move is the one that stands on its first square. -/
theorem Position.eq_of_text_eq {types : Roster} {p : Position} (sane : p.board.isSane = true)
    {m n : Move} (hm : m ∈ p.semiLegal types) (hn : n ∈ p.semiLegal types) (same : m.text = n.text) :
    m = n := by
  have chars : m.chars = n.chars := by rw [← m.toList_text, same, n.toList_text]
  obtain ⟨origin, action⟩ := Move.chars_inj chars
  have on := (fits_of_mem_semiLegal sane hm).present
  have on' := (fits_of_mem_semiLegal sane hn).present
  rw [origin, on', Option.some.injEq] at on
  obtain ⟨piece, _⟩ := m
  obtain ⟨piece', _⟩ := n
  exact congrArg₂ Move.mk on.symm action

/-- Only to be read must a square have one of the 26 letters and a row that, counted from 1, a signed number
of 32 bits can hold. Written texts tell any two squares apart, and any two moves of a position. -/
theorem texts_identify :
    (∀ s : Square, 0 ≤ s.row → s.row < 2147483647 → 0 ≤ s.col → s.col < 26 →
      Square.parse s.text = .ok s) ∧
    (∀ text s, Square.parse text = .ok s → Square.parse s.text = .ok s) ∧
    (∀ a b : Square, a.text = b.text → a = b) ∧
    ∀ (types : Roster) (p : Position), p.board.isSane = true →
      ∀ m ∈ p.semiLegal types, ∀ n ∈ p.semiLegal types, m ≠ n → m.text ≠ n.text := by
  refine ⟨?_, ?_, ?_, ?_⟩
  · intro s row short col narrow
    have letter : s.hasLetter = true := Square.hasLetter_iff.2 ⟨row, col, narrow⟩
    have fits : s.row.toNat + 1 < UInt32.size / 2 := by
      change _ < 2147483648
      omega
    rw [Square.parse_eq_ok, Square.toList_text]
    exact Square.read?_chars letter fits
  · intro text s read
    rw [Square.parse_eq_ok] at read ⊢
    rw [Square.toList_text]
    exact Square.read?_chars_of_read? read
  · intro a b same
    have chars : a.chars = b.chars := by rw [← a.toList_text, same, b.toList_text]
    exact Square.chars_inj chars
  · intro types p sane m hm n hn apart same
    exact apart (Position.eq_of_text_eq sane hm hn same)

/-! A rook beyond the last letter steps towards its king or changes places with it. -/

namespace Broad

def dims : Dimensions := ⟨4, 28, 2⟩

def types : Roster :=
  [⟨Plan.build dims .king, "King", "King", true⟩,
    ⟨Plan.build dims (.exchange 0 (.rider [⟨0, 1⟩])), "Rook", "Rook", false⟩]

def rook : Piece := .unmoved ⟨0, 27⟩ .white 1

def position : Position :=
  .start (((Board.empty dims).set ⟨0, 25⟩ (some (.unmoved ⟨0, 25⟩ .white 0))).set ⟨0, 27⟩ (some rook))
    .white

def approach : Move := .go rook ⟨0, 26⟩

def castling : Move := .swap rook ⟨0, 25⟩

theorem told_apart : position.board.isSane = true ∧ approach ∈ position.semiLegal types ∧
    castling ∈ position.semiLegal types ∧ approach.text = "(0, 27)(0, 26)" ∧
    castling.text = "(0, 27)<>z1" ∧ approach.text ≠ castling.text ∧
    Square.parse "e+04" = .ok ⟨3, 4⟩ ∧ Square.parse (Square.text ⟨3, 4⟩) = .ok ⟨3, 4⟩ := by
  have sane : position.board.isSane = true := by decide +kernel
  have first : approach ∈ position.semiLegal types := by decide +kernel
  have second : castling ∈ position.semiLegal types := by decide +kernel
  have read : Square.parse "e+04" = .ok ⟨3, 4⟩ := rfl
  obtain ⟨_, again, _, moves⟩ := texts_identify
  exact ⟨sane, first, second, rfl, rfl, moves types position sane _ first _ second (by decide), read,
    again _ _ read⟩

end Broad

end VariantChess
