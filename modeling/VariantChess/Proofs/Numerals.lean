import VariantChess.Decimal.Natural

/-!
Numbers in running text. A written number ends where the digits do, so it is told from whatever follows
it that does not begin with a digit; a minus sign is no digit and tells the negative numbers from the
others.
-/

namespace VariantChess.Decimal

/-- Digits carry no sign. -/
theorem readBelow?_of_digits (bound : Nat) {cs : List Char} (digits : cs.all Char.isDigit = true) :
    readBelow? bound cs = (readNat? cs).filter (· < bound) := by
  unfold readBelow?
  split
  · simp at digits
  · rfl

theorem readBelow?_ofNat {bound n : Nat} (h : n < bound) : readBelow? bound (ofNat n) = some n := by
  rw [readBelow?_of_digits bound (all_isDigit_ofNat n), readNat?_ofNat, Option.filter_some,
    if_pos (decide_eq_true h)]

theorem lt_of_readBelow? {bound n : Nat} {cs : List Char} (h : readBelow? bound cs = some n) :
    n < bound :=
  of_decide_eq_true (Option.filter_eq_some_iff.1 h).2

theorem ofNat_inj {m n : Nat} : ofNat m = ofNat n ↔ m = n := by
  refine ⟨fun same => ?_, fun same => same ▸ rfl⟩
  have read : readNat? (ofNat m) = readNat? (ofNat n) := congrArg readNat? same
  rwa [readNat?_ofNat, readNat?_ofNat, Option.some.injEq] at read

theorem exists_digit_cons (n : Nat) : ∃ d rest, ofNat n = d :: rest ∧ d.isDigit = true := by
  cases written : ofNat n with
  | nil => exact absurd written (ofNat_ne_nil n)
  | cons d rest =>
      have listed : d ∈ ofNat n := written ▸ List.mem_cons_self
      exact ⟨d, rest, rfl, isDigit_of_mem_ofNat listed⟩

theorem mem_ofInt {z : Int} {c : Char} (h : c ∈ ofInt z) : c = '-' ∨ c.isDigit = true := by
  cases z with
  | ofNat n => exact .inr (isDigit_of_mem_ofNat h)
  | negSucc n => exact (List.mem_cons.1 h).imp_right isDigit_of_mem_ofNat

/-- A number that is followed by this text ends before it. -/
def EndsBefore (cs : List Char) : Prop := ∀ c ∈ cs.head?, c.isDigit = false

theorem endsBefore_nil : EndsBefore [] := nofun

theorem endsBefore_cons {c : Char} (h : c.isDigit = false) (rest : List Char) :
    EndsBefore (c :: rest) := by
  intro d first
  rwa [← Option.some.inj first]

theorem takeWhile_ofNat_append (n : Nat) {cs : List Char} (h : EndsBefore cs) :
    (ofNat n ++ cs).takeWhile Char.isDigit = ofNat n := by
  rw [List.takeWhile_append_of_pos fun _ => isDigit_of_mem_ofNat]
  cases cs with
  | nil => simp
  | cons c rest => simp [h c rfl]

variable {xs ys : List Char}

theorem ofNat_append_inj {m n : Nat} (hx : EndsBefore xs) (hy : EndsBefore ys)
    (same : ofNat m ++ xs = ofNat n ++ ys) : m = n ∧ xs = ys := by
  have number : ofNat m = ofNat n := by
    rw [← takeWhile_ofNat_append m hx, same, takeWhile_ofNat_append n hy]
  refine ⟨ofNat_inj.1 number, ?_⟩
  rwa [number, List.append_cancel_left_eq] at same

theorem ofNat_append_ne_minus (n : Nat) : ofNat n ++ xs ≠ '-' :: ys := by
  obtain ⟨d, rest, written, digit⟩ := exists_digit_cons n
  rw [written]
  intro same
  rw [(List.cons.inj same).1] at digit
  cases digit

theorem ofInt_append_inj {y z : Int} (hx : EndsBefore xs) (hy : EndsBefore ys)
    (same : ofInt y ++ xs = ofInt z ++ ys) : y = z ∧ xs = ys := by
  cases y with
  | ofNat m =>
      cases z with
      | ofNat n =>
          obtain ⟨number, rest⟩ := ofNat_append_inj hx hy same
          exact ⟨congrArg Int.ofNat number, rest⟩
      | negSucc n => exact absurd same (ofNat_append_ne_minus m)
  | negSucc m =>
      cases z with
      | ofNat n => exact absurd same.symm (ofNat_append_ne_minus n)
      | negSucc n =>
          obtain ⟨number, rest⟩ := ofNat_append_inj hx hy (List.cons.inj same).2
          exact ⟨congrArg Int.negSucc (Nat.succ.inj number), rest⟩

end VariantChess.Decimal
