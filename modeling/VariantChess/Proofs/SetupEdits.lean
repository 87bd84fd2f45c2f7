import VariantChess.Proofs.Setups

/-!
Setups under any edits, and the boards made of them. The placements are a list that grows at its end, but
what it shows is a map: every square has the piece that was put there last, if nothing cleared the square
since, and an edit of one square is not seen on another. A board is made exactly if it has the squares and
the types of all the placements; otherwise the first that it does not have is reported.
-/

namespace VariantChess

/-- What may be done to a setup. -/
inductive Edit
  | place (p : Placement)
  | clear (s : Square)
  | turn (side : Side)
deriving DecidableEq, Repr

namespace Edit

def Touches (s : Square) : Edit → Prop
  | place p => p.square = s
  | clear t => t = s
  | turn _ => False

instance (s : Square) : DecidablePred (Touches s)
  | place p => inferInstanceAs (Decidable (p.square = s))
  | clear t => inferInstanceAs (Decidable (t = s))
  | turn _ => inferInstanceAs (Decidable False)

/-- The piece was put on the square, which no later edit touches. -/
def LastPut (edits : List Edit) (s : Square) (p : Placement) : Prop :=
  ∃ before after, edits = before ++ place p :: after ∧ p.square = s ∧ ∀ e ∈ after, ¬ e.Touches s

theorem lastPut_cons {e : Edit} {edits : List Edit} {s : Square} {p : Placement} :
    LastPut (e :: edits) s p ↔ LastPut edits s p ∨
      (∀ later ∈ edits, ¬ later.Touches s) ∧ e = place p ∧ p.square = s := by
  refine ⟨?_, ?_⟩
  · rintro ⟨before, after, whole, here, untouched⟩
    rcases List.cons_eq_append_iff.1 whole with ⟨rfl, first⟩ | ⟨rest, rfl, split⟩
    · obtain ⟨rfl, rfl⟩ := List.cons.inj first
      exact Or.inr ⟨untouched, rfl, here⟩
    · exact Or.inl ⟨rest, after, split, here, untouched⟩
  · rintro (⟨before, after, rfl, here, untouched⟩ | ⟨untouched, rfl, here⟩)
    · exact ⟨e :: before, after, rfl, here, untouched⟩
    · exact ⟨[], edits, rfl, here, untouched⟩

end Edit

namespace Setup

open Edit

def edit (u : Setup) : Edit → Setup
  | .place p => u.place p
  | .clear s => u.clear s
  | .turn side => u.withSide side

def edits (u : Setup) (edits : List Edit) : Setup := edits.foldl edit u

/-- Setting up a list of placements is a run of edits. -/
theorem ofPlacements_eq_edits (d : Dimensions) (placements : List Placement) (side : Side) :
    ofPlacements d placements side = (empty d).edits (.turn side :: placements.map .place) := by
  rw [edits, List.foldl_cons, List.foldl_map]
  rfl

variable {u : Setup} {e : Edit} {s : Square} {p : Placement}

/-! What a setup shows. -/

@[simp] theorem dims_edit (u : Setup) (e : Edit) : (u.edit e).dims = u.dims := by
  cases e <;> rfl

theorem dims_edits (u : Setup) (es : List Edit) : (u.edits es).dims = u.dims := by
  induction es generalizing u with
  | nil => rfl
  | cons e es ih => exact (ih (u.edit e)).trans (dims_edit u e)

theorem get?_edit_of_not_touches (untouched : ¬ e.Touches s) : (u.edit e).get? s = u.get? s := by
  cases e with
  | place p => exact (get?_place u p s).trans (if_neg (Ne.symm untouched))
  | clear t => exact (get?_clear u t s).trans (if_neg (Ne.symm untouched))
  | turn side => rfl

theorem get?_edit_of_touches (touched : e.Touches s) :
    (u.edit e).get? s = some p ↔ e = .place p ∧ p.square = s := by
  cases e with
  | place q =>
      obtain rfl : q.square = s := touched
      rw [edit, get?_place, if_pos rfl, Option.some_inj, Edit.place.injEq]
      exact ⟨fun same => ⟨same, same ▸ rfl⟩, And.left⟩
  | clear t =>
      obtain rfl : t = s := touched
      rw [edit, get?_clear, if_pos rfl]
      simp
  | turn side => exact touched.elim

theorem get?_edits {es : List Edit} : (u.edits es).get? s = some p ↔
    LastPut es s p ∨ (∀ e ∈ es, ¬ e.Touches s) ∧ u.get? s = some p := by
  induction es generalizing u with
  | nil => simp [edits, LastPut]
  | cons e es ih =>
      have run : u.edits (e :: es) = (u.edit e).edits es := rfl
      rw [run, ih, lastPut_cons, List.forall_mem_cons, or_assoc]
      by_cases touched : e.Touches s
      · rw [get?_edit_of_touches touched]
        simp [touched]
      · have apart : ¬ (e = .place p ∧ p.square = s) := by
          rintro ⟨rfl, here⟩
          exact touched here
        rw [get?_edit_of_not_touches touched]
        simp [touched, apart]

theorem distinct_clear (distinct : Distinct u.placements) (s : Square) :
    Distinct (u.clear s).placements :=
  distinct.sublist (List.filter_sublist.map _)

theorem distinct_edit (distinct : Distinct u.placements) (e : Edit) :
    Distinct (u.edit e).placements := by
  cases e with
  | place p =>
      have free : p.square ∉ (u.clear p.square).placements.map (·.square) := by
        simp [clear]
      rw [Distinct, edit, place, List.map_append]
      exact (distinct_clear distinct p.square).append (List.nodup_singleton _) (by simpa using free)
  | clear s => exact distinct_clear distinct s
  | turn side => exact distinct

theorem distinct_edits (distinct : Distinct u.placements) (es : List Edit) :
    Distinct (u.edits es).placements := by
  induction es generalizing u with
  | nil => exact distinct
  | cons e es ih => exact ih (distinct_edit distinct e)

end Setup

/-! What a placement may be refused for. -/

namespace Placement

/-- What is wrong with a placement. The square is looked at first. -/
inductive Fault (d : Dimensions) (p : Placement) : Error → Prop
  | offBoard (outside : d.contains p.square = false) : Fault d p (.offBoard p.square)
  | unknownKind (inside : d.contains p.square = true) (unknown : d.kinds ≤ p.kind) :
      Fault d p (.unknownKind p.kind)

variable {d : Dimensions} {p : Placement} {error : Error}

theorem Fault.not_suits (fault : p.Fault d error) : ¬ p.Suits d := by
  rintro ⟨inside, known⟩
  cases fault with
  | offBoard outside => simp [inside] at outside
  | unknownKind _ unknown => omega

theorem exists_fault (unfit : ¬ p.Suits d) : ∃ error, p.Fault d error := by
  cases inside : d.contains p.square with
  | false => exact ⟨_, .offBoard inside⟩
  | true => exact ⟨_, .unknownKind inside (Nat.not_lt.1 fun known => unfit ⟨inside, known⟩)⟩

end Placement

namespace Setup

/-! The board of a setup. -/

open Edit Placement

theorem put_eq_error {b : Board} {p : Placement} {error : Error} :
    put b p = .error error ↔ p.Fault b.dims error := by
  refine ⟨?_, ?_⟩
  · intro refused
    unfold put at refused
    split at refused
    · rename_i outside
      obtain rfl := Except.error.inj refused
      exact .offBoard (by simpa [Board.contains] using outside)
    · rename_i inside
      split at refused
      · rename_i unknown
        obtain rfl := Except.error.inj refused
        exact .unknownKind (by simpa [Board.contains] using inside) unknown
      · cases refused
  · rintro (outside | ⟨inside, unknown⟩)
    · simp [put, Board.contains, outside]
    · simp [put, Board.contains, inside, unknown]

theorem foldlM_put_eq_error {b : Board} {placements : List Placement} {error : Error} :
    placements.foldlM put b = .error error ↔
      FirstFault (Suits b.dims) (Fault b.dims) placements error := by
  induction placements generalizing b with
  | nil => exact ⟨nofun, fun faulty => (not_firstFault_nil faulty).elim⟩
  | cons p rest ih =>
      rw [List.foldlM_cons, firstFault_cons, ← put_eq_error]
      cases made : put b p with
      | error e =>
          have unfit : ¬ p.Suits b.dims := (put_eq_error.1 made).not_suits
          simp [unfit, bind, Except.bind]
      | ok c =>
          obtain ⟨suits, rfl⟩ := put_eq_ok.1 made
          have others := ih (b := b.set p.square (some p.piece))
          simpa [suits, bind, Except.bind] using others

variable {u : Setup} {error : Error}

theorem board_eq_error : u.board = .error error ↔
    FirstFault (Suits u.dims) (Fault u.dims) u.placements error :=
  foldlM_put_eq_error

/-- A board is made exactly if it has the squares and the types of all placements. -/
theorem exists_board_iff (distinct : Distinct u.placements) :
    (∃ b, u.board = .ok b) ↔ ∀ p ∈ u.placements, p.Suits u.dims := by
  refine ⟨?_, ?_⟩
  · rintro ⟨b, made⟩
    by_contra unfit
    obtain ⟨error, fault⟩ := exists_firstFault (fun _ => exists_fault) unfit
    rw [board_eq_error.2 fault] at made
    cases made
  · intro suits
    obtain ⟨b, made, _⟩ := board_eq_ok distinct suits
    exact ⟨b, made⟩

theorem spec_of_board {b : Board} (distinct : Distinct u.placements) (made : u.board = .ok b) :
    b.dims = u.dims ∧ ∀ s, b.pieceOn s = (u.get? s).map Placement.piece := by
  obtain ⟨c, same, spec⟩ := board_eq_ok distinct ((exists_board_iff distinct).1 ⟨b, made⟩)
  obtain rfl := Except.ok.inj (made.symm.trans same)
  exact spec

/-- The empty board is laid out before any placement is looked at. -/
theorem board?_eq (u : Setup) : u.board? = if u.dims.isHoldable then some u.board else none := by
  rw [board?, Board.empty?]
  split
  · rfl
  · rfl

/-- Whatever is done to an empty setup, it shows on every square what was put there last and not cleared
since. As long as the board can be held, the board made of it holds just that; if there is none, the first
placement to blame says why. -/
theorem edits_then_board (d : Dimensions) (edits : List Edit) :
    let u := (empty d).edits edits
    Distinct u.placements ∧
    (∀ s p, u.get? s = some p ↔ LastPut edits s p) ∧
    (∀ e s, ¬ e.Touches s → (u.edit e).get? s = u.get? s) ∧
    (u.board?.isSome = true ↔ d.isHoldable = true) ∧
    (∀ answer, u.board? = some answer →
      ((∃ b, answer = .ok b) ↔ ∀ p ∈ u.placements, p.Suits d) ∧
      (∀ b, answer = .ok b → b.dims = d ∧ ∀ s, b.pieceOn s = (u.get? s).map Placement.piece) ∧
      ∀ e, answer = .error e ↔ FirstFault (Suits d) (Fault d) u.placements e) ∧
    ∀ placements side,
      ofPlacements d placements side = (empty d).edits (.turn side :: placements.map .place) := by
  intro u
  have dims : u.dims = d := dims_edits (empty d) edits
  have distinct : Distinct u.placements := distinct_edits (u := empty d) List.nodup_nil edits
  refine ⟨distinct, ?_, fun e s => get?_edit_of_not_touches, ?_, ?_, ofPlacements_eq_edits d⟩
  · intro s p
    rw [get?_edits]
    simp [get?, empty]
  · rw [board?_eq, dims, Option.isSome_ite]
  · intro answer made
    rw [board?_eq, dims, Option.ite_none_right_eq_some] at made
    obtain ⟨_, same⟩ := made
    obtain rfl := Option.some.inj same
    refine ⟨?_, ?_, ?_⟩
    · rw [exists_board_iff distinct, dims]
    · intro b made
      exact dims ▸ spec_of_board distinct made
    · intro e
      rw [board_eq_error, dims]

/-- The second piece replaces the first, which would not have suited, and the third is cleared. -/
theorem replaced_and_cleared :
    let u := (empty .standard).edits [.place ⟨⟨1, 0⟩, 9, .white⟩, .place ⟨⟨0, 3⟩, 8, .black⟩,
      .place ⟨⟨1, 0⟩, 2, .black⟩, .clear ⟨0, 3⟩, .turn .black]
    Dimensions.standard.isHoldable = true ∧ ∃ b, u.board? = some (.ok b) ∧
      b.pieceOn ⟨1, 0⟩ = some (.unmoved ⟨1, 0⟩ .black 2) ∧ b.pieceOn ⟨0, 3⟩ = none := by
  have room : Dimensions.standard.isHoldable = true := by decide
  obtain ⟨-, -, -, held, spec, -⟩ := edits_then_board .standard [.place ⟨⟨1, 0⟩, 9, .white⟩,
    .place ⟨⟨0, 3⟩, 8, .black⟩, .place ⟨⟨1, 0⟩, 2, .black⟩, .clear ⟨0, 3⟩, .turn .black]
  obtain ⟨answer, made⟩ := Option.isSome_iff_exists.1 (held.2 room)
  obtain ⟨accepted, shows, -⟩ := spec answer made
  obtain ⟨b, rfl⟩ := accepted.2 (by decide)
  obtain ⟨-, on⟩ := shows b rfl
  exact ⟨room, b, made, (on _).trans (by decide), (on _).trans (by decide)⟩

/-- A piece that suits, on a board that nothing can hold. -/
theorem edits_then_no_board :
    let u := (empty ⟨1152921504606846976, 8, 6⟩).edits [.place ⟨⟨0, 0⟩, 0, .white⟩]
    (∀ p ∈ u.placements, p.Suits u.dims) ∧ u.board? = none := by
  intro u
  refine ⟨by decide, ?_⟩
  rw [board?_eq]
  decide

/-- The bounds are checked before the type, and only the first bad placement is reported. -/
example : ((empty .standard).edits [.place ⟨⟨1, 0⟩, 2, .black⟩, .place ⟨⟨8, 3⟩, 8, .black⟩,
    .place ⟨⟨0, 3⟩, 7, .white⟩]).board = .error (.offBoard ⟨8, 3⟩) := by
  rfl

end Setup

end VariantChess
