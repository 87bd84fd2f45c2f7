import VariantChess.Proofs.Conservation
import VariantChess.Proofs.DrawnTypes
import VariantChess.Proofs.Openings
import VariantChess.Random.Stream

/-!
Games that can be stored. A board with addressable squares has pieces whose squares fit, and a move puts
pieces on its squares only; so from a starting position that can be stored every run of requests leads
to a game that can be stored and is restored as it was. Games that are drawn start from such a position,
with piece types that can be stored.
-/

namespace VariantChess

open Stored

theorem Dimensions.storable_of_contains {d : Dimensions} (addressable : d.Addressable) {s : Square}
    (inside : d.contains s = true) : s.Storable := by
  obtain ⟨rows, cols⟩ := addressable
  obtain ⟨low, left, high, right⟩ := contains_iff.1 inside
  have mild : s.Mild := ⟨by omega, by omega⟩
  exact mild.storable

namespace Board

variable {b : Board} (valid : b.Valid) (addressable : b.dims.Addressable)
  (kinds_fit : FitsNat b.dims.kinds)
include valid addressable kinds_fit

theorem Valid.storable_piece {q : Piece} (listed : q ∈ b.pieces) : q.Storable := by
  have inside := contains_of_pieceOn ((mem_pieces_iff_pieceOn valid.sane).1 listed)
  exact ⟨Dimensions.storable_of_contains addressable inside,
    Nat.lt_trans (valid.known q listed) kinds_fit⟩

theorem Valid.storable : b.Storable := by
  have dims : b.dims.Storable :=
    ⟨lt_size64_of_two_mul_lt addressable.1, lt_size64_of_two_mul_lt addressable.2, kinds_fit⟩
  exact ⟨dims, fun q => valid.storable_piece addressable kinds_fit⟩

end Board

namespace Position

/-- A position on the board of a game, with nothing taken that could not be stored. -/
structure Sound (d : Dimensions) (p : Position) : Prop where
  dims : p.board.dims = d
  valid : p.board.Valid
  captured : ∀ q ∈ p.captured, q.Storable

variable {d : Dimensions} (addressable : d.Addressable) (kinds_fit : FitsNat d.kinds) {p : Position}
include addressable kinds_fit

theorem Sound.storable (sound : Sound d p) : p.Storable := by
  obtain rfl := sound.dims
  exact ⟨sound.valid.storable addressable kinds_fit, sound.captured⟩

/-- What a move takes stood on the board. -/
theorem Sound.after (sound : Sound d p) {m : Move} (fits : p.Fits m) : Sound d (p.after m) := by
  obtain rfl := sound.dims
  refine ⟨dims_boardAfter p m, valid_after sound.valid fits, ?_⟩
  refine List.forall_mem_append.2 ⟨sound.captured, ?_⟩
  intro q taken
  have stood := (taken_spec fits taken).2.1
  exact sound.valid.storable_piece addressable kinds_fit (Board.mem_pieces.2 ⟨_, stood⟩)

theorem Sound.storable_move (sound : Sound d p) {m : Move} (fits : p.Fits m) : m.Storable := by
  obtain rfl := sound.dims
  have listed : m.piece ∈ p.board.pieces := Board.mem_pieces.2 ⟨_, fits.present⟩
  exact ⟨sound.valid.storable_piece addressable kinds_fit listed,
    Dimensions.storable_of_contains addressable fits.inside⟩

omit addressable kinds_fit in
theorem Sound.settled (sound : Sound d p) (types : Roster) : Sound d (p.settled types) :=
  ⟨sound.dims, sound.valid, sound.captured⟩

end Position

namespace Game

/-- Everything in the game can be stored, and its positions are on its board. -/
structure Sound (g : Game) : Prop where
  addressable : g.dims.Addressable
  kinds_fit : FitsNat g.dims.kinds
  types : ∀ t ∈ g.types, t.Storable
  positions : ∀ p ∈ g.positions, p.Sound g.dims
  current : g.current.Sound g.dims
  moves : ∀ m ∈ g.moves, m.Storable

theorem Sound.storable {g : Game} (sound : g.Sound) : g.Storable := by
  have positions : ∀ p ∈ g.positions, p.Storable := fun p listed =>
    (sound.positions p listed).storable sound.addressable sound.kinds_fit
  have dims : g.dims.Storable := by
    rw [← sound.current.dims]
    exact (sound.current.storable sound.addressable sound.kinds_fit).board.dims
  exact ⟨sound.types, dims, positions, sound.moves⟩

theorem Sound.lasts {g : Game} (sound : g.Sound) : Lasts g :=
  sound.storable.lasts fun p listed => (sound.positions p listed).valid

theorem sound_start {players : Players} {types : Roster} {initial : Position}
    (valid : initial.board.Valid) (addressable : initial.board.dims.Addressable)
    (kinds_fit : FitsNat initial.board.dims.kinds) (types_storable : ∀ t ∈ types, t.Storable)
    (captured : ∀ q ∈ initial.captured, q.Storable) : (start players types initial).Sound := by
  have first : (initial.settled types).Sound initial.board.dims := ⟨rfl, valid, captured⟩
  exact ⟨addressable, kinds_fit, types_storable, List.forall_mem_singleton.2 first, first,
    List.forall_mem_nil _⟩

theorem Sound.record {g : Game} (sound : g.Sound) {m : Move} (legal : g.isLegalNow m = true) :
    (g.record m).Sound := by
  have fits := Position.fits_of_isLegal sound.current.valid.sane legal
  have next : ((g.current.after m).settled g.types).Sound g.dims :=
    (sound.current.after sound.addressable sound.kinds_fit fits).settled g.types
  have move : m.Storable := sound.current.storable_move sound.addressable sound.kinds_fit fits
  exact ⟨sound.addressable, sound.kinds_fit, sound.types,
    List.forall_mem_append.2 ⟨sound.positions, List.forall_mem_singleton.2 next⟩,
    current_record g m ▸ next,
    List.forall_mem_append.2 ⟨sound.moves, List.forall_mem_singleton.2 move⟩⟩

theorem Sound.run {g : Game} (sound : g.Sound) (requests : List Request) : (g.run requests).Sound :=
  run_induction requests sound fun _ _ kept legal => kept.record legal

end Game

/-! Drawn games. -/

namespace Game

section Drawn

open Draw

variable {σ : Type} [RandomSource σ] {d : Dimensions}

theorem always_generateFrom (rows : 4 ≤ d.rows) (cols : d.cols = 8) (kinds : d.kinds = 6)
    (addressable : d.Addressable) (player1 player2 : String) :
    Always Sound (generateFrom (Opening.boardOf d) player1 player2 : StateM σ Game) := by
  obtain ⟨valid, size⟩ := Opening.valid_boardOf rows cols kinds.ge
  have some_type : 1 ≤ d.kinds := by omega
  have kinds_fit : FitsNat d.kinds := fitsNat_of_le (by omega)
  have listed : Capacity.holds d.kinds 8 = true := Capacity.holds_of_le kinds.le (by decide)
  rw [← size] at some_type addressable kinds_fit listed
  refine always_bind (always_true _) ?_
  intro ⟨white, black⟩ _
  refine always_bind (always_pieceTypes some_type addressable listed) ?_
  intro types storable
  exact always_pure (sound_start valid addressable kinds_fit storable (List.forall_mem_nil _))

theorem spec_of_checkDimensions (h : checkDimensions d = .ok ()) : d.kinds = 6 ∧ d.cols = 8 := by
  unfold checkDimensions at h
  split at h
  · cases h
  · rename_i kinds
    exact ⟨not_not.1 kinds, (Opening.check_eq_ok.1 h).1⟩

theorem always_generateOn (rows : 4 ≤ d.rows) (addressable : d.Addressable)
    (player1 player2 : String) : Always (fun answer => ∀ g, answer = .ok g → g.Sound)
      (generateOn d player1 player2 : StateM σ (Except Error Game)) := by
  unfold generateOn
  split
  · exact always_pure nofun
  · rename_i checked
    obtain ⟨kinds, cols⟩ := spec_of_checkDimensions checked
    refine always_bind (always_generateFrom rows cols kinds addressable player1 player2) ?_
    intro g sound
    refine always_pure ?_
    intro other same
    rwa [← Except.ok.inj same]

end Drawn

/-- A game is restored from its stored form if its numbers fit and its boards are valid. A game that
starts so, or that was drawn, stays so whatever is asked of it. -/
theorem stored_game_restored :
    (∀ g : Game, g.Storable → (∀ p ∈ g.positions, p.board.Valid) → restore? (store g) = some g) ∧
    (∀ players types initial g, make players types initial = .ok g → initial.board.Valid →
      initial.board.dims.Addressable → initial.Storable → (∀ t ∈ types, t.Storable) →
      ∀ requests, Lasts (g.run requests)) ∧
    ∀ (σ : Type) [RandomSource σ] (player1 player2 : String) (source : σ),
      (∀ requests, Lasts (((generate player1 player2 : StateM σ Game).run source).1.run requests)) ∧
      ∀ d g, Dimensions.make d.rows d.cols d.kinds = .ok d → d.Addressable →
        ((generateOn d player1 player2 : StateM σ (Except Error Game)).run source).1 = .ok g →
        ∀ requests, Lasts (g.run requests) := by
  refine ⟨fun g storable valid => storable.lasts valid, ?_, ?_⟩
  · intro players types initial g made valid addressable storable types_storable
    obtain rfl := eq_start_of_make made
    have kinds_fit : FitsNat initial.board.dims.kinds := storable.board.dims.kinds
    have first : (start players types initial).Sound :=
      sound_start valid addressable kinds_fit types_storable storable.captured
    exact fun requests => (first.run requests).lasts
  · intro σ _ player1 player2 source
    refine ⟨?_, ?_⟩
    · have first := always_generateFrom (σ := σ) (d := .standard) (by decide) rfl rfl (by decide)
        player1 player2 source
      exact fun requests => (Sound.run first requests).lasts
    · intro d g made addressable drawn
      have rows : 4 ≤ d.rows := (Dimensions.make_eq_ok.1 made).1
      have first := always_generateOn rows addressable player1 player2 source
      exact fun requests => (Sound.run (first g drawn) requests).lasts

end Game

/-! White's king and rook have changed places; and a game drawn for a longer board. -/

namespace Endgame

def castled : Game := game.run [.submit "black" 0 mate, .play exchange, .submit "white" 1 mate]

def longBoard : Dimensions := ⟨12, 8, 6⟩

theorem storable_types : ∀ t ∈ types, t.Storable := by
  have addressable : dims.Addressable := by decide
  have rook_steps : Draw.FewCanonical [⟨1, 0⟩, ⟨0, 1⟩, ⟨-1, 0⟩] := ⟨by decide, by decide⟩
  have rook_sound : Draw.Sound (.exchange 0 (.rider [⟨1, 0⟩, ⟨0, 1⟩, ⟨-1, 0⟩])) := by
    refine ⟨?_, List.forall_mem_singleton.2 ⟨rook_steps.stepsFit, rook_steps.mild⟩⟩
    intro partner m same
    cases same
    exact Draw.fitsNat_of_le (by decide)
  exact List.forall_mem_cons.2 ⟨Plan.storable_build Draw.sound_king addressable,
    List.forall_mem_singleton.2 (Plan.storable_build rook_sound addressable)⟩

open Game in
theorem castled_restored : castled.moves = [exchange] ∧ castled.Storable ∧
    (∀ p ∈ castled.positions, p.board.Valid) ∧ restore? (store castled) = some castled ∧
    make ⟨"white", "black"⟩ types initial = .ok game ∧ initial.board.Valid ∧ initial.Storable ∧
    (∀ requests, Lasts (game.run requests)) ∧
    ∃ g, ((generateOn longBoard "white" "black" : StateM Stream (Except Error Game)).run
      (.ofSeed 0)).1 = .ok g ∧ ∀ requests, Lasts (g.run requests) := by
  have moves : castled.moves = [exchange] := by decide +kernel
  have made : make ⟨"white", "black"⟩ types initial = .ok game := rfl
  have valid : initial.board.Valid :=
    ⟨by decide, by decide, by decide, by decide +kernel, by decide +kernel⟩
  have addressable : initial.board.dims.Addressable := by decide
  have kinds_fit : FitsNat initial.board.dims.kinds := Draw.fitsNat_of_le (by decide)
  have storable : initial.Storable :=
    ⟨valid.storable addressable kinds_fit, List.forall_mem_nil _⟩
  have sound : castled.Sound :=
    (sound_start valid addressable kinds_fit storable_types (List.forall_mem_nil _)).run _
  have boards : ∀ p ∈ castled.positions, p.board.Valid := fun p listed =>
    (sound.positions p listed).valid
  have drawn := ok_of_draw (Stream.ofSeed 0)
    (generateFrom (Opening.boardOf longBoard) "white" "black")
  obtain ⟨restored, runs, draws⟩ := stored_game_restored
  exact ⟨moves, sound.storable, boards, restored castled sound.storable boards, made, valid, storable,
    runs _ _ _ _ made valid addressable storable storable_types, _, drawn,
    (draws Stream "white" "black" (.ofSeed 0)).2 longBoard _ rfl (by decide) drawn⟩

end Endgame

end VariantChess
