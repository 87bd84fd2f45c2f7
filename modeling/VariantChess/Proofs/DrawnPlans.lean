import VariantChess.Proofs.DrawnMotions
import VariantChess.Proofs.Expansions

/-!
Rules and piece types that may be drawn. Within a tier a rule and its movers are of kinds that the tier's
table has: excluding one kind always leaves another. So the movers of a compound rule are of different
kinds, and an exchange is with another type as soon as there is one. How routes are worked out does not
matter here, as long as those of the motions that are drawn can be.
-/

namespace VariantChess

theorem Odds.contains_iff {α : Type} [DecidableEq α] {o : Odds α} {x : α} :
    o.contains x = true ↔ x ∈ o.options.map (·.1) := by
  simp [contains]

/-- A mover that a tier may draw for one of its rules. -/
structure Motion.DrawnFor (tier : Tier) (m : Motion) : Prop where
  listed : tier.kinds.contains (.simple m.kind) = true
  drawn : m.Drawn tier

/-- A rule that a tier may draw for piece type `own` of `kinds`. -/
structure Plan.Drawn (tier : Tier) (kinds own : Nat) (plan : Plan) : Prop where
  listed : tier.kinds.contains plan.kind = true
  parts : ∀ m ∈ plan.parts, m.DrawnFor tier
  apart : (plan.parts.map Motion.kind).Nodup
  partner : ∀ partner m, plan = .exchange partner m → partner ≠ own ∧ partner < kinds

namespace Plan.Drawn

variable {tier : Tier} {kinds own : Nat} {plan : Plan} (listed : tier.kinds.contains plan.kind = true)
include listed

theorem of_one {m : Motion} (part : plan.parts = [m]) (drawn : m.DrawnFor tier)
    (partner : ∀ partner m, plan = .exchange partner m → partner ≠ own ∧ partner < kinds) :
    plan.Drawn tier kinds own := by
  refine ⟨listed, ?_, ?_, partner⟩
  · rw [part]
    exact List.forall_mem_singleton.2 drawn
  · rw [part]
    exact List.nodup_singleton _

theorem of_two {a b : Motion} (parts : plan.parts = [a, b]) (apart : a.kind ≠ b.kind)
    (first : a.DrawnFor tier) (second : b.DrawnFor tier) : plan.Drawn tier kinds own := by
  refine ⟨listed, ?_, ?_, ?_⟩
  · rw [parts]
    exact List.forall_mem_cons.2 ⟨first, List.forall_mem_singleton.2 second⟩
  · rw [parts]
    exact List.nodup_cons.2 ⟨mt List.mem_singleton.1 apart, List.nodup_singleton _⟩
  · rintro partner m rfl
    cases parts

end Plan.Drawn

/-- Pawns and kings are what they always are; the other tiers draw. -/
def Tier.Draws (tier : Tier) (kinds own : Nat) (plan : Plan) : Prop :=
  match tier with
  | lowly => plan = .pawn
  | king => plan = .king
  | minor | major | queen => plan.Drawn tier kinds own

/-- A type that a tier may draw, with routes for one board. -/
structure PieceType.Drawn (d : Dimensions) (own : Nat) (name : String) (tier : Tier) (t : PieceType) :
    Prop where
  named : t.name = name
  icon : t.icon = name
  royal : t.royal = true → tier = .queen ∨ tier = .king
  king : tier = .king → t.royal = true
  plan : tier.Draws d.kinds own t.rule.plan
  built : t.rule = t.rule.plan.build d

/-- Every type is one that its tier may draw; the first of them has number `own`. -/
structure Roster.Drawn (d : Dimensions) (own : Nat) (table : List (String × Tier)) (types : Roster) :
    Prop where
  length : types.length = table.length
  each : ∀ i name tier (t : PieceType), table[i]? = some (name, tier) → types[i]? = some t →
    t.Drawn d (own + i) name tier

theorem choice_ahead {s : Step} (ahead : s ∈ Step.forward) : Step.Choice [s] :=
  ⟨List.nodup_singleton s, List.forall_mem_singleton.2 (Step.mem_canonical_of_mem_forward ahead),
    s, List.mem_singleton_self s, ahead⟩

/-- Also the motions that are not drawn have the parameters of drawn ones. -/
theorem Tier.Draws.drawn {tier : Tier} {kinds own : Nat} {plan : Plan} (h : tier.Draws kinds own plan) :
    ∀ m ∈ plan.parts, m.Drawn tier := by
  have once {steps : List Step} (choice : Step.Choice steps) : (Motion.walker steps 1 1).Drawn tier :=
    ⟨choice, Nat.le_refl 1, Nat.le_refl 1, by decide⟩
  cases tier with
  | lowly =>
      obtain rfl := h
      exact List.forall_mem_cons.2 ⟨once (choice_ahead (by decide)),
        List.forall_mem_singleton.2 (once (choice_ahead (by decide)))⟩
  | king =>
      obtain rfl := h
      exact List.forall_mem_singleton.2 (once Guarded.choice_canonical)
  | _ => exact fun m part => (Plan.Drawn.parts h m part).drawn

namespace Guarded

variable {σ : Type} [RandomSource σ]

/-! Kinds of rules. -/

theorem always_ruleKind {tier : Tier} {excluded : RuleKind → Bool}
    (left : ∃ k ∈ tier.kinds.options.map (·.1), excluded k = false) :
    Draw.Always (fun k => tier.kinds.contains k = true ∧ excluded k = false)
      (Draw.ruleKind tier excluded : StateM σ RuleKind) := by
  refine Draw.always_bind (Draw.always_pickExcept left) ?_
  rintro _ ⟨k, rfl, listed, kept⟩
  exact Draw.always_pure ⟨Odds.contains_iff.2 listed, kept⟩

section Tiers

variable {d : Dimensions} {tier : Tier} (above : tier ≠ .lowly) (under : tier ≠ .king)
include above under

theorem walker_rider_listed : tier.kinds.contains (.simple .walker) = true ∧
    tier.kinds.contains (.simple .rider) = true := by
  cases tier <;> first | contradiction | decide

/-- One excluded kind leaves something to nest: a walker or a rider. -/
theorem nestable_left {excluded : List RuleKind} (few : excluded.length ≤ 1) :
    ∃ k ∈ tier.kinds.options.map (·.1), (excluded.contains k || k.isCompound) = false := by
  obtain ⟨walker, rider⟩ := walker_rider_listed above under
  by_cases taken : RuleKind.simple .walker ∈ excluded
  · obtain ⟨k, rfl⟩ := List.length_eq_one_iff.1 (Nat.le_antisymm few (List.length_pos_of_mem taken))
    obtain rfl := List.mem_singleton.1 taken
    exact ⟨_, Odds.contains_iff.1 rider, by decide⟩
  · refine ⟨_, Odds.contains_iff.1 walker, ?_⟩
    simp [taken, RuleKind.isCompound]

theorem yields_nestedMotion {excluded : List RuleKind} (few : excluded.length ≤ 1) :
    Yields (fun m => .simple m.kind ∉ excluded ∧ m.DrawnFor tier)
      (nestedMotion tier excluded : OptionT (StateM σ) Motion) (Draw.nestedMotion tier excluded) := by
  refine yields_bind (yields_sure (always_ruleKind (nestable_left above under few))) ?_
  intro k ⟨listed, kept⟩
  rw [Bool.or_eq_false_iff] at kept
  obtain ⟨other, plain⟩ := kept
  cases k with
  | compound kind => cases plain
  | simple kind =>
      refine (yields_motion kind tier).imp ?_
      rintro m ⟨rfl, drawn⟩
      rw [parameterTier_of_listed listed under] at drawn
      refine ⟨?_, listed, drawn⟩
      simpa using other

section Built

variable {build : Motion → Option Mover} (built : ∀ m : Motion, m.Drawn tier → build m = some (.make d m))
include built

theorem yields_nestedMover {excluded : List RuleKind} (few : excluded.length ≤ 1) :
    YieldsAs (fun m => (m, Mover.make d m)) (fun m => .simple m.kind ∉ excluded ∧ m.DrawnFor tier)
      (nestedMover build tier excluded : OptionT (StateM σ) (Motion × Mover))
      (Draw.nestedMotion tier excluded) := by
  rw [← bind_pure (Draw.nestedMotion tier excluded)]
  refine yields_bind (yields_nestedMotion above under few) ?_
  intro m drawn
  refine yields_read (built m drawn.2.drawn) ?_
  exact yields_pure drawn

theorem yields_moverPair :
    YieldsAs (fun pair => (Mover.make d pair.1, Mover.make d pair.2))
      (fun pair => pair.1.kind ≠ pair.2.kind ∧ pair.1.DrawnFor tier ∧ pair.2.DrawnFor tier)
      (moverPair build tier : OptionT (StateM σ) (Mover × Mover)) (Draw.motionPair tier) := by
  refine yields_bind (yields_nestedMover above under built (by decide)) ?_
  intro first ⟨_, first_drawn⟩
  refine yields_bind (yields_nestedMover above under built (Nat.le_refl 1)) ?_
  intro second ⟨other, second_drawn⟩
  refine yields_pure (x := (first, second)) ⟨?_, first_drawn, second_drawn⟩
  intro same
  refine other ?_
  rw [same]
  exact List.mem_singleton_self _

end Built

end Tiers

/-! The partners of an exchange. -/

theorem length_others (kinds own : Nat) : ((List.range kinds).filter (· != own)).length =
    if own < kinds then kinds - 1 else kinds := by
  rw [← List.nodup_range.erase_eq_filter own, List.length_erase, List.length_range]
  simp

/-- From its own number on, the other types have the number after their place. -/
theorem getElem?_others {kinds own i : Nat} (inside : i < if own < kinds then kinds - 1 else kinds) :
    ((List.range kinds).filter (· != own))[i]? = some (if own ≤ i then i + 1 else i) := by
  rw [← List.nodup_range.erase_eq_filter own, List.erase_range]
  by_cases past : own ≤ i
  · have own_inside : own < kinds := by
      split at inside <;> omega
    rw [if_pos own_inside] at inside
    rw [if_pos past, List.getElem?_append_right (by simp; omega), List.length_range,
      Nat.min_eq_right (Nat.le_of_lt own_inside), List.getElem?_range' (by omega)]
    congr 1
    omega
  · have before : i < min kinds own := by
      split at inside <;> omega
    rw [if_neg past, List.getElem?_append_left (by simpa using before), List.getElem?_range before]

theorem yields_otherKind {kinds own : Nat} (others : 1 ≤ kinds) (numbered : 1 ≤ own)
    (fits : Capacity.holds kinds 8 = true) :
    Yields (fun partner => partner ≠ own ∧ partner < kinds)
      (otherKind kinds own : OptionT (StateM σ) Nat) (Draw.otherKind kinds own) := by
  have length := length_others kinds own
  have some_other : (if own < kinds then kinds - 1 else kinds) ≠ 0 := by
    split <;> omega
  have not_alone : ¬ ((List.range kinds).filter (· != own)).isEmpty = true := by
    rw [List.isEmpty_iff_length_eq_zero, length]
    exact some_other
  have fewer : (if own < kinds then kinds - 1 else kinds) ≤ kinds := by
    split <;> omega
  have few : (if own < kinds then kinds - 1 else kinds) ≤ UInt64.size :=
    fewer.trans (Nat.le_of_lt (Capacity.lt_of_holds (by decide) fits))
  unfold otherKind Draw.otherKind
  dsimp only
  rw [if_neg not_alone, if_neg some_other, length, if_pos (Capacity.holds_of_le fewer fits)]
  refine yields_bind (yields_below (Nat.pos_of_ne_zero some_other) few) ?_
  intro i inside
  have found := getElem?_others inside
  have another := List.mem_filter.1 (List.mem_of_getElem? found)
  rw [found]
  exact yields_pure ⟨bne_iff_ne.1 another.2, List.mem_range.1 another.1⟩

/-! Rules. -/

section Rules

variable {d : Dimensions} {tier : Tier} {build : Motion → Option Mover} {kinds own : Nat}
  (built : ∀ m : Motion, m.Drawn tier → build m = some (.make d m)) (others : 1 ≤ kinds)
  (numbered : 1 ≤ own) (fits : Capacity.holds kinds 8 = true)
include built others numbered fits

theorem yields_compound {kind : CompoundKind} (above : tier ≠ .lowly) (under : tier ≠ .king)
    (listed : tier.kinds.contains (.compound kind) = true) :
    YieldsAs (Plan.build d) (Plan.Drawn tier kinds own)
      (compound build kind tier kinds own : OptionT (StateM σ) Rule)
      (Draw.compound kind tier kinds own) := by
  have none_excluded : ([] : List RuleKind).length ≤ 1 := Nat.zero_le 1
  have nested := yields_nestedMover (σ := σ) above under built none_excluded
  have pair := yields_moverPair (σ := σ) above under built
  cases kind with
  | exchange =>
      refine yields_bind (yields_otherKind others numbered fits) ?_
      intro partner another
      refine yields_bind nested ?_
      intro m ⟨_, drawn⟩
      refine yields_pure (x := Pattern.exchange partner m) (.of_one listed rfl drawn ?_)
      rintro _ _ ⟨⟩
      exact another
  | retreat =>
      refine yields_bind (yields_sure (Draw.always_true _)) ?_
      intro refuge _
      refine yields_bind nested ?_
      intro m ⟨_, drawn⟩
      exact yields_pure (x := Pattern.retreat _ m) (.of_one listed rfl drawn nofun)
  | moveCapture =>
      refine yields_bind pair ?_
      intro ⟨movement, capture⟩ ⟨apart, first, second⟩
      exact yields_pure (x := Pattern.moveCapture movement capture) (.of_two listed rfl apart first second)
  | combination =>
      refine yields_bind pair ?_
      intro ⟨a, b⟩ ⟨apart, first, second⟩
      exact yields_pure (x := Pattern.combination a b) (.of_two listed rfl apart first second)

theorem yields_drawnRule (above : tier ≠ .lowly) (under : tier ≠ .king) :
    YieldsAs (Plan.build d) (Plan.Drawn tier kinds own)
      (do
        match ← sure (Draw.ruleKind tier fun _ => false) with
        | .simple kind => return .simple (← known (build (← motion kind tier)))
        | .compound kind => compound build kind tier kinds own : OptionT (StateM σ) Rule)
      (do
        match ← Draw.ruleKind tier fun _ => false with
        | .simple kind => return .simple (← Draw.motion kind tier)
        | .compound kind => Draw.compound kind tier kinds own) := by
  have walker := Odds.contains_iff.1 (walker_rider_listed above under).1
  refine yields_bind (yields_sure (always_ruleKind ⟨_, walker, rfl⟩)) ?_
  intro k ⟨listed, _⟩
  cases k with
  | compound kind => exact yields_compound built others numbered fits above under listed
  | simple kind =>
      refine yields_bind (yields_motion kind tier) ?_
      rintro m ⟨rfl, drawn⟩
      rw [parameterTier_of_listed listed under] at drawn
      refine yields_read (built m drawn) ?_
      exact yields_pure (x := Pattern.simple m) (.of_one listed rfl ⟨listed, drawn⟩ nofun)

end Rules

section Types

variable {d : Dimensions} {build : Motion → Option Mover} (others : 1 ≤ d.kinds)
  (fits : Capacity.holds d.kinds 8 = true)

theorem always_royal (tier : Tier) : Draw.Always
    (fun royal => (royal = true → tier = .queen ∨ tier = .king) ∧ (tier = .king → royal = true))
    (Draw.royal tier : StateM σ Bool) := by
  cases tier with
  | queen => exact (Draw.always_true _).imp fun _ _ => ⟨fun _ => .inl rfl, nofun⟩
  | king => exact Draw.always_pure ⟨fun _ => .inr rfl, fun _ => rfl⟩
  | _ => exact Draw.always_pure ⟨nofun, nofun⟩

omit [RandomSource σ] in
/-- A rule that is not drawn is only built. -/
theorem yields_build {tier : Tier} {own : Nat} {plan : Plan}
    (built : ∀ m : Motion, m.Drawn tier → build m = some (.make d m)) (draws : tier.Draws d.kinds own plan) :
    YieldsAs (Plan.build d) (tier.Draws d.kinds own) (known (plan.mapM? build) : OptionT (StateM σ) Rule)
      (pure plan) := by
  have made : plan.mapM? build = some (plan.build d) :=
    Pattern.mapM?_eq_some_map fun m part => built m (draws.drawn m part)
  rw [made]
  exact yields_pure draws

variable (built : ∀ (tier : Tier) (m : Motion), m.Drawn tier → build m = some (.make d m))
include others fits built

theorem yields_rule {tier : Tier} {own : Nat} (numbered : tier = .lowly ∨ 1 ≤ own) :
    YieldsAs (Plan.build d) (tier.Draws d.kinds own)
      (rule build tier d.kinds own : OptionT (StateM σ) Rule) (Draw.plan tier d.kinds own) := by
  cases tier with
  | lowly => exact yields_build (built .lowly) rfl
  | king => exact yields_build (built .king) rfl
  | _ => exact yields_drawnRule (built _) others (numbered.resolve_left nofun) fits nofun nofun

theorem yields_pieceType {tier : Tier} {own : Nat} (numbered : tier = .lowly ∨ 1 ≤ own)
    (name : String) : Yields (PieceType.Drawn d own name tier)
      (pieceType build d.kinds own name tier : OptionT (StateM σ) PieceType)
      (Draw.pieceType d own name tier) := by
  refine yields_bind (yields_rule others fits built numbered) ?_
  intro plan draws
  refine yields_bind (yields_sure (always_royal tier)) ?_
  intro royal ⟨some_royal, king⟩
  refine yields_pure (x := (⟨plan.build d, name, name, royal⟩ : PieceType))
    ⟨rfl, rfl, some_royal, king, ?_, by rw [Rule.plan_build]⟩
  rw [Rule.plan_build]
  exact draws

theorem yields_pieceTypesFrom {own : Nat} {table : List (String × Tier)}
    (numbered : (∀ entry ∈ table.head?, entry.2 = .lowly) ∨ 1 ≤ own) :
    Yields (Roster.Drawn d own table)
      (pieceTypesFrom build d.kinds own table : OptionT (StateM σ) Roster)
      (Draw.pieceTypesFrom d own table) := by
  induction table generalizing own with
  | nil => exact yields_pure (x := ([] : Roster)) ⟨rfl, by simp⟩
  | cons entry rest ih =>
      obtain ⟨name, tier⟩ := entry
      refine yields_bind (yields_pieceType others fits built ?_ name) ?_
      · exact numbered.imp_left fun lowly => lowly _ rfl
      · intro t drawn
        refine yields_bind (ih (.inr (Nat.le_add_left 1 own))) ?_
        intro types ⟨length, each⟩
        refine yields_pure (x := t :: types) ⟨by rw [List.length_cons, List.length_cons, length], ?_⟩
        intro i name' tier' t' listed found
        cases i with
        | zero =>
            cases listed
            cases found
            exact drawn
        | succ i =>
            rw [Nat.add_comm i 1, ← Nat.add_assoc]
            exact each i name' tier' t' listed found

end Types

end Guarded

end VariantChess
