import VariantChess.Generator.Guarded

/-!
What guarded draws come to. A guarded draw `Yields` what the plain one does, if it never fails, leaves the
source where the plain one leaves it, and what is drawn has some property. A guarded draw that also works
something out `YieldsAs` what becomes of what the plain one draws.
-/

namespace VariantChess

/-! What holds of whatever is drawn. -/

namespace Draw

variable {σ : Type}

/-- What is drawn has the property, whatever the source yields. -/
def Always {α : Type} (P : α → Prop) (draw : StateM σ α) : Prop := ∀ s, P (draw.run s).1

section Logic

variable {α β : Type} {P : α → Prop} {Q : β → Prop}

theorem always_pure {x : α} (h : P x) : Always P (pure x : StateM σ α) := fun _ => h

theorem always_bind {draw : StateM σ α} {next : α → StateM σ β} (first : Always P draw)
    (later : ∀ x, P x → Always Q (next x)) : Always Q (draw >>= next) :=
  fun s => later _ (first s) _

theorem always_true (draw : StateM σ α) : Always (fun _ => True) draw := fun _ => trivial

theorem Always.imp {draw : StateM σ α} (h : Always P draw) {P' : α → Prop} (weaker : ∀ x, P x → P' x) :
    Always P' draw := fun s => weaker _ (h s)

end Logic

variable [RandomSource σ]

/-- As long as an option is left, one that is not excluded is picked. -/
theorem always_pickExcept {α : Type} {o : Odds α} {excluded : α → Bool}
    (left : ∃ x ∈ o.options.map (·.1), excluded x = false) :
    Always (fun picked => ∃ x, picked = some x ∧ x ∈ o.options.map (·.1) ∧ excluded x = false)
      (o.pickExcept excluded : StateM σ (Option α)) := by
  have allowed_iff {x : α} : x ∈ (o.options.filter (!excluded ·.1)).map (·.1) ↔
      x ∈ o.options.map (·.1) ∧ excluded x = false := by
    simp only [List.mem_map, List.mem_filter, Bool.not_eq_true']
    constructor
    · rintro ⟨entry, ⟨listed, kept⟩, rfl⟩
      exact ⟨⟨entry, listed, rfl⟩, kept⟩
    · rintro ⟨⟨entry, listed, rfl⟩, kept⟩
      exact ⟨entry, ⟨listed, kept⟩, rfl⟩
  unfold Odds.pickExcept
  dsimp only
  split
  · rename_i none_allowed
    obtain ⟨x, listed⟩ := left
    rw [← allowed_iff, none_allowed] at listed
    exact (List.not_mem_nil listed).elim
  · rename_i first weight rest allowed
    refine always_bind (always_true _) ?_
    intro x _
    refine always_pure ⟨_, rfl, allowed_iff.1 ?_⟩
    rw [allowed]
    generalize passed : Odds.pass? _ _ _ = found
    cases found with
    | none => exact List.mem_cons_self
    | some x => exact Odds.mem_of_pass? passed

theorem always_pick? {α : Type} {o : Odds α} (options : o.options ≠ []) :
    Always (fun picked => ∃ x, picked = some x ∧ x ∈ o.options.map (·.1))
      (o.pick? : StateM σ (Option α)) := by
  obtain ⟨entry, listed⟩ := List.exists_mem_of_ne_nil _ options
  refine (always_pickExcept ⟨entry.1, List.mem_map_of_mem listed, rfl⟩).imp ?_
  rintro _ ⟨x, picked, listed, _⟩
  exact ⟨x, picked, listed⟩

end Draw

namespace Guarded

variable {σ : Type}

/-- The guarded draw never fails and comes out as what becomes of the plain one, and what is drawn has the
property. -/
def YieldsAs {α β : Type} (f : α → β) (P : α → Prop) (guarded : OptionT (StateM σ) β) (draw : StateM σ α) :
    Prop :=
  ∀ s, guarded.run.run s = (some (f (draw.run s).1), (draw.run s).2) ∧ P (draw.run s).1

/-- Nothing becomes of what is drawn. -/
abbrev Yields {α : Type} (P : α → Prop) (guarded : OptionT (StateM σ) α) (draw : StateM σ α) : Prop :=
  YieldsAs (fun x => x) P guarded draw

section Logic

variable {α β γ δ : Type} {P : α → Prop} {Q : γ → Prop} {f : α → β} {g : γ → δ}

theorem yields_pure {x : α} (h : P x) : YieldsAs f P (pure (f x) : OptionT (StateM σ) β) (pure x) :=
  fun _ => ⟨rfl, h⟩

/-- What is drawn at the end may have to do with what was drawn first. -/
theorem bind_run {R : α → γ → Prop} {guarded : OptionT (StateM σ) β} {draw : StateM σ α}
    {later : β → OptionT (StateM σ) δ} {next : α → StateM σ γ} (first : YieldsAs f P guarded draw)
    (rest : ∀ x, P x → YieldsAs g (R x) (later (f x)) (next x)) (s : σ) :
    (guarded >>= later).run.run s =
        (some (g ((draw >>= next).run s).1), ((draw >>= next).run s).2) ∧
      P (draw.run s).1 ∧ R (draw.run s).1 ((draw >>= next).run s).1 := by
  obtain ⟨same, drawn⟩ := first s
  rw [OptionT.run_bind, Option.elimM, StateT.run_bind, same]
  exact ⟨(rest _ drawn _).1, drawn, (rest _ drawn _).2⟩

theorem yields_bind {guarded : OptionT (StateM σ) β} {draw : StateM σ α}
    {later : β → OptionT (StateM σ) δ} {next : α → StateM σ γ} (first : YieldsAs f P guarded draw)
    (rest : ∀ x, P x → YieldsAs g Q (later (f x)) (next x)) :
    YieldsAs g Q (guarded >>= later) (draw >>= next) :=
  fun s => ⟨(bind_run first rest s).1, (bind_run first rest s).2.2⟩

/-- Reading what is there is no draw. -/
theorem yields_read {o : Option α} {x : α} (found : o = some x) {later : α → OptionT (StateM σ) δ}
    {draw : StateM σ γ} (rest : YieldsAs g Q (later x) draw) : YieldsAs g Q (known o >>= later) draw := by
  subst found
  exact rest

theorem yields_sure {draw : StateM σ α} (h : Draw.Always P draw) : Yields P (sure draw) draw :=
  fun s => ⟨rfl, h s⟩

variable {guarded : OptionT (StateM σ) β} {draw : StateM σ α} (h : YieldsAs f P guarded draw)
include h

theorem YieldsAs.imp {P' : α → Prop} (weaker : ∀ x, P x → P' x) : YieldsAs f P' guarded draw :=
  fun s => ⟨(h s).1, weaker _ (h s).2⟩

theorem YieldsAs.always : Draw.Always P draw := fun s => (h s).2

end Logic

variable [RandomSource σ]

theorem yields_pick {α : Type} [Inhabited α] {o : Odds α} {P : α → Prop} (options : o.options ≠ [])
    (each : ∀ x ∈ o.options.map (·.1), P x) : Yields P (pick o : OptionT (StateM σ) α) o.pick := by
  refine yields_bind (yields_sure (Draw.always_pick? options)) ?_
  rintro _ ⟨x, rfl, listed⟩
  refine yields_read (List.head?_eq_some_head options) ?_
  exact yields_pure (each x listed)

theorem yields_below {n : Nat} (positive : 0 < n) (fits : n ≤ UInt64.size) :
    Yields (· < n) (below n : OptionT (StateM σ) Nat) (RandomSource.below n) := by
  rw [below, if_pos positive]
  exact yields_sure (RandomSource.below_lt positive fits)

end Guarded

end VariantChess
