import Mathlib.Data.List.Basic

/-!
Lists worked out item by item, as long as no item fails. What comes out has been worked out from the items,
and where none of them can fail it is the list of all that they become.
-/

namespace VariantChess

variable {α β : Type} {f : α → Option β} {xs : List α} {ys : List β}

theorem mapM_eq_some_iff : xs.mapM f = some ys ↔ xs.map f = ys.map some := by
  induction xs generalizing ys with
  | nil => cases ys <;> simp
  | cons x rest ih =>
      rw [List.mapM_cons]
      simp only [Option.bind_eq_bind, Option.bind_eq_some_iff, ih]
      cases ys with
      | nil => simp
      | cons y others => simp

theorem exists_of_mem_mapM (h : xs.mapM f = some ys) : ∀ y ∈ ys, ∃ x ∈ xs, f x = some y := by
  intro y listed
  have read : some y ∈ xs.map f := mapM_eq_some_iff.1 h ▸ List.mem_map_of_mem listed
  exact List.mem_map.1 read

theorem isSome_of_mapM (h : xs.mapM f = some ys) : ∀ x ∈ xs, (f x).isSome = true := by
  intro x listed
  have read : f x ∈ ys.map some := mapM_eq_some_iff.1 h ▸ List.mem_map_of_mem listed
  obtain ⟨y, _, same⟩ := List.mem_map.1 read
  rw [← same, Option.isSome_some]

variable {g : α → β}

theorem mapM_eq_some_map (each : ∀ x ∈ xs, f x = some (g x)) : xs.mapM f = some (xs.map g) := by
  rw [mapM_eq_some_iff, List.map_map]
  exact List.map_congr_left each

theorem eq_map_of_mapM (right : ∀ x ∈ xs, ∀ y, f x = some y → y = g x) (h : xs.mapM f = some ys) :
    ys = xs.map g := by
  have each : ∀ x ∈ xs, f x = some (g x) := by
    intro x listed
    obtain ⟨y, made⟩ := Option.isSome_iff_exists.1 (isSome_of_mapM h x listed)
    rw [made, right x listed y made]
  exact Option.some.inj (h.symm.trans (mapM_eq_some_map each))

end VariantChess
