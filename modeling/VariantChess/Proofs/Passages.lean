import Mathlib.Tactic.Ring
import VariantChess.Proofs.Footholds

/-!
Where a walk leads. A route leads to the square that its steps add up to, whatever stands on the way, and
there a piece ends that takes it. A step that is repeated leads along a straight line.
-/

namespace VariantChess

namespace Square

/-- Where a step leads that is made so many times. -/
def along (s : Square) (v : Step) (k : Nat) : Square := ⟨s.row + k * v.row, s.col + k * v.col⟩

@[simp] theorem along_zero (s : Square) (v : Step) : s.along v 0 = s := by simp [along]

@[simp] theorem along_one (s : Square) (v : Step) : s.along v 1 = s + v := by
  ext <;> simp [along]

theorem along_succ (s : Square) (v : Step) (k : Nat) : s.along v (k + 1) = s.along v k + v := by
  ext <;> simp only [along, add_row, add_col] <;> push_cast <;> ring

theorem along_after (s : Square) (v : Step) (k : Nat) : (s + v).along v k = s.along v (k + 1) := by
  ext <;> simp only [along, add_row, add_col] <;> push_cast <;> ring

end Square

/-- The square that a route leads to, whatever stands on the way. -/
def Route.leads (route : Route) (s : Square) : Square := route.foldl (· + ·) s

namespace Route

@[simp] theorem leads_nil (s : Square) : leads [] s = s := rfl

@[simp] theorem leads_cons (step : Step) (route : Route) (s : Square) :
    leads (step :: route) s = leads route (s + step) := rfl

theorem leads_straightRoute (step : Step) (n : Nat) (s : Square) :
    leads (straightRoute step n) s = s.along step n := by
  induction n generalizing s with
  | zero => exact (s.along_zero step).symm
  | succ n ih => exact (ih (s + step)).trans (s.along_after step n)

/-- Steps of at most one row lead no more rows away than there are of them. -/
theorem natAbs_leads_row {route : Route} (each : ∀ step ∈ route, step.row.natAbs ≤ 1) (s : Square) :
    ((route.leads s).row - s.row).natAbs ≤ route.length := by
  induction route generalizing s with
  | nil => simp
  | cons step rest ih =>
      obtain ⟨first, others⟩ := List.forall_mem_cons.1 each
      have later := ih others (s + step)
      rw [Square.add_row] at later
      rw [leads_cons, List.length_cons]
      omega

end Route

theorem Gait.follow_leads {g : Gait} {i : Intent} {b : Board} {side : Side} {memory : g.Memory}
    {s t : Square} {route : Route} (h : g.follow i b side memory s route = some t) :
    t = route.leads s := by
  induction route generalizing memory s with
  | nil => simp [follow] at h
  | cons step rest ih =>
      cases rest with
      | nil => exact (follow_singleton_eq_some.1 h).2.2.symm
      | cons next rest => exact ih ((follow_cons_eq_some (List.cons_ne_nil next rest)).1 h).2.2

end VariantChess
