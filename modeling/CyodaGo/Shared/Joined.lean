import Mathlib.Data.List.Basic

/-! # Joining with a separator

The first separator of a joined list is found again if the part before it has none, and the last
one if the part after it has none. -/

namespace List

variable {α : Type*}

theorem append_cons_inj_of_notMem_left {a : α} {x x' y y' : List α} (hx : a ∉ x) (hx' : a ∉ x')
    (h : x ++ a :: y = x' ++ a :: y') : x = x' ∧ y = y' := by
  induction x generalizing x' with
  | nil =>
    cases x' with
    | nil => exact ⟨rfl, (List.cons.inj h).2⟩
    | cons b x' => exact absurd ((List.cons.inj h).1 ▸ List.mem_cons_self) hx'
  | cons b x ih =>
    cases x' with
    | nil => exact absurd ((List.cons.inj h).1 ▸ List.mem_cons_self) hx
    | cons b' x' =>
      obtain ⟨hb, htail⟩ := List.cons.inj h
      obtain ⟨rfl, hy⟩ := ih (fun hm => hx (List.mem_cons_of_mem _ hm))
        (fun hm => hx' (List.mem_cons_of_mem _ hm)) htail
      exact ⟨by rw [hb], hy⟩

theorem append_cons_inj_of_notMem_right {a : α} {x x' y y' : List α} (hy : a ∉ y) (hy' : a ∉ y')
    (h : x ++ a :: y = x' ++ a :: y') : x = x' ∧ y = y' := by
  have hrev : y.reverse ++ a :: x.reverse = y'.reverse ++ a :: x'.reverse := by
    simpa using congrArg List.reverse h
  obtain ⟨hyy, hxx⟩ := append_cons_inj_of_notMem_left (by simpa using hy) (by simpa using hy') hrev
  exact ⟨List.reverse_injective hxx, List.reverse_injective hyy⟩

end List
