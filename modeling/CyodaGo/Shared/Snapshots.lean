import CyodaGo.Shared.Checked
import Mathlib.Data.List.Induction
import Mathlib.Tactic.TypeStar

/-! # Logs with snapshots

A log of updates of a state, some of whose entries hold a state instead. Replaying starts at
the last snapshot. If every snapshot holds what replaying gave when it was taken, replaying
ends where applying every update to the base ends. -/

namespace Snapshots

variable {σ δ ε : Type*}

inductive Entry (σ δ : Type*) where
  | update (d : δ)
  | snapshot (s : σ)

/-- One entry, on the last snapshot and the updates after it. -/
def advance (acc : σ × List δ) : Entry σ δ → σ × List δ
  | .update d => (acc.1, acc.2 ++ [d])
  | .snapshot s => (s, [])

/-- The last snapshot, or else the base, and the updates after it. -/
def resume (base : σ) (log : List (Entry σ δ)) : σ × List δ := log.foldl advance (base, [])

def replay (f : σ → δ → Except ε σ) (base : σ) (log : List (Entry σ δ)) : Except ε σ :=
  (resume base log).2.foldlM f (resume base log).1

def updates (log : List (Entry σ δ)) : List δ :=
  log.filterMap fun
    | .update d => some d
    | .snapshot _ => none

variable {f : σ → δ → Except ε σ} {base : σ} {log : List (Entry σ δ)} {d : δ} {s : σ}

@[simp] theorem resume_append (e : Entry σ δ) :
    resume base (log ++ [e]) = advance (resume base log) e := by
  simp [resume]

theorem replay_update : replay f base (log ++ [.update d]) = (replay f base log >>= (f · d)) := by
  simp [replay, advance, List.foldlM_append]

@[simp] theorem replay_snapshot : replay f base (log ++ [.snapshot s]) = .ok s := by
  simp [replay, advance]
  rfl

@[simp] theorem updates_append_update : updates (log ++ [.update d]) = updates log ++ [d] := by
  simp [updates]

@[simp] theorem updates_append_snapshot : updates (log ++ [.snapshot s]) = updates log := by
  simp [updates]

theorem replay_of_updates (h : ∀ e ∈ log, ∃ d, e = .update d) :
    replay f base log = (updates log).foldlM f base := by
  induction log using List.reverseRecOn with
  | nil => rfl
  | append_singleton log e ih =>
    obtain ⟨d, rfl⟩ := h e (by simp)
    rw [replay_update, ih fun e he => h e (List.mem_append_left _ he), updates_append_update,
      List.foldlM_append]
    simp

/-- Replaying ends where applying every update ends, up to `r`. -/
def Transparent (r : σ → σ → Prop) (f : σ → δ → Except ε σ) (base : σ)
    (log : List (Entry σ δ)) : Prop :=
  ∃ s t, replay f base log = .ok s ∧ (updates log).foldlM f base = .ok t ∧ r s t

namespace Transparent

variable {r : σ → σ → Prop}

theorem nil (hrefl : r base base) : Transparent r f base [] := ⟨base, base, rfl, rfl, hrefl⟩

/-- An update that the replayed state takes. -/
theorem update (hf : ∀ x y x', r x y → f x d = .ok x' → ∃ y', f y d = .ok y' ∧ r x' y')
    {x' : σ} (h : Transparent r f base log) (hreplay : replay f base log = .ok s)
    (hok : f s d = .ok x') : Transparent r f base (log ++ [.update d]) := by
  obtain ⟨x, y, hx, hy, hxy⟩ := h
  obtain rfl : x = s := Except.ok.inj (hx.symm.trans hreplay)
  obtain ⟨y', hy', hxy'⟩ := hf x y x' hxy hok
  refine ⟨x', y', ?_, ?_, hxy'⟩
  · rw [replay_update, hx]
    exact hok
  · rw [updates_append_update, List.foldlM_append, hy]
    exact Checked.bind_eq_ok.mpr ⟨y, rfl, by simpa using hy'⟩

/-- A snapshot of the replayed state, as it is stored. -/
theorem snapshot {x : σ} (h : Transparent r f base log) (hreplay : replay f base log = .ok x)
    (hstored : ∀ y, r x y → r s y) : Transparent r f base (log ++ [.snapshot s]) := by
  obtain ⟨x', y, hx, hy, hxy⟩ := h
  obtain rfl : x' = x := Except.ok.inj (hx.symm.trans hreplay)
  exact ⟨s, y, replay_snapshot, by rwa [updates_append_snapshot], hstored y hxy⟩

end Transparent

end Snapshots
