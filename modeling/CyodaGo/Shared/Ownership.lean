import Mathlib.Data.List.Basic
import Mathlib.Logic.Function.Basic

/-! # Ownership tables

A table records which owner holds a key, and for every owner the keys it holds. The two
directions are inverse to each other as long as keys are released before they change
hands. -/

structure Ownership (K O : Type*) where
  owner : K → Option O
  held : O → List K

namespace Ownership

variable {K O : Type*} {t : Ownership K O} {o : O} {ks : List K}

def Inverse (t : Ownership K O) : Prop := ∀ k o, t.owner k = some o ↔ k ∈ t.held o

variable {k : K} {o' : O} {batch : List (O × List K)}

/-- Two owners never hold one key. -/
theorem Inverse.owner_unique (h : t.Inverse) (hk : k ∈ t.held o) (hk' : k ∈ t.held o') :
    o = o' := by
  have howner := (h k o).mpr hk
  have howner' := (h k o').mpr hk'
  exact Option.some.inj (howner.symm.trans howner')

variable [DecidableEq K] [DecidableEq O]

def release (t : Ownership K O) (o : O) : Ownership K O where
  owner k := if k ∈ t.held o then none else t.owner k
  held := Function.update t.held o []

def assign (t : Ownership K O) (o : O) (ks : List K) : Ownership K O where
  owner k := if k ∈ ks then some o else t.owner k
  held := Function.update t.held o ks

/-- Replace the keys of an owner. -/
def reassign (t : Ownership K O) (o : O) (ks : List K) : Ownership K O := (t.release o).assign o ks

/-- `o` may take the keys `ks`: no one else holds one of them. -/
def Free (t : Ownership K O) (o : O) (ks : List K) : Prop :=
  ∀ k ∈ ks, ∀ o', t.owner k = some o' → o' = o

@[simp] theorem held_release (o' : O) : (t.release o).held o' = if o' = o then [] else t.held o' := by
  by_cases h : o' = o
  · subst h
    simp [release]
  · simp [release, h]

@[simp] theorem held_reassign (o' : O) :
    (t.reassign o ks).held o' = if o' = o then ks else t.held o' := by
  by_cases h : o' = o
  · subst h
    simp [reassign, assign]
  · simp [reassign, assign, release, h]

theorem owner_release_eq_some (h : (t.release o).owner k = some o') : t.owner k = some o' := by
  simp only [release] at h
  split at h
  · cases h
  · exact h

theorem owner_reassign_eq_some (h : (t.reassign o ks).owner k = some o') :
    t.owner k = some o' ∨ k ∈ ks ∧ o' = o := by
  simp only [reassign, assign] at h
  split at h
  · exact .inr ⟨‹_›, (Option.some.inj h).symm⟩
  · exact .inl (owner_release_eq_some h)

theorem Inverse.release (h : t.Inverse) (o : O) : (t.release o).Inverse := by
  intro k o'
  simp only [held_release]
  by_cases heq : o' = o
  · subst heq
    simp only [Ownership.release, if_true, List.not_mem_nil, iff_false]
    split
    · simp
    rename_i hk
    exact fun howner => hk ((h k o').mp howner)
  · simp only [Ownership.release, heq, if_false]
    split
    · rename_i hk
      simp only [reduceCtorEq, false_iff]
      exact fun hk' => heq (h.owner_unique hk' hk)
    · exact h k o'

theorem Inverse.reassign (h : t.Inverse) (hfree : t.Free o ks) : (t.reassign o ks).Inverse := by
  intro k o'
  simp only [held_reassign]
  simp only [Ownership.reassign, assign]
  by_cases hk : k ∈ ks
  · by_cases heq : o' = o
    · simp [heq, hk]
    simp only [hk, if_true, heq, if_false]
    constructor
    · intro hsome
      exact absurd (Option.some.inj hsome).symm heq
    · intro hheld
      exact absurd (hfree k hk o' ((h k o').mpr hheld)) heq
  · simp only [hk, if_false]
    rw [h.release o k o', held_release]
    by_cases heq : o' = o
    · simp [heq, hk]
    · simp [heq]

/-! ## Batches -/

/-- Releasing several owners. -/
theorem Inverse.releaseAll (os : List O) (h : t.Inverse) : (os.foldl Ownership.release t).Inverse :=
  List.foldlRecOn os _ h fun _ ht o _ => ht.release o

theorem held_releaseAll (os : List O) (t : Ownership K O) (o : O) :
    (os.foldl Ownership.release t).held o = if o ∈ os then [] else t.held o := by
  induction os generalizing t with
  | nil => simp
  | cons o' os ih =>
    rw [List.foldl_cons, ih, held_release]
    by_cases hmem : o ∈ os
    · simp [hmem]
    by_cases heq : o = o'
    · simp [heq]
    · simp [hmem, heq]

theorem owner_releaseAll_eq_some {os : List O} {t : Ownership K O} {o : O}
    (h : (os.foldl Ownership.release t).owner k = some o) : t.owner k = some o := by
  induction os generalizing t with
  | nil => exact h
  | cons o' os ih => exact owner_release_eq_some (ih h)

/-- A batch of owners, each with the keys it is to hold. No key is given twice, and no
key is held by anyone but the owner it is given to. -/
structure Assignable (t : Ownership K O) (batch : List (O × List K)) : Prop where
  free : ∀ p ∈ batch, t.Free p.1 p.2
  disjoint : batch.Pairwise fun p q => p.1 ≠ q.1 ∧ ∀ k ∈ p.2, k ∉ q.2

theorem Assignable.step {p : O × List K} (h : Assignable t (p :: batch)) :
    Assignable (t.reassign p.1 p.2) batch := by
  obtain ⟨hp, hrest⟩ := List.pairwise_cons.mp h.disjoint
  refine ⟨?_, hrest⟩
  intro q hq k hk o' howner
  rcases owner_reassign_eq_some howner with hold | ⟨hk', -⟩
  · exact h.free q (List.mem_cons_of_mem _ hq) k hk o' hold
  · exact absurd hk ((hp q hq).2 k hk')

theorem Inverse.reassignAll (h : t.Inverse) (hb : Assignable t batch) :
    (batch.foldl (fun t p => t.reassign p.1 p.2) t).Inverse := by
  induction batch generalizing t with
  | nil => exact h
  | cons p batch ih => exact ih (h.reassign (hb.free p (by simp))) hb.step

theorem held_reassignAll_of_notMem (h : o ∉ batch.map Prod.fst) (t : Ownership K O) :
    (batch.foldl (fun t p => t.reassign p.1 p.2) t).held o = t.held o := by
  induction batch generalizing t with
  | nil => rfl
  | cons p batch ih =>
    simp only [List.map_cons, List.mem_cons, not_or] at h
    rw [List.foldl_cons, ih h.2, held_reassign, if_neg h.1]

theorem held_reassignAll_of_mem (hnodup : (batch.map Prod.fst).Nodup) (hmem : (o, ks) ∈ batch)
    (t : Ownership K O) :
    (batch.foldl (fun t p => t.reassign p.1 p.2) t).held o = ks := by
  induction batch generalizing t with
  | nil => cases hmem
  | cons p batch ih =>
    obtain ⟨hp, hnodup⟩ := List.nodup_cons.mp hnodup
    rw [List.foldl_cons]
    rcases List.mem_cons.mp hmem with rfl | hmem
    · rw [held_reassignAll_of_notMem hp, held_reassign, if_pos rfl]
    · exact ih hnodup hmem _

end Ownership
