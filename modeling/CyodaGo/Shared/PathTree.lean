import Mathlib.Order.Lattice
import Mathlib.Order.BoundedOrder.Lattice

/-! # Trees as functions of the path

A labelled tree is read as the function that gives the label at each path, and `⊥` where the
tree has no node. Joining two such functions pointwise is the union of the two trees. -/

namespace PathTree

variable {σ α : Type*} [DecidableEq σ] {q r p : List σ} {s : σ} {f g : List σ → α}

/-! ## Replacing a subtree -/

/-- The tree `f` with `g` in the place of its subtree at `q`. -/
def splice : List σ → (List σ → α) → (List σ → α) → List σ → α
  | [], g, _, p => g p
  | _ :: _, _, f, [] => f []
  | s :: q, g, f, s' :: p => if s = s' then splice q g (fun r => f (s :: r)) p else f (s' :: p)

@[simp] theorem splice_nil : splice [] g f = g := rfl

@[simp] theorem splice_cons_nil : splice (s :: q) g f [] = f [] := rfl

@[simp] theorem splice_cons_self :
    splice (s :: q) g f (s :: p) = splice q g (fun r => f (s :: r)) p := by
  simp [splice]

theorem splice_cons_of_ne {s' : σ} (hne : s ≠ s') :
    splice (s :: q) g f (s' :: p) = f (s' :: p) := by
  simp [splice, hne]

theorem splice_splice : splice q (splice r g fun p => f (q ++ p)) f = splice (q ++ r) g f := by
  induction q generalizing f with
  | nil => rfl
  | cons s q ih =>
    funext p
    cases p with
    | nil => rfl
    | cons s' p =>
      by_cases hs : s = s'
      · subst hs
        rw [List.cons_append, splice_cons_self, splice_cons_self, ← ih]
        rfl
      · rw [List.cons_append, splice_cons_of_ne hs, splice_cons_of_ne hs]

/-! ## Hanging a tree at a path -/

variable [SemilatticeSup α] [OrderBot α]

/-- The tree `f` hung at the path `q`. -/
def graft : List σ → (List σ → α) → List σ → α
  | [], f, p => f p
  | _ :: _, _, [] => ⊥
  | s :: q, f, s' :: p => if s = s' then graft q f p else ⊥

@[simp] theorem graft_nil : graft [] f = f := rfl

@[simp] theorem graft_cons_nil : graft (s :: q) f [] = ⊥ := rfl

@[simp] theorem graft_cons_self : graft (s :: q) f (s :: p) = graft q f p := by simp [graft]

theorem graft_cons_of_ne {s' : σ} (hne : s ≠ s') : graft (s :: q) f (s' :: p) = ⊥ := by
  simp [graft, hne]

@[simp] theorem graft_append_self : graft q f (q ++ p) = f p := by
  induction q with
  | nil => rfl
  | cons s q ih => rw [List.cons_append, graft_cons_self, ih]

/-- Outside the subtree at `q` there is nothing. -/
theorem graft_eq_bot_off_path (h : ¬ q <+: p) : graft q f p = ⊥ := by
  induction q generalizing p with
  | nil => exact absurd (List.nil_prefix) h
  | cons s q ih =>
    cases p with
    | nil => rfl
    | cons s' p =>
      by_cases hs : s = s'
      · subst hs
        rw [graft_cons_self]
        exact ih fun hpre => h (List.cons_prefix_cons.mpr ⟨rfl, hpre⟩)
      · exact graft_cons_of_ne hs

theorem graft_le_iff : graft q f ≤ g ↔ ∀ p, f p ≤ g (q ++ p) := by
  constructor
  · intro h p
    simpa using h (q ++ p)
  · intro h p
    by_cases hpre : q <+: p
    · obtain ⟨r, rfl⟩ := hpre
      simpa using h r
    rw [graft_eq_bot_off_path hpre]
    exact bot_le

theorem graft_mono (h : f ≤ g) : graft q f ≤ graft q g :=
  graft_le_iff.mpr fun p => by simpa using h p

@[simp] theorem graft_bot : graft q (⊥ : List σ → α) = ⊥ :=
  le_antisymm (graft_le_iff.mpr fun _ => bot_le) bot_le

theorem graft_sup : graft q (f ⊔ g) = graft q f ⊔ graft q g := by
  apply le_antisymm
  · refine graft_le_iff.mpr fun p => ?_
    simp
  · exact sup_le (graft_mono le_sup_left) (graft_mono le_sup_right)

theorem graft_graft : graft q (graft r f) = graft (q ++ r) f := by
  induction q with
  | nil => rfl
  | cons s q ih =>
    funext p
    cases p with
    | nil => rfl
    | cons s' p =>
      by_cases hs : s = s'
      · subst hs
        rw [List.cons_append, graft_cons_self, graft_cons_self, ih]
      · rw [List.cons_append, graft_cons_of_ne hs, graft_cons_of_ne hs]

/-! ## Splicing and the order -/

omit [OrderBot α] in
/-- Growing the subtree grows the tree. -/
theorem le_splice (h : ∀ p, f (q ++ p) ≤ g p) : f ≤ splice q g f := by
  induction q generalizing f with
  | nil => exact h
  | cons s q ih =>
    intro p
    cases p with
    | nil => exact le_rfl
    | cons s' p =>
      by_cases hs : s = s'
      · subst hs
        rw [splice_cons_self]
        exact ih (f := fun r => f (s :: r)) h p
      · rw [splice_cons_of_ne hs]

/-- Joining something to the subtree joins it, hung there, to the tree. -/
theorem splice_eq_sup_graft {h : List σ → α} (hg : ∀ p, g p = f (q ++ p) ⊔ h p) :
    splice q g f = f ⊔ graft q h := by
  induction q generalizing f with
  | nil => exact funext hg
  | cons s q ih =>
    funext p
    rw [Pi.sup_apply]
    cases p with
    | nil => simp
    | cons s' p =>
      by_cases hs : s = s'
      · subst hs
        rw [splice_cons_self, graft_cons_self, ih (f := fun r => f (s :: r)) hg]
        rfl
      · rw [splice_cons_of_ne hs, graft_cons_of_ne hs, sup_bot_eq]

end PathTree
