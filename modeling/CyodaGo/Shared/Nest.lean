import Mathlib.Data.List.DropRight
import Mathlib.Data.List.Forall2

/-! # Nested savepoints

A transaction has a state and a stack of marks with the state at each of them, the innermost
one last. Going back to a mark destroys those inside it; releasing it destroys it as well. -/

structure Nest (ι σ : Type) where
  current : σ
  marks : List (ι × σ)

namespace Nest

variable {ι σ : Type} [DecidableEq ι]

def update (n : Nest ι σ) (f : σ → σ) : Nest ι σ := { n with current := f n.current }

def mark (n : Nest ι σ) (i : ι) : Nest ι σ := { n with marks := n.marks ++ [(i, n.current)] }

/-- The marks from the outermost one to the last one named `i`. -/
def upTo (n : Nest ι σ) (i : ι) : List (ι × σ) := n.marks.rdropWhile (fun m => m.1 ≠ i)

def knows (n : Nest ι σ) (i : ι) : Bool := n.marks.any (fun m => m.1 = i)

def rollbackTo (n : Nest ι σ) (i : ι) : Nest ι σ :=
  match (n.upTo i).getLast? with
  | none => n
  | some m => ⟨m.2, n.upTo i⟩

def release (n : Nest ι σ) (i : ι) : Nest ι σ := { n with marks := (n.upTo i).dropLast }

variable {n : Nest ι σ} {i : ι}

theorem knows_iff : n.knows i = true ↔ ∃ m ∈ n.marks, m.1 = i := by
  simp [knows]

/-- The last mark of a name splits the stack. -/
theorem split_marks (h : n.knows i = true) :
    ∃ outer x inner, n.marks = outer ++ (i, x) :: inner ∧ n.upTo i = outer ++ [(i, x)] := by
  obtain ⟨m, hm, rfl⟩ := knows_iff.mp h
  have hne : n.upTo m.1 ≠ [] := by
    rw [upTo, Ne, List.rdropWhile_eq_nil_iff]
    intro hall
    simpa using hall m hm
  obtain ⟨inner, hinner⟩ := List.rdropWhile_prefix (fun x : ι × σ => x.1 ≠ m.1) (l := n.marks)
  have hlast : ((n.upTo m.1).getLast hne).1 = m.1 := by
    have hnot := List.rdropWhile_last_not (fun x : ι × σ => x.1 ≠ m.1) n.marks hne
    rwa [decide_eq_true_eq, not_not] at hnot
  have hup : n.upTo m.1 =
      (n.upTo m.1).dropLast ++ [(m.1, ((n.upTo m.1).getLast hne).2)] := by
    conv_lhs => rw [← List.dropLast_append_getLast hne]
    exact congrArg (fun y => (n.upTo m.1).dropLast ++ [y]) (Prod.ext hlast rfl)
  refine ⟨_, _, inner, ?_, hup⟩
  rw [← hinner, List.append_cons, ← hup]
  rfl

theorem rollbackTo_of_upTo {outer : List (ι × σ)} {x : σ} (h : n.upTo i = outer ++ [(i, x)]) :
    n.rollbackTo i = ⟨x, outer ++ [(i, x)]⟩ := by
  simp [rollbackTo, h]

theorem release_of_upTo {outer : List (ι × σ)} {x : σ} (h : n.upTo i = outer ++ [(i, x)]) :
    n.release i = ⟨n.current, outer⟩ := by
  simp [release, h]

end Nest

namespace List

variable {α β : Type*} {R : α → β → Prop} {l l₁ l₂ : List α} {r r₁ r₂ : List β} {x : α} {e : β}

theorem SublistForall₂.append_singleton (h : SublistForall₂ R l r) (hx : R x e) :
    SublistForall₂ R (l ++ [x]) (r ++ [e]) := by
  induction h with
  | nil =>
    rename_i r
    induction r with
    | nil => exact .cons hx .nil
    | cons _ _ ih => exact .cons_right ih
  | cons hy _ ih => exact .cons hy ih
  | cons_right _ ih => exact .cons_right ih

theorem SublistForall₂.append_right (h : SublistForall₂ R l r₁) (r₂ : List β) :
    SublistForall₂ R l (r₁ ++ r₂) := by
  induction h with
  | nil => exact .nil
  | cons hy _ ih => exact .cons hy ih
  | cons_right _ ih => exact .cons_right ih

theorem SublistForall₂.length_le (h : SublistForall₂ R l r) : l.length ≤ r.length := by
  obtain ⟨l', hforall, hsub⟩ := sublistForall₂_iff.mp h
  exact hforall.length_eq ▸ hsub.length_le

theorem SublistForall₂.forall₂ (h : SublistForall₂ R l r) (hlength : l.length = r.length) :
    Forall₂ R l r := by
  obtain ⟨l', hforall, hsub⟩ := sublistForall₂_iff.mp h
  rwa [← hsub.eq_of_length (hforall.length_eq ▸ hlength)]

theorem SublistForall₂.exists_of_mem (h : SublistForall₂ R l r) (hx : x ∈ l) : ∃ y ∈ r, R x y := by
  induction h with
  | nil => cases hx
  | cons hy _ ih =>
    rcases List.mem_cons.mp hx with rfl | hx
    · exact ⟨_, List.mem_cons_self .., hy⟩
    obtain ⟨y, hy, hR⟩ := ih hx
    exact ⟨y, List.mem_cons_of_mem _ hy, hR⟩
  | cons_right _ ih =>
    obtain ⟨y, hy, hR⟩ := ih hx
    exact ⟨y, List.mem_cons_of_mem _ hy, hR⟩

/-- What can only be matched by one element splits both lists there. -/
theorem SublistForall₂.split (h : SublistForall₂ R (l₁ ++ x :: l₂) (r₁ ++ e :: r₂))
    (hr₁ : ∀ y ∈ r₁, ¬ R x y) (hr₂ : ∀ y ∈ r₂, ¬ R x y) :
    R x e ∧ SublistForall₂ R l₁ r₁ ∧ SublistForall₂ R l₂ r₂ := by
  induction r₁ generalizing l₁ with
  | nil =>
    have hlate : ∀ {l : List α}, x ∈ l → ¬ SublistForall₂ R l r₂ := by
      intro l hx h
      obtain ⟨y, hy, hR⟩ := h.exists_of_mem hx
      exact hr₂ y hy hR
    cases l₁ with
    | nil =>
      cases h with
      | cons hR hrest => exact ⟨hR, .nil, hrest⟩
      | cons_right hrest => exact absurd hrest (hlate (List.mem_cons_self ..))
    | cons y l₁ =>
      cases h with
      | cons _ hrest => exact absurd hrest (hlate (by simp))
      | cons_right hrest => exact absurd hrest (hlate (by simp))
  | cons z r₁ ih =>
    rw [List.forall_mem_cons] at hr₁
    cases l₁ with
    | nil =>
      cases h with
      | cons hR _ => exact absurd hR hr₁.1
      | cons_right hrest =>
        obtain ⟨hR, -, hinner⟩ := @ih [] hrest hr₁.2
        exact ⟨hR, .nil, hinner⟩
    | cons y l₁ =>
      cases h with
      | cons hyz hrest =>
        obtain ⟨hR, houter, hinner⟩ := ih hrest hr₁.2
        exact ⟨hR, .cons hyz houter, hinner⟩
      | cons_right hrest =>
        obtain ⟨hR, houter, hinner⟩ := @ih (y :: l₁) hrest hr₁.2
        exact ⟨hR, .cons_right houter, hinner⟩

end List
