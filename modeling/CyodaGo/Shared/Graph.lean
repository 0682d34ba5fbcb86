import Mathlib.Data.Fintype.Card
import Mathlib.Data.List.Chain
import Mathlib.Data.List.Perm.Basic
import Mathlib.Data.Set.Finite.Basic
import Mathlib.Logic.Relation
import Mathlib.Order.WellFounded

/-! # Cycles of a directed graph

The graph is given by the successors of each node. A list in which every node stands before its
successors has no cycle through it. -/

namespace Graph

variable {α : Type*} (succ : α → List α)

def Edge (a b : α) : Prop := b ∈ succ a

def Acyclic : Prop := ∀ a, ¬ Relation.TransGen (Edge succ) a a

/-- A path of the graph that ends where it began. -/
def IsCycle (path : List α) : Prop := ∃ a inner, path = a :: inner ++ [a] ∧ path.IsChain (Edge succ)

/-- Each node stands before its successors, which are all in the list. -/
inductive Topological : List α → Prop
  | nil : Topological []
  | cons {a : α} {l : List α} (hsucc : ∀ b ∈ succ a, b ∈ l) (hnew : a ∉ l)
      (hrest : Topological l) : Topological (a :: l)

variable {succ}

theorem Topological.closed {l : List α} (h : Topological succ l) {a b : α} (ha : a ∈ l)
    (hedge : Edge succ a b) : b ∈ l := by
  induction h with
  | nil => simp at ha
  | cons hsucc _ _ ih =>
    rcases List.mem_cons.mp ha with rfl | ha
    · exact List.mem_cons_of_mem _ (hsucc b hedge)
    · exact List.mem_cons_of_mem _ (ih ha)

theorem Topological.reaches {l : List α} (h : Topological succ l) {a b : α} (ha : a ∈ l)
    (hpath : Relation.ReflTransGen (Edge succ) a b) : b ∈ l := by
  induction hpath with
  | refl => exact ha
  | tail _ hedge ih => exact h.closed ih hedge

theorem Topological.no_cycle {l : List α} (h : Topological succ l) {a : α} (ha : a ∈ l) :
    ¬ Relation.TransGen (Edge succ) a a := by
  induction h with
  | nil => simp at ha
  | cons hsucc hnew hrest ih =>
    rcases List.mem_cons.mp ha with rfl | ha
    · intro hcycle
      obtain ⟨b, hedge, hback⟩ := Relation.TransGen.head'_iff.mp hcycle
      exact hnew (hrest.reaches (hsucc b hedge) hback)
    · exact ih ha

theorem IsCycle.not_acyclic {path : List α} (h : IsCycle succ path) : ¬ Acyclic succ := by
  obtain ⟨a, inner, rfl, hchain⟩ := h
  have hpairs := List.isChain_iff_pairwise.mp (hchain.imp fun _ _ => Relation.TransGen.single)
  intro hacyclic
  exact hacyclic a (List.rel_of_pairwise_cons hpairs (by simp))

/-- A path of an acyclic graph meets no node twice. -/
theorem Acyclic.nodup (h : Acyclic succ) {path : List α} (hpath : path.IsChain (Edge succ)) :
    path.Nodup := by
  have hpairs := List.isChain_iff_pairwise.mp (hpath.imp fun _ _ => Relation.TransGen.single)
  refine List.Pairwise.imp ?_ hpairs
  rintro a _ hreach rfl
  exact h a hreach

/-! ## Orders of a finite relation -/

section Order

variable (R : α → α → Prop)

/-- The relation on the members of a list. -/
def On (l : List α) (a b : α) : Prop := a ∈ l ∧ b ∈ l ∧ R a b

variable {R}

theorem idxOf_lt_of_pairwise [DecidableEq α] (hirrefl : ∀ a, ¬ R a a) {l : List α}
    (h : l.Pairwise fun a b => ¬ R a b) {a b : α} (hab : On R l a b) : l.idxOf b < l.idxOf a := by
  obtain ⟨ha, hb, hrel⟩ := hab
  induction h with
  | nil => cases ha
  | @cons c l hc _ ih =>
    have hca : c ≠ a := by
      rintro rfl
      rcases List.mem_cons.mp hb with rfl | hb
      · exact hirrefl _ hrel
      · exact hc b hb hrel
    rw [List.idxOf_cons_ne _ hca]
    by_cases hcb : c = b
    · subst hcb
      simp
    rw [List.idxOf_cons_ne _ hcb]
    exact Nat.succ_lt_succ (ih ((List.mem_cons.mp ha).resolve_left (Ne.symm hca))
      ((List.mem_cons.mp hb).resolve_left (Ne.symm hcb)))

/-- Without cycles some member is related to no other one. -/
theorem exists_sink {l : List α} (hne : l ≠ []) (h : ∀ a, ¬ Relation.TransGen (On R l) a a) :
    ∃ a ∈ l, ∀ b ∈ l, ¬ R a b := by
  let below : {a // a ∈ l} → {a // a ∈ l} → Prop := fun b a => Relation.TransGen (On R l) a b
  have : IsTrans _ below := ⟨fun _ _ _ hba hcb => hcb.trans hba⟩
  have : Std.Irrefl below := ⟨fun a ha => h a ha⟩
  have : Finite {a // a ∈ l} := (List.finite_toSet l).to_subtype
  obtain ⟨⟨a, ha⟩, -, hmin⟩ := (Finite.wellFounded_of_trans_of_irrefl below).has_min Set.univ
    ⟨⟨l.head hne, List.head_mem hne⟩, trivial⟩
  exact ⟨a, ha, fun b hb hab => hmin ⟨b, hb⟩ trivial (.single ⟨ha, hb, hab⟩)⟩

/-- A list can be ordered so that no member is related to a later one, unless there is a
cycle. -/
theorem exists_order_iff [DecidableEq α] (hirrefl : ∀ a, ¬ R a a) (l : List α) :
    (∃ l' : List α, l'.Perm l ∧ l'.Pairwise fun a b => ¬ R a b) ↔
      ∀ a, ¬ Relation.TransGen (On R l) a a := by
  constructor
  · rintro ⟨l', hperm, hpairwise⟩ a hcycle
    have hlt : ∀ {a b}, Relation.TransGen (On R l) a b → l'.idxOf b < l'.idxOf a := by
      intro a b hab
      have hstep : ∀ {a b}, On R l a b → l'.idxOf b < l'.idxOf a := fun h =>
        idxOf_lt_of_pairwise hirrefl hpairwise
          ⟨hperm.mem_iff.mpr h.1, hperm.mem_iff.mpr h.2.1, h.2.2⟩
      induction hab with
      | single h => exact hstep h
      | tail _ h ih => exact (hstep h).trans ih
    exact (hlt hcycle).false
  · intro h
    -- A member that is related to no other one comes first.
    induction hn : l.length generalizing l with
    | zero => exact ⟨[], by simp [List.eq_nil_of_length_eq_zero hn], .nil⟩
    | succ n ih =>
      obtain ⟨a, ha, hsink⟩ := exists_sink (List.ne_nil_of_length_eq_add_one hn) h
      have hsub : ∀ {b c}, On R (l.erase a) b c → On R l b c := fun hbc =>
        ⟨List.mem_of_mem_erase hbc.1, List.mem_of_mem_erase hbc.2.1, hbc.2.2⟩
      obtain ⟨l', hperm, hpairwise⟩ := ih (l.erase a) (fun b hb => h b (Relation.TransGen.mono (fun _ _ => hsub) _ _ hb))
        (by rw [List.length_erase_of_mem ha, hn]; rfl)
      refine ⟨a :: l', (hperm.cons a).trans (List.perm_cons_erase ha).symm, ?_⟩
      refine List.pairwise_cons.mpr ⟨fun b hb => hsink b ?_, hpairwise⟩
      exact List.mem_of_mem_erase (hperm.mem_iff.mp hb)

end Order

end Graph
