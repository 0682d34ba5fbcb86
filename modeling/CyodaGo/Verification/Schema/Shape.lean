import CyodaGo.Model.Schema.Node
import CyodaGo.Shared.PathTree
import Mathlib.Data.Bool.Basic
import Mathlib.Order.BoundedOrder.Lattice
import Mathlib.Order.WithBot

/-! # The shape of a model

A model is what it declares at each path. Shapes form a join semilattice, pointwise from the
declarations of one node, and `merge` is its join. -/

namespace CyodaGo.Schema

/-! ## Declarations of one node -/

-- The executable order of `Bool`, whatever other orders are in scope.
instance latticeBool : Lattice Bool := Bool.instDistribLattice.toLattice

instance orderBotBool : OrderBot Bool := Bool.instBoundedOrder.toOrderBot

namespace Leaf

variable {T : Type} [TypeSet T]

instance : Max (Leaf T) where
  max
    | .absent, b => b
    | a, .absent => a
    | .nullable, b => b
    | a, .nullable => a
    | .scalar s, .scalar t => .scalar (s ⊔ t)

instance : SemilatticeSup (Leaf T) :=
  SemilatticeSup.mk'
    (fun a b => by
      cases a <;> cases b <;> first | rfl | exact congrArg Leaf.scalar (sup_comm _ _))
    (fun a b c => by
      cases a <;> cases b <;> cases c <;>
        first | rfl | exact congrArg Leaf.scalar (sup_assoc _ _ _))
    (fun a => by cases a <;> first | rfl | exact congrArg Leaf.scalar (sup_idem _))

theorem le_iff_sup_eq {a b : Leaf T} : a ≤ b ↔ a ⊔ b = b := sup_eq_right.symm

instance : OrderBot (Leaf T) where
  bot := .absent
  bot_le _ := le_iff_sup_eq.mpr rfl

@[simp] theorem scalar_sup_scalar (s t : T) :
    Leaf.scalar s ⊔ Leaf.scalar t = Leaf.scalar (s ⊔ t) := rfl

@[simp] theorem absent_sup (l : Leaf T) : Leaf.absent ⊔ l = l := rfl

@[simp] theorem sup_absent (l : Leaf T) : l ⊔ Leaf.absent = l := by cases l <;> rfl

@[simp] theorem nullable_sup_scalar (s : T) : Leaf.nullable ⊔ Leaf.scalar s = .scalar s := rfl

@[simp] theorem scalar_sup_nullable (s : T) : Leaf.scalar s ⊔ Leaf.nullable = .scalar s := rfl

@[simp] theorem nullable_sup_nullable : (Leaf.nullable ⊔ Leaf.nullable : Leaf T) = .nullable := rfl

variable {l : Leaf T} {dts : List DataType}

theorem nullable_le_iff : Leaf.nullable ≤ l ↔ l ≠ .absent := by
  cases l <;> simp [le_iff_sup_eq]

theorem scalar_le_iff {s : T} : Leaf.scalar s ≤ l ↔ ∃ t, l = .scalar t ∧ s ≤ t := by
  cases l <;> simp [le_iff_sup_eq]

@[simp] theorem sup_eq_absent {a b : Leaf T} : a ⊔ b = .absent ↔ a = .absent ∧ b = .absent := by
  cases a <;> cases b <;> simp

/-- The declaration one data type makes. -/
def ofType : DataType → Leaf T
  | .null => .nullable
  | dt => .scalar (TypeSet.single dt)

def ofTypes (dts : List DataType) : Leaf T := dts.foldr (fun dt l => ofType dt ⊔ l) .absent

@[simp] theorem ofTypes_nil : (ofTypes [] : Leaf T) = .absent := rfl

@[simp] theorem ofTypes_cons (dt : DataType) (dts : List DataType) :
    (ofTypes (dt :: dts) : Leaf T) = ofType dt ⊔ ofTypes dts := rfl

theorem ofType_of_ne_null {dt : DataType} (h : dt ≠ .null) :
    (ofType dt : Leaf T) = .scalar (TypeSet.single dt) := by
  cases dt <;> first | rfl | exact absurd rfl h

theorem addScalarType_eq (l : Leaf T) (dt : DataType) : l.addScalarType dt = l ⊔ ofType dt := by
  by_cases h : dt = .null
  · subst h
    cases l <;> rfl
  rw [ofType_of_ne_null h]
  cases l <;> cases dt <;> first | rfl | exact absurd rfl h

theorem addScalarTypes_eq (l : Leaf T) (dts : List DataType) :
    l.addScalarTypes dts = l ⊔ ofTypes dts := by
  induction dts generalizing l with
  | nil => simp [addScalarTypes]
  | cons dt dts ih =>
    have hstep : l.addScalarTypes (dt :: dts) = (l.addScalarType dt).addScalarTypes dts := rfl
    rw [hstep, ih, addScalarType_eq, ofTypes_cons, sup_assoc]

theorem ofType_le_ofTypes {dt : DataType} (h : dt ∈ dts) : (ofType dt : Leaf T) ≤ ofTypes dts := by
  induction dts with
  | nil => simp at h
  | cons dt' dts ih =>
    rcases List.mem_cons.mp h with rfl | h
    · exact le_sup_left
    · exact (ih h).trans le_sup_right

theorem ofTypes_le_iff : ofTypes dts ≤ l ↔ ∀ dt ∈ dts, ofType dt ≤ l := by
  constructor
  · intro h dt hdt
    exact (ofType_le_ofTypes hdt).trans h
  · intro h
    induction dts with
    | nil => exact bot_le
    | cons dt dts ih =>
      exact sup_le (h dt (List.mem_cons_self ..)) (ih fun d hd => h d (List.mem_cons_of_mem _ hd))

/-- Types that contain no `NULL` declare the union of their sets. -/
theorem ofTypes_of_null_notMem (h : DataType.null ∉ dts) (hne : dts ≠ []) :
    (ofTypes dts : Leaf T) =
      .scalar (dts.foldr (fun dt t => TypeSet.single dt ⊔ t) ⊥) := by
  induction dts with
  | nil => exact absurd rfl hne
  | cons dt dts ih =>
    rw [List.mem_cons, not_or] at h
    rw [ofTypes_cons, ofType_of_ne_null (Ne.symm h.1)]
    by_cases hnil : dts = []
    · simp [hnil]
    · rw [ih h.2 hnil, scalar_sup_scalar, List.foldr_cons]

theorem ofTypes_types {s : T} (hne : TypeSet.types s ≠ []) :
    (ofTypes (TypeSet.types s) : Leaf T) = .scalar s := by
  rw [ofTypes_of_null_notMem (TypeSet.null_notMem s) hne, TypeSet.sup_single]

theorem ofTypes_types_le (s : T) : (ofTypes (TypeSet.types s) : Leaf T) ≤ .scalar s := by
  by_cases hne : TypeSet.types s = []
  · rw [hne]
    exact bot_le
  · rw [ofTypes_types hne]

theorem setNullable_eq (l : Leaf T) : l.setNullable = l ⊔ .nullable := by cases l <;> rfl

theorem declare_eq (l : Leaf T) : l.declare = l ⊔ .scalar ⊥ := by
  cases l <;> simp [declare]

/-- On a scalar branch the members of a set add up to the set. -/
@[simp] theorem scalar_sup_ofTypes (s t : T) :
    Leaf.scalar s ⊔ ofTypes (TypeSet.types t) = .scalar (s ⊔ t) := by
  by_cases hne : TypeSet.types t = []
  · have ht : t = ⊥ := by
      rw [← TypeSet.sup_single t, hne, List.foldr_nil]
    simp [ht, show TypeSet.types (⊥ : T) = [] from ht ▸ hne]
  · rw [ofTypes_types hne, scalar_sup_scalar]

theorem declare_addScalarTypes (l : Leaf T) (s : T) :
    l.declare.addScalarTypes (TypeSet.types s) = l ⊔ .scalar s := by
  rw [addScalarTypes_eq, declare_eq, sup_assoc, scalar_sup_ofTypes, bot_sup_eq]

end Leaf

/-! ## Shapes -/

inductive Segment where
  | field (name : String)
  | element
  deriving DecidableEq

/-- What one node declares: its scalar part, and whether it is an object and an array. -/
abbrev Decl (T : Type) := Leaf T × Bool × Bool

abbrev Shape (T : Type) := List Segment → WithBot (Decl T)

namespace ModelNode

variable {T : Type}

def decl (n : ModelNode T) : Decl T := (n.leaf, n.object.isSome, n.array.isSome)

def step (n : ModelNode T) : Segment → Option (ModelNode T)
  | .field name => n.child name
  | .element => n.element

/-- What the model declares at a path; `⊥` where it has no node. -/
def shape (n : ModelNode T) : Shape T
  | [] => n.decl
  | s :: p => match n.step s with
      | none => ⊥
      | some m => m.shape p

/-- The shape of a node that may be missing. -/
def optShape : Option (ModelNode T) → Shape T
  | none => fun _ => ⊥
  | some n => n.shape

/-- Two trees are the same when they differ at most in the order of their children. -/
def Same (a b : ModelNode T) : Prop := a.shape = b.shape

@[simp] theorem shape_nil (n : ModelNode T) : n.shape [] = n.decl := rfl

theorem shape_cons (n : ModelNode T) (s : Segment) (p : List Segment) :
    n.shape (s :: p) = optShape (n.step s) p := by
  rw [shape]
  cases n.step s <;> rfl

@[simp] theorem optShape_none (p : List Segment) : optShape (none : Option (ModelNode T)) p = ⊥ := rfl

@[simp] theorem optShape_some (n : ModelNode T) : optShape (some n) = n.shape := rfl

theorem optShape_nil_eq_bot {n : Option (ModelNode T)} : optShape n [] = ⊥ ↔ n = none := by
  cases n with
  | none => simp
  | some n => simp

/-! ## Trees all of whose nodes satisfy a property -/

inductive All (P : ModelNode T → Prop) : ModelNode T → Prop
  | mk {n : ModelNode T} (here : P n)
      (children : ∀ cs, n.object = some cs → ∀ x ∈ cs, All P x.2)
      (element : ∀ e, n.array = some (some e) → All P e) : All P n

variable {P Q : ModelNode T → Prop} {n m : ModelNode T}

theorem All.here (h : All P n) : P n := by cases h; assumption

open Entries

theorem mem_of_child {name : String} (h : n.child name = some m) :
    ∃ cs, n.object = some cs ∧ (name, m) ∈ cs := by
  obtain ⟨cs, hcs, hlookup⟩ := Option.bind_eq_some_iff.mp h
  exact ⟨cs, hcs, mem_of_lookup_eq_some hlookup⟩

theorem array_of_element (h : n.element = some m) : n.array = some (some m) := by
  rw [element, Option.join_eq_some_iff] at h
  exact h

theorem All.step (h : All P n) {s : Segment} (hs : n.step s = some m) : All P m := by
  cases h with
  | mk _ children element =>
    cases s with
    | field name =>
      obtain ⟨cs, hcs, hmem⟩ := mem_of_child hs
      exact children cs hcs _ hmem
    | element => exact element m (array_of_element hs)

theorem All.imp (hPQ : ∀ n, P n → Q n) (h : All P n) : All Q n := by
  induction h with
  | mk here _ _ children element =>
    exact .mk (hPQ _ here) children element

/-- A map has one entry for each key. -/
def DistinctNames (n : ModelNode T) : Prop := ∀ cs, n.object = some cs → (keys cs).Nodup

/-- The tree is made of maps. -/
abbrev Distinct (n : ModelNode T) : Prop := All DistinctNames n

/-! ## Merge is the join -/

section Merge

variable [TypeSet T]

theorem mergeLeaf_eq (a b : ModelNode T) : mergeLeaf a b = a.leaf ⊔ b.leaf := by
  obtain ⟨la, _, _⟩ := a
  obtain ⟨lb, _, _⟩ := b
  cases la <;> cases lb <;>
    simp [mergeLeaf, scalar, nullable, Leaf.setNullable_eq, Leaf.addScalarTypes_eq,
      Leaf.declare_eq]

theorem merge_eq (a b : ModelNode T) :
    a.merge b = ⟨a.leaf ⊔ b.leaf, mergeObject a.object b.object, mergeArray a.array b.array⟩ := by
  cases b with
  | mk leaf object array =>
    rw [merge, mergeLeaf_eq]

variable {ao bo : Children T} {a b : ModelNode T}

theorem lookup_mergeChildren (ao : Children T) (hbo : (keys bo).Nodup) (name : String) :
    (mergeChildren ao bo).lookup name = mergeElement (ao.lookup name) (bo.lookup name) := by
  induction bo generalizing ao with
  | nil => rfl
  | cons x rest ih =>
    obtain ⟨key, child⟩ := x
    rw [keys_cons, List.nodup_cons] at hbo
    rw [mergeChildren, ih _ hbo.2]
    by_cases hname : name = key
    · subst hname
      rw [lookup_set_self, lookup_eq_none_iff.mpr hbo.1, List.lookup_cons_self]
      cases ao.lookup name <;> rfl
    · rw [lookup_set_of_ne hname, lookup_cons_of_ne hname]

theorem child_merge (hb : b.DistinctNames) (name : String) :
    (a.merge b).child name = mergeElement (a.child name) (b.child name) := by
  rw [merge_eq]
  cases hobj : b.object with
  | none => simp [child, hobj, mergeObject, mergeElement]
  | some bo =>
    have hlookup := lookup_mergeChildren (a.object.getD []) (hb bo hobj) name
    cases hao : a.object <;> simpa [child, hobj, hao, mergeObject] using hlookup

theorem element_merge (a b : ModelNode T) :
    (a.merge b).element = mergeElement a.element b.element := by
  rw [merge_eq]
  cases hb : b.array with
  | none => simp [element, hb, mergeArray, mergeElement]
  | some elem => cases ha : a.array <;> simp [element, hb, ha, mergeArray]

theorem step_merge (hb : b.DistinctNames) (s : Segment) :
    (a.merge b).step s = mergeElement (a.step s) (b.step s) := by
  cases s with
  | field name => exact child_merge hb name
  | element => exact element_merge a b

theorem decl_merge (a b : ModelNode T) : (a.merge b).decl = a.decl ⊔ b.decl := by
  rw [merge_eq]
  refine Prod.ext rfl (Prod.ext ?_ ?_)
  · cases ha : a.object <;> cases hb : b.object <;> simp [decl, ha, hb, mergeObject]
  · cases ha : a.array <;> cases hb : b.array <;> simp [decl, ha, hb, mergeArray]

/-- Merging two models joins what they declare, path by path. -/
theorem shape_merge (hb : b.Distinct) : (a.merge b).shape = a.shape ⊔ b.shape := by
  funext p
  induction p generalizing a b with
  | nil => exact congrArg WithBot.some (decl_merge a b)
  | cons s p ih =>
    rw [Pi.sup_apply, shape_cons, shape_cons, shape_cons, step_merge hb.here]
    cases hbs : b.step s with
    | none => simp [mergeElement]
    | some bm =>
      cases a.step s with
      | none => simp [mergeElement]
      | some am => exact ih (hb.step hbs)

/-- Merging never takes a declaration away, whatever is merged in. -/
theorem le_shape_merge (a b : ModelNode T) : a.shape ≤ (a.merge b).shape := by
  intro p
  induction p generalizing a b with
  | nil => exact WithBot.coe_le_coe.mpr (decl_merge a b ▸ le_sup_left)
  | cons s p ih =>
    have helem : ∀ a b : Option (ModelNode T), optShape a p ≤ optShape (mergeElement a b) p := by
      rintro (_ | a) (_ | b)
      · exact le_rfl
      · exact bot_le
      · exact le_rfl
      · exact ih a b
    rw [shape_cons, shape_cons]
    cases s with
    | element =>
      rw [step, step, element_merge]
      exact helem _ _
    | field name =>
      rw [merge_eq]
      cases hobj : b.object with
      | none => simp [step, child, mergeObject]
      | some bo =>
        cases hao : a.object with
        | none => simp [step, child, hao]
        | some ao =>
          simp only [step, child, hao, mergeObject, Option.getD_some, Option.bind_some]
          clear hobj hao
          induction bo generalizing ao with
          | nil => exact le_rfl
          | cons x rest ihList =>
            rw [mergeChildren]
            refine le_trans ?_ (ihList _)
            by_cases hname : name = x.1
            · subst hname
              rw [lookup_set_self]
              cases ao.lookup x.1 with
              | none => exact bot_le
              | some e => exact ih e x.2
            · rw [lookup_set_of_ne hname]

/-! ## Properties that merging keeps -/

theorem mem_keys_mergeChildren {name : String} :
    name ∈ keys (mergeChildren ao bo) ↔ name ∈ keys ao ∨ name ∈ keys bo := by
  induction bo generalizing ao with
  | nil => simp [mergeChildren, keys]
  | cons x rest ih =>
    rw [mergeChildren, ih, mem_keys_set, keys_cons, List.mem_cons]
    tauto

theorem nodup_keys_mergeChildren (hao : (keys ao).Nodup) : (keys (mergeChildren ao bo)).Nodup := by
  induction bo generalizing ao with
  | nil => exact hao
  | cons x rest ih =>
    rw [mergeChildren]
    exact ih (nodup_keys_set hao)

/-- What every old and new child satisfies, and merging an old with a new one keeps, every
child of the result satisfies. -/
theorem forall_mem_mergeChildren (hao : ∀ x ∈ ao, P x.2) (hbo : ∀ x ∈ bo, P x.2)
    (hmerge : ∀ x ∈ bo, ∀ e, P e → P (e.merge x.2)) :
    ∀ x ∈ mergeChildren ao bo, P x.2 := by
  induction bo generalizing ao with
  | nil => exact hao
  | cons y rest ih =>
    obtain ⟨name, child⟩ := y
    rw [mergeChildren]
    refine ih (fun x hx => ?_) (fun x hx => hbo x (List.mem_cons_of_mem _ hx))
      (fun x hx => hmerge x (List.mem_cons_of_mem _ hx))
    rcases mem_set hx with rfl | hold
    · cases hlookup : ao.lookup name with
      | none => exact hbo _ (List.mem_cons_self ..)
      | some e =>
        have he := hao _ (mem_of_lookup_eq_some hlookup)
        exact hmerge _ (List.mem_cons_self ..) e he
    · exact hao x hold

/-- A property of nodes that `merge` keeps holds all over a merged tree. -/
theorem All.merge (hP : ∀ a b : ModelNode T, P a → P b → P (a.merge b)) (ha : All P a)
    (hb : All P b) : All P (a.merge b) := by
  induction hb generalizing a with
  | @mk b here children element ihChildren ihElement =>
    refine .mk (hP a b ha.here here) ?_ ?_
    · intro cs hcs x hx
      rw [merge_eq] at hcs
      cases hobj : b.object with
      | none =>
        rw [hobj] at hcs
        cases ha with
        | mk _ hchildren _ => exact hchildren cs hcs x hx
      | some bo =>
        simp only [hobj, mergeObject, Option.some.injEq] at hcs
        subst hcs
        refine forall_mem_mergeChildren (fun y hy => ?_) (children bo hobj)
          (fun y hy e he => ihChildren bo hobj y hy he) x hx
        cases hao : a.object with
        | none => simp [hao] at hy
        | some ao =>
          cases ha with
          | mk _ hchildren _ => exact hchildren ao hao y (by simpa [hao] using hy)
    · intro e he
      have hmerged : (a.merge b).element = some e := by rw [ModelNode.element, he]; rfl
      rw [element_merge] at hmerged
      cases hbe : b.element with
      | none =>
        rw [hbe] at hmerged
        exact ha.step (s := .element) hmerged
      | some be =>
        have hbarr := array_of_element hbe
        rw [hbe] at hmerged
        cases hae : a.element with
        | none =>
          simp only [hae, mergeElement, Option.some.injEq] at hmerged
          exact hmerged ▸ element be hbarr
        | some ae =>
          simp only [hae, mergeElement, Option.some.injEq] at hmerged
          exact hmerged ▸ ihElement be hbarr (ha.step (s := .element) hae)

theorem distinctNames_merge (a b : ModelNode T) (ha : a.DistinctNames) (_ : b.DistinctNames) :
    (a.merge b).DistinctNames := by
  intro cs hcs
  rw [merge_eq] at hcs
  cases hobj : b.object with
  | none => exact ha cs (by simpa [hobj, mergeObject] using hcs)
  | some bo =>
    simp only [hobj, mergeObject, Option.some.injEq] at hcs
    subst hcs
    refine nodup_keys_mergeChildren ?_
    cases hao : a.object with
    | none => simp [keys]
    | some ao => exact ha ao hao

theorem Distinct.merge (ha : a.Distinct) (hb : b.Distinct) : (a.merge b).Distinct :=
  All.merge distinctNames_merge ha hb

end Merge

end ModelNode

end CyodaGo.Schema
