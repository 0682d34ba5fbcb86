import Mathlib.Data.List.AList
import Mathlib.Data.List.Sort

/-! # Finite maps with unordered iteration

A map value does not fix the order in which a loop visits it. Every loop below
therefore receives the visiting order, a permutation of the keys, as an argument. -/

/-- A finite map from `K` to `V`; reading an absent key gives `none`. -/
structure GoMap (K V : Type*) where
  toAList : AList fun _ : K => V

namespace GoMap

variable {K V W : Type*}

instance : EmptyCollection (GoMap K V) := ⟨⟨∅⟩⟩

instance : Inhabited (GoMap K V) := ⟨∅⟩

def keys (m : GoMap K V) : List K := m.toAList.keys

theorem keys_nodup (m : GoMap K V) : m.keys.Nodup := m.toAList.keys_nodup

@[simp] theorem keys_empty : (∅ : GoMap K V).keys = [] := rfl

variable [DecidableEq K]

def get (m : GoMap K V) (k : K) : Option V := m.toAList.lookup k

/-- The value at `k`, or the zero value `d` of the value type. -/
def getD (m : GoMap K V) (k : K) (d : V) : V := (m.get k).getD d

def set (m : GoMap K V) (k : K) (v : V) : GoMap K V := ⟨m.toAList.insert k v⟩

def del (m : GoMap K V) (k : K) : GoMap K V := ⟨m.toAList.erase k⟩

/-- The pairs met by a loop over `m` that visits the keys in `order`. -/
def inOrder (m : GoMap K V) (order : List K) : List (K × V) :=
  order.filterMap fun k => (m.get k).map (k, ·)

/-- Every value replaced by `f`, which may also drop the entry. -/
def filterMap (m : GoMap K V) (f : K → V → Option W) : GoMap K W :=
  m.toAList.entries.foldr
    (fun kv acc =>
      match f kv.1 kv.2 with
      | some w => acc.set kv.1 w
      | none => acc) ∅

def map (m : GoMap K V) (f : V → W) : GoMap K W := m.filterMap fun _ v => some (f v)

def filter (m : GoMap K V) (p : K → V → Bool) : GoMap K V :=
  m.filterMap fun k v => if p k v then some v else none

@[simp] theorem get_empty (k : K) : (∅ : GoMap K V).get k = none := rfl

theorem get_set (m : GoMap K V) (a k : K) (v : V) :
    (m.set a v).get k = if k = a then some v else m.get k := by
  unfold get set
  split
  · next h => subst h; exact AList.lookup_insert _
  · next h => exact AList.lookup_insert_ne h

@[simp] theorem get_set_self (m : GoMap K V) (k : K) (v : V) : (m.set k v).get k = some v := by
  simp [get_set]

variable {k : K} {m : GoMap K V} {v : V} {order : List K}

theorem get_set_of_ne (m : GoMap K V) {a : K} (v : V) (h : k ≠ a) :
    (m.set a v).get k = m.get k := by
  simp [get_set, h]

theorem get_del (m : GoMap K V) (a k : K) : (m.del a).get k = if k = a then none else m.get k := by
  unfold get del
  split
  · next h => subst h; exact AList.lookup_erase _ _
  · next h => exact AList.lookup_erase_ne h

@[simp] theorem get_del_self (m : GoMap K V) (k : K) : (m.del k).get k = none := by
  simp [get_del]

theorem get_del_of_ne (m : GoMap K V) {a : K} (h : k ≠ a) : (m.del a).get k = m.get k := by
  simp [get_del, h]

@[simp] theorem getD_empty (k : K) (d : V) : (∅ : GoMap K V).getD k d = d := rfl

theorem getD_set (m : GoMap K V) (a k : K) (v d : V) :
    (m.set a v).getD k d = if k = a then v else m.getD k d := by
  unfold getD
  rw [get_set]
  split <;> rfl

@[simp] theorem getD_set_self (m : GoMap K V) (k : K) (v d : V) : (m.set k v).getD k d = v := by
  simp [getD_set]

theorem getD_del (m : GoMap K V) (a k : K) (d : V) :
    (m.del a).getD k d = if k = a then d else m.getD k d := by
  unfold getD
  rw [get_del]
  split <;> rfl

theorem mem_keys (m : GoMap K V) (k : K) : k ∈ m.keys ↔ ∃ v, m.get k = some v := by
  rw [← Option.isSome_iff_exists]
  exact AList.lookup_isSome.symm

theorem mem_keys_of_get (h : m.get k = some v) : k ∈ m.keys := (m.mem_keys k).mpr ⟨v, h⟩

theorem get_eq_none_of_notMem (h : k ∉ m.keys) : m.get k = none := by
  cases hg : m.get k with
  | none => rfl
  | some v => exact absurd (mem_keys_of_get hg) h

theorem mem_keys_set (m : GoMap K V) (a k : K) (v : V) :
    k ∈ (m.set a v).keys ↔ k = a ∨ k ∈ m.keys := by
  rw [mem_keys, mem_keys, get_set]
  split <;> simp_all

theorem mem_keys_del (m : GoMap K V) (a k : K) : k ∈ (m.del a).keys ↔ k ≠ a ∧ k ∈ m.keys := by
  rw [mem_keys, mem_keys, get_del]
  split <;> simp_all

/-! ## Rebuilding a map -/

theorem get_filterMap (m : GoMap K V) (f : K → V → Option W) (k : K) :
    (m.filterMap f).get k = (m.get k).bind (f k) := by
  obtain ⟨⟨entries, hnodup⟩⟩ := m
  change GoMap.get (entries.foldr _ ∅) k = (entries.dlookup k).bind (f k)
  induction entries with
  | nil => rfl
  | cons kv entries ih =>
    obtain ⟨a, v⟩ := kv
    obtain ⟨ha, hrest⟩ := List.nodupKeys_cons.mp hnodup
    have ih := ih hrest
    rw [List.foldr_cons]
    by_cases hk : k = a
    · subst hk
      have hnone : entries.dlookup k = none := List.dlookup_eq_none.mpr ha
      rw [hnone] at ih
      rw [List.dlookup_cons_eq]
      cases hf : f k v with
      | none => simpa [hf] using ih
      | some w => simp [hf]
    · rw [List.dlookup_cons_ne _ _ hk, ← ih]
      cases hf : f a v with
      | none => simp
      | some w => simp [get_set_of_ne, hk]

theorem get_map (m : GoMap K V) (f : V → W) (k : K) : (m.map f).get k = (m.get k).map f := by
  unfold map
  rw [get_filterMap]
  cases m.get k <;> rfl

theorem get_filter (m : GoMap K V) (p : K → V → Bool) (k : K) :
    (m.filter p).get k = (m.get k).filter (p k) := by
  unfold filter
  rw [get_filterMap]
  cases m.get k with
  | none => rfl
  | some v => simp [Option.filter]

/-! ## Loops over a map -/

@[simp] theorem inOrder_nil (m : GoMap K V) : m.inOrder [] = [] := rfl

theorem inOrder_cons_of_get (order : List K) (h : m.get k = some v) :
    m.inOrder (k :: order) = (k, v) :: m.inOrder order := by
  simp [inOrder, h]

theorem mem_inOrder : (k, v) ∈ m.inOrder order ↔ k ∈ order ∧ m.get k = some v := by
  unfold inOrder
  rw [List.mem_filterMap]
  constructor
  · rintro ⟨a, ha, hv⟩
    obtain ⟨w, hw, heq⟩ := Option.map_eq_some_iff.mp hv
    cases heq
    exact ⟨ha, hw⟩
  · rintro ⟨hk, hv⟩
    exact ⟨k, hk, by simp [hv]⟩

/-- The keys met by a loop are the visiting order itself when every visited key is
present. -/
theorem map_fst_inOrder (h : ∀ k ∈ order, k ∈ m.keys) : (m.inOrder order).map Prod.fst = order := by
  induction order with
  | nil => rfl
  | cons k order ih =>
    obtain ⟨v, hv⟩ := (m.mem_keys k).mp (h k (by simp))
    rw [inOrder_cons_of_get order hv, List.map_cons, ih fun a ha => h a (by simp [ha])]

/-- Two visiting orders of one map meet the same pairs up to order. -/
theorem inOrder_perm (m : GoMap K V) {order' : List K} (h : order.Perm order') :
    (m.inOrder order).Perm (m.inOrder order') :=
  h.filterMap _

theorem inOrder_congr {m' : GoMap K V} (h : ∀ k ∈ order, m.get k = m'.get k) :
    m.inOrder order = m'.inOrder order := by
  unfold inOrder
  exact List.filterMap_congr fun k hk => by rw [h k hk]

/-- Two maps that agree everywhere hold the same values up to order. -/
theorem inOrder_keys_perm {m' : GoMap K V} (h : ∀ k, m.get k = m'.get k) :
    (m.inOrder m.keys).Perm (m'.inOrder m'.keys) := by
  have hkeys : m.keys.Perm m'.keys := by
    rw [List.perm_ext_iff_of_nodup m.keys_nodup m'.keys_nodup]
    intro k
    rw [mem_keys, mem_keys, h]
  rw [inOrder_congr fun k _ => h k]
  exact m'.inOrder_perm hkeys

/-! ## Counting values -/

section Count

variable (m : GoMap K V) (p : V → Bool) {k : K} {v : V}

/-- How many keys hold a value with `p`. -/
def count : ℕ := (m.inOrder m.keys).countP fun kv => p kv.2

theorem count_congr {m m' : GoMap K V} (h : ∀ k, m.get k = m'.get k) : m.count p = m'.count p :=
  (inOrder_keys_perm h).countP_eq _

theorem count_of_get {m : GoMap K V} (h : m.get k = some v) :
    m.count p = (m.del k).count p + if p v then 1 else 0 := by
  have hkeys : m.keys.Perm (k :: (m.del k).keys) := by
    rw [List.perm_ext_iff_of_nodup m.keys_nodup
      (List.nodup_cons.mpr ⟨by simp [mem_keys_del], (m.del k).keys_nodup⟩)]
    intro a
    by_cases ha : a = k
    · simp [ha, mem_keys_of_get h]
    · simp [mem_keys_del, ha]
  have hrest : m.inOrder (m.del k).keys = (m.del k).inOrder (m.del k).keys :=
    inOrder_congr fun a ha => (m.get_del_of_ne ((m.mem_keys_del k a).mp ha).1).symm
  rw [count, (m.inOrder_perm hkeys).countP_eq, inOrder_cons_of_get _ h, List.countP_cons, hrest]
  rfl

theorem count_del_of_none {m : GoMap K V} (h : m.get k = none) : (m.del k).count p = m.count p := by
  refine count_congr p fun a => ?_
  rw [get_del]
  split <;> simp_all

theorem count_set : (m.set k v).count p = (m.del k).count p + if p v then 1 else 0 := by
  have hsame : ∀ a, ((m.set k v).del k).get a = (m.del k).get a := by
    intro a
    simp only [get_del, get_set]
    split <;> rfl
  rw [count_of_get p (m.get_set_self k v), count_congr p hsame]

theorem count_set_of_get {m : GoMap K V} {w : V} (h : m.get k = some v) :
    (m.set k w).count p + (if p v then 1 else 0) = m.count p + if p w then 1 else 0 := by
  rw [count_set, count_of_get p h]
  omega

theorem count_set_of_none {m : GoMap K V} (h : m.get k = none) :
    (m.set k v).count p = m.count p + if p v then 1 else 0 := by
  rw [count_set, count_del_of_none p h]

theorem count_eq_zero {m : GoMap K V} : m.count p = 0 ↔ ∀ k v, m.get k = some v → p v = false := by
  rw [count, List.countP_eq_zero]
  constructor
  · intro h k v hget
    simpa using h (k, v) (mem_inOrder.mpr ⟨mem_keys_of_get hget, hget⟩)
  · intro h kv hkv
    simpa using h kv.1 kv.2 (mem_inOrder.mp hkv).2

end Count

/-! ## Filling a map from a list -/

section Fill

variable {A : Type*} (key : A → K) (val : A → V)

theorem get_foldl_set_of_notMem (xs : List A) (m : GoMap K V) {k : K} (h : k ∉ xs.map key) :
    (xs.foldl (fun m x => m.set (key x) (val x)) m).get k = m.get k := by
  induction xs generalizing m with
  | nil => rfl
  | cons x xs ih =>
    simp only [List.map_cons, List.mem_cons, not_or] at h
    rw [List.foldl_cons, ih _ h.2, get_set_of_ne _ _ h.1]

/-- With distinct keys, the map holds what the list holds. -/
theorem get_foldl_set_of_mem {xs : List A} (hnodup : (xs.map key).Nodup) (m : GoMap K V) {x : A}
    (h : x ∈ xs) : (xs.foldl (fun m x => m.set (key x) (val x)) m).get (key x) = some (val x) := by
  induction xs generalizing m with
  | nil => cases h
  | cons y xs ih =>
    obtain ⟨hy, hnodup⟩ := List.nodup_cons.mp hnodup
    rw [List.foldl_cons]
    rcases List.mem_cons.mp h with rfl | h
    · rw [get_foldl_set_of_notMem key val xs _ hy, get_set_self]
    · exact ih hnodup _ h

end Fill

end GoMap

/-! ## Results that do not depend on the visiting order -/

namespace List

variable {A B : Type*}

end List
