import Mathlib.Data.List.Basic
import Mathlib.Data.List.Lookmap
import Mathlib.Tactic.TypeStar

/-! # Association lists with distinct keys

The entries of a map in one of its visiting orders. `List.lookup` reads it; `set` writes one
entry and leaves the others in place. -/

namespace Entries

variable {K V : Type*} [BEq K]

/-- Write `v` at `k`: in place when `k` has an entry, else as a new last entry. -/
def set : List (K × V) → K → V → List (K × V)
  | [], k, v => [(k, v)]
  | (k', v') :: rest, k, v =>
    if k' == k then (k', v) :: rest else (k', v') :: set rest k v

def keys (entries : List (K × V)) : List K := entries.map Prod.fst

omit [BEq K] in
@[simp] theorem keys_cons (x : K × V) (rest : List (K × V)) :
    keys (x :: rest) = x.1 :: keys rest := rfl

variable [LawfulBEq K] {entries : List (K × V)} {k k' : K} {v : V}

theorem lookup_cons_of_ne {x : K × V} (hne : k ≠ x.1) :
    (x :: entries).lookup k = entries.lookup k := by
  rw [List.lookup_cons, beq_eq_false_iff_ne.mpr hne]

@[simp] theorem lookup_set_self : (set entries k v).lookup k = some v := by
  induction entries with
  | nil => simp [set]
  | cons x rest ih =>
    obtain ⟨k', v'⟩ := x
    by_cases hk : k' = k
    · simp [set, hk]
    · rw [set, if_neg (by simpa using hk), lookup_cons_of_ne (Ne.symm hk), ih]

theorem lookup_set_of_ne (hne : k' ≠ k) : (set entries k v).lookup k' = entries.lookup k' := by
  induction entries with
  | nil => exact lookup_cons_of_ne hne
  | cons x rest ih =>
    obtain ⟨k'', v''⟩ := x
    by_cases hk : k'' = k
    · rw [set, if_pos (by simpa using hk), lookup_cons_of_ne (hk ▸ hne),
        lookup_cons_of_ne (hk ▸ hne)]
    · rw [set, if_neg (by simpa using hk), List.lookup_cons, List.lookup_cons, ih]

theorem mem_of_lookup_eq_some (h : entries.lookup k = some v) : (k, v) ∈ entries := by
  induction entries with
  | nil => simp at h
  | cons x rest ih =>
    obtain ⟨k', v'⟩ := x
    rw [List.lookup_cons] at h
    split at h
    · rename_i hk
      simp only [Option.some.injEq] at h
      simp [eq_of_beq hk, h]
    · exact List.mem_cons_of_mem _ (ih h)

theorem lookup_eq_some_of_mem (hnodup : (keys entries).Nodup) (h : (k, v) ∈ entries) :
    entries.lookup k = some v := by
  induction entries with
  | nil => simp at h
  | cons x rest ih =>
    obtain ⟨k', v'⟩ := x
    rw [keys_cons, List.nodup_cons] at hnodup
    rcases List.mem_cons.mp h with heq | hrest
    · cases heq
      simp
    have hne : k ≠ k' := by
      rintro rfl
      exact hnodup.1 (List.mem_map.mpr ⟨_, hrest, rfl⟩)
    rw [lookup_cons_of_ne hne, ih hnodup.2 hrest]

theorem lookup_eq_none_iff : entries.lookup k = none ↔ k ∉ keys entries := by
  induction entries with
  | nil => simp [keys]
  | cons x rest ih =>
    by_cases hk : k = x.1
    · simp [hk]
    rw [lookup_cons_of_ne hk, ih, keys_cons, List.mem_cons, not_or]
    exact (and_iff_right hk).symm

theorem exists_lookup_of_mem {x : K × V} (h : x ∈ entries) : ∃ v, entries.lookup x.1 = some v := by
  rw [← Option.ne_none_iff_exists', Ne, lookup_eq_none_iff, not_not]
  exact List.mem_map.mpr ⟨x, h, rfl⟩

theorem mem_keys_set {j : K} : j ∈ keys (set entries k v) ↔ j ∈ keys entries ∨ j = k := by
  induction entries with
  | nil => simp [set, keys]
  | cons x rest ih =>
    obtain ⟨k', v'⟩ := x
    by_cases hk : k' = k
    · subst hk
      simp only [set, beq_self_eq_true, if_true, keys_cons, List.mem_cons]
      tauto
    · simp only [set, beq_iff_eq, hk, if_false, keys_cons, List.mem_cons, ih]
      tauto

theorem nodup_keys_set (hnodup : (keys entries).Nodup) : (keys (set entries k v)).Nodup := by
  induction entries with
  | nil => simp [set, keys]
  | cons x rest ih =>
    obtain ⟨k', v'⟩ := x
    rw [keys_cons, List.nodup_cons] at hnodup
    by_cases hk : k' = k
    · simpa [set, hk] using hnodup
    simp only [set, beq_iff_eq, hk, if_false, keys_cons, List.nodup_cons]
    refine ⟨fun hmem => ?_, ih hnodup.2⟩
    rcases mem_keys_set.mp hmem with hold | hnew
    · exact hnodup.1 hold
    · exact hk hnew

/-- What `set` stores is the written value or was there before. -/
theorem mem_set {x : K × V} (h : x ∈ set entries k v) : x = (k, v) ∨ x ∈ entries := by
  induction entries with
  | nil => simpa [set] using h
  | cons y rest ih =>
    obtain ⟨k', v'⟩ := y
    by_cases hk : k' = k
    · subst hk
      simp only [set, beq_self_eq_true, if_true, List.mem_cons] at h
      exact h.imp id (List.mem_cons_of_mem _)
    · simp only [set, beq_iff_eq, hk, if_false, List.mem_cons] at h
      rcases h with rfl | h
      · exact .inr (List.mem_cons_self ..)
      · exact (ih h).imp id (List.mem_cons_of_mem _)

end Entries
