import Mathlib.Data.Set.Card
import Mathlib.Data.List.Dedup

/-! # Own writes over a snapshot

A transaction sees what it has buffered in place of what is committed, and nothing of what it
has deleted. A listing of the members of a class starts from the committed entries that a query
shows for the class and adds the buffered members. Listings differ in which of the shown entries
a buffered one hides: every one with its key, or only if it is a member itself. -/

structure Overlay (K E : Type*) where
  deletes : Set K
  buffer : K → Option E
  committed : K → Option E
  shown : K → Option E
  member : E → Prop

namespace Overlay

variable {K E : Type*} (o : Overlay K E)

/-- The transaction finds a member under the key. -/
def Effective (k : K) : Prop := ∃ e ∈ (o.buffer k).or (o.committed k), o.member e

/-- The keys of the members as the transaction sees them. -/
def view : Set K := {k | k ∉ o.deletes ∧ o.Effective k}

def own : Set K := {k | k ∉ o.deletes ∧ ∃ e ∈ o.buffer k, o.member e}

/-- The listing in which every buffered entry hides the shown one. -/
def masked : Set K := {k | k ∉ o.deletes ∧ o.buffer k = none ∧ (o.shown k).isSome} ∪ o.own

/-- The listing in which only a buffered member hides the shown one. -/
def narrow : Set K :=
  {k | k ∉ o.deletes ∧ (∀ e ∈ o.buffer k, ¬ o.member e) ∧ (o.shown k).isSome} ∪ o.own

/-- Every committed member is shown. -/
def ShowsMembers : Prop := ∀ k, ∀ e ∈ o.committed k, o.member e → (o.shown k).isSome

/-- What is shown and not deleted is a member as the transaction sees it. -/
def Settled : Prop := ∀ k ∉ o.deletes, (o.shown k).isSome → o.Effective k

variable {o}

theorem own_subset_view : o.own ⊆ o.view := by
  rintro k ⟨hdel, e, he, hmember⟩
  refine ⟨hdel, e, ?_, hmember⟩
  rw [Option.mem_def.mp he, Option.some_or]
  exact Option.mem_some_self e

/-- A buffered entry decides what the transaction finds. -/
theorem mem_own_of_view {k : K} (h : k ∈ o.view) (hbuffer : o.buffer k ≠ none) : k ∈ o.own := by
  obtain ⟨hdel, e, he, hmember⟩ := h
  obtain ⟨b, hb⟩ := Option.ne_none_iff_exists'.mp hbuffer
  rw [hb, Option.some_or] at he
  exact ⟨hdel, e, hb ▸ he, hmember⟩

theorem view_subset_masked (h : o.ShowsMembers) : o.view ⊆ o.masked := by
  intro k hk
  by_cases hbuffer : o.buffer k = none
  · obtain ⟨hdel, e, he, hmember⟩ := hk
    rw [hbuffer, Option.none_or] at he
    exact .inl ⟨hdel, hbuffer, h k e he hmember⟩
  · exact .inr (mem_own_of_view hk hbuffer)

theorem masked_subset_narrow : o.masked ⊆ o.narrow := by
  rintro k (⟨hdel, hbuffer, hshown⟩ | hown)
  · exact .inl ⟨hdel, by simp [hbuffer], hshown⟩
  · exact .inr hown

/-- The listing with the narrower hiding is right exactly if nothing that is shown has ceased
to be a member. -/
theorem narrow_eq_view_iff (h : o.ShowsMembers) : o.narrow = o.view ↔ o.Settled := by
  constructor
  · intro heq k hdel hshown
    by_cases hmember : ∃ e ∈ o.buffer k, o.member e
    · exact (own_subset_view ⟨hdel, hmember⟩).2
    have hk : k ∈ o.narrow := .inl ⟨hdel, by simpa using hmember, hshown⟩
    exact (heq ▸ hk : k ∈ o.view).2
  · intro hsettled
    refine Set.Subset.antisymm ?_ ((view_subset_masked h).trans masked_subset_narrow)
    rintro k (⟨hdel, -, hshown⟩ | hown)
    · exact ⟨hdel, hsettled k hdel hshown⟩
    · exact own_subset_view hown

theorem masked_eq_view (h : o.ShowsMembers) (hsettled : o.Settled) : o.masked = o.view := by
  refine Set.Subset.antisymm ?_ (view_subset_masked h)
  exact masked_subset_narrow.trans ((narrow_eq_view_iff h).mpr hsettled).subset

/-! ## Listings -/

section Listing

variable {key : E → K} {committed adds : List E} {hidden : K → Bool}

theorem setOf_mem_listing (hcommitted : ∀ k, k ∈ committed.map key ↔ (o.shown k).isSome)
    (hadds : ∀ k, k ∈ adds.map key ↔ k ∈ o.own) :
    {k | k ∈ (committed.filter (fun e => !hidden (key e)) ++ adds).map key} =
      {k | hidden k = false ∧ (o.shown k).isSome} ∪ o.own := by
  ext k
  have hkept : k ∈ (committed.filter fun e => !hidden (key e)).map key ↔
      hidden k = false ∧ k ∈ committed.map key := by
    simp only [List.mem_map, List.mem_filter, Bool.not_eq_true']
    constructor
    · rintro ⟨e, ⟨he, hhidden⟩, rfl⟩
      exact ⟨hhidden, e, he, rfl⟩
    · rintro ⟨hhidden, e, he, rfl⟩
      exact ⟨e, ⟨he, hhidden⟩, rfl⟩
  simp only [List.map_append, List.mem_append, Set.mem_ofPred_eq, Set.mem_union, hkept, hcommitted,
    hadds]

theorem nodup_listing (hcommitted : (committed.map key).Nodup) (hadds : (adds.map key).Nodup)
    (hown : ∀ k ∈ adds.map key, hidden k = true) :
    ((committed.filter (fun e => !hidden (key e)) ++ adds).map key).Nodup := by
  rw [List.map_append]
  refine List.Nodup.append (hcommitted.sublist (List.filter_sublist.map key)) hadds ?_
  intro k hk hk'
  obtain ⟨e, he, rfl⟩ := List.mem_map.mp hk
  simpa [hown _ hk'] using (List.mem_filter.mp he).2

end Listing

end Overlay

theorem List.Nodup.ncard_setOf_mem {K : Type*} {ks : List K} (h : ks.Nodup) :
    {k | k ∈ ks}.ncard = ks.length := by
  classical
  rw [← List.toFinset_card_of_nodup h, ← Set.ncard_coe_finset]
  congr 1
  ext k
  simp

/-- Every element stands on one of the pages. -/
theorem List.exists_mem_page_iff {A : Type*} {xs : List A} {limit : ℕ} (hlimit : 0 < limit) {x : A} :
    (∃ k, x ∈ (xs.drop (k * limit)).take limit) ↔ x ∈ xs := by
  constructor
  · rintro ⟨k, hx⟩
    exact List.mem_of_mem_drop (List.mem_of_mem_take hx)
  · intro hx
    obtain ⟨i, hi, rfl⟩ := List.getElem_of_mem hx
    refine ⟨i / limit, List.mem_iff_getElem?.mpr ⟨i % limit, ?_⟩⟩
    rw [List.getElem?_take_of_lt (Nat.mod_lt i hlimit), List.getElem?_drop, Nat.mul_comm,
      Nat.div_add_mod, List.getElem?_eq_getElem hi]

/-! ## Rows under their own keys -/

section Rows

variable {K E : Type*} {f : K → Option E} {key : E → K} (hkey : ∀ k e, f k = some e → key e = k)

include hkey in
theorem List.mem_map_filterMap_iff {ks : List K} {k : K} :
    k ∈ (ks.filterMap f).map key ↔ k ∈ ks ∧ (f k).isSome := by
  simp only [List.mem_map, List.mem_filterMap, Option.isSome_iff_exists]
  constructor
  · rintro ⟨e, ⟨k', hmem, he⟩, rfl⟩
    obtain rfl := hkey k' e he
    exact ⟨hmem, e, he⟩
  · rintro ⟨hmem, e, he⟩
    exact ⟨e, ⟨k, hmem, he⟩, hkey k e he⟩

include hkey in
theorem List.Nodup.map_filterMap {ks : List K} (h : ks.Nodup) : ((ks.filterMap f).map key).Nodup := by
  induction ks with
  | nil => exact List.nodup_nil
  | cons k ks ih =>
    obtain ⟨hk, hks⟩ := List.nodup_cons.mp h
    cases he : f k with
    | none =>
      rw [List.filterMap_cons_none he]
      exact ih hks
    | some e =>
      rw [List.filterMap_cons_some he, List.map_cons, hkey k e he, List.nodup_cons]
      exact ⟨fun hmem => hk ((List.mem_map_filterMap_iff hkey).mp hmem).1, ih hks⟩

end Rows
