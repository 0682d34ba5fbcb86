import CyodaGo.Shared.Graph
import Mathlib.Data.List.Flatten
import Mathlib.Data.List.Nodup

/-! # A table of rows with unique values, replaced owner by owner

Each row has an owner and a value that no other row may have. A batch gives new rows to some
owners; they are served one after the other, so a row that an owner gives up stays in the way of
those served before. -/

namespace Holdings

/-- The new rows of each item, which all belong to the item's holder. -/
structure Batch (I R V O : Type*) where
  value : R → V
  owner : R → O
  holder : I → O
  rows : I → List R
  own : ∀ {i r}, r ∈ rows i → owner r = holder i
  holder_injective : Function.Injective holder

namespace Batch

variable {I R V O : Type*} [DecidableEq O] (b : Batch I R V O) {t : List R} {i j : I} {l : List I}

def release (t : List R) (i : I) : List R := t.filter fun r => b.owner r ≠ b.holder i

/-- The rows of owners that are not served. -/
def kept (t : List R) (l : List I) : List R := t.filter fun r => b.owner r ∉ l.map b.holder

/-- The new rows have distinct values, which no row of another owner has. -/
def Clear (t : List R) (l : List I) : Prop :=
  ((l.flatMap b.rows).map b.value).Nodup ∧
    ∀ r ∈ l.flatMap b.rows, ∀ r' ∈ b.kept t l, b.value r' ≠ b.value r

/-- `i` takes a value that `j` holds. -/
def Takes (t : List R) (i j : I) : Prop :=
  i ≠ j ∧ ∃ r ∈ b.rows i, ∃ r' ∈ t, b.owner r' = b.holder j ∧ b.value r' = b.value r

instance [DecidableEq V] : Decidable (b.Clear t l) := inferInstanceAs (Decidable (_ ∧ _))

instance [DecidableEq I] [DecidableEq V] : Decidable (b.Takes t i j) :=
  inferInstanceAs (Decidable (_ ∧ _))

variable {b}

theorem mem_kept {r : R} : r ∈ b.kept t l ↔ r ∈ t ∧ ∀ i ∈ l, b.owner r ≠ b.holder i := by
  simp [kept, eq_comm]

theorem mem_release {r : R} : r ∈ b.release t i ↔ r ∈ t ∧ b.owner r ≠ b.holder i := by
  simp [release]

theorem kept_cons (h : i ∉ l) :
    b.kept (b.release t i ++ b.rows i) l = b.kept t (i :: l) ++ b.rows i := by
  have hown : (b.rows i).filter (fun r => b.owner r ∉ l.map b.holder) = b.rows i := by
    rw [List.filter_eq_self]
    intro r hr
    rw [b.own hr]
    simpa [b.holder_injective.eq_iff] using h
  have hkept : (b.release t i).filter (fun r => b.owner r ∉ l.map b.holder) =
      b.kept t (i :: l) := by
    rw [release, List.filter_filter, kept]
    refine List.filter_congr fun r _ => ?_
    rw [List.map_cons, ← Bool.decide_and, decide_eq_decide, List.mem_cons, not_or]
    exact and_comm
  rw [kept, List.filter_append, hown, hkept]

/-- Serving `i` changes nothing about what others hold. -/
theorem takes_served {k : I} (h : k ≠ i) :
    b.Takes (b.release t i ++ b.rows i) j k ↔ b.Takes t j k := by
  have hholder : ∀ {r'}, b.owner r' = b.holder k →
      (r' ∈ b.release t i ++ b.rows i ↔ r' ∈ t) := by
    intro r' howner
    have hne : b.owner r' ≠ b.holder i := by
      rw [howner]
      exact fun heq => h (b.holder_injective heq)
    rw [List.mem_append, mem_release]
    exact ⟨fun hmem => hmem.elim And.left fun hr => absurd (b.own hr) hne,
      fun hmem => .inl ⟨hmem, hne⟩⟩
  refine and_congr_right fun _ => exists_congr fun r => and_congr_right fun _ =>
    exists_congr fun r' => ?_
  constructor
  · rintro ⟨hmem, howner, hvalue⟩
    exact ⟨(hholder howner).mp hmem, howner, hvalue⟩
  · rintro ⟨hmem, howner, hvalue⟩
    exact ⟨(hholder howner).mpr hmem, howner, hvalue⟩

/-- The first item is stopped by rows of owners that are not served and by rows of later items. -/
theorem fresh_iff (h : i ∉ l) :
    (∀ r ∈ b.rows i, ∀ r' ∈ b.release t i, b.value r' ≠ b.value r) ↔
      (∀ r ∈ b.rows i, ∀ r' ∈ b.kept t (i :: l), b.value r' ≠ b.value r) ∧
        ∀ j ∈ l, ¬ b.Takes t i j := by
  constructor
  · intro hfresh
    refine ⟨fun r hr r' hr' => ?_, ?_⟩
    · obtain ⟨hmem, howner⟩ := mem_kept.mp hr'
      exact hfresh r hr r' (mem_release.mpr ⟨hmem, howner i (by simp)⟩)
    · rintro j hj ⟨hne, r, hr, r', hr', howner, hvalue⟩
      refine hfresh r hr r' (mem_release.mpr ⟨hr', ?_⟩) hvalue
      rw [howner]
      exact fun heq => hne (b.holder_injective heq).symm
  · rintro ⟨hkept, htakes⟩ r hr r' hr' hvalue
    obtain ⟨hmem, hne⟩ := mem_release.mp hr'
    by_cases hlater : ∃ j ∈ l, b.owner r' = b.holder j
    · obtain ⟨j, hj, howner⟩ := hlater
      refine htakes j hj ⟨?_, r, hr, r', hmem, howner, hvalue⟩
      rintro rfl
      exact h hj
    · refine hkept r hr r' (mem_kept.mpr ⟨hmem, fun j hj howner => ?_⟩) hvalue
      rcases List.mem_cons.mp hj with rfl | hj
      · exact hne howner
      · exact hlater ⟨j, hj, howner⟩

theorem clear_cons (h : i ∉ l) :
    b.Clear t (i :: l) ↔
      (((b.rows i).map b.value).Nodup ∧
          ∀ r ∈ b.rows i, ∀ r' ∈ b.kept t (i :: l), b.value r' ≠ b.value r) ∧
        b.Clear (b.release t i ++ b.rows i) l := by
  rw [Clear, Clear, kept_cons h, List.flatMap_cons, List.map_append, List.nodup_append']
  constructor
  · rintro ⟨⟨hi, hl, hdisjoint⟩, hclear⟩
    refine ⟨⟨hi, fun r hr => hclear r (List.mem_append_left _ hr)⟩, hl, ?_⟩
    intro r hr r' hr'
    rcases List.mem_append.mp hr' with hr' | hr'
    · exact hclear r (List.mem_append_right _ hr) r' hr'
    · exact fun heq => hdisjoint (List.mem_map_of_mem hr') (heq ▸ List.mem_map_of_mem hr)
  · rintro ⟨⟨hi, hfresh⟩, hl, hclear⟩
    refine ⟨⟨hi, hl, ?_⟩, ?_⟩
    · intro v hv hv'
      obtain ⟨r', hr', rfl⟩ := List.mem_map.mp hv
      obtain ⟨r, hr, heq⟩ := List.mem_map.mp hv'
      exact hclear r hr r' (List.mem_append_right _ hr') heq.symm
    · intro r hr r' hr'
      rcases List.mem_append.mp hr with hr | hr
      · exact hfresh r hr r' hr'
      · exact hclear r hr r' (List.mem_append_left _ hr')

theorem Clear.perm {l' : List I} (h : b.Clear t l) (hperm : l'.Perm l) : b.Clear t l' := by
  have hrows := hperm.flatMap_right b.rows
  refine ⟨(hrows.map _).nodup_iff.mpr h.1, fun r hr r' hr' => ?_⟩
  obtain ⟨hmem, howner⟩ := mem_kept.mp hr'
  exact h.2 r (hrows.mem_iff.mp hr) r'
    (mem_kept.mpr ⟨hmem, fun j hj => howner j (hperm.mem_iff.mpr hj)⟩)

/-- Without hand-overs a part of the items can be served. -/
theorem Clear.sublist {l' : List I} (h : b.Clear t l) (hsub : l'.Sublist l)
    (htakes : ∀ i ∈ l, ∀ j ∈ l, ¬ b.Takes t i j) : b.Clear t l' := by
  have hrows : (l'.flatMap b.rows).Sublist (l.flatMap b.rows) := hsub.flatMap b.rows
  refine ⟨h.1.sublist (hrows.map _), fun r hr r' hr' hvalue => ?_⟩
  obtain ⟨hmem, howner⟩ := mem_kept.mp hr'
  by_cases hserved : ∃ j ∈ l, b.owner r' = b.holder j
  · obtain ⟨j, hj, hj'⟩ := hserved
    obtain ⟨i, hi, hri⟩ := List.mem_flatMap.mp hr
    refine htakes i (hsub.subset hi) j hj ⟨?_, r, hri, r', hmem, hj', hvalue⟩
    rintro rfl
    exact howner i hi hj'
  · exact h.2 r (hrows.subset hr) r'
      (mem_kept.mpr ⟨hmem, fun j hj hj' => hserved ⟨j, hj, hj'⟩⟩) hvalue

/-! ## Insertion -/

variable [DecidableEq V] (b)

/-- The insertion of a row, unless its value is taken. -/
def insert (t : List R) (r : R) : Option (List R) :=
  if b.value r ∈ t.map b.value then none else some (t ++ [r])

def insertAll (t : List R) (rs : List R) : Option (List R) := rs.foldlM b.insert t

def replace (t : List R) (i : I) : Option (List R) := b.insertAll (b.release t i) (b.rows i)

def replaceAll (t : List R) (l : List I) : Option (List R) := l.foldlM b.replace t

variable {b}

omit [DecidableEq O] in
theorem insertAll_of_fresh {rs : List R} (hnodup : (rs.map b.value).Nodup)
    (hfresh : ∀ r ∈ rs, ∀ r' ∈ t, b.value r' ≠ b.value r) : b.insertAll t rs = some (t ++ rs) := by
  induction rs generalizing t with
  | nil => simp [insertAll]
  | cons r rs ih =>
    rw [List.map_cons, List.nodup_cons] at hnodup
    have hr : b.value r ∉ t.map b.value := by
      rintro hmem
      obtain ⟨r', hr', heq⟩ := List.mem_map.mp hmem
      exact hfresh r (by simp) r' hr' heq
    have hrest : ∀ q ∈ rs, ∀ r' ∈ t ++ [r], b.value r' ≠ b.value q := by
      intro q hq r' hr'
      rcases List.mem_append.mp hr' with hr' | hr'
      · exact hfresh q (List.mem_cons_of_mem _ hq) r' hr'
      · obtain rfl := List.mem_singleton.mp hr'
        exact fun heq => hnodup.1 (heq ▸ List.mem_map_of_mem hq)
    rw [insertAll, List.foldlM_cons, insert, if_neg hr]
    simpa [insertAll] using ih hnodup.2 hrest

omit [DecidableEq O] in
theorem fresh_of_insertAll {rs t' : List R} (h : b.insertAll t rs = some t') :
    (rs.map b.value).Nodup ∧ ∀ r ∈ rs, ∀ r' ∈ t, b.value r' ≠ b.value r := by
  induction rs generalizing t with
  | nil => simp
  | cons r rs ih =>
    rw [insertAll, List.foldlM_cons, insert] at h
    split at h
    · cases h
    · next hr =>
      obtain ⟨hnodup, hfresh⟩ := ih h
      refine ⟨?_, ?_⟩
      · rw [List.map_cons, List.nodup_cons]
        refine ⟨fun hmem => ?_, hnodup⟩
        obtain ⟨q, hq, heq⟩ := List.mem_map.mp hmem
        exact hfresh q hq r (by simp) heq.symm
      · intro q hq r' hr'
        rcases List.mem_cons.mp hq with rfl | hq
        · exact fun heq => hr (heq ▸ List.mem_map_of_mem hr')
        · exact hfresh q hq r' (List.mem_append_left _ hr')

/-- What serving the first item needs and leaves. -/
theorem replaceAll_cons (h : i ∉ l) :
    (((b.rows i).map b.value).Nodup ∧
        (∀ r ∈ b.rows i, ∀ r' ∈ b.kept t (i :: l), b.value r' ≠ b.value r) ∧
        (∀ j ∈ l, ¬ b.Takes t i j) ∧
        b.replaceAll t (i :: l) = b.replaceAll (b.release t i ++ b.rows i) l) ∨
      (¬ (((b.rows i).map b.value).Nodup ∧
          (∀ r ∈ b.rows i, ∀ r' ∈ b.kept t (i :: l), b.value r' ≠ b.value r) ∧
          ∀ j ∈ l, ¬ b.Takes t i j) ∧
        b.replaceAll t (i :: l) = none) := by
  rw [← fresh_iff h, replaceAll, List.foldlM_cons, replace]
  cases hinsert : b.insertAll (b.release t i) (b.rows i) with
  | none =>
    refine .inr ⟨fun hfresh => ?_, rfl⟩
    cases (insertAll_of_fresh hfresh.1 hfresh.2).symm.trans hinsert
  | some t1 =>
    have hfresh := fresh_of_insertAll hinsert
    cases (insertAll_of_fresh hfresh.1 hfresh.2).symm.trans hinsert
    obtain ⟨hkept, htakes⟩ := (fresh_iff h).mp hfresh.2
    exact .inl ⟨hfresh.1, hkept, htakes, rfl⟩

/-- The items go through exactly if the rows they leave have distinct values and none takes a
value that a later one still holds. -/
theorem isSome_replaceAll_iff (h : l.Nodup) :
    (b.replaceAll t l).isSome = true ↔
      b.Clear t l ∧ l.Pairwise (fun i j => ¬ b.Takes t i j) := by
  induction l generalizing t with
  | nil => exact iff_of_true rfl ⟨by simp [Clear], .nil⟩
  | cons i l ih =>
    obtain ⟨hi, hl⟩ := List.nodup_cons.mp h
    rw [clear_cons hi, List.pairwise_cons]
    rcases replaceAll_cons (b := b) (t := t) hi with ⟨hnodup, hkept, hfirst, heq⟩ | ⟨hnot, heq⟩
    · have htakes : l.Pairwise (fun j k => ¬ b.Takes (b.release t i ++ b.rows i) j k) ↔
          l.Pairwise fun j k => ¬ b.Takes t j k := by
        refine List.Pairwise.iff_of_mem fun {j k} _ hk => not_congr (takes_served ?_)
        rintro rfl
        exact hi hk
      rw [heq, ih hl, htakes]
      exact ⟨fun h => ⟨⟨⟨hnodup, hkept⟩, h.1⟩, hfirst, h.2⟩, fun h => ⟨h.1.2, h.2.2⟩⟩
    · rw [heq]
      exact iff_of_false nofun fun h => hnot ⟨h.1.1.1, h.1.1.2, h.2.1⟩

/-- They leave the rows of owners that are not served and the new rows. -/
theorem perm_of_replaceAll (h : l.Nodup) {t' : List R} (ht' : b.replaceAll t l = some t') :
    t'.Perm (b.kept t l ++ l.flatMap b.rows) := by
  induction l generalizing t with
  | nil =>
    cases ht'
    simp [kept]
  | cons i l ih =>
    obtain ⟨hi, hl⟩ := List.nodup_cons.mp h
    rcases replaceAll_cons (b := b) (t := t) hi with ⟨-, -, -, heq⟩ | ⟨-, heq⟩
    · have hperm := ih hl (heq ▸ ht')
      rw [kept_cons hi, List.append_assoc] at hperm
      exact hperm
    · cases heq.symm.trans ht'

theorem isSome_of_no_takes {l' : List I} (hclear : b.Clear t l)
    (htakes : ∀ i ∈ l, ∀ j ∈ l, ¬ b.Takes t i j) (hl : l.Nodup) (hsub : l'.Sublist l) :
    (b.replaceAll t l').isSome = true := by
  refine (isSome_replaceAll_iff (hl.sublist hsub)).mpr ⟨hclear.sublist hsub htakes, ?_⟩
  exact List.pairwise_of_forall_mem_list fun i hi j hj =>
    htakes i (hsub.subset hi) j (hsub.subset hj)

/-- Every order goes through exactly if there are no hand-overs. -/
theorem forall_order_iff [DecidableEq I] (hl : l.Nodup) :
    (∀ l' : List I, l'.Perm l → (b.replaceAll t l').isSome = true) ↔
      b.Clear t l ∧ ∀ i ∈ l, ∀ j ∈ l, ¬ b.Takes t i j := by
  constructor
  · intro h
    have hspec := fun {l' : List I} (hperm : l'.Perm l) =>
      (isSome_replaceAll_iff (hperm.nodup_iff.mpr hl)).mp (h l' hperm)
    refine ⟨(hspec (.refl l)).1, fun i hi j hj htakes => ?_⟩
    -- the order in which `i` comes first
    have hfirst := (hspec (List.perm_cons_erase hi).symm).2
    exact List.rel_of_pairwise_cons hfirst
      ((List.mem_erase_of_ne htakes.1.symm).mpr hj) htakes
  · rintro ⟨hclear, htakes⟩ l' hperm
    refine isSome_of_no_takes (hclear.perm hperm) ?_ (hperm.nodup_iff.mpr hl) (.refl l')
    exact fun i hi j hj => htakes i (hperm.mem_iff.mp hi) j (hperm.mem_iff.mp hj)

/-- Some order goes through exactly if the hand-overs make no cycle. -/
theorem exists_order_iff [DecidableEq I] (hl : l.Nodup) :
    (∃ l' : List I, l'.Perm l ∧ (b.replaceAll t l').isSome = true) ↔
      b.Clear t l ∧ ∀ i, ¬ Relation.TransGen (Graph.On (b.Takes t) l) i i := by
  rw [← Graph.exists_order_iff fun i h => h.1 rfl]
  constructor
  · rintro ⟨l', hperm, h⟩
    obtain ⟨hclear, hpairwise⟩ := (isSome_replaceAll_iff (hperm.nodup_iff.mpr hl)).mp h
    exact ⟨hclear.perm hperm.symm, l', hperm, hpairwise⟩
  · rintro ⟨hclear, l', hperm, hpairwise⟩
    exact ⟨l', hperm,
      (isSome_replaceAll_iff (hperm.nodup_iff.mpr hl)).mpr ⟨hclear.perm hperm, hpairwise⟩⟩

end Batch

end Holdings
