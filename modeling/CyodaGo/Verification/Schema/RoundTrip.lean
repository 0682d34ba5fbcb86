import CyodaGo.Verification.Schema.Diff
import Mathlib.Data.List.Forall2

/-! # Replaying diffs

`Apply` after `Diff` reaches the new model, and deltas diffed from one model can be replayed in
any order. -/

namespace CyodaGo.Schema

open ModelNode PathTree

variable {T : Type} [TypeSet T]

variable {base : ModelNode T} {deltas : List (SchemaDelta T)} {news : List (EntityModel T)}

/-- A delta of accepted operations extends every model above `base` by its shape. -/
theorem apply_extends {root : ModelNode T} {delta : SchemaDelta T}
    (hsound : ∀ op ∈ delta, op.Sound base) (hle : base.shape ≤ root.shape)
    (hroot : root.All Regular) :
    ∃ r, apply root delta = .ok r ∧ r.All Regular ∧ r.shape = root.shape ⊔ deltaShape delta := by
  obtain ⟨r, hr⟩ := foldlM_of_forall (fun op hop => (hsound op hop).accepted) hle
  refine ⟨r, apply_eq_ok.mpr ⟨hroot.decodable, hr⟩, ?_, ?_⟩
  · exact hroot.foldlM (fun op hop => (hsound op hop).regular) hr
  · exact shape_foldlM (fun op hop => (hsound op hop).regular.distinct) hr

theorem diff_delivers {old new : ModelNode T} (hnew : new.All Regular)
    (hle : old.shape ≤ new.shape) :
    ∃ delta, diff old new = .ok delta ∧ Delivers old [] old.shape new.shape delta :=
  diffNode_delivers hnew spells_root rfl hle

theorem Delivers.shape_eq {old : ModelNode T} {goal : Shape T} {delta : SchemaDelta T}
    (h : Delivers old [] old.shape goal delta) (hle : old.shape ≤ goal) :
    old.shape ⊔ deltaShape delta = goal :=
  le_antisymm (sup_le hle h.upper) h.lower

theorem le_shape_of_same {old overlay new : EntityModel T}
    (h : new.1.Same (old.1.merge overlay.1)) : old.1.shape ≤ new.1.shape := by
  rw [h]
  exact le_shape_merge old.1 overlay.1

/-- Diffing an additive change and applying the delta reaches the new model; the delta is empty
exactly when nothing changed, and applying it again changes nothing. -/
theorem diff_apply_roundTrip (old overlay new : EntityModel T)
    (hnew : new.1.Same (old.1.merge overlay.1)) :
    ∃ delta, diff old.1 new.1 = .ok delta ∧ (delta = [] ↔ new.1.Same old.1) ∧
      ∃ once twice, apply old.1 delta = .ok once ∧ once.Same new.1 ∧
        apply once delta = .ok twice ∧ twice.Same once := by
  have hle := le_shape_of_same hnew
  obtain ⟨delta, hdiff, hdel⟩ := diff_delivers new.2 hle
  have hshape := hdel.shape_eq hle
  obtain ⟨once, honce, hreg, honceShape⟩ := apply_extends hdel.sound le_rfl old.2
  have hsame : once.Same new.1 := honceShape.trans hshape
  obtain ⟨twice, htwice, _, htwiceShape⟩ := apply_extends hdel.sound (by rw [hsame]; exact hle) hreg
  refine ⟨delta, hdiff, ⟨fun hnil => ?_, fun heq => hdel.needed heq.le⟩, once, twice, honce, hsame,
    htwice, ?_⟩
  · subst hnil
    exact (hshape.symm.trans (sup_bot_eq _))
  · rw [Same, htwiceShape, sup_eq_left, hsame, ← hshape]
    exact le_sup_right

namespace Sample

def leafOf (dt : DataType) : ModelNode TypeFlags := leafNode (Leaf.ofType dt)

theorem all_leafOf (dt : DataType) : (leafOf dt).All Regular := by
  have h := all_ofTypes (T := TypeFlags) (List.cons_ne_nil dt [])
  rwa [Leaf.ofTypes_cons, Leaf.ofTypes_nil, Leaf.sup_absent] at h

/-- A model with one text field. -/
def stored : EntityModel TypeFlags :=
  ⟨objectNode [("a", leafOf .string)],
    all_objectNode (by decide) (by simp [Entries.keys]; exact ⟨by decide, by decide, by decide⟩)
      (by simpa using all_leafOf .string)⟩

/-- The field is also observed as a number, and a second field as null. -/
def observed : EntityModel TypeFlags :=
  ⟨objectNode [("a", leafOf .integer), ("b", leafOf .null)],
    all_objectNode (by decide)
      (by
        simp only [Entries.keys, List.map_cons, List.map_nil, List.forall_mem_cons]
        exact ⟨⟨by decide, by decide, by decide⟩, ⟨by decide, by decide, by decide⟩, by simp⟩)
      (by simpa using ⟨all_leafOf .integer, all_leafOf .null⟩)⟩

/-- A field whose name holds the separator of operation paths. -/
def slashed (field : String) : ModelNode TypeFlags :=
  objectNode [("a/b", objectNode [(field, leafOf .string)])]

def slashedDelta : SchemaDelta TypeFlags := [newAddProperty "a/b" "y" (leafOf .string)]

end Sample

open Sample

theorem diff_apply_roundTrip_stored :
    ∃ delta, diff stored.1 (stored.merge observed).1 = .ok delta ∧
      (delta = [] ↔ (stored.merge observed).1.Same stored.1) ∧
      ∃ once twice, apply stored.1 delta = .ok once ∧
        once.Same (stored.merge observed).1 ∧
        apply once delta = .ok twice ∧ twice.Same once :=
  diff_apply_roundTrip stored observed (stored.merge observed) rfl

/-- The path of a field with a slash in its name leads elsewhere on replay. -/
theorem slash_in_name_breaks_replay :
    diff (slashed "x") ((slashed "x").merge (slashed "y")) =
        .ok slashedDelta ∧
      apply (slashed "x") slashedDelta = .error (.missingSegment "a" "a/b") :=
  ⟨rfl, rfl⟩

/-! ## Many deltas in any order -/

theorem foldlM_apply_extends {root : ModelNode T}
    (hsound : ∀ delta ∈ deltas, ∀ op ∈ delta, op.Sound base) (hle : base.shape ≤ root.shape)
    (hroot : root.All Regular) :
    ∃ r, deltas.foldlM apply root = .ok r ∧
      ∀ f, r.shape ≤ f ↔ root.shape ≤ f ∧ ∀ delta ∈ deltas, deltaShape delta ≤ f := by
  induction deltas generalizing root with
  | nil => exact ⟨root, rfl, by simp⟩
  | cons delta rest ih =>
    obtain ⟨mid, hmid, hreg, hshape⟩ :=
      apply_extends (hsound delta (List.mem_cons_self ..)) hle hroot
    have hmidle : base.shape ≤ mid.shape := by
      rw [hshape]
      exact hle.trans le_sup_left
    obtain ⟨r, hr, hiff⟩ := ih (fun d hd => hsound d (List.mem_cons_of_mem _ hd)) hmidle hreg
    refine ⟨r, Checked.foldlM_cons_eq_ok.mpr ⟨mid, hmid, hr⟩, fun f => ?_⟩
    rw [hiff, hshape, sup_le_iff, List.forall_mem_cons, and_assoc]

theorem shape_foldl_merge (f : Shape T) :
    (news.foldl (fun acc n => acc.merge n.1) base).shape ≤ f ↔
      base.shape ≤ f ∧ ∀ n ∈ news, n.1.shape ≤ f := by
  induction news generalizing base with
  | nil => simp
  | cons n rest ih =>
    rw [List.foldl_cons, ih, shape_merge n.2.distinct, sup_le_iff, List.forall_mem_cons,
      and_assoc]

/-- The deltas from one base to several extensions of it. -/
theorem exists_deltas {base : EntityModel T} (hnews : ∀ n ∈ news, base.1.shape ≤ n.1.shape) :
    ∃ deltas, List.Forall₂ (fun n delta => diff base.1 n.1 = .ok delta ∧
      Delivers base.1 [] base.1.shape n.1.shape delta) news deltas := by
  induction news with
  | nil => exact ⟨[], .nil⟩
  | cons n rest ih =>
    obtain ⟨delta, hdelta⟩ := diff_delivers n.2 (hnews n (List.mem_cons_self ..))
    obtain ⟨deltas, hdeltas⟩ := ih fun m hm => hnews m (List.mem_cons_of_mem _ hm)
    exact ⟨delta :: deltas, .cons hdelta hdeltas⟩

/-- Above the base, what the deltas add is what the models they lead to declare. -/
theorem forall_deltaShape_le {base : EntityModel T}
    (h : List.Forall₂ (fun n delta => Delivers base.1 [] base.1.shape n.1.shape delta) news deltas)
    (hles : ∀ n ∈ news, base.1.shape ≤ n.1.shape) {f : Shape T} (hbase : base.1.shape ≤ f) :
    (∀ delta ∈ deltas, deltaShape delta ≤ f) ↔ ∀ n ∈ news, n.1.shape ≤ f := by
  induction h with
  | nil => simp
  | @cons n delta news deltas hdel _ ih =>
    rw [List.forall_mem_cons, List.forall_mem_cons,
      ih fun m hm => hles m (List.mem_cons_of_mem _ hm),
      ← hdel.shape_eq (hles n (List.mem_cons_self ..)), sup_le_iff]
    exact and_congr_left fun _ => (and_iff_right hbase).symm

theorem forall_sound {base : EntityModel T}
    (h : List.Forall₂ (fun n delta => Delivers base.1 [] base.1.shape n.1.shape delta) news deltas) :
    ∀ delta ∈ deltas, ∀ op ∈ delta, op.Sound base.1 := by
  induction h with
  | nil => simp
  | cons hdel _ ih => exact List.forall_mem_cons.mpr ⟨hdel.sound, ih⟩

/-- Deltas diffed from one base are accepted in every order, and every order reaches the merge
of the base with all the models they were diffed to. -/
theorem deltas_commute (base : EntityModel T) (news : List (EntityModel T))
    (hnews : ∀ n ∈ news, ∃ overlay : EntityModel T, n.1.Same (base.1.merge overlay.1)) :
    ∃ deltas, List.Forall₂ (fun n delta => diff base.1 n.1 = .ok delta) news deltas ∧
      ∀ order : List (SchemaDelta T), order.Perm deltas →
        ∃ r, order.foldlM apply base.1 = .ok r ∧
          r.Same (news.foldl (fun acc n => acc.merge n.1) base.1) := by
  have hles : ∀ n ∈ news, base.1.shape ≤ n.1.shape := fun n hn =>
    let ⟨_, hoverlay⟩ := hnews n hn
    le_shape_of_same hoverlay
  obtain ⟨deltas, hdeltas⟩ := exists_deltas hles
  refine ⟨deltas, hdeltas.imp fun _ _ h => h.1, fun order hperm => ?_⟩
  have hdelivers := hdeltas.imp fun _ _ h => h.2
  have hsound : ∀ delta ∈ order, ∀ op ∈ delta, op.Sound base.1 :=
    fun delta hdelta => forall_sound hdelivers delta (hperm.mem_iff.mp hdelta)
  obtain ⟨r, hr, hiff⟩ := foldlM_apply_extends hsound le_rfl base.2
  refine ⟨r, hr, eq_of_forall_ge_iff fun f => ?_⟩
  rw [hiff, shape_foldl_merge]
  refine and_congr_right fun hbase => ?_
  rw [← forall_deltaShape_le hdelivers hles hbase]
  exact forall_congr' fun delta => by rw [hperm.mem_iff]

theorem deltas_commute_stored :
    ∃ deltas, List.Forall₂ (fun n delta => diff stored.1 n.1 = .ok delta)
        [stored.merge observed, stored.merge stored] deltas ∧
      ∀ order : List (SchemaDelta Sample.TypeFlags), order.Perm deltas →
        ∃ r, order.foldlM apply stored.1 = .ok r ∧
          r.Same ([stored.merge observed, stored.merge stored].foldl
            (fun acc n => acc.merge n.1) stored.1) := by
  refine deltas_commute stored _ ?_
  simp only [List.forall_mem_cons]
  exact ⟨⟨observed, rfl⟩, ⟨stored, rfl⟩, by simp⟩

namespace Sample

/-- A field whose name is the segment of array elements. -/
def bracketed (field : String) : ModelNode TypeFlags :=
  objectNode [("[]", objectNode [(field, leafOf .string)])]

def bracketedDelta : SchemaDelta TypeFlags := [newAddProperty "[]" "y" (leafOf .string)]

end Sample

/-- The only order there is fails when a field is named like an array's element. -/
theorem element_name_breaks_replay :
    diff (bracketed "x") ((bracketed "x").merge (bracketed "y")) =
        .ok bracketedDelta ∧
      [bracketedDelta].foldlM apply (bracketed "x") =
        .error (.descendElement "OBJECT" "[]") :=
  ⟨rfl, rfl⟩

end CyodaGo.Schema
