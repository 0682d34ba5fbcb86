import CyodaGo.Verification.Schema.Diff
import CyodaGo.Verification.Schema.Needs
import Mathlib.Order.Bounds.Basic

/-! # What Extend learns

The overlay of a traversal is the least one that, joined to the model, covers what the document
needs, and the levels of its changes are the levels the document asks for. Both are proved of
one level of the traversal from what holds one level deeper. -/

namespace CyodaGo.Schema

open ModelNode

variable {T D : Type} [TypeSet T]

/-! ## Loops -/

section Loops

variable {α : Type} {combine : Option (ModelNode T) → α → ModelNode T → ModelNode T}
  {finding : α → Except AdmitError (Finding T)}

/-- What a part contributes to a loop that succeeds. -/
def foundBy (finding : α → Except AdmitError (Finding T)) (part : α) : Finding T :=
  match finding part with
  | .ok r => r
  | .error _ => (none, [])

/-- One round of a loop, on the overlay alone. -/
def gather (combine : Option (ModelNode T) → α → ModelNode T → ModelNode T)
    (overlay : α → Option (ModelNode T)) (acc : Option (ModelNode T)) (part : α) :
    Option (ModelNode T) :=
  (overlay part).elim acc fun o => some (combine acc part o)

omit [TypeSet T] in
/-- A loop that succeeds gathers the overlays and the changes of its parts. -/
theorem foldlM_collect_eq_ok {parts : List α} {acc r : Finding T}
    (h : parts.foldlM (collect combine finding) acc = .ok r) :
    (∀ part ∈ parts, finding part = .ok (foundBy finding part)) ∧
      r.1 = parts.foldl (gather combine fun part => (foundBy finding part).1) acc.1 ∧
      ∀ c, c ∈ r.2 ↔ c ∈ acc.2 ∨ ∃ part ∈ parts, c ∈ (foundBy finding part).2 := by
  induction parts generalizing acc with
  | nil =>
    cases h
    simp
  | cons part rest ih =>
    obtain ⟨mid, hmid, hrest⟩ := Checked.foldlM_cons_eq_ok.mp h
    obtain ⟨o, changes, hpart, rfl⟩ := collect_eq_ok.mp hmid
    have hfound : foundBy finding part = (o, changes) := by rw [foundBy, hpart]
    obtain ⟨hall, hoverlay, hchanges⟩ := ih hrest
    refine ⟨List.forall_mem_cons.mpr ⟨by rw [hpart, hfound], hall⟩, ?_, ?_⟩
    · rw [hoverlay, List.foldl_cons, gather, hfound]
    · intro c
      rw [hchanges, List.mem_append, or_assoc, List.exists_mem_cons_iff, hfound]

end Loops

/-! ## Trees of the overlay -/

/-- The children are a map, and under the condition the node is regular. -/
structure RegularIf (R : Prop) (n : ModelNode T) : Prop where
  distinct : n.DistinctNames
  regular : R → Regular n

variable {R : Prop} {n : ModelNode T}

theorem regularIf_merge (a b : ModelNode T) (ha : RegularIf R a) (hb : RegularIf R b) :
    RegularIf R (a.merge b) :=
  ⟨distinctNames_merge a b ha.distinct hb.distinct,
    fun h => regular_merge a b (ha.regular h) (hb.regular h)⟩

theorem ModelNode.All.regularIf (h : n.All Regular) : n.All (RegularIf R) :=
  h.imp fun _ hn => ⟨hn.distinct, fun _ => hn⟩

theorem newLeafNode_eq (dt : DataType) : (newLeafNode dt : ModelNode T) = leafNode (Leaf.ofType dt) := by
  rw [newLeafNode, addScalarTypes, newEmptyNode, Leaf.addScalarTypes_eq]
  simp [leafNode]

open Entries

/-- The children of an overlay. -/
structure Children.Kept (R : Prop) (cs : Children T) : Prop where
  nodup : (keys cs).Nodup
  addressable : R → ∀ name ∈ keys cs, Addressable name
  trees : ∀ x ∈ cs, x.2.All (RegularIf R)

theorem Children.Kept.set {cs : Children T} (h : Children.Kept R cs) {name : String}
    (hname : R → Addressable name) {c : ModelNode T} (hc : c.All (RegularIf R)) :
    Children.Kept R (set cs name c) := by
  refine ⟨nodup_keys_set h.nodup, fun hR key hkey => ?_, fun x hx => ?_⟩
  · rcases mem_keys_set.mp hkey with hold | rfl
    · exact h.addressable hR key hold
    · exact hname hR
  · rcases mem_set hx with rfl | hold
    · exact hc
    · exact h.trees x hold

theorem Children.Kept.all {cs : Children T} (h : Children.Kept R cs) :
    (objectNode cs).All (RegularIf R) := by
  refine .mk ⟨?_, fun hR => ⟨?_, ?_, rfl, ?_⟩⟩ ?_ ?_
  · rintro _ ⟨⟩
    exact h.nodup
  · rintro _ ⟨⟩
    exact h.nodup
  · rintro _ ⟨⟩
    exact h.addressable hR
  · rintro _ ⟨⟩
  · rintro _ ⟨⟩
    exact h.trees
  · rintro _ ⟨⟩

theorem all_arrayNode {e : ModelNode T} (he : e.All (RegularIf R)) :
    (newArrayNode (some e)).All (RegularIf R) := by
  refine .mk ⟨?_, fun _ => ⟨?_, ?_, rfl, ?_⟩⟩ ?_ ?_
  · rintro _ ⟨⟩
  · rintro _ ⟨⟩
  · rintro _ ⟨⟩
  · rintro _ ⟨⟩
  · rintro _ ⟨⟩
  · rintro _ ⟨⟩
    exact he

/-! ## When an overlay is below a shape -/

section Below

variable {f : Shape T}

/-- A node without parts only counts by its own declaration. -/
theorem shape_le_iff_of_no_step (hstep : ∀ s, n.step s = none) :
    n.shape ≤ f ↔ (n.decl : WithBot (Decl T)) ≤ f [] := by
  constructor
  · intro h
    exact h []
  · intro h p
    cases p with
    | nil => exact h
    | cons s p =>
      rw [shape_cons, hstep]
      exact bot_le

theorem leafNode_le {l : Leaf T} : (leafNode l).shape ≤ f ↔ ((l, false, false) : Decl T) ≤ f [] :=
  shape_le_iff_of_no_step fun s => by cases s <;> rfl

theorem newObjectNode_le :
    (newObjectNode : ModelNode T).shape ≤ f ↔ ((.absent, true, false) : Decl T) ≤ f [] :=
  shape_le_iff_of_no_step fun s => by cases s <;> rfl

theorem newArrayNode_le {e : Option (ModelNode T)} :
    (newArrayNode e).shape ≤ f ↔
      ((.absent, false, true) : Decl T) ≤ f [] ∧ optShape e ≤ below f .element := by
  constructor
  · intro h
    refine ⟨h [], fun p => ?_⟩
    rw [← shape_newArrayNode_element]
    exact h (.element :: p)
  · rintro ⟨hhere, helem⟩ p
    rcases p with _ | ⟨⟨key⟩ | _, p⟩
    · exact hhere
    · exact bot_le
    · rw [shape_newArrayNode_element]
      exact helem p

variable {cs : Children T} {overlay : String × Doc → Option (ModelNode T)}

theorem objectNode_le :
    (objectNode cs).shape ≤ f ↔ ((.absent, true, false) : Decl T) ≤ f [] ∧
      ∀ name, optShape (cs.lookup name) ≤ below f (.field name) := by
  constructor
  · intro h
    refine ⟨h [], fun name p => ?_⟩
    rw [← shape_objectNode_field]
    exact h (.field name :: p)
  · rintro ⟨hhere, hfields⟩ p
    rcases p with _ | ⟨⟨name⟩ | _, p⟩
    · exact hhere
    · rw [shape_objectNode_field]
      exact hfields name p
    · exact bot_le

theorem objectNode_set_le {name : String} (hfresh : name ∉ keys cs) {c : ModelNode T} :
    (objectNode (set cs name c)).shape ≤ f ↔
      (objectNode cs).shape ≤ f ∧ c.shape ≤ below f (.field name) := by
  rw [objectNode_le, objectNode_le, and_assoc]
  refine and_congr_right fun _ => ?_
  constructor
  · intro h
    refine ⟨fun key => ?_, ?_⟩
    · by_cases hkey : key = name
      · rw [hkey, lookup_eq_none_iff.mpr hfresh]
        exact fun p => bot_le
      rw [← lookup_set_of_ne hkey]
      exact h key
    · have hname := h name
      rwa [lookup_set_self] at hname
  · rintro ⟨hold, hnew⟩ key
    by_cases hkey : key = name
    · rw [hkey, lookup_set_self]
      exact hnew
    rw [lookup_set_of_ne hkey]
    exact hold key

theorem optShape_none_le : optShape (none : Option (ModelNode T)) ≤ f := fun _ => bot_le

theorem optShape_le_iff_getD (hf : (newObjectNode : ModelNode T).shape ≤ f)
    (o : Option (ModelNode T)) : optShape o ≤ f ↔ (o.getD newObjectNode).shape ≤ f := by
  cases o with
  | none => exact iff_of_true optShape_none_le hf
  | some o => exact Iff.rfl

variable (acc : Option (ModelNode T))

/-- The overlay of an object is below a shape of objects when the overlays of its fields are. -/
theorem gather_setField_le {fields : List (String × Doc)}
    (hacc : acc.getD newObjectNode = objectNode cs) (hnodup : (keys fields).Nodup)
    (hfresh : ∀ x ∈ fields, x.1 ∉ keys cs) (hf : (newObjectNode : ModelNode T).shape ≤ f) :
    optShape (fields.foldl (gather setField overlay) acc) ≤ f ↔
      optShape acc ≤ f ∧ ∀ x ∈ fields, optShape (overlay x) ≤ below f (.field x.1) := by
  induction fields generalizing acc cs with
  | nil => simp
  | cons x rest ih =>
    rw [keys_cons, List.nodup_cons] at hnodup
    obtain ⟨hx, hrest⟩ := List.forall_mem_cons.mp hfresh
    rw [List.foldl_cons, List.forall_mem_cons]
    cases hoverlay : overlay x with
    | none =>
      rw [gather, hoverlay, Option.elim_none, ih acc hacc hnodup.2 hrest]
      exact and_congr_right fun _ => (and_iff_right optShape_none_le).symm
    | some c =>
      have hset : setField acc x c = objectNode (set cs x.1 c) := by
        rw [setField, hacc]
        rfl
      have hfresh' : ∀ y ∈ rest, y.1 ∉ keys (set cs x.1 c) := by
        intro y hy hmem
        rcases mem_keys_set.mp hmem with hold | heq
        · exact hrest y hy hold
        · exact hnodup.1 (heq ▸ List.mem_map_of_mem hy)
      have hloop := ih (some (setField acc x c)) hset hnodup.2 hfresh'
      rw [gather, hoverlay, Option.elim_some, hloop, hset, optShape_some,
        objectNode_set_le hx, optShape_le_iff_getD hf acc, hacc, and_assoc, optShape_some]

theorem gather_setField_kept {fields : List (String × Doc)}
    (hacc : acc.getD newObjectNode = objectNode cs) (hcs : Children.Kept R cs)
    (hfields : ∀ x ∈ fields, ∀ o, overlay x = some o →
      (R → Addressable x.1) ∧ o.All (RegularIf R)) :
    ∃ cs', (fields.foldl (gather setField overlay) acc).getD newObjectNode = objectNode cs' ∧
      Children.Kept R cs' := by
  induction fields generalizing acc cs with
  | nil => exact ⟨cs, hacc, hcs⟩
  | cons x rest ih =>
    obtain ⟨hx, hrest⟩ := List.forall_mem_cons.mp hfields
    rw [List.foldl_cons]
    cases hoverlay : overlay x with
    | none =>
      rw [gather, hoverlay]
      exact ih acc hacc hcs hrest
    | some c =>
      obtain ⟨hname, hc⟩ := hx c hoverlay
      have hset : (some (setField acc x c)).getD newObjectNode =
          objectNode (set cs x.1 c) := by
        rw [Option.getD_some, setField, hacc]
        rfl
      rw [gather, hoverlay]
      exact ih _ hset (hcs.set hname hc) hrest

/-- The overlay of the elements is the join of the overlays of the items. -/
theorem gather_mergeItem {items : List (Doc × Nat)} {overlay : Doc × Nat → Option (ModelNode T)}
    (hacc : ∀ o, acc = some o → o.All (RegularIf R))
    (hitems : ∀ x ∈ items, ∀ o, overlay x = some o → o.All (RegularIf R)) :
    (∀ o, items.foldl (gather mergeItem overlay) acc = some o → o.All (RegularIf R)) ∧
      ∀ f : Shape T, optShape (items.foldl (gather mergeItem overlay) acc) ≤ f ↔
        optShape acc ≤ f ∧ ∀ x ∈ items, optShape (overlay x) ≤ f := by
  induction items generalizing acc with
  | nil => exact ⟨hacc, by simp⟩
  | cons x rest ih =>
    obtain ⟨hx, hrest⟩ := List.forall_mem_cons.mp hitems
    simp only [List.foldl_cons, List.forall_mem_cons]
    cases hoverlay : overlay x with
    | none =>
      rw [gather, hoverlay]
      obtain ⟨htree, hle⟩ := ih acc hacc hrest
      refine ⟨htree, fun f => (hle f).trans ?_⟩
      exact and_congr_right fun _ => (and_iff_right optShape_none_le).symm
    | some c =>
      have hc := hx c hoverlay
      have hmerged : (mergeItem acc x c).All (RegularIf R) ∧
          ∀ f : Shape T, (mergeItem acc x c).shape ≤ f ↔ optShape acc ≤ f ∧ c.shape ≤ f := by
        cases acc with
        | none => exact ⟨hc, fun f => (and_iff_right optShape_none_le).symm⟩
        | some a =>
          refine ⟨(hacc a rfl).merge regularIf_merge hc, fun f => ?_⟩
          rw [mergeItem, shape_merge (hc.imp fun _ => RegularIf.distinct), sup_le_iff,
            optShape_some]
      rw [gather, hoverlay]
      obtain ⟨htree, hle⟩ := ih (some (mergeItem acc x c))
        (fun o ho => by cases ho; exact hmerged.1) hrest
      refine ⟨htree, fun f => (hle f).trans ?_⟩
      rw [optShape_some, hmerged.2, and_assoc, optShape_some]

end Below

/-! ## What a traversal finds -/

section Found

variable (spi : ScalarSpi D) (R : Prop) (left : Nat)

/-- What was found for a document where the model has the shape `F`. -/
structure Found (F : Shape T) (d : Doc) (levels : ChangeLevel → Prop) (r : Finding T) : Prop where
  fits : Fits left d
  tree : ∀ o, r.1 = some o → o.All (RegularIf R)
  least : ∀ f, F ≤ f → (optShape r.1 ≤ f ↔ Covers spi F d f)
  named : ∀ c ∈ r.2, c.reason ≠ .invalidFieldName
  asked : ∀ L, (∃ c ∈ r.2, c.required = L) ↔ levels L

/-- What was derived for a document where there is no model. -/
structure Described (d : Doc) (r : ModelNode T × List Change) : Prop where
  fits : Fits left d
  tree : r.1.All (RegularIf R)
  least : ∀ f, r.1.shape ≤ f ↔ Covers spi ⊥ d f
  clean : r.2 = []

structure Deeper.Sound (deeper : Deeper T) : Prop where
  node : ∀ {model : ModelNode T} {d : Doc} {path docPath : String} {level : ChangeLevel}
    {r : Finding T}, (R → model.All Regular) → d.Distinct →
    deeper.node model d path docPath level = .ok r →
    Found spi R left model.shape d (Requires spi model.shape level d) r
  describeAt : ∀ {d : Doc} {path docPath : String} {r : ModelNode T × List Change}, d.Distinct →
    deeper.describeAt d path docPath = .ok r → Described spi R left d r

end Found

section Level

variable {spi : ScalarSpi D} {left : Nat} {model : ModelNode T} {path docPath : String}
  {level : ChangeLevel} {d : Doc} {r : Finding T}

omit [TypeSet T] in
theorem below_eq_bot {s : Segment} (h : n.step s = none) : below n.shape s = ⊥ := by
  funext p
  rw [below, shape_cons, h]
  rfl

omit [TypeSet T] in
theorem shape_singleton_eq_bot {s : Segment} : n.shape [s] = ⊥ ↔ n.step s = none := by
  rw [shape_cons, optShape_nil_eq_bot]

omit [TypeSet T] in
theorem hasKinds_iff : (declaresScalar n.decl || n.decl.2.1 || n.decl.2.2) = true ↔ n.kinds ≠ [] := by
  cases hleaf : n.leaf <;> cases hobj : n.object <;> cases harr : n.array <;>
    simp [declaresScalar, decl, kinds, ModelNode.scalar, hleaf, hobj, harr]

theorem newKindChange_required {o : Option DataType} :
    (newKindChange model d path docPath level o).required =
      if declaresScalar model.decl || model.decl.2.1 || model.decl.2.2 then .structural
      else level := by
  by_cases hkinds : model.kinds = []
  · have hnone := mt hasKinds_iff.mp (not_not_intro hkinds)
    rw [newKindChange, if_pos hkinds, if_neg hnone]
  · rw [newKindChange, if_neg hkinds, if_pos (hasKinds_iff.mpr hkinds)]

/-! ### Values without parts -/

variable {v : Doc} {items : List Doc}

theorem decl_of_isValue (hv : v.IsValue) :
    (v.decl spi : Decl T) = ((v.decl spi : Decl T).1, false, false) := by
  cases v <;> first | rfl | exact hv.elim

theorem held_iff : Doc.Held spi (n.shape []) v ↔ v.HeldBy spi n.decl :=
  ⟨fun ⟨_, hy, h⟩ => WithBot.coe_injective hy ▸ h, fun h => ⟨_, rfl, h⟩⟩

/-- The answer for a value without parts: nothing, or one leaf and one change. -/
inductive ValueFinding (spi : ScalarSpi D) (model : ModelNode T) (level : ChangeLevel) (d : Doc) :
    Finding T → Prop
  | held (h : d.HeldBy spi model.decl) : ValueFinding spi model level d (none, [])
  | missing {l : Leaf T} {c : Change} (h : ¬ d.HeldBy spi model.decl)
      (leaf : (d.decl spi : Decl T).1 = l) (tree : (leafNode l).All Regular)
      (named : c.reason ≠ .invalidFieldName)
      (cost : c.required = changeCost level model.decl d) :
      ValueFinding spi model level d (some (leafNode l), [c])

theorem all_ofType (dt : DataType) : (leafNode (Leaf.ofType dt : Leaf T)).All Regular := by
  have h := all_ofTypes (T := T) (List.cons_ne_nil dt [])
  rwa [Leaf.ofTypes_cons, Leaf.ofTypes_nil, Leaf.sup_absent] at h

theorem null_finding : ValueFinding spi model level .null (null model path docPath level) := by
  cases hleaf : model.leaf with
  | absent =>
    have hnull : null model path docPath level =
        (some (leafNode .nullable),
          [{ path, docPath, reason := .nullable, required := level, observed := some .null
             declared := model.declaredTypes, declaredKinds := model.declaredKindNames
             value := .null }]) := by
      simp only [null, nullable, ModelNode.scalar, hleaf, Option.isSome_none, Bool.or_self,
        Bool.false_eq_true, if_false]
      rfl
    rw [hnull]
    refine .missing (fun h => h hleaf) rfl (all_ofType .null) (by simp) ?_
    simp [changeCost, startsKind]
  | nullable =>
    rw [null, nullable, hleaf]
    refine .held ?_
    simp [Doc.HeldBy, decl, hleaf]
  | scalar s =>
    rw [null, ModelNode.scalar, hleaf]
    simp only [Option.isSome_some, Bool.or_true, if_true]
    refine .held ?_
    simp [Doc.HeldBy, decl, hleaf]

theorem heldBy_scalar (hv : v.IsScalar) :
    v.HeldBy spi n.decl ↔ ∃ s, n.leaf = .scalar s ∧ holdsScalar spi (TypeSet.types s) v = true := by
  cases v <;> first | exact Iff.rfl | exact hv.elim

theorem decl_scalar (hv : v.IsScalar) :
    (v.decl spi : Decl T).1 = Leaf.ofType (inferDataType spi v) := by
  cases v <;> first | rfl | exact hv.elim

omit [TypeSet T] in
theorem startsKind_scalar (hv : v.IsScalar) (x : Decl T) :
    startsKind x v = ((declaresScalar x || x.2.1 || x.2.2) && !declaresScalar x) := by
  cases v <;> first | rfl | exact hv.elim

theorem scalar_finding (hv : v.IsScalar) :
    ValueFinding spi model level v (scalar spi model v path docPath level) := by
  cases hleaf : model.leaf with
  | scalar s =>
    have hscalar : declaresScalar model.decl = true := by rw [declaresScalar, decl, hleaf]
    simp only [scalar, ModelNode.scalar, hleaf]
    by_cases hholds : holdsScalar spi (TypeSet.types s) v = true
    · rw [if_pos hholds]
      exact .held ((heldBy_scalar hv).mpr ⟨s, hleaf, hholds⟩)
    rw [if_neg hholds, newLeafNode_eq]
    refine .missing ?_ (decl_scalar hv) (all_ofType _) (by simp) ?_
    · rw [heldBy_scalar hv]
      rintro ⟨t, ht, hholds'⟩
      cases hleaf.symm.trans ht
      exact hholds hholds'
    · simp [changeCost, startsKind_scalar hv, hscalar]
  | _ =>
    have hscalar : declaresScalar model.decl = false := by rw [declaresScalar, decl, hleaf]
    simp only [scalar, ModelNode.scalar, hleaf, newLeafNode_eq]
    refine .missing ?_ (decl_scalar hv) (all_ofType _) (by simp [newKindChange]) ?_
    · rw [heldBy_scalar hv, hleaf]
      rintro ⟨t, ht, _⟩
      cases ht
    · rw [newKindChange_required, changeCost, startsKind_scalar hv, hscalar, Bool.not_false,
        Bool.and_true]

theorem nodeValue_finding (left : Nat) (hv : d.IsValue)
    (h : nodeValue spi model d path docPath level = .ok r) :
    Fits (left + 1) d ∧ ValueFinding spi model level d r := by
  cases d with
  | object fs => exact hv.elim
  | array items => exact hv.elim
  | float64 => cases h
  | other t => cases h
  | null =>
    cases h
    exact ⟨trivial, null_finding⟩
  | bool b =>
    cases h
    exact ⟨trivial, scalar_finding trivial⟩
  | number text =>
    cases h
    exact ⟨trivial, scalar_finding trivial⟩
  | string text =>
    cases h
    exact ⟨trivial, scalar_finding trivial⟩

theorem ValueFinding.found (h : ValueFinding spi model level d r) (hv : d.IsValue)
    (hfits : Fits left d) :
    Found spi R left model.shape d (Requires spi model.shape level d) r := by
  have hrequires : ∀ L, Requires spi model.shape level d L ↔ _ := fun L =>
    requires_value (shape_nil model) hv
  cases h with
  | held hheld =>
    refine ⟨hfits, nofun, fun f _ => ?_, by simp, fun L => ?_⟩
    · rw [covers_value hv]
      exact iff_of_true optShape_none_le fun hmissing => absurd (held_iff.mpr hheld) hmissing
    · rw [hrequires]
      simp [hheld]
  | missing hmissing hleaf htree hnamed hcost =>
    refine ⟨hfits, ?_, fun f _ => ?_, by simpa using hnamed, fun L => ?_⟩
    · rintro _ ⟨⟩
      exact htree.regularIf
    · rw [covers_value hv, optShape_some, leafNode_le, decl_of_isValue hv, hleaf]
      exact (imp_iff_right fun hheld => hmissing (held_iff.mp hheld)).symm
    · rw [hrequires]
      simp [hmissing, hcost, eq_comm]

/-! ### Fields -/

variable {deeper : Deeper T}

/-- A segment name is one segment of an operation path. -/
theorem addressable_of_isSegmentName {name : String} (h : isSegmentName name = true) :
    Addressable name := by
  rw [isSegmentName, Bool.and_eq_true, List.all_eq_true] at h
  refine ⟨?_, ?_, ?_⟩
  · rintro rfl
    exact absurd h.1 (by decide)
  · rintro rfl
    exact absurd (h.2 '[' (by decide)) (by decide)
  · intro hmem
    exact absurd (h.2 '/' hmem) (by decide)

theorem fieldFinding_found (hdeeper : deeper.Sound spi R left) (hmodel : R → model.All Regular)
    {field : String × Doc} (hfield : field.2.Distinct)
    (h : fieldFinding deeper false model path docPath field = .ok r) :
    (R → Addressable field.1) ∧
      Found spi R left (below model.shape (.field field.1)) field.2
        (fun L => (model.step (.field field.1) = none ∧ L = .structural) ∨
          Requires spi (below model.shape (.field field.1)) .type field.2 L) r := by
  cases hchild : model.child field.1 with
  | some c =>
    rw [fieldFinding_of_some hchild] at h
    have hstep : model.step (.field field.1) = some c := hchild
    have hfound := hdeeper.node (fun hR => (hmodel hR).step hstep) hfield h
    refine ⟨fun hR => ?_, ?_⟩
    · obtain ⟨cs, hcs, hmem⟩ := mem_of_child hchild
      exact (hmodel hR).here.addressable cs hcs _ (List.mem_map_of_mem hmem)
    · rw [below_shape hstep]
      exact ⟨hfound.fits, hfound.tree, hfound.least, hfound.named,
        fun L => by simpa [hstep] using hfound.asked L⟩
  | none =>
    have hstep : model.step (.field field.1) = none := hchild
    simp only [fieldFinding, hchild] at h
    split at h
    · rename_i hname
      obtain ⟨⟨derived, inner⟩, hderived, hr⟩ := Checked.bind_eq_ok.mp h
      cases hr
      have hdesc := hdeeper.describeAt hfield hderived
      obtain rfl : inner = [] := hdesc.clean
      refine ⟨fun _ => addressable_of_isSegmentName hname, ?_⟩
      rw [below_eq_bot hstep]
      refine ⟨hdesc.fits, ?_, fun f _ => hdesc.least f, by simp, fun L => ?_⟩
      · rintro _ ⟨⟩
        exact hdesc.tree
      · simp [hstep, not_requires_bot, eq_comm]
    · cases h

/-- What the loop over the fields of an object finds. -/
structure FieldsFound (spi : ScalarSpi D) (R : Prop) (left : Nat) (model : ModelNode T)
    (fs : List (String × Doc)) (r : Finding T) : Prop where
  fits : ∀ x ∈ fs, Fits left x.2
  kept : ∃ cs, r.1.getD newObjectNode = objectNode cs ∧ Children.Kept R cs
  least : ∀ f, model.shape ≤ f → (newObjectNode : ModelNode T).shape ≤ f →
    (optShape r.1 ≤ f ↔
      ∀ x ∈ fs, Covers spi (below model.shape (.field x.1)) x.2 (below f (.field x.1)))
  named : ∀ c ∈ r.2, c.reason ≠ .invalidFieldName
  asked : ∀ L, (∃ c ∈ r.2, c.required = L) ↔
    ∃ x ∈ fs, (model.step (.field x.1) = none ∧ L = .structural) ∨
      Requires spi (below model.shape (.field x.1)) .type x.2 L

theorem object_found (hdeeper : deeper.Sound spi R left) (hmodel : R → model.All Regular)
    {fs : List (String × Doc)} (hd : (Doc.object fs).Distinct)
    (h : object deeper false model fs path docPath = .ok r) :
    FieldsFound spi R left model fs r := by
  obtain ⟨hparts, hoverlay, hchanges⟩ := foldlM_collect_eq_ok h
  have hfound := fun x (hx : x ∈ fs) =>
    fieldFinding_found hdeeper hmodel (hd.field hx) (hparts x hx)
  have hcs : (none : Option (ModelNode T)).getD newObjectNode = objectNode [] := rfl
  have hnil : Children.Kept R ([] : Children T) := ⟨List.nodup_nil, by simp [keys], by simp⟩
  refine ⟨fun x hx => (hfound x hx).2.fits, ?_, fun f hmf hf => ?_, ?_, fun L => ?_⟩
  · rw [hoverlay]
    exact gather_setField_kept none rfl hnil fun x hx o ho =>
      ⟨(hfound x hx).1, (hfound x hx).2.tree o ho⟩
  · rw [hoverlay, gather_setField_le none hcs (hd.here fs rfl)
      (by simp [keys]) hf]
    rw [and_iff_right optShape_none_le]
    exact forall₂_congr fun x hx => (hfound x hx).2.least _ (below_mono hmf _)
  · intro c hc
    obtain ⟨x, hx, hcx⟩ := ((hchanges c).mp hc).resolve_left List.not_mem_nil
    exact (hfound x hx).2.named c hcx
  · constructor
    · rintro ⟨c, hc, rfl⟩
      obtain ⟨x, hx, hcx⟩ := ((hchanges c).mp hc).resolve_left List.not_mem_nil
      exact ⟨x, hx, ((hfound x hx).2.asked _).mp ⟨c, hcx, rfl⟩⟩
    · rintro ⟨x, hx, hL⟩
      obtain ⟨c, hc, rfl⟩ := ((hfound x hx).2.asked L).mpr hL
      exact ⟨c, (hchanges c).mpr (.inr ⟨x, hx, hc⟩), rfl⟩

/-! ### Items -/

/-- What the loop over the items of an array finds. -/
structure ItemsFound (spi : ScalarSpi D) (R : Prop) (left : Nat) (F : Shape T) (items : List Doc)
    (start : List Change) (r : Finding T) : Prop where
  fits : ∀ v ∈ items, Fits left v
  tree : ∀ o, r.1 = some o → o.All (RegularIf R)
  least : ∀ f, F ≤ f → (optShape r.1 ≤ f ↔ ∀ v ∈ items, Covers spi F v f)
  named : ∀ c ∈ r.2, c ∈ start ∨ c.reason ≠ .invalidFieldName
  asked : ∀ L, (∃ c ∈ r.2, c.required = L) ↔
    (∃ c ∈ start, c.required = L) ∨ ∃ v ∈ items, Requires spi F .arrayElements v L

theorem items_found {F : Shape T} {start : List Change}
    {finding : Doc × Nat → Except AdmitError (Finding T)}
    (hfinding : ∀ v ∈ items, ∀ i r', finding (v, i) = .ok r' →
      Found spi R left F v (Requires spi F .arrayElements v) r')
    (h : items.zipIdx.foldlM (collect mergeItem finding) (none, start) = .ok r) :
    ItemsFound spi R left F items start r := by
  obtain ⟨hparts, hoverlay, hchanges⟩ := foldlM_collect_eq_ok h
  have hmem : ∀ x ∈ items.zipIdx, x.1 ∈ items := fun x hx => List.fst_mem_of_mem_zipIdx hx
  have hfound := fun x (hx : x ∈ items.zipIdx) =>
    hfinding x.1 (hmem x hx) x.2 _ (hparts x hx)
  obtain ⟨htree, hle⟩ := gather_mergeItem none (R := R) nofun fun x hx => (hfound x hx).tree
  refine ⟨?_, hoverlay ▸ htree, fun f hf => ?_, ?_, fun L => ?_⟩
  · exact forall_mem_zipIdx.mp fun x hx => (hfound x hx).fits
  · rw [hoverlay, hle, and_iff_right optShape_none_le]
    exact (forall₂_congr fun x hx => (hfound x hx).least f hf).trans
      (forall_mem_zipIdx (P := fun v => Covers spi F v f))
  · intro c hc
    rcases (hchanges c).mp hc with hstart | ⟨x, hx, hcx⟩
    · exact .inl hstart
    · exact .inr ((hfound x hx).named c hcx)
  · constructor
    · rintro ⟨c, hc, rfl⟩
      rcases (hchanges c).mp hc with hstart | ⟨x, hx, hcx⟩
      · exact .inl ⟨c, hstart, rfl⟩
      · exact .inr ⟨x.1, hmem x hx, ((hfound x hx).asked _).mp ⟨c, hcx, rfl⟩⟩
    · rintro (⟨c, hc, rfl⟩ | ⟨v, hv, hL⟩)
      · exact ⟨c, (hchanges c).mpr (.inl hc), rfl⟩
      · rw [← List.zipIdx_map_fst 0 items] at hv
        obtain ⟨x, hx, rfl⟩ := List.mem_map.mp hv
        obtain ⟨c, hc, rfl⟩ := ((hfound x hx).asked L).mpr hL
        exact ⟨c, (hchanges c).mpr (.inr ⟨x, hx, hc⟩), rfl⟩

/-- What `array` finds where the array branch is declared. -/
structure ArrayFound (spi : ScalarSpi D) (R : Prop) (left : Nat) (model : ModelNode T)
    (items : List Doc) (r : Finding T) : Prop where
  fits : ∀ v ∈ items, Fits left v
  tree : ∀ o, r.1 = some o → o.All (RegularIf R) ∧ o.array.isSome = true
  least : ∀ f, model.shape ≤ f → ((.absent, false, true) : Decl T) ≤ f [] →
    (optShape r.1 ≤ f ↔
      (items = [] → model.step .element = none → ((.nullable, false, false) : Decl T) ≤ f [.element]) ∧
        ∀ v ∈ items, Covers spi (below model.shape .element) v (below f .element))
  named : ∀ c ∈ r.2, c.reason ≠ .invalidFieldName
  asked : ∀ L, (∃ c ∈ r.2, c.required = L) ↔
    (model.step .element = none ∧ L = .arrayElements) ∨
      ∃ v ∈ items, Requires spi (below model.shape .element) .arrayElements v L

omit [TypeSet T] in
@[simp] theorem wrapElement_snd : (wrapElement r).2 = r.2 := rfl

theorem wrapElement_le {f : Shape T} (hf : ((.absent, false, true) : Decl T) ≤ f []) :
    optShape (wrapElement r).1 ≤ f ↔ optShape r.1 ≤ below f .element := by
  cases hr : r.1 with
  | none => simp [wrapElement, hr, optShape_none_le]
  | some e =>
    rw [wrapElement, hr, Option.map_some, optShape_some, newArrayNode_le]
    exact and_iff_right hf

theorem wrapElement_tree (h : ∀ o, r.1 = some o → o.All (RegularIf R)) :
    ∀ o, (wrapElement r).1 = some o → o.All (RegularIf R) ∧ o.array.isSome = true := by
  intro o ho
  obtain ⟨e, he, rfl⟩ := Option.map_eq_some_iff.mp ho
  exact ⟨all_arrayNode (h e he), rfl⟩

theorem learnItem_found (hdeeper : deeper.Sound spi R left) (hv : v.Distinct) {i : Nat}
    (h : learnItem deeper path docPath (v, i) = .ok r) :
    Found spi R left (⊥ : Shape T) v (Requires spi (⊥ : Shape T) .arrayElements v) r := by
  obtain ⟨⟨derived, inner⟩, hderived, hr⟩ := Checked.bind_eq_ok.mp h
  cases hr
  have hdesc := hdeeper.describeAt hv hderived
  obtain rfl : inner = [] := hdesc.clean
  refine ⟨hdesc.fits, ?_, fun f _ => hdesc.least f, by simp, fun L => ?_⟩
  · rintro _ ⟨⟩
    exact hdesc.tree
  · simp [not_requires_bot]

theorem array_found (hdeeper : deeper.Sound spi R left) (hmodel : R → model.All Regular)
    (hd : (Doc.array items).Distinct) (h : array deeper model items path docPath = .ok r) :
    ArrayFound spi R left model items r := by
  cases helem : model.element with
  | some e =>
    have hstep : model.step .element = some e := helem
    rw [array_of_some helem] at h
    obtain ⟨inner, hinner, rfl⟩ := Checked.map_eq_ok.mp h
    have hitems : ItemsFound spi R left e.shape items [] inner :=
      items_found (fun v hv i r' hr' =>
        hdeeper.node (fun hR => (hmodel hR).step hstep) (hd.item hv) hr') hinner
    refine ⟨hitems.fits, wrapElement_tree hitems.tree, fun f hmf hf => ?_, ?_, fun L => ?_⟩
    · have hef := below_mono hmf .element
      rw [below_shape hstep] at hef ⊢
      rw [wrapElement_le hf, hitems.least _ hef]
      simp [hstep]
    · simpa using hitems.named
    · rw [below_shape hstep]
      simpa [hstep] using hitems.asked L
  | none =>
    have hstep : model.step .element = none := helem
    rw [array_of_none helem] at h
    obtain ⟨inner, hinner, rfl⟩ := Checked.map_eq_ok.mp h
    by_cases hempty : items.isEmpty = true
    · obtain rfl := List.isEmpty_iff.mp hempty
      cases (if_pos hempty).symm.trans hinner
      refine ⟨by simp, wrapElement_tree ?_, fun f _ hf => ?_, ?_, fun L => ?_⟩
      · rintro _ ⟨⟩
        rw [newLeafNode_eq]
        exact (all_ofType .null).regularIf
      · rw [wrapElement_le hf, optShape_some, newLeafNode_eq, leafNode_le]
        simp [hstep, below, Leaf.ofType]
      · simp [learnChange]
      · simp [hstep, learnChange, eq_comm]
    · rw [if_neg hempty] at hinner
      have hitems := items_found (fun v hv i r' => learnItem_found hdeeper (hd.item hv)) hinner
      refine ⟨hitems.fits, wrapElement_tree hitems.tree, fun f _ hf => ?_, ?_, fun L => ?_⟩
      · rw [wrapElement_le hf, hitems.least _ bot_le, below_eq_bot hstep]
        refine (and_iff_right fun hnil => ?_).symm
        rw [hnil] at hempty
        exact absurd rfl hempty
      · intro c hc
        rcases hitems.named c hc with hstart | hnamed
        · rw [List.mem_singleton.mp hstart]
          simp [learnChange]
        · exact hnamed
      · rw [wrapElement_snd, hitems.asked, below_eq_bot hstep]
        simp [hstep, learnChange, eq_comm]

/-! ### Where there is no model -/

theorem not_held_bot : ¬ v.Held spi ((⊥ : Shape T) []) := by
  rintro ⟨y, hy, _⟩
  exact WithBot.coe_ne_bot hy.symm

theorem not_covers_bot : ¬ Covers spi (⊥ : Shape T) v ⊥ := by
  intro h
  exact WithBot.coe_ne_bot (le_bot_iff.mp (h [] _ (.value (.here v) not_held_bot)))

/-- What `describeBody` keeps of a finding. -/
def described (r : Finding T) : ModelNode T × List Change :=
  (r.1.getD newObjectNode, r.2.filter fun c => c.reason = .invalidFieldName)

omit [TypeSet T] in
theorem described_clean (h : ∀ c ∈ r.2, c.reason ≠ .invalidFieldName) : (described r).2 = [] :=
  List.filter_eq_nil_iff.mpr fun c hc => by simpa using h c hc

theorem describe_object (hdeeper : deeper.Sound spi R left) {fs : List (String × Doc)}
    (hd : (Doc.object fs).Distinct) (h : object deeper false newObjectNode fs path docPath = .ok r) :
    Described spi R (left + 1) (.object fs) (described r) := by
  have hmodel : R → (newObjectNode : ModelNode T).All Regular := fun _ =>
    all_objectNode List.nodup_nil (by simp [keys]) (by simp)
  have hfound := object_found hdeeper hmodel hd h
  obtain ⟨cs, hcs, hkept⟩ := hfound.kept
  refine ⟨hfound.fits, ?_, fun f => ?_, described_clean hfound.named⟩
  · rw [described, hcs]
    exact hkept.all
  rw [covers_object, imp_iff_right not_held_bot, ← newObjectNode_le, described]
  by_cases hf : (newObjectNode : ModelNode T).shape ≤ f
  · rw [← optShape_le_iff_getD hf, hfound.least f hf hf, and_iff_right hf]
    exact forall₂_congr fun x _ => by rw [below_eq_bot rfl]; rfl
  refine iff_of_false (fun hle => hf ?_) (fun hle => hf hle.1)
  rw [hcs, objectNode_le] at hle
  exact newObjectNode_le.mpr hle.1

theorem describe_array (hdeeper : deeper.Sound spi R left) (hd : (Doc.array items).Distinct)
    (h : array deeper (newArrayNode none) items path docPath = .ok r) :
    Described spi R (left + 1) (.array items) (described r) := by
  have hfound := array_found hdeeper (fun _ => all_newArrayNode_none) hd h
  have hstep : (newArrayNode none : ModelNode T).step .element = none := rfl
  cases hr : r.1 with
  | none =>
    -- Some item is described, or the element of an empty array is: there is an overlay.
    have hnone : optShape r.1 ≤ (newArrayNode none).shape := by
      rw [hr]
      exact optShape_none_le
    have hle := (hfound.least _ le_rfl le_rfl).mp hnone
    cases items with
    | nil => exact absurd (le_bot_iff.mp (hle.1 rfl rfl)) WithBot.coe_ne_bot
    | cons v rest =>
      have hv := hle.2 v (List.mem_cons_self ..)
      rw [below_eq_bot hstep] at hv
      exact absurd hv not_covers_bot
  | some o =>
    obtain ⟨htree, harr⟩ := hfound.tree o hr
    have hdescribed : (described r).1 = o := by rw [described, hr, Option.getD_some]
    refine ⟨hfound.fits, hdescribed ▸ htree, fun f => ?_, described_clean hfound.named⟩
    rw [covers_array, imp_iff_right not_held_bot, hdescribed]
    by_cases hf : ((.absent, false, true) : Decl T) ≤ f []
    · have hmodel : (newArrayNode none).shape ≤ f := newArrayNode_le.mpr ⟨hf, optShape_none_le⟩
      have hleast := hfound.least f hmodel hf
      rw [hr, optShape_some, below_eq_bot hstep] at hleast
      rw [hleast, and_iff_right hf]
      exact and_congr_left' (imp_congr_right fun _ => by simp [hstep])
    · refine iff_of_false (fun hle => hf ?_) (fun hle => hf hle.1)
      exact (newArrayNode_none_le harr []).trans (hle [])

theorem describe_value (hv : d.IsValue)
    (h : nodeValue spi newEmptyNode d path docPath .type = .ok r) :
    Described spi R (left + 1) d (described r) := by
  obtain ⟨hfits, hfinding⟩ := nodeValue_finding left hv h
  cases hfinding with
  | held hheld =>
    have habsent : ¬ d.HeldBy spi (newEmptyNode : ModelNode T).decl := by
      cases d <;> simp_all [Doc.HeldBy, decl, newEmptyNode, Doc.IsValue]
    exact absurd hheld habsent
  | missing _ hleaf htree hnamed =>
    refine ⟨hfits, htree.regularIf, fun f => ?_, described_clean (by simpa using hnamed)⟩
    rw [covers_value hv, imp_iff_right not_held_bot, decl_of_isValue hv, hleaf]
    exact leafNode_le

theorem describeBody_described (hdeeper : deeper.Sound spi R left) (hd : d.Distinct)
    {r : ModelNode T × List Change} (h : describeBody spi deeper false d path docPath = .ok r) :
    Described spi R (left + 1) d r := by
  cases d with
  | object fs =>
    obtain ⟨r', hr', hr⟩ := Checked.bind_eq_ok.mp h
    cases hr
    exact describe_object hdeeper hd hr'
  | array items =>
    obtain ⟨r', hr', hr⟩ := Checked.bind_eq_ok.mp h
    cases hr
    exact describe_array hdeeper hd hr'
  | _ =>
    obtain ⟨r', hr', hr⟩ := Checked.bind_eq_ok.mp h
    cases hr
    exact describe_value trivial hr'

/-! ### One level -/

/-- A container of a kind the model does not declare is described from nothing. -/
theorem wrongKind_found (hdeeper : deeper.Sound spi R left) (hd : d.Distinct)
    (hcovers : ∀ f, Covers spi model.shape d f ↔ Covers spi (⊥ : Shape T) d f)
    (hkind : startsKind model.decl d = (declaresScalar model.decl || model.decl.2.1 || model.decl.2.2))
    (hrequires : ∀ L, Requires spi model.shape level d L ↔ L = changeCost level model.decl d)
    (h : nodeBody.wrongKind spi deeper false model d path docPath level = .ok r) :
    Found spi R (left + 1) model.shape d (Requires spi model.shape level d) r := by
  obtain ⟨⟨derived, inner⟩, hderived, hr⟩ := Checked.bind_eq_ok.mp h
  cases hr
  have hdesc := describeBody_described hdeeper hd hderived
  obtain rfl : inner = [] := hdesc.clean
  refine ⟨hdesc.fits, ?_, fun f _ => ?_, by simp [newKindChange], fun L => ?_⟩
  · rintro _ ⟨⟩
    exact hdesc.tree
  · rw [hcovers]
    exact hdesc.least f
  · have hcost : (newKindChange model d path docPath level none).required =
        changeCost level model.decl d := by
      rw [newKindChange_required, changeCost, hkind]
    rw [hrequires, ← hcost]
    simp [eq_comm]

theorem nodeBody_found (hdeeper : deeper.Sound spi R left) (hmodel : R → model.All Regular)
    (hd : d.Distinct) (h : nodeBody spi deeper false model d path docPath level = .ok r) :
    Found spi R (left + 1) model.shape d (Requires spi model.shape level d) r := by
  cases d with
  | object fs =>
    have hrequires : ∀ L, Requires spi model.shape level (.object fs) L ↔ _ := fun L =>
      requires_object (shape_nil model)
    cases hobj : model.object with
    | none =>
      have hstep : ∀ name, model.step (.field name) = none := fun name => by
        rw [step, child, hobj, Option.bind_none]
      simp only [nodeBody, hobj, Option.isNone_none, if_true] at h
      refine wrongKind_found hdeeper hd (fun f => ?_) ?_ (fun L => ?_) h
      · rw [covers_object, covers_object, held_iff]
        refine and_congr (imp_congr ?_ Iff.rfl) ?_
        · exact iff_of_true (by simp [Doc.HeldBy, decl, hobj]) not_held_bot
        · exact forall₂_congr fun x _ => by rw [below_eq_bot (hstep _)]; rfl
      · simp [startsKind, decl, hobj]
      · rw [hrequires]
        simp [below_eq_bot (hstep _), not_requires_bot, Doc.HeldBy, decl, hobj]
    | some cs =>
      have hheld : Doc.HeldBy spi model.decl (.object fs) := by simp [Doc.HeldBy, decl, hobj]
      simp only [nodeBody, hobj, Option.isNone_some, Bool.false_eq_true, if_false] at h
      have hfound := object_found hdeeper hmodel hd h
      refine ⟨hfound.fits, ?_, fun f hf => ?_, hfound.named, fun L => ?_⟩
      · obtain ⟨cs', hcs', hkept⟩ := hfound.kept
        intro o ho
        rw [ho, Option.getD_some] at hcs'
        exact hcs' ▸ hkept.all
      · have hobjf := (objectNode_nil_le (by rw [hobj]; rfl)).trans hf
        rw [covers_object, held_iff, hfound.least f hf hobjf]
        exact (and_iff_right fun hmissing => absurd hheld hmissing).symm
      · rw [hrequires, hfound.asked]
        simp only [shape_singleton_eq_bot, hheld, not_true_eq_false, false_and, false_or]
        simp [decl, hobj]
  | array items =>
    have hrequires : ∀ L, Requires spi model.shape level (.array items) L ↔ _ := fun L =>
      requires_array (shape_nil model)
    cases harr : model.array with
    | none =>
      have hstep : model.step .element = none := by rw [step, element, harr]; rfl
      simp only [nodeBody, harr, Option.isNone_none, if_true] at h
      refine wrongKind_found hdeeper hd (fun f => ?_) ?_ (fun L => ?_) h
      · rw [covers_array, covers_array, held_iff, shape_singleton_eq_bot, below_eq_bot hstep]
        refine and_congr (imp_congr ?_ Iff.rfl) (and_congr_left' ?_)
        · exact iff_of_true (by simp [Doc.HeldBy, decl, harr]) not_held_bot
        · simp [hstep]
      · simp [startsKind, decl, harr]
      · rw [hrequires]
        simp [below_eq_bot hstep, not_requires_bot, Doc.HeldBy, decl, harr]
    | some elem =>
      have hheld : Doc.HeldBy spi model.decl (.array items) := by simp [Doc.HeldBy, decl, harr]
      simp only [nodeBody, harr, Option.isNone_some, Bool.false_eq_true, if_false] at h
      have hfound := array_found hdeeper hmodel hd h
      refine ⟨hfound.fits, fun o ho => (hfound.tree o ho).1, fun f hf => ?_, hfound.named,
        fun L => ?_⟩
      · have harrf := (newArrayNode_none_le (by rw [harr]; rfl) []).trans (hf [])
        rw [covers_array, held_iff, shape_singleton_eq_bot, hfound.least f hf harrf]
        exact (and_iff_right fun hmissing => absurd hheld hmissing).symm
      · rw [hrequires, hfound.asked, shape_singleton_eq_bot]
        simp only [hheld, not_true_eq_false, false_and, false_or]
        simp [decl, harr]
  | _ =>
    simp only [nodeBody] at h
    obtain ⟨hfits, hfinding⟩ := nodeValue_finding left (by exact trivial) h
    exact hfinding.found trivial hfits

end Level

/-- Every level of the traversal finds exactly what is needed. -/
theorem walk_sound (spi : ScalarSpi D) (R : Prop) (left : Nat) :
    (walk spi false left : Deeper T).Sound spi R left := by
  induction left with
  | zero => exact ⟨fun _ _ h => (Checked.throw_ne_ok h).elim, fun _ h => (Checked.throw_ne_ok h).elim⟩
  | succ left ih => exact ⟨nodeBody_found ih, fun hd h => describeBody_described ih hd h⟩

/-! ## Extend -/

section Extend

variable {spi : ScalarSpi D} {m m' : ModelNode T} {d : Doc} {level : ChangeLevel}

/-- What `Extend` makes of an admission whose changes the level permits. -/
theorem extend_of_permitted {o : Option (ModelNode T)} {changes : List Change}
    (hfinding : admitData spi m d = .ok (o, changes))
    (hall : ∀ c ∈ changes, level.levelPermits c.required = true) :
    extend spi m d level = .ok (if changes = [] then m else o.elim m m.merge) := by
  have hfind : (changes.find? fun c => !level.levelPermits c.required) = none :=
    List.find?_eq_none.mpr fun c hc => by simp [hall c hc]
  by_cases hnil : changes = []
  · simp [extend, hfinding, hnil]
  · cases o <;> simp [extend, hfinding, hnil, hfind]

theorem admit_of_extend (h : extend spi m d level = .ok m') :
    ∃ o changes, admitData spi m d = .ok (o, changes) ∧
      ∀ c ∈ changes, level.levelPermits c.required = true := by
  rw [extend] at h
  split at h
  · cases h
  rename_i o changes hfinding
  refine ⟨o, changes, hfinding, fun c hc => ?_⟩
  split at h
  · rename_i hnil
    rw [List.isEmpty_iff.mp hnil] at hc
    exact absurd hc List.not_mem_nil
  · split at h
    · cases h
    rename_i hfind
    simpa using List.find?_eq_none.mp hfind c hc

theorem admit_found (hR : R → m.All Regular) (hd : d.Distinct) {r : Finding T}
    (h : admitData spi m d = .ok r) :
    Found spi R maxValidationDepth m.shape d (Requires spi m.shape .type d) r :=
  (walk_sound spi R maxValidationDepth).node hR hd h

/-- The extended model is the least one above the model that covers what is needed. -/
theorem extend_le_iff (hd : d.Distinct) (h : extend spi m d level = .ok m') {f : Shape T}
    (hf : m.shape ≤ f) : m'.shape ≤ f ↔ Covers spi m.shape d f := by
  obtain ⟨o, changes, hfinding, hall⟩ := admit_of_extend h
  have hfound := admit_found (R := False) False.elim hd hfinding
  have hm' := Except.ok.inj (h.symm.trans (extend_of_permitted hfinding hall))
  by_cases hnil : changes = []
  · rw [if_pos hnil] at hm'
    rw [hnil] at hfinding
    have hadmits := (walk_clean false d "" "" .type).mp ⟨o, hfinding⟩
    rw [hm']
    exact iff_of_true hf fun p x hneeds => absurd hneeds (hadmits.not_needs p x)
  · rw [if_neg hnil] at hm'
    rw [← hfound.least f hf, hm']
    cases o with
    | none => exact iff_of_true hf optShape_none_le
    | some o =>
      have hdistinct : o.Distinct := (hfound.tree o rfl).imp fun _ => RegularIf.distinct
      rw [Option.elim_some, shape_merge hdistinct, sup_le_iff]
      exact and_iff_right hf

/-- Nothing is declared anywhere that was not declared before or is needed there. -/
theorem extend_isLUB (hd : d.Distinct) (h : extend spi m d level = .ok m') (p : List Segment) :
    IsLUB {x : WithBot (Decl T) | x = m.shape p ∨ ∃ y : Decl T, x = y ∧ Needs spi m.shape d p y}
      (m'.shape p) := by
  have hle := le_extend h
  have hcovers := (extend_le_iff hd h hle).mp le_rfl
  constructor
  · rintro x (rfl | ⟨y, rfl, hneeds⟩)
    · exact hle p
    · exact hcovers p y hneeds
  · intro u hu
    -- The model with `u` in place of what is declared at the path covers the needs as well.
    let f : Shape T := Function.update m'.shape p u
    have hf : m.shape ≤ f := by
      intro q
      by_cases hq : q = p
      · subst hq
        simpa [f] using hu (.inl rfl)
      · simpa [f, hq] using hle q
    have hcov : Covers spi m.shape d f := by
      intro q x hneeds
      by_cases hq : q = p
      · subst hq
        simpa [f] using hu (.inr ⟨x, rfl, hneeds⟩)
      · simpa [f, hq] using hcovers q x hneeds
    simpa [f] using (extend_le_iff hd h hf).mpr hcov p

theorem extend_validates (hspi : spi.Lawful T) (hd : d.Distinct) (hparse : d.NumbersParse spi)
    (h : extend spi m d level = .ok m') : validate spi m' d = [] := by
  obtain ⟨o, changes, hfinding, _⟩ := admit_of_extend h
  have hfits := (admit_found (R := False) False.elim hd hfinding).fits
  have hle := le_extend h
  rw [validate_eq_nil]
  exact ((extend_le_iff hd h hle).mp le_rfl).admits hspi hfits hparse hle

theorem extend_of_validate (h : validate spi m d = []) : extend spi m d level = .ok m := by
  obtain ⟨o, hfinding⟩ := (walk_clean false d "" "" .type).mpr (validate_eq_nil.mp h)
  exact (extend_of_permitted hfinding (by simp)).trans (by simp)

theorem extend_of_le {level' : ChangeLevel} (h : extend spi m d level = .ok m')
    (hle : level.changeLevelRank ≤ level'.changeLevelRank) : extend spi m d level' = .ok m' := by
  obtain ⟨o, changes, hfinding, hall⟩ := admit_of_extend h
  rw [← h, extend_of_permitted hfinding hall]
  refine extend_of_permitted hfinding fun c hc => ?_
  have hc := hall c hc
  simp only [ChangeLevel.levelPermits, decide_eq_true_eq] at hc ⊢
  exact hc.trans hle

theorem extend_fails (hd : d.Distinct) {L : ChangeLevel} (hL : Requires spi m.shape .type d L)
    (hlevel : level.levelPermits L = false) : ∃ e, extend spi m d level = .error e := by
  cases h : extend spi m d level with
  | error e => exact ⟨e, rfl⟩
  | ok m' =>
    obtain ⟨o, changes, hfinding, hall⟩ := admit_of_extend h
    obtain ⟨c, hc, rfl⟩ := ((admit_found (R := False) False.elim hd hfinding).asked L).mpr hL
    cases (hall c hc).symm.trans hlevel

end Extend

/-- `Extend` is a least extension that respects the level: what it returns declares, path by
path, what the model declared and what the document needs there; every document that was valid
stays valid, and so becomes the one it was called with, provided its numbers are in the parser's
range. A document that is valid already changes nothing, a change that exceeds the level makes
the call fail, and a higher level gives the same result. -/
theorem extend_sound_least (spi : ScalarSpi D) (hspi : spi.Lawful T) (m : ModelNode T) (d : Doc)
    (hd : d.Distinct) (level : ChangeLevel) :
    (∀ m', extend spi m d level = .ok m' →
      (d.NumbersParse spi → ∀ e, d.Reordered e → validate spi m' e = []) ∧
      (∀ v e, validate spi m v = [] → v.Reordered e → validate spi m' e = []) ∧
      (∀ p, IsLUB {x : WithBot (Decl T) |
        x = m.shape p ∨ ∃ y : Decl T, x = y ∧ Needs spi m.shape d p y} (m'.shape p)) ∧
      (∀ level', level.changeLevelRank ≤ level'.changeLevelRank →
        extend spi m d level' = .ok m')) ∧
    (∀ e, e.Reordered d → validate spi m e = [] → extend spi m d level = .ok m) ∧
    (∀ L, Requires spi m.shape .type d L → level.levelPermits L = false →
      ∃ e, extend spi m d level = .error e) := by
  refine ⟨fun m' h => ⟨fun hparse e hde => ?_, fun v e hv hve => ?_, extend_isLUB hd h,
    fun level' => extend_of_le h⟩, fun e hed hvalid => ?_, fun L => extend_fails hd⟩
  · exact validate_mono hspi.enlarges le_rfl hde (extend_validates hspi hd hparse h)
  · exact validate_mono hspi.enlarges (le_extend h) hve hv
  · exact extend_of_validate (validate_mono hspi.enlarges le_rfl hed hvalid)

namespace Sample

theorem decimals_lawful : decimals.Lawful TypeFlags where
  temporal_ne_null := by simp [decimals]
  number_ne_null d := by
    by_cases h : d < 2147483648 <;> simp [inferNumber, decimals, h]
  number_admitted d := by
    by_cases h : d < 2147483648 <;> simp [inferNumber, decimals, h]
  enlarges := decimals_unionEnlarges

/-- A document with a number where the model has text. -/
def numberDoc : Doc := .object [("a", .number "7")]

theorem numberDoc_distinct : numberDoc.Distinct := by
  refine .mk (fun fs h => ?_) (fun fs h x hx => ?_) nofun
  · cases h
    decide
  · cases h
    rw [List.mem_singleton.mp hx]
    exact .mk nofun nofun nofun

theorem numberDoc_numbersParse : numberDoc.NumbersParse decimals := by
  refine .mk nofun (fun fs h x hx => ?_) nofun
  cases h
  rw [List.mem_singleton.mp hx]
  refine .mk (fun text h => ?_) nofun nofun
  cases h
  rfl

/-- The text field, which a number has joined. -/
def textOrNumber : ModelNode TypeFlags :=
  textField.merge ⟨.absent, some [("a", newLeafNode .integer)], none⟩

theorem extend_numberDoc : extend decimals textField numberDoc .type = .ok textOrNumber := rfl

end Sample

open Sample

theorem extend_sound_least_numberDoc :
    extend decimals textField numberDoc .type = .ok textOrNumber ∧
      validate decimals textOrNumber numberDoc = [] ∧
      extend decimals textField numberDoc .structural =
        .ok textOrNumber := by
  have h := (extend_sound_least decimals decimals_lawful textField
    numberDoc numberDoc_distinct .type).1 _ extend_numberDoc
  exact ⟨extend_numberDoc, h.1 numberDoc_numbersParse _ (.refl _),
    h.2.2.2 .structural (by decide)⟩

/-- A number out of the parser's range is learned as text, and then refused as a number. -/
theorem extend_accepts_invalid_number :
    ∃ m', extend decimals (newLeafNode .integer : ModelNode Sample.TypeFlags)
        (.number "1e3000000000") .type = .ok m' ∧
      validate decimals m' (.number "1e3000000000") ≠ [] := by
  refine ⟨_, rfl, fun hvalid => ?_⟩
  obtain ⟨s, _, hholds⟩ := validate_eq_nil.mp hvalid
  cases hholds

end CyodaGo.Schema
