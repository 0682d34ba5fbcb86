import CyodaGo.Verification.Schema.Regular

/-! # What `Diff` delivers

The operations of a diff are accepted on the old model, add nothing the new model does not
declare, and together with the old model make up the new one. -/

namespace CyodaGo.Schema

open ModelNode PathTree

variable {T : Type} [TypeSet T]

/-! ## Delivering a shape -/

/-- The operation is accepted on `root` and carries a tree the engine establishes. -/
structure SchemaOp.Sound (root : ModelNode T) (op : SchemaOp T) : Prop where
  accepted : ∃ r, applyOp root op = .ok r
  regular : op.overlay.All Regular

/-- With what `old` declares at `base`, the operations make up the shape `goal` there; they add
nothing else, and there are none when nothing is missing. -/
structure Delivers (root : ModelNode T) (base : List Segment) (old goal : Shape T)
    (ops : SchemaDelta T) : Prop where
  sound : ∀ op ∈ ops, op.Sound root
  upper : deltaShape ops ≤ graft base goal
  lower : graft base goal ≤ graft base old ⊔ deltaShape ops
  needed : goal ≤ old → ops = []

theorem deltaShape_append (xs ys : SchemaDelta T) :
    deltaShape (xs ++ ys) = deltaShape xs ⊔ deltaShape ys := by
  induction xs with
  | nil => exact (bot_sup_eq _).symm
  | cons op rest ih => rw [List.cons_append, deltaShape, ih, deltaShape, sup_assoc]

namespace Delivers

variable {root : ModelNode T} {base : List Segment} {old goal goal' : Shape T}
  {ops ops' : SchemaDelta T} {op : SchemaOp T}

theorem nil (h : goal ≤ old) : Delivers root base old goal [] :=
  ⟨by simp, bot_le, (graft_mono h).trans le_sup_left, fun _ => rfl⟩

theorem append (h : Delivers root base old goal ops) (h' : Delivers root base old goal' ops') :
    Delivers root base old (goal ⊔ goal') (ops ++ ops') where
  sound op hop := (List.mem_append.mp hop).elim (h.sound op) (h'.sound op)
  upper := by
    rw [deltaShape_append, graft_sup]
    exact sup_le_sup h.upper h'.upper
  lower := by
    rw [deltaShape_append, graft_sup]
    refine sup_le (h.lower.trans ?_) (h'.lower.trans ?_)
    · exact sup_le_sup_left le_sup_left _
    · exact sup_le_sup_left le_sup_right _
  needed hle := by
    rw [h.needed (le_sup_left.trans hle), h'.needed (le_sup_right.trans hle), List.nil_append]

theorem single (hop : op.Sound root) (htarget : op.target = base) (hup : op.overlay.shape ≤ goal)
    (hlow : goal ≤ old ⊔ op.overlay.shape) (hmissing : ¬ goal ≤ old) :
    Delivers root base old goal [op] where
  sound o ho := List.mem_singleton.mp ho ▸ hop
  upper := by
    simp only [deltaShape, SchemaOp.shape, htarget, sup_bot_eq]
    exact graft_mono hup
  lower := by
    simp only [deltaShape, SchemaOp.shape, htarget, sup_bot_eq, ← graft_sup]
    exact graft_mono hlow
  needed hle := absurd hle hmissing

/-- What is delivered below one step is delivered at the node, beside what it already has. -/
theorem below {s : Segment} {sub : Shape T}
    (h : Delivers root (base ++ [s]) (fun p => old (s :: p)) sub ops) (hgoal : goal ≤ old) :
    Delivers root base old (goal ⊔ graft [s] sub) ops where
  sound := h.sound
  upper := by
    rw [graft_sup, graft_graft]
    exact h.upper.trans le_sup_right
  lower := by
    rw [graft_sup, graft_graft]
    have hsub : graft (base ++ [s]) (fun p => old (s :: p)) ≤ graft base old := by
      rw [← graft_graft]
      refine graft_mono (graft_le_iff.mpr fun p => ?_)
      exact le_rfl
    refine sup_le ((graft_mono hgoal).trans le_sup_left) (h.lower.trans ?_)
    exact sup_le_sup_right hsub _
  needed hle := h.needed fun p => by simpa using graft_le_iff.mp (le_sup_right.trans hle) p

end Delivers

/-! ## The parts of a node -/

def objectNode (cs : Children T) : ModelNode T := ⟨.absent, some cs, none⟩

omit [TypeSet T] in
theorem shape_leafNode_cons (l : Leaf T) (s : Segment) (p : List Segment) :
    (leafNode l).shape (s :: p) = ⊥ := by
  cases s <;> rfl

omit [TypeSet T] in
theorem shape_newArrayNode_field (e : Option (ModelNode T)) (name : String) (p : List Segment) :
    (newArrayNode e).shape (.field name :: p) = ⊥ := rfl

omit [TypeSet T] in
theorem shape_newArrayNode_element (e : Option (ModelNode T)) (p : List Segment) :
    (newArrayNode e).shape (.element :: p) = optShape e p := by
  rw [shape_cons]
  rfl

omit [TypeSet T] in
theorem shape_objectNode_element (cs : Children T) (p : List Segment) :
    (objectNode cs).shape (.element :: p) = ⊥ := rfl

omit [TypeSet T] in
theorem shape_objectNode_field (cs : Children T) (name : String) (p : List Segment) :
    (objectNode cs).shape (.field name :: p) = optShape (cs.lookup name) p := by
  rw [shape_cons]
  rfl

open Entries

theorem shape_objectNode_cons {name : String} {c : ModelNode T} {rest : Children T}
    (hname : name ∉ keys rest) :
    (objectNode ((name, c) :: rest)).shape =
      ((objectNode []).shape ⊔ graft [.field name] c.shape) ⊔ (objectNode rest).shape := by
  funext p
  rcases p with _ | ⟨⟨key⟩ | _, p⟩
  · simp [decl, objectNode]
  · by_cases hkey : key = name
    · subst hkey
      simp [shape_objectNode_field, lookup_eq_none_iff.mpr hname]
    have hseg : Segment.field name ≠ .field key := by simpa using Ne.symm hkey
    simp [shape_objectNode_field, graft_cons_of_ne hseg,
      lookup_cons_of_ne (x := (name, c)) hkey]
  · simp [shape_objectNode_element, graft_cons_of_ne]

theorem shape_newArrayNode_some (e : ModelNode T) :
    (newArrayNode (some e)).shape = (newArrayNode none).shape ⊔ graft [.element] e.shape := by
  funext p
  rcases p with _ | ⟨⟨key⟩ | _, p⟩
  · simp [decl, newArrayNode]
  · simp [shape_newArrayNode_field, graft_cons_of_ne]
  · simp [shape_newArrayNode_element]

/-- The parts in the order the diff goes through them. -/
def objectPart : Option (Children T) → Shape T
  | none => ⊥
  | some cs => (objectNode cs).shape

def arrayPart : Option (Option (ModelNode T)) → Shape T
  | none => ⊥
  | some e => (newArrayNode e).shape

theorem shape_parts (n : ModelNode T) :
    n.shape = (leafNode n.leaf).shape ⊔ objectPart n.object ⊔ arrayPart n.array := by
  funext p
  rcases p with _ | ⟨⟨key⟩ | _, p⟩
  · cases hobj : n.object <;> cases harr : n.array <;>
      simp [objectPart, arrayPart, decl, leafNode, objectNode, newArrayNode, hobj, harr,
        ← WithBot.coe_sup]
  · rw [shape_cons, step, child]
    cases n.object <;> cases n.array <;>
      simp [objectPart, arrayPart, shape_leafNode_cons, shape_objectNode_field,
        shape_newArrayNode_field]
  · rw [shape_cons, step, element]
    cases n.object <;> cases n.array <;>
      simp [objectPart, arrayPart, shape_leafNode_cons, shape_objectNode_element,
        shape_newArrayNode_element]

/-! ## Type names -/

theorem ofTypes_congr {a b : List DataType} (h : ∀ dt, dt ∈ a ↔ dt ∈ b) :
    (Leaf.ofTypes a : Leaf T) = Leaf.ofTypes b := by
  apply le_antisymm
  · exact Leaf.ofTypes_le_iff.mpr fun dt hdt => Leaf.ofType_le_ofTypes ((h dt).mp hdt)
  · exact Leaf.ofTypes_le_iff.mpr fun dt hdt => Leaf.ofType_le_ofTypes ((h dt).mpr hdt)

theorem encodeTypeNames_ok (path : String) {types : List DataType} (hne : types ≠ []) :
    ∃ names, encodeTypeNames path types = .ok names ∧ names ≠ [] ∧
      (Leaf.ofTypes names : Leaf T) = Leaf.ofTypes types := by
  have hperm := List.perm_insertionSort (fun a b : DataType => a.text ≤ b.text) types.dedup
  have hmem : ∀ dt, dt ∈ types.dedup.insertionSort (fun a b => a.text ≤ b.text) ↔ dt ∈ types :=
    fun dt => hperm.mem_iff.trans List.mem_dedup
  refine ⟨_, by rw [encodeTypeNames, if_neg hne], ?_, ofTypes_congr hmem⟩
  obtain ⟨dt, hdt⟩ := List.exists_mem_of_ne_nil types hne
  exact List.ne_nil_of_mem ((hmem dt).mpr hdt)

theorem ofTypes_ne_absent {dts : List DataType} (hne : dts ≠ []) :
    (Leaf.ofTypes dts : Leaf T) ≠ .absent := by
  obtain ⟨dt, rest, rfl⟩ := List.exists_cons_of_ne_nil hne
  rw [Leaf.ofTypes_cons, Ne, Leaf.sup_eq_absent, not_and]
  intro habsent
  cases dt <;> cases habsent

theorem inhabited_ofTypes (dts : List DataType) :
    ∀ s : T, Leaf.ofTypes dts = .scalar s → TypeSet.types s ≠ [] := by
  induction dts with
  | nil =>
    intro s hs
    cases hs
  | cons dt rest ih =>
    refine inhabited_sup (fun s hs => ?_) ih
    by_cases hnull : dt = .null
    · subst hnull
      cases hs
    cases (Leaf.ofType_of_ne_null hnull).symm.trans hs
    rw [TypeSet.types_single dt hnull]
    exact List.cons_ne_nil _ _

theorem all_leafNode {l : Leaf T} (hl : l ≠ .absent)
    (hin : ∀ s, l = .scalar s → TypeSet.types s ≠ []) : (leafNode l).All Regular := by
  refine .mk ⟨?_, ?_, ?_, hin⟩ ?_ ?_
  · intro cs hcs
    cases hcs
  · intro cs hcs
    cases hcs
  · rw [declares_iff]
    simpa [decl, leafNode] using hl
  · intro cs hcs
    cases hcs
  · intro e he
    cases he

theorem all_ofTypes {dts : List DataType} (hne : dts ≠ []) :
    (leafNode (Leaf.ofTypes (T := T) dts)).All Regular :=
  all_leafNode (ofTypes_ne_absent hne) (inhabited_ofTypes dts)

theorem all_newArrayNode {e : ModelNode T} (he : e.All Regular) :
    (newArrayNode (some e)).All Regular := by
  refine .mk ⟨?_, ?_, ?_, ?_⟩ ?_ ?_
  · intro cs hcs
    cases hcs
  · intro cs hcs
    cases hcs
  · rfl
  · intro s hs
    cases hs
  · intro cs hcs
    cases hcs
  · intro e' he'
    cases he'
    exact he

theorem all_newArrayNode_none : (newArrayNode (none : Option (ModelNode T))).All Regular := by
  refine .mk ⟨?_, ?_, rfl, ?_⟩ ?_ ?_
  · intro cs hcs
    cases hcs
  · intro cs hcs
    cases hcs
  · intro s hs
    cases hs
  · intro cs hcs
    cases hcs
  · intro e he
    cases he

/-! ## Scalars -/

section Node

variable {root old new : ModelNode T} {path : String} {base : List Segment}

variable {l : Leaf T} {c n : ModelNode T} {s : T}

theorem leafNode_le_iff {f : Shape T} {d : Decl T} (hf : f [] = d) :
    (leafNode l).shape ≤ f ↔ l ≤ d.1 := by
  constructor
  · intro h
    have hnil := h []
    rw [hf] at hnil
    exact (WithBot.coe_le_coe.mp hnil).1
  · intro h p
    cases p with
    | nil =>
      rw [hf]
      exact WithBot.coe_le_coe.mpr ⟨h, Bool.false_le _, Bool.false_le _⟩
    | cons s p =>
      rw [shape_leafNode_cons]
      exact bot_le

theorem leafNode_le_sup {l' : Leaf T} (h : l ≤ n.leaf ⊔ l') :
    (leafNode l).shape ≤ n.shape ⊔ (leafNode l').shape :=
  (leafNode_le_iff (d := n.decl ⊔ (leafNode l').decl) rfl).mpr h

theorem leafNode_mono {l' : Leaf T} (h : l ≤ l') : (leafNode l).shape ≤ (leafNode l').shape :=
  (leafNode_le_iff (d := (leafNode l').decl) rfl).mpr h

theorem leafNode_sup (l l' : Leaf T) :
    (leafNode l).shape ⊔ (leafNode l').shape = (leafNode (l ⊔ l')).shape := by
  funext p
  cases p with
  | nil => rfl
  | cons s p => simp [shape_leafNode_cons]

theorem Delivers.nil_leaf (h : l ≤ old.leaf) : Delivers root base old.shape (leafNode l).shape [] :=
  .nil ((leafNode_le_iff (d := old.decl) rfl).mpr h)

/-- An accepted operation on the node at `base`. -/
theorem sound_of_applyTo (hs : Spells path base) (hat : root.at? base = some old)
    (op : SchemaOp T) (hpath : op.path = path) (hop : ∃ m, op.applyTo old = .ok m)
    (hreg : op.overlay.All Regular) : op.Sound root ∧ op.target = base := by
  have htarget : op.target = base := by rw [SchemaOp.target, hpath, hs.segments]
  obtain ⟨m, hm⟩ := hop
  exact ⟨⟨applyOp_of_at (hpath ▸ hs.nonempty) (htarget ▸ hat) hm, hreg⟩, htarget⟩

theorem broadenType_delivers (hs : Spells path base) (hat : root.at? base = some old)
    {added : List DataType} (hne : added ≠ []) (hup : Leaf.ofTypes added ≤ l)
    (hlow : l ≤ old.leaf ⊔ Leaf.ofTypes added) (hmissing : ¬ l ≤ old.leaf) :
    ∃ op, newBroadenType path added = .ok op ∧
      Delivers root base old.shape (leafNode l).shape [op] := by
  obtain ⟨names, hnames, hnil, hof⟩ := encodeTypeNames_ok (T := T) path hne
  let op : SchemaOp T := ⟨.broadenType, path, "", .typeNames names⟩
  have hoverlay : op.overlay = leafNode (Leaf.ofTypes added) := by
    rw [← hof]
    rfl
  have haccept : ∃ m, op.applyTo old = .ok m := by
    obtain ⟨dt, rest, rfl⟩ := List.exists_cons_of_ne_nil hnil
    exact ⟨_, applyBroadenType_eq_ok.mpr ⟨_, rfl, rfl⟩⟩
  obtain ⟨hsound, htarget⟩ := sound_of_applyTo hs hat op rfl haccept (hoverlay ▸ all_ofTypes hne)
  refine ⟨op, by rw [newBroadenType, hnames]; rfl, .single hsound htarget ?_ ?_ ?_⟩
  · rw [hoverlay]
    exact leafNode_mono hup
  · rw [hoverlay]
    exact leafNode_le_sup hlow
  · exact fun hle => hmissing ((leafNode_le_iff (d := old.decl) rfl).mp hle)

/-- The types both sets declare are no loss to the difference. -/
theorem le_sup_typeDifference {a b : Leaf T} {ta tb : List DataType} (hb : b = Leaf.ofTypes tb)
    (ha : Leaf.ofTypes ta ≤ a) : b ≤ a ⊔ Leaf.ofTypes (typeDifference tb ta) := by
  rw [hb]
  refine Leaf.ofTypes_le_iff.mpr fun dt hdt => ?_
  by_cases hmem : dt ∈ ta
  · exact ((Leaf.ofType_le_ofTypes hmem).trans ha).trans le_sup_left
  refine (Leaf.ofType_le_ofTypes ?_).trans le_sup_right
  simpa [typeDifference] using ⟨hdt, hmem⟩

theorem typeDifference_le {b : Leaf T} {ta tb : List DataType} (hb : b = Leaf.ofTypes tb) :
    Leaf.ofTypes (typeDifference tb ta) ≤ b := by
  rw [hb]
  exact Leaf.ofTypes_le_iff.mpr fun dt hdt => Leaf.ofType_le_ofTypes (List.mem_of_mem_filter hdt)

theorem addKindBranch_delivers (hs : Spells path base) (hat : root.at? base = some old)
    {branch : ModelNode T} (hreg : branch.All Regular) (hone : branch.kinds.length = 1)
    (hmarker : dropMarker branch = branch) (hmissing : ¬ branch.shape ≤ old.shape) :
    Delivers root base old.shape branch.shape [newAddKindBranch path branch] := by
  have hoverlay : (newAddKindBranch path branch).overlay = branch := hmarker
  have haccept : ∃ m, (newAddKindBranch path branch).applyTo old = .ok m :=
    ⟨_, applyAddKindBranch_eq_ok.mpr
      ⟨branch, by rw [newAddKindBranch, unmarshal, if_pos hreg.decodable], hone, rfl⟩⟩
  have hregular : (newAddKindBranch path branch).overlay.All Regular := by
    rw [hoverlay]
    exact hreg
  obtain ⟨hsound, htarget⟩ := sound_of_applyTo hs hat _ rfl haccept hregular
  refine .single hsound htarget ?_ ?_ hmissing
  · rw [hoverlay]
  · rw [hoverlay]
    exact le_sup_right

theorem isolateBranch_leaf (hnew : new.leaf = .scalar s) :
    isolateBranch new .leaf = leafNode (.scalar s) := by
  simp [isolateBranch, ModelNode.scalar, hnew, newEmptyNode, declareKind, addScalarTypes,
    Leaf.declare_addScalarTypes, leafNode]

theorem Delivers.absent : Delivers root base old.shape (leafNode .absent).shape [] :=
  .nil_leaf bot_le

omit [TypeSet T] in
theorem leaf_of_scalar (h : n.scalar = some s) : n.leaf = .scalar s := by
  unfold ModelNode.scalar at h
  split at h
  · rename_i heq
    cases h
    exact heq
  · cases h

/-- Where the scalar branch is widened in place, the added types make up the difference. -/
theorem addedTypes_spec (hl : new.leaf = .scalar s) (hne : TypeSet.types s ≠ [])
    (hold : old.scalar.isSome ∨ old.kinds = []) :
    Leaf.ofTypes (addedTypes old new) ≤ Leaf.scalar s ∧
      Leaf.scalar s ≤ old.leaf ⊔ Leaf.ofTypes (addedTypes old new) := by
  have hof := (Leaf.ofTypes_types hne).symm
  have hns : new.scalar = some s := by simp [ModelNode.scalar, hl]
  unfold addedTypes
  rw [hns]
  cases hos : old.scalar with
  | some t =>
    have hleaf := leaf_of_scalar hos
    exact ⟨typeDifference_le hof, le_sup_typeDifference hof (hleaf ▸ Leaf.ofTypes_types_le t)⟩
  | none =>
    have hkinds : old.kinds = [] := hold.resolve_left (by simp [hos])
    simp only [hkinds, if_true, ← hof]
    exact ⟨le_rfl, le_sup_right⟩

theorem addedTypes_missing (hl : new.leaf = .scalar s) (hle : old.leaf ≤ .scalar s)
    (hne : addedTypes old new ≠ []) : ¬ Leaf.scalar s ≤ old.leaf := by
  intro hge
  have hos : old.scalar = some s := by simp [ModelNode.scalar, le_antisymm hle hge]
  have hns : new.scalar = some s := by simp [ModelNode.scalar, hl]
  exact hne (by simp [addedTypes, hns, hos, typeDifference])

theorem diffLeaf_of_scalar (hl : new.leaf = .scalar s) :
    diffLeaf path old new =
      if addedTypes old new = [] then .ok []
      else List.singleton <$> newBroadenType path (addedTypes old new) := by
  simp only [diffLeaf, nullable, hl, Bool.false_and, Bool.false_eq_true, if_false]
  split
  · rfl
  · cases newBroadenType path (addedTypes old new) <;> rfl

/-- Between them the first and the last operations of a node deliver its scalar part. -/
theorem diffLeaf_delivers (hs : Spells path base) (hat : root.at? base = some old)
    (hle : old.leaf ≤ new.leaf) (hnew : Regular new) :
    ∃ ops l₁ l₂, diffLeaf path old new = .ok ops ∧ l₁ ⊔ l₂ = new.leaf ∧
      Delivers root base old.shape (leafNode l₁).shape ops ∧
      Delivers root base old.shape (leafNode l₂).shape (diffScalarBranch path old new) := by
  cases hl : new.leaf with
  | absent =>
    have hbranch : diffScalarBranch path old new = [] := by
      simp [diffScalarBranch, ModelNode.scalar, hl]
    refine ⟨[], .absent, .absent, ?_, rfl, .absent, hbranch ▸ .absent⟩
    simp [diffLeaf, nullable, addedTypes, ModelNode.scalar, hl, pure, Except.pure, bind,
      Except.bind]
  | nullable =>
    have hbranch : diffScalarBranch path old new = [] := by
      simp [diffScalarBranch, ModelNode.scalar, hl]
    cases ho : old.leaf with
    | absent =>
      obtain ⟨op, hop, hdel⟩ := broadenType_delivers hs hat (List.cons_ne_nil .null [])
        (l := .nullable) le_rfl le_sup_right (fun h => Leaf.nullable_le_iff.mp h ho)
      refine ⟨[op], .nullable, .absent, ?_, rfl, hdel, hbranch ▸ .absent⟩
      simp [diffLeaf, nullable, addedTypes, ModelNode.scalar, hl, ho, hop, pure, Except.pure,
        bind, Except.bind, Functor.map, Except.map, List.singleton]
    | nullable =>
      refine ⟨[], .nullable, .absent, ?_, rfl, .nil_leaf ho.ge, hbranch ▸ .absent⟩
      simp [diffLeaf, nullable, addedTypes, ModelNode.scalar, hl, ho, pure, Except.pure, bind,
        Except.bind]
    | scalar s =>
      rw [hl, ho] at hle
      obtain ⟨t, ht, _⟩ := Leaf.scalar_le_iff.mp hle
      cases ht
  | scalar s =>
    have htypes := hnew.inhabited s hl
    by_cases hold : old.scalar.isSome ∨ old.kinds = []
    · -- the scalar branch is widened in place
      have hbranch : diffScalarBranch path old new = [] := by
        rcases hold with hold | hold
        · obtain ⟨t, ht⟩ := Option.isSome_iff_exists.mp hold
          simp [diffScalarBranch, ht]
        · simp [diffScalarBranch, hold]
      have hadded := addedTypes_spec hl htypes hold
      by_cases hnil : addedTypes old new = []
      · refine ⟨[], .scalar s, .absent, by rw [diffLeaf_of_scalar hl, if_pos hnil], rfl,
          .nil_leaf ?_, hbranch ▸ .absent⟩
        simpa [hnil] using hadded.2
      · obtain ⟨op, hop, hdel⟩ := broadenType_delivers hs hat hnil hadded.1 hadded.2
          (addedTypes_missing hl (hl ▸ hle) hnil)
        refine ⟨[op], .scalar s, .absent, ?_, rfl, hdel, hbranch ▸ .absent⟩
        rw [diffLeaf_of_scalar hl, if_neg hnil, hop]
        rfl
    · -- the scalar branch comes beside kinds already declared
      obtain ⟨hnone, hkinds⟩ := not_or.mp hold
      rw [Bool.not_eq_true, Option.isSome_eq_false_iff, Option.isNone_iff_eq_none] at hnone
      have hns : new.scalar = some s := by simp [ModelNode.scalar, hl]
      have hadded : addedTypes old new = [] := by simp [addedTypes, hns, hnone, hkinds]
      have hbranch : diffScalarBranch path old new =
          [newAddKindBranch path (leafNode (.scalar s))] := by
        simp [diffScalarBranch, hns, hnone, hkinds, isolateBranch_leaf hl]
      refine ⟨[], .absent, .scalar s, by rw [diffLeaf_of_scalar hl, if_pos hadded], rfl,
        .absent, ?_⟩
      rw [hbranch]
      refine addKindBranch_delivers hs hat (all_leafNode (by simp) ?_) rfl rfl fun hsub => ?_
      · intro t ht
        cases ht
        exact htypes
      · obtain ⟨t, ht, _⟩ := Leaf.scalar_le_iff.mp ((leafNode_le_iff (d := old.decl) rfl).mp hsub)
        have hsome : old.scalar = some t := by
          simp [ModelNode.scalar, show old.leaf = .scalar t from ht]
        cases hnone.symm.trans hsome

/-! ## Objects -/

/-- The diff against `n` delivers it, wherever it stands in `root`. -/
def Diffs (root n : ModelNode T) : Prop :=
  ∀ {path : String} {base : List Segment} {old : ModelNode T}, Spells path base →
    root.at? base = some old → old.shape ≤ n.shape →
    ∃ ops, diffNode path old n = .ok ops ∧ Delivers root base old.shape n.shape ops

omit [TypeSet T] in
theorem at?_step (hat : root.at? base = some old) {s : Segment} (hstep : old.step s = some c) :
    root.at? (base ++ [s]) = some c := by
  rw [at?_append, hat]
  simp [at?, hstep]

omit [TypeSet T] in
theorem step_shape {s : Segment} (hstep : old.step s = some c) :
    (fun p => old.shape (s :: p)) = c.shape := by
  funext p
  rw [shape_cons, hstep, optShape_some]

/-- Nothing can be below a step the node does not have. -/
theorem not_graft_le {s : Segment} (hstep : old.step s = none) :
    ¬ graft [s] c.shape ≤ old.shape := by
  intro hle
  have hnil := graft_le_iff.mp hle []
  rw [List.append_nil, shape_cons, hstep, optShape_none, shape_nil] at hnil
  exact absurd (le_bot_iff.mp hnil) WithBot.coe_ne_bot

theorem objectNode_nil_le (hobj : old.object.isSome) : (objectNode []).shape ≤ old.shape := by
  intro p
  rcases p with _ | ⟨⟨key⟩ | _, p⟩
  · exact WithBot.coe_le_coe.mpr ⟨bot_le, by simp [objectNode, hobj, decl], Bool.false_le _⟩
  · exact bot_le
  · exact bot_le

theorem newArrayNode_none_le (harr : old.array.isSome) : (newArrayNode none).shape ≤ old.shape := by
  intro p
  rcases p with _ | ⟨⟨key⟩ | _, p⟩
  · exact WithBot.coe_le_coe.mpr ⟨bot_le, Bool.false_le _, by simp [newArrayNode, harr, decl]⟩
  · exact bot_le
  · exact bot_le

theorem all_objectNode {cs : Children T} (hnodup : (keys cs).Nodup)
    (haddr : ∀ name ∈ keys cs, Addressable name) (hreg : ∀ x ∈ cs, x.2.All Regular) :
    (objectNode cs).All Regular := by
  refine .mk ⟨?_, ?_, rfl, ?_⟩ ?_ ?_
  · intro cs' hcs'
    cases hcs'
    exact hnodup
  · intro cs' hcs'
    cases hcs'
    exact haddr
  · intro s hs
    cases hs
  · intro cs' hcs'
    cases hcs'
    exact hreg
  · intro e he
    cases he

theorem addProperty_delivers (hs : Spells path base) (hat : root.at? base = some old)
    (hobj : old.object.isSome) {name : String} (hname : Addressable name) (hc : c.All Regular)
    (hmissing : old.child name = none) :
    Delivers root base old.shape ((objectNode []).shape ⊔ graft [.field name] c.shape)
      [newAddProperty path name c] := by
  have hoverlay : (newAddProperty path name c).overlay.shape =
      (objectNode []).shape ⊔ graft [.field name] c.shape := by
    have hcons : (objectNode [(name, c)]).shape = _ :=
      shape_objectNode_cons (show name ∉ keys [] by simp [keys])
    rw [sup_right_comm, sup_idem] at hcons
    exact hcons
  have hregular : (newAddProperty path name c).overlay.All Regular :=
    all_objectNode (by simp [keys]) (by simpa [keys, newAddProperty] using hname)
      (by simpa using hc)
  have haccept : ∃ m, (newAddProperty path name c).applyTo old = .ok m :=
    ⟨_, applyAddProperty_eq_ok.mpr
      ⟨hobj, hname.ne_empty, c, by rw [newAddProperty, unmarshal, if_pos hc.decodable], rfl⟩⟩
  obtain ⟨hsound, htarget⟩ := sound_of_applyTo hs hat _ rfl haccept hregular
  refine .single hsound htarget ?_ ?_ fun hle => ?_
  · rw [hoverlay]
  · rw [hoverlay]
    exact le_sup_right
  · exact not_graft_le (s := .field name) hmissing (le_sup_right.trans hle)

theorem diffChildren_delivers (hs : Spells path base) (hat : root.at? base = some old)
    {oldChildren rest : Children T} (hobj : old.object = some oldChildren)
    (hnodup : (keys rest).Nodup) (haddr : ∀ name ∈ keys rest, Addressable name)
    (hreg : ∀ x ∈ rest, x.2.All Regular) (hdiffs : ∀ x ∈ rest, Diffs root x.2)
    (hle : ∀ x ∈ rest, ∀ c, oldChildren.lookup x.1 = some c → c.shape ≤ x.2.shape) :
    ∃ ops, diffChildren path oldChildren rest = .ok ops ∧
      Delivers root base old.shape (objectNode rest).shape ops := by
  have hsome : old.object.isSome := by simp [hobj]
  induction rest with
  | nil => exact ⟨[], by rw [diffChildren]; rfl, .nil (objectNode_nil_le hsome)⟩
  | cons x rest ih =>
    obtain ⟨name, c⟩ := x
    rw [keys_cons, List.nodup_cons] at hnodup
    have hname := haddr name (List.mem_cons_self ..)
    obtain ⟨restOps, hrestOps, hrest⟩ := ih hnodup.2
      (fun key hkey => haddr key (List.mem_cons_of_mem _ hkey))
      (fun y hy => hreg y (List.mem_cons_of_mem _ hy))
      (fun y hy => hdiffs y (List.mem_cons_of_mem _ hy))
      (fun y hy => hle y (List.mem_cons_of_mem _ hy))
    rw [shape_objectNode_cons hnodup.1]
    cases hlookup : oldChildren.lookup name with
    | none =>
      have hadd := addProperty_delivers hs hat hsome hname
        (hreg (name, c) (List.mem_cons_self ..)) (by simp [child, hobj, hlookup])
      refine ⟨[newAddProperty path name c] ++ restOps, ?_, hadd.append hrest⟩
      rw [diffChildren, hlookup, hrestOps]
      rfl
    | some oldChild =>
      have hstep : old.step (.field name) = some oldChild := by
        simp [step, child, hobj, hlookup]
      obtain ⟨ops, hops, hdel⟩ := hdiffs (name, c) (List.mem_cons_self ..) (hs.child hname)
        (at?_step hat hstep) (hle (name, c) (List.mem_cons_self ..) oldChild hlookup)
      rw [← step_shape hstep] at hdel
      refine ⟨ops ++ restOps, ?_, (hdel.below (objectNode_nil_le hsome)).append hrest⟩
      rw [diffChildren, hlookup]
      simp only [hops, hrestOps]
      rfl

theorem lookup_isSome_of_le {oldChildren newChildren : Children T}
    (hold : old.object = some oldChildren) (hnew : new.object = some newChildren)
    (hle : old.shape ≤ new.shape) {name : String} (hc : oldChildren.lookup name = some c) :
    ∃ c', newChildren.lookup name = some c' ∧ c.shape ≤ c'.shape := by
  have hsub : c.shape ≤ optShape (newChildren.lookup name) := by
    intro p
    have hp := hle (.field name :: p)
    rw [shape_cons, shape_cons] at hp
    simpa [step, child, hold, hnew, hc] using hp
  cases hnone : newChildren.lookup name with
  | none =>
    have hbot := hsub []
    rw [hnone, optShape_none, shape_nil] at hbot
    exact absurd (le_bot_iff.mp hbot) WithBot.coe_ne_bot
  | some c' => exact ⟨c', rfl, by rwa [hnone] at hsub⟩

theorem diffObject_delivers (hs : Spells path base) (hat : root.at? base = some old)
    (hle : old.shape ≤ new.shape) (hnew : Regular new)
    (hreg : ∀ cs, new.object = some cs → ∀ x ∈ cs, x.2.All Regular)
    (hdiffs : ∀ cs, new.object = some cs → ∀ x ∈ cs, Diffs root x.2) :
    ∃ ops, diffObject path old.object new.object = .ok ops ∧
      Delivers root base old.shape (objectPart new.object) ops := by
  cases hobj : new.object with
  | none => exact ⟨[], by rw [diffObject]; rfl, .nil bot_le⟩
  | some newChildren =>
    have hnodup := hnew.distinct newChildren hobj
    have hallreg := all_objectNode hnodup (hnew.addressable newChildren hobj)
      (hreg newChildren hobj)
    cases hold : old.object with
    | none =>
      refine ⟨_, by rw [diffObject]; rfl, ?_⟩
      refine addKindBranch_delivers hs hat hallreg rfl rfl fun hsub => ?_
      have hflag : old.object.isSome := (WithBot.coe_le_coe.mp (hsub [])).2.1 rfl
      simp [hold] at hflag
    | some oldChildren =>
      obtain ⟨ops, hops, hdel⟩ := diffChildren_delivers hs hat hold hnodup
        (hnew.addressable newChildren hobj) (hreg newChildren hobj)
        (hdiffs newChildren hobj) (fun x hx c hc => by
          obtain ⟨c', hc', hcle⟩ := lookup_isSome_of_le hold hobj hle hc
          cases (lookup_eq_some_of_mem hnodup hx).symm.trans hc'
          exact hcle)
      have hkept : oldChildren.find? (fun x => (newChildren.lookup x.1).isNone) = none := by
        rw [List.find?_eq_none]
        intro x hx
        obtain ⟨c, hc⟩ := exists_lookup_of_mem hx
        obtain ⟨c', hc', _⟩ := lookup_isSome_of_le hold hobj hle hc
        simp [hc']
      refine ⟨ops, ?_, hdel⟩
      rw [diffObject, hops]
      simp [hkept, bind, Except.bind, pure, Except.pure]

/-! ## Arrays -/

omit [TypeSet T] in
theorem leafNode_of_scalarOnly (h : isScalarOnly n = true) : n = leafNode n.leaf := by
  obtain ⟨leaf, object, array⟩ := n
  simp only [isScalarOnly, Bool.and_eq_true, Option.isNone_iff_eq_none] at h
  rw [leafNode, h.1, h.2]

theorem declaredTypes_spec (hn : Regular n) (hl : n.leaf ≠ .absent) :
    n.declaredTypes ≠ [] ∧ n.leaf = Leaf.ofTypes n.declaredTypes := by
  unfold declaredTypes
  cases hleaf : n.leaf with
  | absent => exact absurd hleaf hl
  | nullable => exact ⟨by simp [Leaf.declaredTypes], rfl⟩
  | scalar s =>
    have hne := hn.inhabited s hleaf
    exact ⟨hne, (Leaf.ofTypes_types hne).symm⟩

theorem ofTypes_declaredTypes_le (n : ModelNode T) : Leaf.ofTypes n.declaredTypes ≤ n.leaf := by
  unfold declaredTypes
  cases n.leaf with
  | absent => exact le_rfl
  | nullable => exact le_rfl
  | scalar s => exact Leaf.ofTypes_types_le s

theorem addArrayItemType_delivers (hs : Spells path base) (hat : root.at? base = some old)
    (harr : old.array.isSome) {added : List DataType} (hne : added ≠ [])
    (hup : Leaf.ofTypes added ≤ l)
    (hlow : graft [.element] (leafNode l).shape ≤
      old.shape ⊔ graft [.element] (leafNode (Leaf.ofTypes added)).shape)
    (hmissing : ¬ graft [.element] (leafNode l).shape ≤ old.shape) :
    ∃ op, newAddArrayItemType path added = .ok op ∧
      Delivers root base old.shape (newArrayNode (some (leafNode l))).shape [op] := by
  obtain ⟨names, hnames, hnil, hof⟩ := encodeTypeNames_ok (T := T) path hne
  let op : SchemaOp T := ⟨.addArrayItemType, path, "", .typeNames names⟩
  have hoverlay : op.overlay = newArrayNode (some (leafNode (Leaf.ofTypes added))) := by
    rw [← hof]
    rfl
  have haccept : ∃ m, op.applyTo old = .ok m := by
    obtain ⟨dt, rest, rfl⟩ := List.exists_cons_of_ne_nil hnil
    exact ⟨_, applyAddArrayItemType_eq_ok.mpr ⟨harr, _, rfl, rfl⟩⟩
  have hregular : op.overlay.All Regular := by
    rw [hoverlay]
    exact all_newArrayNode (all_ofTypes hne)
  obtain ⟨hsound, htarget⟩ := sound_of_applyTo hs hat op rfl haccept hregular
  refine ⟨op, by rw [newAddArrayItemType, hnames]; rfl, .single hsound htarget ?_ ?_ ?_⟩
  · rw [hoverlay, shape_newArrayNode_some, shape_newArrayNode_some]
    exact sup_le_sup_left (graft_mono (leafNode_mono hup)) _
  · rw [hoverlay, shape_newArrayNode_some, shape_newArrayNode_some]
    refine sup_le ((newArrayNode_none_le harr).trans le_sup_left) (hlow.trans ?_)
    exact sup_le_sup_left le_sup_right _
  · rw [shape_newArrayNode_some]
    exact fun hle => hmissing (le_sup_right.trans hle)

theorem element_le (hle : old.shape ≤ new.shape) : optShape old.element ≤ optShape new.element := by
  intro p
  have hp := hle (.element :: p)
  rwa [shape_cons, shape_cons] at hp

theorem leaf_ne_absent (hn : Regular n) (hscalar : isScalarOnly n = true) : n.leaf ≠ .absent := by
  intro hl
  have hdecl := declares_iff.mp hn.declares
  rw [leafNode_of_scalarOnly hscalar, hl] at hdecl
  exact hdecl rfl

/-- Both elements are scalars: the element is widened by the types it lacks. -/
theorem diffScalarElement_delivers (hs : Spells path base) (hat : root.at? base = some old)
    {oldE e : ModelNode T} (hstep : old.step .element = some oldE)
    (hscalar : isScalarOnly e = true) (hreg : Regular e) (hle : oldE.leaf ≤ e.leaf) :
    ∃ ops, (if typeDifference e.declaredTypes oldE.declaredTypes = [] then .ok []
        else List.singleton <$> newAddArrayItemType path
          (typeDifference e.declaredTypes oldE.declaredTypes)) = Except.ok ops ∧
      Delivers root base old.shape (newArrayNode (some e)).shape ops := by
  have harr : old.array.isSome := by simp [array_of_element hstep]
  have hsub : (fun p => old.shape (.element :: p)) = oldE.shape := step_shape hstep
  have hof := (declaredTypes_spec hreg (leaf_ne_absent hreg hscalar)).2
  have hlow := le_sup_typeDifference hof (ofTypes_declaredTypes_le oldE)
  have hleaf : e.shape = (leafNode e.leaf).shape := congrArg _ (leafNode_of_scalarOnly hscalar)
  by_cases hnil : typeDifference e.declaredTypes oldE.declaredTypes = []
  · refine ⟨[], if_pos hnil, .nil ?_⟩
    rw [hnil, Leaf.ofTypes_nil, Leaf.sup_absent] at hlow
    rw [shape_newArrayNode_some, hleaf]
    refine sup_le (newArrayNode_none_le harr) (graft_le_iff.mpr fun p => ?_)
    have hp := (leafNode_le_iff (f := oldE.shape) (d := oldE.decl) rfl).mpr hlow p
    rwa [← hsub] at hp
  · have hwiden : graft [.element] (leafNode e.leaf).shape ≤ old.shape ⊔ graft [.element]
        (leafNode (Leaf.ofTypes (typeDifference e.declaredTypes oldE.declaredTypes))).shape := by
      refine graft_le_iff.mpr fun p => ?_
      have hp := leafNode_le_sup (n := oldE) hlow p
      rw [← hsub] at hp
      simpa using hp
    have hmissing : ¬ graft [.element] (leafNode e.leaf).shape ≤ old.shape := by
      intro hsup
      have hge : (leafNode e.leaf).shape ≤ oldE.shape := by
        intro p
        rw [← hsub]
        exact graft_le_iff.mp hsup p
      have heq : oldE.leaf = e.leaf :=
        le_antisymm hle ((leafNode_le_iff (d := oldE.decl) rfl).mp hge)
      exact hnil (by simp [typeDifference, declaredTypes, heq])
    obtain ⟨op, hop, hdel⟩ :=
      addArrayItemType_delivers hs hat harr hnil (typeDifference_le hof) hwiden hmissing
    rw [← leafNode_of_scalarOnly hscalar] at hdel
    exact ⟨[op], by rw [if_neg hnil, hop]; rfl, hdel⟩

theorem diffElement_delivers (hs : Spells path base) (hat : root.at? base = some old)
    {oldElem newElem : Option (ModelNode T)} (hold : old.array = some oldElem)
    (hle : optShape oldElem ≤ optShape newElem) (hreg : ∀ e, newElem = some e → e.All Regular)
    (hdiffs : ∀ e, newElem = some e → Diffs root e) :
    ∃ ops, diffElement path oldElem newElem = .ok ops ∧
      Delivers root base old.shape (newArrayNode newElem).shape ops := by
  have harr : old.array.isSome := by simp [hold]
  have hoptElem : old.step .element = oldElem := by simp [step, element, hold]
  cases newElem with
  | none =>
    have hnone : oldElem = none := by
      rw [← optShape_nil_eq_bot]
      exact le_bot_iff.mp (hle [])
    subst hnone
    exact ⟨[], by rw [diffElement]; rfl, .nil (newArrayNode_none_le harr)⟩
  | some e =>
    have hereg := hreg e rfl
    cases oldElem with
    | none =>
      rw [diffElement]
      by_cases hcont : (e.object.isSome || e.array.isSome) = true
      · refine ⟨_, by simp only [hcont, if_true]; rfl, ?_⟩
        refine addKindBranch_delivers hs hat (all_newArrayNode hereg) rfl rfl fun hsub => ?_
        rw [shape_newArrayNode_some] at hsub
        exact not_graft_le hoptElem (le_sup_right.trans hsub)
      · have hscalar : isScalarOnly e = true := by
          simpa [isScalarOnly] using hcont
        obtain ⟨hne, hof⟩ := declaredTypes_spec hereg.here (leaf_ne_absent hereg.here hscalar)
        obtain ⟨op, hop, hdel⟩ := addArrayItemType_delivers hs hat harr hne hof.ge
          (by rw [← hof]; exact le_sup_right) (not_graft_le hoptElem)
        rw [← leafNode_of_scalarOnly hscalar] at hdel
        refine ⟨[op], ?_, hdel⟩
        simp only [hcont]
        rw [hop]
        rfl
    | some oldE =>
      have hsub : (fun p => old.shape (.element :: p)) = oldE.shape := step_shape hoptElem
      rw [diffElement]
      by_cases hscalar : (isScalarOnly oldE && isScalarOnly e) = true
      · have hleaf : oldE.leaf ≤ e.leaf := (WithBot.coe_le_coe.mp (hle [])).1
        obtain ⟨ops, hops, hdel⟩ := diffScalarElement_delivers hs hat hoptElem
          (Bool.and_eq_true_iff.mp hscalar).2 hereg.here hleaf
        exact ⟨ops, by simp only [hscalar, if_true]; exact hops, hdel⟩
      · obtain ⟨ops, hops, hdel⟩ := hdiffs e rfl hs.element (at?_step hat hoptElem) hle
        rw [← hsub] at hdel
        refine ⟨ops, by simp only [hscalar]; exact hops, ?_⟩
        rw [shape_newArrayNode_some]
        exact hdel.below (newArrayNode_none_le harr)

theorem diffArray_delivers (hs : Spells path base) (hat : root.at? base = some old)
    (hle : old.shape ≤ new.shape) (hreg : ∀ e, new.array = some (some e) → e.All Regular)
    (hdiffs : ∀ e, new.array = some (some e) → Diffs root e) :
    ∃ ops, diffArray path old.array new.array = .ok ops ∧
      Delivers root base old.shape (arrayPart new.array) ops := by
  cases hnew : new.array with
  | none => exact ⟨[], by rw [diffArray]; rfl, .nil bot_le⟩
  | some newElem =>
    cases hold : old.array with
    | none =>
      refine ⟨_, by rw [diffArray]; rfl, ?_⟩
      refine addKindBranch_delivers hs hat ?_ rfl rfl fun hsub => ?_
      · cases newElem with
        | some e => exact all_newArrayNode (hreg e hnew)
        | none => exact all_newArrayNode_none
      · have hflag : old.array.isSome := (WithBot.coe_le_coe.mp (hsub [])).2.2 rfl
        simp [hold] at hflag
    | some oldElem =>
      have helem := element_le hle
      simp only [element, hold, hnew, Option.join_some] at helem
      obtain ⟨ops, hops, hdel⟩ := diffElement_delivers hs hat hold helem
        (fun e he => hreg e (he ▸ hnew)) (fun e he => hdiffs e (he ▸ hnew))
      exact ⟨ops, by rw [diffArray]; exact hops, hdel⟩

/-! ## Nodes -/

theorem removedKind_eq_none (hle : old.decl ≤ new.decl) : removedKind old new = none := by
  have hobj : old.object.isSome → new.object.isSome := hle.2.1
  have harr : old.array.isSome → new.array.isSome := hle.2.2
  have hscalar : old.scalar.isSome → new.scalar.isSome := by
    intro h
    obtain ⟨s, hs⟩ := Option.isSome_iff_exists.mp h
    have hleaf : Leaf.scalar s ≤ new.leaf := leaf_of_scalar hs ▸ hle.1
    obtain ⟨t, ht, _⟩ := Leaf.scalar_le_iff.mp hleaf
    simp [ModelNode.scalar, ht]
  rw [removedKind, List.find?_eq_none]
  intro k hk
  cases k <;> simp_all [kinds]

theorem nullable_kept (hle : old.leaf ≤ new.leaf) :
    (old.nullable && !new.nullable && new.scalar.isNone) = false := by
  cases ho : old.leaf with
  | nullable =>
    rw [ho, Leaf.nullable_le_iff] at hle
    cases hn : new.leaf <;> simp_all [nullable, ModelNode.scalar]
  | absent => simp [nullable, ho]
  | scalar s => simp [nullable, ho]

/-- The diff to an established tree that declares more succeeds and delivers it. -/
theorem diffNode_delivers (hnew : new.All Regular) : Diffs root new := by
  induction hnew with
  | @mk n here hchildren helement ihChildren ihElement =>
    intro path base old hs hat hle
    have hdecl : old.decl ≤ n.decl := WithBot.coe_le_coe.mp (hle [])
    obtain ⟨leafOps, l₁, l₂, hleafOps, hsup, hdel₁, hdel₂⟩ := diffLeaf_delivers hs hat hdecl.1 here
    obtain ⟨objectOps, hobjectOps, hobject⟩ :=
      diffObject_delivers hs hat hle here hchildren fun cs hcs x hx => ihChildren cs hcs x hx
    obtain ⟨arrayOps, harrayOps, harray⟩ :=
      diffArray_delivers hs hat hle helement fun e he => ihElement e he
    refine ⟨leafOps ++ objectOps ++ arrayOps ++ diffScalarBranch path old n, ?_, ?_⟩
    · have hremoved := removedKind_eq_none hdecl
      have hmarker := nullable_kept hdecl.1
      cases n with
      | mk leaf object array =>
        simp only [diffNode, hremoved, hmarker, hleafOps, hobjectOps, harrayOps]
        rfl
    · have hall := ((hdel₁.append hobject).append harray).append hdel₂
      have hshape : (leafNode l₁).shape ⊔ objectPart n.object ⊔ arrayPart n.array ⊔
          (leafNode l₂).shape = n.shape := by
        rw [shape_parts n, ← hsup, ← leafNode_sup]
        ac_rfl
      rwa [hshape] at hall

end Node

end CyodaGo.Schema
