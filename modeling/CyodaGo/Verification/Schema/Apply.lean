import CyodaGo.Model.Schema.Delta
import CyodaGo.Shared.Checked
import CyodaGo.Verification.Schema.Shape

/-! # What applying an operation declares

Every operation of the catalog joins a fixed shape to the model, hung at the node it names.
It succeeds on every model that declares at least what the model it was made for declares. -/

namespace CyodaGo.Schema

open PathTree

variable {T : Type}

/-! ## Paths -/

def segmentOf (part : String) : Segment := if part = "[]" then .element else .field part

namespace ModelNode

/-- The node at a path. -/
def at? (n : ModelNode T) : List Segment → Option (ModelNode T)
  | [] => some n
  | s :: p => (n.step s).bind (at? · p)

@[simp] theorem at?_nil (n : ModelNode T) : n.at? [] = some n := rfl

theorem at?_cons (n : ModelNode T) (s : Segment) (p : List Segment) :
    n.at? (s :: p) = (n.step s).bind (at? · p) := rfl

theorem at?_append (n : ModelNode T) (q p : List Segment) :
    n.at? (q ++ p) = (n.at? q).bind (at? · p) := by
  induction q generalizing n with
  | nil => rfl
  | cons s q ih =>
    rw [List.cons_append, at?_cons, at?_cons]
    cases n.step s with
    | none => rfl
    | some m => exact ih m

theorem shape_append (n : ModelNode T) (q p : List Segment) :
    n.shape (q ++ p) = optShape (n.at? q) p := by
  induction q generalizing n with
  | nil => rfl
  | cons s q ih =>
    rw [List.cons_append, shape_cons, at?_cons]
    cases n.step s with
    | none => rfl
    | some m => exact ih m

theorem shape_at? (n : ModelNode T) (q : List Segment) : n.shape q = optShape (n.at? q) [] := by
  simpa using n.shape_append q []

end ModelNode

open ModelNode

/-! ## One change at a path -/

/-- The node with `m` in the place of what one step reaches. -/
def ModelNode.setStep (n m : ModelNode T) : Segment → ModelNode T
  | .field name => { n with object := n.object.map (Entries.set · name m) }
  | .element => { n with array := n.array.map fun _ => some m }

variable {n n' : ModelNode T} {path : String} {parts : List String}

theorem shape_setStep {next : ModelNode T} {s : Segment} (hs : n.step s = some next)
    (m : ModelNode T) : (n.setStep m s).shape = splice [s] m.shape n.shape := by
  funext p
  cases s with
  | field name =>
    obtain ⟨cs, hcs, _⟩ := Option.bind_eq_some_iff.mp hs
    rcases p with _ | ⟨⟨name'⟩ | _, p⟩
    · simp [decl, setStep]
    · by_cases hname : name = name'
      · subst hname
        simp [shape_cons, step, child, setStep, hcs]
      rw [splice_cons_of_ne (by simpa using hname)]
      simp [shape_cons, step, child, setStep, hcs, Entries.lookup_set_of_ne (Ne.symm hname)]
    · rw [splice_cons_of_ne (by simp), shape_cons, shape_cons]
      rfl
  | element =>
    rcases p with _ | ⟨_ | _, p⟩
    · simp [decl, setStep]
    · rw [splice_cons_of_ne (by simp), shape_cons, shape_cons]
      rfl
    · simp [shape_cons, step, element, setStep, array_of_element hs]

/-- Success of `updateAt` below one segment. -/
theorem updateAt_cons {f : ModelNode T → Except DeltaError (ModelNode T)} {part : String}
    {rest : List String} :
    updateAt path f (part :: rest) n = .ok n' ↔
      part ≠ "" ∧ ∃ next next', n.step (segmentOf part) = some next ∧
        updateAt path f rest next = .ok next' ∧ n' = n.setStep next' (segmentOf part) := by
  rw [updateAt]
  by_cases hempty : part = ""
  · simp [hempty, throw, throwThe, MonadExceptOf.throw]
  rw [if_neg hempty, segmentOf]
  by_cases hpart : part = "[]"
  · rw [if_pos hpart, if_pos hpart]
    rcases harr : n.array with _ | _ | elem
    · simp [step, element, harr, throw, throwThe, MonadExceptOf.throw]
    · simp [step, element, harr, throw, throwThe, MonadExceptOf.throw]
    · cases hrec : updateAt path f rest elem <;>
        simp [step, element, harr, hrec, hempty, setStep, bind, Except.bind, pure, Except.pure,
          eq_comm]
  · rw [if_neg hpart, if_neg hpart]
    cases hobj : n.object with
    | none => simp [step, child, hobj, throw, throwThe, MonadExceptOf.throw]
    | some cs =>
      cases hlookup : cs.lookup part with
      | none => simp [step, child, hobj, hlookup, throw, throwThe, MonadExceptOf.throw]
      | some next =>
        cases hrec : updateAt path f rest next <;>
          simp [step, child, hobj, hlookup, hrec, hempty, setStep, bind, Except.bind, pure,
            Except.pure, eq_comm]

/-- What a successful `updateAt` did: the change succeeded on the node at the path, and its
result is spliced in there. -/
theorem updateAt_ok {f : ModelNode T → Except DeltaError (ModelNode T)}
    (h : updateAt path f parts n = .ok n') :
    ∃ m m', n.at? (parts.map segmentOf) = some m ∧ f m = .ok m' ∧
      n'.shape = splice (parts.map segmentOf) m'.shape n.shape := by
  induction parts generalizing n n' with
  | nil => exact ⟨n, n', rfl, h, rfl⟩
  | cons part rest ih =>
    rw [updateAt_cons] at h
    obtain ⟨_, next, next', hstep, hrec, rfl⟩ := h
    obtain ⟨m, m', hat, hf, hshape⟩ := ih hrec
    have hsub : (fun r => n.shape (segmentOf part :: r)) = next.shape := by
      funext r
      rw [shape_cons, hstep, optShape_some]
    refine ⟨m, m', ?_, hf, ?_⟩
    · rw [List.map_cons, at?_cons, hstep]
      exact hat
    · rw [shape_setStep hstep, hshape, ← hsub]
      exact splice_splice (q := [segmentOf part])

theorem updateAt_parts {f : ModelNode T → Except DeltaError (ModelNode T)}
    (h : updateAt path f parts n = .ok n') :
    "" ∉ parts := by
  induction parts generalizing n n' with
  | nil => simp
  | cons part rest ih =>
    rw [updateAt_cons] at h
    obtain ⟨hpart, next, next', _, hrec, _⟩ := h
    rw [List.mem_cons, not_or]
    exact ⟨Ne.symm hpart, ih hrec⟩

theorem updateAt_eq_ok {f : ModelNode T → Except DeltaError (ModelNode T)} {m m' : ModelNode T}
    (hparts : "" ∉ parts) (hat : n.at? (parts.map segmentOf) = some m) (hf : f m = .ok m') :
    ∃ n', updateAt path f parts n = .ok n' := by
  induction parts generalizing n with
  | nil =>
    cases hat
    exact ⟨m', hf⟩
  | cons part rest ih =>
    rw [List.mem_cons, not_or] at hparts
    rw [List.map_cons, at?_cons, Option.bind_eq_some_iff] at hat
    obtain ⟨next, hstep, hrest⟩ := hat
    obtain ⟨next', hrec⟩ := ih hparts.2 hrest
    refine ⟨n.setStep next' (segmentOf part), ?_⟩
    rw [updateAt_cons]
    exact ⟨Ne.symm hparts.1, next, next', hstep, hrec, rfl⟩

theorem ModelNode.All.setStep {P : ModelNode T → Prop} {m : ModelNode T} {s : Segment}
    (hn : All P n) (hm : All P m) (here : P (n.setStep m s)) : All P (n.setStep m s) := by
  cases hn with
  | mk _ children element =>
    cases s with
    | field name =>
      refine .mk here (fun cs hcs x hx => ?_) element
      obtain ⟨cs₀, hcs₀, rfl⟩ := Option.map_eq_some_iff.mp hcs
      rcases Entries.mem_set hx with rfl | hold
      · exact hm
      · exact children cs₀ hcs₀ x hold
    | element =>
      refine .mk here children fun e he => ?_
      obtain ⟨_, _, heq⟩ := Option.map_eq_some_iff.mp he
      cases heq
      exact hm

/-- A property of nodes that replacing a reached node keeps, and that the change keeps, is kept
by `updateAt`. -/
theorem ModelNode.All.updateAt {P : ModelNode T → Prop}
    {f : ModelNode T → Except DeltaError (ModelNode T)}
    (hset : ∀ n next m s, n.step s = some next → P n → P (n.setStep m s))
    (hf : ∀ m m', f m = .ok m' → All P m → All P m') (h : Schema.updateAt path f parts n = .ok n')
    (hn : All P n) : All P n' := by
  induction parts generalizing n n' with
  | nil => exact hf n n' h hn
  | cons part rest ih =>
    rw [updateAt_cons] at h
    obtain ⟨_, next, next', hstep, hrec, rfl⟩ := h
    exact hn.setStep (ih hrec (hn.step hstep)) (hset n next next' _ hstep hn.here)

/-! ## Every operation merges an overlay -/

section Overlay

variable [TypeSet T]

def leafNode (l : Leaf T) : ModelNode T := ⟨l, none, none⟩

/-- The node without a bare nullable marker. -/
def dropMarker (n : ModelNode T) : ModelNode T :=
  match n.leaf with
  | .nullable => { n with leaf := .absent }
  | _ => n

namespace SchemaOp

/-- What the operation merges into its target. -/
def overlay (op : SchemaOp T) : ModelNode T :=
  match op.kind, op.payload with
  | .addProperty, .node n => ⟨.absent, some [(op.name, n)], none⟩
  | .broadenType, .typeNames types => leafNode (Leaf.ofTypes types)
  | .addArrayItemType, .typeNames types => newArrayNode (some (leafNode (Leaf.ofTypes types)))
  | .addKindBranch, .node n => dropMarker n
  | _, _ => newEmptyNode

def target (op : SchemaOp T) : List Segment := (splitPath op.path).map segmentOf

/-- The operation on the node it names. -/
def applyTo (op : SchemaOp T) (m : ModelNode T) : Except DeltaError (ModelNode T) :=
  match op.kind with
  | .addProperty => applyAddProperty op m
  | .broadenType => applyBroadenType op m
  | .addArrayItemType => applyAddArrayItemType op m
  | .addKindBranch => applyAddKindBranch op m
  | .unknown kind => throw (.unknownKind kind)

end SchemaOp

variable {op : SchemaOp T} {m n m' root root' : ModelNode T}

theorem merge_leafNode (n : ModelNode T) (l : Leaf T) :
    n.merge (leafNode l) = { n with leaf := n.leaf ⊔ l } := by
  rw [merge_eq]
  rfl

omit [TypeSet T] in
theorem unmarshal_ok {payload : Payload T} (h : unmarshal payload = .ok n) :
    payload = .node n ∧ n.decodable = true := by
  cases payload with
  | node m =>
    rw [unmarshal] at h
    split at h
    · rename_i hdec
      cases h
      exact ⟨rfl, hdec⟩
    · cases h
  | typeNames _ => cases h
  | malformed => cases h

omit [TypeSet T] in
theorem decodeTypeNames_ok {payload : Payload T} {types : List DataType}
    (h : decodeTypeNames payload = .ok types) : payload = .typeNames types ∧ types ≠ [] := by
  cases payload with
  | typeNames l =>
    cases l with
    | nil => cases h
    | cons dt rest =>
      cases h
      exact ⟨rfl, List.cons_ne_nil _ _⟩
  | node _ => cases h
  | malformed => cases h

open Checked

/-- The checks `addProperty` makes on its parent. -/
theorem applyAddProperty_eq_ok :
    applyAddProperty op m = .ok m' ↔
      m.object.isSome ∧ op.name ≠ "" ∧ ∃ n, unmarshal op.payload = .ok n ∧
        m.setChild op.name ((m.child op.name).elim n (·.merge n)) = m' := by
  unfold applyAddProperty
  cases hobj : m.object with
  | none => simp [throw, throwThe, MonadExceptOf.throw, bind, Except.bind]
  | some cs =>
    by_cases hname : op.name = ""
    · simp [hname, throw, throwThe, MonadExceptOf.throw, bind, Except.bind]
    · cases m.child op.name <;> simp [hname, map_eq_ok]

theorem applyBroadenType_eq_ok :
    applyBroadenType op m = .ok m' ↔
      ∃ types, decodeTypeNames op.payload = .ok types ∧ m.addScalarTypes types = m' := by
  simp [applyBroadenType, map_eq_ok]

/-- The leaf a list of types declares. -/
theorem newLeafNode_addScalarTypes (dt : DataType) (rest : List DataType) :
    (newLeafNode dt).addScalarTypes rest = leafNode (Leaf.ofTypes (T := T) (dt :: rest)) := by
  simp [newLeafNode, addScalarTypes, newEmptyNode, leafNode, Leaf.addScalarTypes_eq]

theorem applyAddArrayItemType_eq_ok :
    applyAddArrayItemType op m = .ok m' ↔
      m.array.isSome ∧ ∃ types, decodeTypeNames op.payload = .ok types ∧
        m.setElement ((m.element).elim (leafNode (Leaf.ofTypes types))
          (·.addScalarTypes types)) = m' := by
  unfold applyAddArrayItemType
  cases harr : m.array with
  | none => simp [throw, throwThe, MonadExceptOf.throw, bind, Except.bind]
  | some elem =>
    simp only [Option.isNone_some, Bool.false_eq_true, if_false, Option.isSome_some, true_and,
      bind_eq_ok]
    refine exists_congr fun types => and_congr_right fun htypes => ?_
    obtain ⟨dt, rest, rfl⟩ := List.exists_cons_of_ne_nil (decodeTypeNames_ok htypes).2
    cases m.element <;> simp [pure_eq_ok, newLeafNode_addScalarTypes]

theorem applyAddKindBranch_eq_ok :
    applyAddKindBranch op m = .ok m' ↔
      ∃ n, unmarshal op.payload = .ok n ∧ n.kinds.length = 1 ∧ m.merge (dropMarker n) = m' := by
  simp only [applyAddKindBranch, bind_eq_ok]
  refine exists_congr fun n => and_congr_right fun _ => ?_
  obtain ⟨leaf, object, array⟩ := n
  cases leaf <;> cases object <;> cases array <;>
    simp [kinds, ModelNode.scalar, merge_eq, dropMarker, pure_eq_ok, throw_ne_ok,
      declareKind, addScalarTypes, Leaf.declare_addScalarTypes, mergeObject, mergeArray]

/-- A successful operation merged its overlay into its target. -/
theorem applyTo_ok (h : op.applyTo m = .ok m') : m' = m.merge op.overlay := by
  unfold SchemaOp.applyTo at h
  unfold SchemaOp.overlay
  cases hkind : op.kind with
  | addProperty =>
    rw [hkind] at h
    obtain ⟨hobj, _, n, hn, rfl⟩ := applyAddProperty_eq_ok.mp h
    obtain ⟨cs, hcs⟩ := Option.isSome_iff_exists.mp hobj
    rw [(unmarshal_ok hn).1, merge_eq]
    simp only [setChild, hcs, mergeObject, mergeChildren, child, mergeArray, Leaf.sup_absent,
      Option.getD_some, Option.bind_some]
    cases cs.lookup op.name <;> rfl
  | broadenType =>
    rw [hkind] at h
    obtain ⟨types, htypes, rfl⟩ := applyBroadenType_eq_ok.mp h
    rw [(decodeTypeNames_ok htypes).1, merge_leafNode, addScalarTypes, Leaf.addScalarTypes_eq]
  | addArrayItemType =>
    rw [hkind] at h
    obtain ⟨harr, types, htypes, rfl⟩ := applyAddArrayItemType_eq_ok.mp h
    obtain ⟨elem, helem⟩ := Option.isSome_iff_exists.mp harr
    rw [(decodeTypeNames_ok htypes).1, merge_eq]
    simp only [setElement, helem, newArrayNode, mergeObject, mergeArray, element,
      Leaf.sup_absent, Option.getD_some, Option.join_some]
    cases elem with
    | none => rfl
    | some e => simp [mergeElement, merge_leafNode, addScalarTypes, Leaf.addScalarTypes_eq]
  | addKindBranch =>
    rw [hkind] at h
    obtain ⟨n, hn, _, rfl⟩ := applyAddKindBranch_eq_ok.mp h
    rw [(unmarshal_ok hn).1]
  | unknown kind =>
    rw [hkind] at h
    exact absurd h throw_ne_ok

/-- A node that declares more accepts every operation. -/
theorem applyTo_mono (hdecl : m.decl ≤ n.decl) (h : op.applyTo m = .ok m') :
    ∃ n', op.applyTo n = .ok n' := by
  have hobj : m.object.isSome → n.object.isSome := hdecl.2.1
  have harr : m.array.isSome → n.array.isSome := hdecl.2.2
  unfold SchemaOp.applyTo at h ⊢
  cases hkind : op.kind with
  | addProperty =>
    rw [hkind] at h
    obtain ⟨hm, hname, o, ho, _⟩ := applyAddProperty_eq_ok.mp h
    exact ⟨_, applyAddProperty_eq_ok.mpr ⟨hobj hm, hname, o, ho, rfl⟩⟩
  | broadenType =>
    rw [hkind] at h
    obtain ⟨types, htypes, _⟩ := applyBroadenType_eq_ok.mp h
    exact ⟨_, applyBroadenType_eq_ok.mpr ⟨types, htypes, rfl⟩⟩
  | addArrayItemType =>
    rw [hkind] at h
    obtain ⟨hm, types, htypes, _⟩ := applyAddArrayItemType_eq_ok.mp h
    exact ⟨_, applyAddArrayItemType_eq_ok.mpr ⟨harr hm, types, htypes, rfl⟩⟩
  | addKindBranch =>
    rw [hkind] at h
    obtain ⟨o, ho, hone, _⟩ := applyAddKindBranch_eq_ok.mp h
    exact ⟨_, applyAddKindBranch_eq_ok.mpr ⟨o, ho, hone, rfl⟩⟩
  | unknown kind =>
    rw [hkind] at h
    exact absurd h throw_ne_ok

/-! ## Operations on a whole model -/

theorem applyOp_eq (root : ModelNode T) (op : SchemaOp T) (hkind : ∀ kind, op.kind ≠ .unknown kind) :
    applyOp root op = updateAt op.path op.applyTo (splitPath op.path) root := by
  unfold applyOp SchemaOp.applyTo
  cases h : op.kind with
  | unknown kind => exact absurd h (hkind kind)
  | _ => rfl

theorem kind_ne_unknown (h : applyOp root op = .ok root') (kind : String) :
    op.kind ≠ .unknown kind := by
  intro hkind
  rw [applyOp, hkind] at h
  exact absurd h throw_ne_ok

/-- A successful operation merged its overlay into the node it names and left the rest alone. -/
theorem applyOp_ok (h : applyOp root op = .ok root') :
    "" ∉ splitPath op.path ∧ ∃ m m', root.at? op.target = some m ∧ op.applyTo m = .ok m' ∧
      root'.shape = splice op.target (m.merge op.overlay).shape root.shape := by
  rw [applyOp_eq root op (kind_ne_unknown h)] at h
  obtain ⟨m, m', hat, hm, hshape⟩ := updateAt_ok h
  exact ⟨updateAt_parts h, m, m', hat, hm, applyTo_ok hm ▸ hshape⟩

theorem applyOp_of_at (hparts : "" ∉ splitPath op.path) (hat : root.at? op.target = some m)
    (hm : op.applyTo m = .ok m') : ∃ root', applyOp root op = .ok root' := by
  rw [applyOp_eq root op fun kind hkind => by
    rw [SchemaOp.applyTo, hkind] at hm
    exact absurd hm throw_ne_ok]
  exact updateAt_eq_ok hparts hat hm

/-- Operations only add declarations. -/
theorem le_applyOp (h : applyOp root op = .ok root') : root.shape ≤ root'.shape := by
  obtain ⟨_, m, m', hat, _, hshape⟩ := applyOp_ok h
  rw [hshape]
  refine le_splice fun p => ?_
  rw [shape_append, hat]
  exact le_shape_merge m _ p

/-- An operation accepted on a model is accepted on every model that declares more. -/
theorem applyOp_mono (h : applyOp root op = .ok root') (hle : root.shape ≤ n.shape) :
    ∃ n', applyOp n op = .ok n' := by
  obtain ⟨hparts, m, m', hat, hm, _⟩ := applyOp_ok h
  have hshape := hle op.target
  rw [shape_at?, hat, optShape_some, shape_nil] at hshape
  cases hn : n.at? op.target with
  | none =>
    rw [shape_at?, hn] at hshape
    exact absurd hshape (by simp)
  | some k =>
    rw [shape_at?, hn, optShape_some, shape_nil, WithBot.coe_le_coe] at hshape
    obtain ⟨k', hk'⟩ := applyTo_mono hshape hm
    exact applyOp_of_at hparts hn hk'

/-- What an operation adds to the shape of the model. -/
def SchemaOp.shape (op : SchemaOp T) : Shape T := graft op.target op.overlay.shape

theorem shape_applyOp (hov : op.overlay.Distinct) (h : applyOp root op = .ok root') :
    root'.shape = root.shape ⊔ op.shape := by
  obtain ⟨_, m, m', hat, _, hshape⟩ := applyOp_ok h
  rw [hshape, shape_merge hov]
  refine splice_eq_sup_graft fun p => ?_
  rw [shape_append, hat]
  rfl

/-! ## Deltas -/

/-- The join of what the operations of a delta add. -/
def deltaShape : SchemaDelta T → Shape T
  | [] => ⊥
  | op :: rest => op.shape ⊔ deltaShape rest

variable {ops : SchemaDelta T}

theorem shape_foldlM (hov : ∀ op ∈ ops, op.overlay.Distinct)
    (h : ops.foldlM applyOp root = .ok root') : root'.shape = root.shape ⊔ deltaShape ops := by
  induction ops generalizing root with
  | nil =>
    cases h
    exact (sup_bot_eq _).symm
  | cons op rest ih =>
    obtain ⟨mid, hop, hrest⟩ := foldlM_cons_eq_ok.mp h
    rw [ih (fun o ho => hov o (List.mem_cons_of_mem _ ho)) hrest,
      shape_applyOp (hov op (List.mem_cons_self ..)) hop, deltaShape, sup_assoc]

theorem le_foldlM (h : ops.foldlM applyOp root = .ok root') : root.shape ≤ root'.shape := by
  induction ops generalizing root with
  | nil =>
    cases h
    exact le_rfl
  | cons op rest ih =>
    obtain ⟨mid, hop, hrest⟩ := foldlM_cons_eq_ok.mp h
    exact (le_applyOp hop).trans (ih hrest)

/-- Operations that are each accepted on `root` are accepted one after the other. -/
theorem foldlM_of_forall (hops : ∀ op ∈ ops, ∃ r, applyOp root op = .ok r)
    (hle : root.shape ≤ n.shape) :
    ∃ n', ops.foldlM applyOp n = .ok n' := by
  induction ops generalizing n with
  | nil => exact ⟨n, rfl⟩
  | cons op rest ih =>
    obtain ⟨r, hr⟩ := hops op (List.mem_cons_self ..)
    obtain ⟨mid, hmid⟩ := applyOp_mono hr hle
    obtain ⟨n', hn'⟩ := ih (fun o ho => hops o (List.mem_cons_of_mem _ ho))
      (hle.trans (le_applyOp hmid))
    exact ⟨n', foldlM_cons_eq_ok.mpr ⟨mid, hmid, hn'⟩⟩

theorem apply_eq_ok {delta : SchemaDelta T} :
    apply root delta = .ok root' ↔
      root.decodable = true ∧ delta.foldlM applyOp root = .ok root' := by
  rw [apply, cloneNode, bind_eq_ok]
  split
  · simp [*]
  · simp [*]

/-- `Apply` only adds declarations. -/
theorem le_apply {delta : SchemaDelta T} (h : apply root delta = .ok root') :
    root.shape ≤ root'.shape :=
  le_foldlM (apply_eq_ok.mp h).2

end Overlay

end CyodaGo.Schema
