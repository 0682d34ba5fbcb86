import CyodaGo.Verification.Schema.Needs

/-! # The depth guard of the traversal

A value is judged against a declared child, described as a new field or element, or described
in place of another kind, and each of these calls carries a depth. On every route the depth is
the length of the value's path, so the guard fires exactly for the documents that are too deep,
whatever the model declares. -/

namespace CyodaGo.Schema

variable {T D : Type} [TypeSet T]

namespace Doc

/-- No value that only a decoder without `UseNumber` produces. -/
abbrev Decoded (d : Doc) : Prop := All (fun d => d ≠ .float64 ∧ ∀ goType, d ≠ .other goType) d

abbrev Addressable (d : Doc) : Prop :=
  All (fun d => ∀ fs, d = .object fs → ∀ x ∈ fs, isSegmentName x.1 = true) d

/-- Some value of the document lies at depth `n` or more. -/
def Deep (d : Doc) (n : Nat) : Prop := ∃ p v, d.At p v ∧ n ≤ p.length

@[simp] theorem deep_zero (d : Doc) : d.Deep 0 := ⟨[], d, .here d, by simp⟩

@[simp] theorem deep_object {fs : List (String × Doc)} {n : Nat} :
    (Doc.object fs).Deep (n + 1) ↔ ∃ x ∈ fs, x.2.Deep n := by
  constructor
  · intro ⟨p, v, hat, hlen⟩
    cases hat with
    | here => simp at hlen
    | @field _ name w _ p mem inner =>
      exact ⟨(name, w), mem, p, v, inner, by simpa using hlen⟩
  · intro ⟨x, hx, p, v, hat, hlen⟩
    exact ⟨.field x.1 :: p, v, .field hx hat, by simpa using hlen⟩

@[simp] theorem deep_array {items : List Doc} {n : Nat} :
    (Doc.array items).Deep (n + 1) ↔ ∃ x ∈ items, x.Deep n := by
  constructor
  · intro ⟨p, v, hat, hlen⟩
    cases hat with
    | here => simp at hlen
    | @item _ w _ p mem inner => exact ⟨w, mem, p, v, inner, by simpa using hlen⟩
  · intro ⟨x, hx, p, v, hat, hlen⟩
    exact ⟨.element :: p, v, .item hx hat, by simpa using hlen⟩

/-- A value that is no container has nothing below it. -/
theorem not_deep_value {d : Doc} (hobject : ∀ fs, d ≠ .object fs)
    (harray : ∀ items, d ≠ .array items) {n : Nat} : ¬ d.Deep (n + 1) := by
  intro ⟨p, v, hat, hlen⟩
  cases hat with
  | here => simp at hlen
  | field => exact hobject _ rfl
  | item => exact harray _ rfl

end Doc

/-! ## Outcomes -/

/-- The computation is stopped by the depth guard when `deep` holds and succeeds otherwise. -/
inductive Guarded {α : Type} (deep : Prop) : Except AdmitError α → Prop
  | exceeded (h : deep) (path : String) : Guarded deep (.error (.depthExceeded path))
  | admitted (h : ¬ deep) (r : α) : Guarded deep (.ok r)

namespace Guarded

variable {α β : Type} {deep : Prop} {x : Except AdmitError α}

theorem exceeded_iff (h : Guarded deep x) : (∃ path, x = .error (.depthExceeded path)) ↔ deep := by
  cases h with
  | exceeded h path => simp [h]
  | admitted h r => simp [h]

theorem congr {deep' : Prop} (h : Guarded deep x) (hiff : deep ↔ deep') : Guarded deep' x :=
  propext hiff ▸ h

theorem map (h : Guarded deep x) (f : α → β) : Guarded deep (f <$> x) := by
  cases h with
  | exceeded h path => exact .exceeded h path
  | admitted h r => exact .admitted h (f r)

section Fold

variable {combine : Option (ModelNode T) → α → ModelNode T → ModelNode T}
  {finding : α → Except AdmitError (Finding T)}

omit [TypeSet T] in
theorem collect {part : α} (acc : Finding T) (h : Guarded deep (finding part)) :
    Guarded deep (Schema.collect combine finding acc part) := by
  unfold Schema.collect
  generalize finding part = y at h
  cases h with
  | exceeded h path => exact .exceeded h path
  | admitted h r =>
    obtain ⟨overlay, changes⟩ := r
    cases overlay <;> exact .admitted h _

omit [TypeSet T] in
/-- The loop over the parts stops at the first one that is too deep. -/
theorem foldlM (deep : α → Prop) {parts : List α} (acc : Finding T)
    (h : ∀ x ∈ parts, Guarded (deep x) (finding x)) :
    Guarded (∃ x ∈ parts, deep x) (parts.foldlM (Schema.collect combine finding) acc) := by
  induction parts generalizing acc with
  | nil => exact .admitted (by simp) acc
  | cons x xs ih =>
    have hx : Guarded (deep x) (Schema.collect combine finding acc x) := (h x (by simp)).collect acc
    rw [List.foldlM_cons]
    generalize Schema.collect combine finding acc x = y at hx
    cases hx with
    | exceeded hdeep path => exact .exceeded ⟨x, by simp, hdeep⟩ path
    | admitted hshallow mid =>
      have hrest := ih mid fun y hy => h y (by simp [hy])
      exact hrest.congr (by simp [hshallow])

end Fold

end Guarded

theorem exists_mem_zipIdx {α : Type} {l : List α} {P : α → Prop} :
    (∃ x ∈ l.zipIdx, P x.1) ↔ ∃ a ∈ l, P a := by
  simpa using not_congr (forall_mem_zipIdx (l := l) (P := fun a => ¬ P a))

/-! ## One level of the traversal -/

/-- Both calls are guarded by the levels left, on documents that raise no other error. -/
structure GuardedCalls (deeper : Deeper T) (n : Nat) : Prop where
  node (model : ModelNode T) {d : Doc} (hd : d.Decoded) (ha : d.Addressable)
    (path docPath : String) (level : ChangeLevel) :
    Guarded (d.Deep n) (deeper.node model d path docPath level)
  describeAt {d : Doc} (hd : d.Decoded) (ha : d.Addressable) (path docPath : String) :
    Guarded (d.Deep n) (deeper.describeAt d path docPath)

section Level

variable {n : Nat} {deeper : Deeper T} (hcalls : GuardedCalls deeper n) (spi : ScalarSpi D)
  (model : ModelNode T) (path docPath : String) (level : ChangeLevel)

include hcalls

omit [TypeSet T] in
theorem guarded_object {fs : List (String × Doc)} (hd : (Doc.object fs).Decoded)
    (ha : (Doc.object fs).Addressable) :
    Guarded ((Doc.object fs).Deep (n + 1)) (object deeper false model fs path docPath) := by
  refine (Guarded.foldlM (fun x => x.2.Deep n) _ fun x hx => ?_).congr Doc.deep_object.symm
  have hname : isSegmentName x.1 = true := ha.here fs rfl x hx
  cases hchild : model.child x.1 with
  | none =>
    simp only [fieldFinding, hchild, hname, if_true]
    exact (hcalls.describeAt (hd.field hx) (ha.field hx) _ _).map _
  | some child =>
    rw [fieldFinding_of_some hchild]
    exact hcalls.node child (hd.field hx) (ha.field hx) _ _ _

theorem guarded_array {items : List Doc} (hd : (Doc.array items).Decoded)
    (ha : (Doc.array items).Addressable) :
    Guarded ((Doc.array items).Deep (n + 1)) (array deeper model items path docPath) := by
  have hdeep : (Doc.array items).Deep (n + 1) ↔ ∃ x ∈ items.zipIdx, x.1.Deep n :=
    Doc.deep_array.trans exists_mem_zipIdx.symm
  have hitem (x : Doc × Nat) (hx : x ∈ items.zipIdx) : x.1.Decoded ∧ x.1.Addressable :=
    have hmem := List.fst_mem_of_mem_zipIdx hx
    ⟨hd.item hmem, ha.item hmem⟩
  cases helement : model.element with
  | none =>
    rw [array_of_none helement]
    refine Guarded.map ?_ _
    by_cases hempty : items.isEmpty
    · rw [if_pos hempty]
      exact .admitted (by simp [List.isEmpty_iff.mp hempty]) _
    rw [if_neg hempty]
    refine (Guarded.foldlM (fun x => x.1.Deep n) _ fun x hx => ?_).congr hdeep.symm
    exact (hcalls.describeAt (hitem x hx).1 (hitem x hx).2 _ _).map _
  | some element =>
    rw [array_of_some helement]
    refine Guarded.map ?_ _
    refine (Guarded.foldlM (fun x => x.1.Deep n) _ fun x hx => ?_).congr hdeep.symm
    exact hcalls.node element (hitem x hx).1 (hitem x hx).2 _ _ _

theorem guarded_describeBody {d : Doc} (hd : d.Decoded) (ha : d.Addressable) :
    Guarded (d.Deep (n + 1)) (describeBody spi deeper false d path docPath) := by
  cases d with
  | object fs => exact (guarded_object hcalls _ path docPath hd ha).map _
  | array items => exact (guarded_array hcalls _ path docPath hd ha).map _
  | float64 => exact absurd rfl hd.here.1
  | other goType => exact absurd rfl (hd.here.2 goType)
  | _ => exact .admitted (Doc.not_deep_value (by simp) (by simp)) _

theorem guarded_nodeBody {d : Doc} (hd : d.Decoded) (ha : d.Addressable) :
    Guarded (d.Deep (n + 1)) (nodeBody spi deeper false model d path docPath level) := by
  have hwrong := (guarded_describeBody hcalls spi path docPath hd ha).map fun r =>
    (some r.1, newKindChange model d path docPath level none :: r.2)
  cases d with
  | object fs =>
    rw [nodeBody]
    split
    · exact hwrong
    · exact guarded_object hcalls model path docPath hd ha
  | array items =>
    rw [nodeBody]
    split
    · exact hwrong
    · exact guarded_array hcalls model path docPath hd ha
  | float64 => exact absurd rfl hd.here.1
  | other goType => exact absurd rfl (hd.here.2 goType)
  | _ => exact .admitted (Doc.not_deep_value (by simp) (by simp)) _

end Level

theorem guarded_walk (spi : ScalarSpi D) (left : Nat) :
    GuardedCalls (walk spi false left : Deeper T) left := by
  induction left with
  | zero =>
    exact ⟨fun _ d _ _ path _ _ => .exceeded d.deep_zero path,
      fun {d} _ _ path _ => .exceeded d.deep_zero path⟩
  | succ left ih =>
    exact ⟨fun model _ hd ha path docPath level =>
        guarded_nodeBody ih spi model path docPath level hd ha,
      fun hd ha path docPath => guarded_describeBody ih spi path docPath hd ha⟩

/-! ## The depth of the recursion -/

/-- The traversal with the depth counted up, as the code passes it. Calls more than `fuel` deep
are answered by `beyond`, which may be anything. -/
def walkFrom (spi : ScalarSpi D) (continueOnInvalidName : Bool) (beyond : Deeper T) :
    (fuel depth : Nat) → Deeper T
  | 0, _ => beyond
  | fuel + 1, depth =>
    if maxValidationDepth ≤ depth then
      { node := fun _ _ path _ _ => throw (.depthExceeded path)
        describeAt := fun _ path _ => throw (.depthExceeded path) }
    else
      let deeper := walkFrom spi continueOnInvalidName beyond fuel (depth + 1)
      { node := nodeBody spi deeper continueOnInvalidName
        describeAt := describeBody spi deeper continueOnInvalidName }

theorem walkFrom_eq_walk (spi : ScalarSpi D) (b : Bool) (beyond : Deeper T) {left fuel depth : Nat}
    (hdepth : depth + left = maxValidationDepth) (hfuel : left < fuel) :
    walkFrom spi b beyond fuel depth = walk spi b left := by
  induction left generalizing fuel depth with
  | zero =>
    obtain ⟨fuel, rfl⟩ : ∃ k, fuel = k + 1 := ⟨fuel - 1, by omega⟩
    rw [walkFrom, if_pos (by omega)]
    rfl
  | succ left ih =>
    obtain ⟨fuel, rfl⟩ : ∃ k, fuel = k + 1 := ⟨fuel - 1, by omega⟩
    rw [walkFrom, if_neg (by omega), ih (by omega) (by omega)]
    rfl

/-- The guard is exact, and no call is made beyond the depth it guards: what such a call would
answer is never asked for. -/
theorem admit_depth_guard_exact (spi : ScalarSpi D) (model : ModelNode T) (d : Doc)
    (hd : d.Decoded) (ha : d.Addressable) :
    ((∃ path, admitData spi model d = .error (.depthExceeded path)) ↔
      ∃ p v, d.At p v ∧ maxValidationDepth ≤ p.length) ∧
    ∀ (beyond : Deeper T) (fuel : Nat), maxValidationDepth < fuel →
      (walkFrom spi false beyond fuel 0).node model d "" "" .type = admitData spi model d := by
  constructor
  · exact ((guarded_walk spi maxValidationDepth).node model hd ha "" "" .type).exceeded_iff
  · intro beyond fuel hfuel
    rw [walkFrom_eq_walk spi false beyond (Nat.zero_add _) hfuel]
    rfl

/-- `n` arrays around `null`. -/
def Doc.nested : Nat → Doc
  | 0 => .null
  | n + 1 => .array [nested n]

theorem Doc.nested_all {P : Doc → Prop} (hnull : P .null) (harray : ∀ x, P (.array [x])) (n : Nat) :
    All P (nested n) := by
  induction n with
  | zero => exact ⟨hnull, nofun, nofun⟩
  | succ n ih =>
    refine ⟨harray _, nofun, fun items h => ?_⟩
    cases h
    simpa using ih

theorem Doc.deep_nested {n k : Nat} : (nested n).Deep k ↔ k ≤ n := by
  induction n generalizing k with
  | zero =>
    cases k with
    | zero => simp
    | succ k => simp [nested, not_deep_value]
  | succ n ih =>
    cases k with
    | zero => simp
    | succ k => simp [nested, ih]

/-- Of two documents one level apart, only the deeper one is stopped. -/
theorem admit_depth_guard_exact_nested :
    (∃ path, admitData Sample.decimals Sample.textField (Doc.nested 256) =
      .error (.depthExceeded path)) ∧
    ¬ ∃ path, admitData Sample.decimals Sample.textField (Doc.nested 255) =
      .error (.depthExceeded path) := by
  have hguard (n : Nat) := (admit_depth_guard_exact Sample.decimals Sample.textField (Doc.nested n)
    (Doc.nested_all (by simp) (by simp) n) (Doc.nested_all (by simp) (by simp) n)).1
  exact ⟨(hguard 256).mpr (Doc.deep_nested.mpr le_rfl),
    fun h => absurd (Doc.deep_nested.mp ((hguard 255).mp h)) (by decide)⟩

end CyodaGo.Schema
