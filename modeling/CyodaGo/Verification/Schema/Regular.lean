import CyodaGo.Verification.Schema.Apply

/-! # Entity models

The trees the engine establishes: children are maps, a field name is one segment of an operation
path, every node declares something and no scalar branch is empty. Merging and applying keep
this, so the type `EntityModel` carries the invariant. -/

namespace CyodaGo.Schema

open ModelNode

variable {T : Type} [TypeSet T]

/-- The name is one segment of a slash-separated path, and not the one for an element. -/
structure Addressable (name : String) : Prop where
  ne_empty : name ≠ ""
  ne_element : name ≠ "[]"
  slash_notMem : '/' ∉ name.toList

structure Regular (n : ModelNode T) : Prop where
  distinct : n.DistinctNames
  addressable : ∀ cs, n.object = some cs → ∀ name ∈ Entries.keys cs, Addressable name
  declares : n.declares = true
  inhabited : ∀ s, n.leaf = .scalar s → TypeSet.types s ≠ []

/-- A model as the engine establishes it. -/
abbrev EntityModel (T : Type) [TypeSet T] := { n : ModelNode T // n.All Regular }

variable {n m : ModelNode T}

theorem ModelNode.All.distinct (h : n.All Regular) : n.Distinct := h.imp fun _ => Regular.distinct

omit [TypeSet T] in
theorem declares_iff : n.declares = true ↔ n.decl ≠ (.absent, false, false) := by
  obtain ⟨leaf, object, array⟩ := n
  cases leaf <;> cases object <;> cases array <;> simp [declares, ModelNode.scalar, nullable, decl]

/-! ## Merge -/

theorem types_sup_ne_nil {s t : T} (hs : TypeSet.types s ≠ []) : TypeSet.types (s ⊔ t) ≠ [] := by
  intro hnil
  have hbot : s ⊔ t = ⊥ := by rw [← TypeSet.sup_single (s ⊔ t), hnil, List.foldr_nil]
  have hsbot : s = ⊥ := le_bot_iff.mp (hbot ▸ le_sup_left)
  rw [hbot, ← hsbot] at hnil
  exact hs hnil

theorem inhabited_sup {a b : Leaf T} (ha : ∀ s, a = .scalar s → TypeSet.types s ≠ [])
    (hb : ∀ s, b = .scalar s → TypeSet.types s ≠ []) :
    ∀ s, a ⊔ b = .scalar s → TypeSet.types s ≠ [] := by
  intro s hs
  cases a with
  | absent => exact hb s hs
  | nullable =>
    cases b with
    | scalar t => exact hb s hs
    | _ => cases hs
  | scalar t =>
    cases b with
    | scalar t' =>
      cases hs
      exact types_sup_ne_nil (ha t rfl)
    | _ => exact ha s hs

theorem forall_names_merge {P : String → Prop} {a b : ModelNode T}
    (ha : ∀ cs, a.object = some cs → ∀ name ∈ Entries.keys cs, P name)
    (hb : ∀ cs, b.object = some cs → ∀ name ∈ Entries.keys cs, P name) :
    ∀ cs, (a.merge b).object = some cs → ∀ name ∈ Entries.keys cs, P name := by
  intro cs hcs name hname
  rw [merge_eq] at hcs
  cases hbo : b.object with
  | none => exact ha cs (by simpa [hbo, mergeObject] using hcs) name hname
  | some bo =>
    simp only [hbo, mergeObject, Option.some.injEq] at hcs
    subst hcs
    rcases mem_keys_mergeChildren.mp hname with hold | hnew
    · cases hao : a.object with
      | none => simp [hao, Entries.keys] at hold
      | some ao => exact ha ao hao name (by simpa [hao] using hold)
    · exact hb bo hbo name hnew

theorem declares_merge {a : ModelNode T} (b : ModelNode T) (ha : a.declares = true) :
    (a.merge b).declares = true := by
  have hdecl := declares_iff.mp ha
  rw [declares_iff, decl_merge]
  intro heq
  have hle : a.decl ≤ (.absent, false, false) := by
    rw [← heq]
    exact le_sup_left
  exact hdecl (le_bot_iff.mp hle)

theorem regular_merge (a b : ModelNode T) (ha : Regular a) (hb : Regular b) :
    Regular (a.merge b) where
  distinct := distinctNames_merge a b ha.distinct hb.distinct
  addressable := forall_names_merge ha.addressable hb.addressable
  declares := declares_merge b ha.declares
  inhabited := by
    rw [merge_eq]
    exact inhabited_sup ha.inhabited hb.inhabited

theorem ModelNode.All.regular_merge {a b : ModelNode T} (ha : a.All Regular) (hb : b.All Regular) :
    (a.merge b).All Regular :=
  ha.merge Schema.regular_merge hb

def EntityModel.merge (a b : EntityModel T) : EntityModel T := ⟨a.1.merge b.1, a.2.regular_merge b.2⟩

/-! ## Apply -/

omit [TypeSet T] in
theorem distinctNames_setStep (m : ModelNode T) (s : Segment) (hn : n.DistinctNames) :
    (n.setStep m s).DistinctNames := by
  cases s with
  | element => exact hn
  | field name =>
    intro cs hcs
    obtain ⟨cs₀, hcs₀, rfl⟩ := Option.map_eq_some_iff.mp hcs
    exact Entries.nodup_keys_set (hn cs₀ hcs₀)

omit [TypeSet T] in
theorem forall_names_setStep {P : String → Prop} {next : ModelNode T} {s : Segment}
    (hstep : n.step s = some next) (m : ModelNode T)
    (hn : ∀ cs, n.object = some cs → ∀ name ∈ Entries.keys cs, P name) :
    ∀ cs, (n.setStep m s).object = some cs → ∀ name ∈ Entries.keys cs, P name := by
  cases s with
  | element => exact hn
  | field name =>
    intro cs hcs key hkey
    obtain ⟨cs₀, hcs₀, rfl⟩ := Option.map_eq_some_iff.mp hcs
    rcases Entries.mem_keys_set.mp hkey with hold | rfl
    · exact hn cs₀ hcs₀ key hold
    obtain ⟨cs₁, hcs₁, hmem⟩ := mem_of_child hstep
    exact hn cs₁ hcs₁ _ (List.mem_map_of_mem hmem)

omit [TypeSet T] in
theorem declares_setStep (m : ModelNode T) (s : Segment) (hn : n.declares = true) :
    (n.setStep m s).declares = true := by
  rw [declares_iff]
  cases s <;> simpa [decl, setStep] using declares_iff.mp hn

theorem regular_setStep {next : ModelNode T} {s : Segment} (hstep : n.step s = some next)
    (m : ModelNode T) (hn : Regular n) : Regular (n.setStep m s) where
  distinct := distinctNames_setStep m s hn.distinct
  addressable := forall_names_setStep hstep m hn.addressable
  declares := declares_setStep m s hn.declares
  inhabited := by cases s <;> exact hn.inhabited

theorem ModelNode.All.applyOp {op : SchemaOp T} (hop : op.overlay.All Regular)
    (h : Schema.applyOp n op = .ok m) (hn : n.All Regular) : m.All Regular := by
  rw [applyOp_eq n op (kind_ne_unknown h)] at h
  refine hn.updateAt (fun _ _ m _ hstep => regular_setStep hstep m) (fun k k' hk hreg => ?_) h
  rw [applyTo_ok hk]
  exact hreg.regular_merge hop

theorem ModelNode.All.foldlM {ops : SchemaDelta T} (hops : ∀ op ∈ ops, op.overlay.All Regular)
    (h : ops.foldlM Schema.applyOp n = .ok m) (hn : n.All Regular) : m.All Regular := by
  induction ops generalizing n with
  | nil =>
    cases h
    exact hn
  | cons op rest ih =>
    obtain ⟨mid, hop, hrest⟩ := Checked.foldlM_cons_eq_ok.mp h
    exact ih (fun o ho => hops o (List.mem_cons_of_mem _ ho)) hrest
      (ModelNode.All.applyOp (hops op (List.mem_cons_self ..)) hop hn)

/-! ## The codec keeps such a tree -/

omit [TypeSet T] in
theorem decodableChildren_iff {cs : Children T} :
    decodableChildren cs = true ↔ ∀ x ∈ cs, x.2.decodable = true := by
  induction cs with
  | nil => simp [decodableChildren]
  | cons x rest ih => simp [decodableChildren, ih]

omit [TypeSet T] in
theorem decodable_of_all (h : n.All fun m => m.declares = true) : n.decodable = true := by
  induction h with
  | @mk n here _ _ ihChildren ihElement =>
    have hobj : decodableObject n.object = true := by
      cases hcs : n.object with
      | none => rfl
      | some cs => exact decodableChildren_iff.mpr (ihChildren cs hcs)
    have harr : decodableArray n.array = true := by
      rcases he : n.array with _ | _ | e
      · rfl
      · rfl
      · exact ihElement e he
    cases n with
    | mk leaf object array =>
      rw [ModelNode.decodable, here, hobj, harr]
      rfl

theorem ModelNode.All.decodable (h : n.All Regular) : n.decodable = true :=
  decodable_of_all (h.imp fun _ => Regular.declares)

/-! ## Paths of addressable names -/

theorem splitPath_join (path : String) {part : String} (hne : part ≠ "") (hslash : '/' ∉ part.toList) :
    splitPath (joinSchemaPath path part) = splitPath path ++ [part] := by
  have hsingle : (part.toList.splitOn '/').map String.ofList = [part] := by
    rw [List.splitOn_eq_singleton hslash]
    simp
  by_cases hpath : path = ""
  · simp [joinSchemaPath, splitPath, hpath, hne, hsingle]
  have hjoin : path ++ "/" ++ part ≠ "" := by
    intro h
    have := congrArg String.toList h
    simp at this
  rw [joinSchemaPath, if_neg hpath, splitPath, if_neg hjoin, splitPath, if_neg hpath]
  have htoList : (path ++ "/" ++ part).toList = path.toList ++ '/' :: part.toList := by simp
  rw [htoList, List.splitOn_append_cons_self, List.map_append, hsingle]

/-- The string `path` names the path `base`. -/
structure Spells (path : String) (base : List Segment) : Prop where
  segments : (splitPath path).map segmentOf = base
  nonempty : "" ∉ splitPath path

theorem spells_root : Spells "" [] := ⟨rfl, by simp [splitPath]⟩

theorem Spells.child {path name : String} {base : List Segment} (h : Spells path base)
    (hname : Addressable name) : Spells (joinSchemaPath path name) (base ++ [.field name]) := by
  have hsplit := splitPath_join path hname.ne_empty hname.slash_notMem
  refine ⟨?_, ?_⟩
  · rw [hsplit, List.map_append, h.segments]
    simp [segmentOf, hname.ne_element]
  · rw [hsplit]
    simpa using ⟨h.nonempty, hname.ne_empty⟩

theorem Spells.element {path : String} {base : List Segment} (h : Spells path base) :
    Spells (joinSchemaPath path "[]") (base ++ [.element]) := by
  have hsplit : splitPath (joinSchemaPath path "[]") = splitPath path ++ ["[]"] :=
    splitPath_join path (by decide) (by decide)
  refine ⟨?_, ?_⟩
  · rw [hsplit, List.map_append, h.segments]
    rfl
  · rw [hsplit]
    simpa using h.nonempty

/-! ## A concrete type set -/

namespace Sample

/-- Type sets as flags on the concrete types. -/
abbrev TypeFlags := { dt : DataType // dt ≠ .null } → Bool

def concreteTypes : List { dt : DataType // dt ≠ .null } :=
  [⟨.integer, by decide⟩, ⟨.long, by decide⟩, ⟨.bigInteger, by decide⟩,
    ⟨.unboundInteger, by decide⟩, ⟨.double, by decide⟩, ⟨.bigDecimal, by decide⟩,
    ⟨.unboundDecimal, by decide⟩, ⟨.string, by decide⟩, ⟨.character, by decide⟩,
    ⟨.localDate, by decide⟩, ⟨.localDateTime, by decide⟩, ⟨.localTime, by decide⟩,
    ⟨.zonedDateTime, by decide⟩, ⟨.year, by decide⟩, ⟨.yearMonth, by decide⟩,
    ⟨.uuid, by decide⟩, ⟨.timeUUID, by decide⟩, ⟨.byteArray, by decide⟩, ⟨.boolean, by decide⟩]

theorem mem_concreteTypes (dt : { dt : DataType // dt ≠ .null }) : dt ∈ concreteTypes := by
  obtain ⟨dt, hdt⟩ := dt
  cases dt <;> first | exact absurd rfl hdt | simp [concreteTypes]

def single (dt : DataType) : TypeFlags := fun d => d.1 == dt

def types (s : TypeFlags) : List DataType := (concreteTypes.filter s).map Subtype.val

theorem foldr_single (l : List { dt : DataType // dt ≠ .null }) (d : { dt : DataType // dt ≠ .null }) :
    (l.map Subtype.val).foldr (fun dt t => single dt ⊔ t) ⊥ d = true ↔ d ∈ l := by
  induction l with
  | nil => simp
  | cons x rest ih =>
    rw [List.map_cons, List.foldr_cons, Pi.sup_apply, List.mem_cons, ← ih]
    simp [single, Subtype.ext_iff]

instance : TypeSet TypeFlags where
  types := types
  single := single
  sup_single s := by
    funext d
    rw [Bool.eq_iff_iff, types, foldr_single, List.mem_filter]
    exact and_iff_right (mem_concreteTypes d)
  types_single dt hdt := by
    cases dt <;> first | exact absurd rfl hdt | rfl
  null_notMem s := by
    rw [types, List.mem_map]
    rintro ⟨d, _, hd⟩
    exact d.2 hd

end Sample

end CyodaGo.Schema
