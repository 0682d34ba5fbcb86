import CyodaGo.Verification.Schema.Extension

/-! # Merge is a join, and order does not matter

Shapes are joined by `Merge`, so it is commutative, associative and idempotent. What a document
needs of a model depends on which values stand at which paths, not on the order in which an
object or an array is visited. -/

namespace CyodaGo.Schema

open ModelNode

variable {T D : Type} [TypeSet T]

/-! ## The laws of merging -/

section Laws

variable {a b c : ModelNode T}

theorem same_merge_comm (ha : a.Distinct) (hb : b.Distinct) : Same (a.merge b) (b.merge a) := by
  rw [Same, shape_merge hb, shape_merge ha, sup_comm]

theorem same_merge_assoc (hb : b.Distinct) (hc : c.Distinct) :
    Same (a.merge (b.merge c)) ((a.merge b).merge c) := by
  rw [Same, shape_merge (hb.merge hc), shape_merge hc, shape_merge hc, shape_merge hb, sup_assoc]

theorem same_merge_self (ha : a.Distinct) : Same (a.merge a) a := by
  rw [Same, shape_merge ha, sup_idem]

end Laws

/-! ## Documents in another order -/

/-- The same document with the members of its objects and the elements of its arrays in
another order. -/
inductive Doc.Rearranged : Doc → Doc → Prop
  | refl (d : Doc) : Rearranged d d
  | fields {fs gs : List (String × Doc)} (perm : fs.Perm gs) : Rearranged (.object fs) (.object gs)
  | items {is js : List Doc} (perm : is.Perm js) : Rearranged (.array is) (.array js)
  | field {pre post : List (String × Doc)} {name : String} {v w : Doc} (inner : Rearranged v w) :
      Rearranged (.object (pre ++ (name, v) :: post)) (.object (pre ++ (name, w) :: post))
  | item {pre post : List Doc} {v w : Doc} (inner : Rearranged v w) :
      Rearranged (.array (pre ++ v :: post)) (.array (pre ++ w :: post))
  | trans {d e f : Doc} (first : Rearranged d e) (second : Rearranged e f) : Rearranged d f

namespace Doc.Rearranged

variable {d e : Doc}

theorem symm (h : Rearranged d e) : Rearranged e d := by
  induction h with
  | refl d => exact .refl d
  | fields perm => exact .fields perm.symm
  | items perm => exact .items perm.symm
  | field _ ih => exact .field ih
  | item _ ih => exact .item ih
  | trans _ _ ih₁ ih₂ => exact .trans ih₂ ih₁

/-- An object stays an object, and every member of it has its counterpart. -/
theorem object {fs : List (String × Doc)} (h : Rearranged (.object fs) e) :
    ∃ gs, e = .object gs ∧ ∀ x ∈ fs, ∃ w, (x.1, w) ∈ gs ∧ Rearranged x.2 w := by
  generalize hd : Doc.object fs = d at h
  induction h generalizing fs with
  | refl d => exact ⟨fs, hd.symm, fun x hx => ⟨x.2, hx, .refl _⟩⟩
  | fields perm =>
    cases hd
    exact ⟨_, rfl, fun x hx => ⟨x.2, perm.mem_iff.mp hx, .refl _⟩⟩
  | items perm => cases hd
  | @field pre post name v w inner ih =>
    cases hd
    refine ⟨_, rfl, fun x hx => ?_⟩
    rw [List.mem_append, List.mem_cons] at hx
    rcases hx with hx | rfl | hx
    · exact ⟨x.2, by simp [hx], .refl _⟩
    · exact ⟨w, by simp, inner⟩
    · exact ⟨x.2, by simp [hx], .refl _⟩
  | item inner ih => cases hd
  | trans _ _ ih₁ ih₂ =>
    obtain ⟨gs, rfl, hgs⟩ := ih₁ hd
    obtain ⟨hs, rfl, hhs⟩ := ih₂ rfl
    refine ⟨hs, rfl, fun x hx => ?_⟩
    obtain ⟨w, hw, hxw⟩ := hgs x hx
    obtain ⟨u, hu, hwu⟩ := hhs _ hw
    exact ⟨u, hu, .trans hxw hwu⟩

theorem array {is : List Doc} (h : Rearranged (.array is) e) :
    ∃ js, e = .array js ∧ ∀ v ∈ is, ∃ w ∈ js, Rearranged v w := by
  generalize hd : Doc.array is = d at h
  induction h generalizing is with
  | refl d => exact ⟨is, hd.symm, fun v hv => ⟨v, hv, .refl _⟩⟩
  | fields perm => cases hd
  | items perm =>
    cases hd
    exact ⟨_, rfl, fun v hv => ⟨v, perm.mem_iff.mp hv, .refl _⟩⟩
  | field inner ih => cases hd
  | @item pre post v w inner ih =>
    cases hd
    refine ⟨_, rfl, fun x hx => ?_⟩
    rw [List.mem_append, List.mem_cons] at hx
    rcases hx with hx | rfl | hx
    · exact ⟨x, by simp [hx], .refl _⟩
    · exact ⟨w, by simp, inner⟩
    · exact ⟨x, by simp [hx], .refl _⟩
  | trans _ _ ih₁ ih₂ =>
    obtain ⟨js, rfl, hjs⟩ := ih₁ hd
    obtain ⟨ks, rfl, hks⟩ := ih₂ rfl
    refine ⟨ks, rfl, fun v hv => ?_⟩
    obtain ⟨w, hw, hvw⟩ := hjs v hv
    obtain ⟨u, hu, hwu⟩ := hks w hw
    exact ⟨u, hu, .trans hvw hwu⟩

theorem array_nil (h : Rearranged (.array []) e) : e = .array [] := by
  obtain ⟨js, rfl, -⟩ := h.array
  obtain ⟨is, his, hback⟩ := h.symm.array
  cases his
  cases js with
  | nil => rfl
  | cons w rest =>
    obtain ⟨v, hv, -⟩ := hback w (List.mem_cons_self ..)
    cases hv

variable (h : Rearranged d e)

include h

theorem value (hv : d.IsValue) : e = d := by
  induction h with
  | refl d => rfl
  | trans _ _ ih₁ ih₂ =>
    obtain rfl := ih₁ hv
    exact ih₂ hv
  | _ => exact hv.elim

/-- A rearranged map is still a map. -/
theorem distinct (hd : d.Distinct) : e.Distinct := by
  induction h with
  | refl d => exact hd
  | fields perm =>
    refine .mk ?_ ?_ (by simp)
    · rintro _ ⟨⟩
      exact (perm.map Prod.fst).nodup_iff.mp (hd.here _ rfl)
    · rintro _ ⟨⟩ x hx
      exact hd.field (perm.mem_iff.mpr hx)
  | items perm =>
    refine .mk (by simp) (by simp) ?_
    rintro _ ⟨⟩ v hv
    exact hd.item (perm.mem_iff.mpr hv)
  | @field pre post name v w inner ih =>
    refine .mk ?_ ?_ (by simp)
    · rintro _ ⟨⟩
      simpa [Entries.keys] using hd.here _ rfl
    · rintro _ ⟨⟩ x hx
      rw [List.mem_append, List.mem_cons] at hx
      rcases hx with hx | rfl | hx
      · exact hd.field (by simp [hx])
      · exact ih (hd.field (x := (name, v)) (by simp))
      · exact hd.field (by simp [hx])
  | @item pre post v w inner ih =>
    refine .mk (by simp) (by simp) ?_
    rintro _ ⟨⟩ x hx
    rw [List.mem_append, List.mem_cons] at hx
    rcases hx with hx | rfl | hx
    · exact hd.item (by simp [hx])
    · exact ih (hd.item (by simp))
    · exact hd.item (by simp [hx])
  | trans _ _ ih₁ ih₂ => exact ih₂ (ih₁ hd)

/-! ## The same needs -/

theorem at_path {p : List Segment} {v : Doc} (hat : d.At p v) : ∃ w, e.At p w ∧ Rearranged v w := by
  induction hat generalizing e with
  | here d => exact ⟨e, .here e, h⟩
  | @field fs name v w p hmem inner ih =>
    obtain ⟨gs, rfl, hgs⟩ := h.object
    obtain ⟨v', hv', hvv'⟩ := hgs _ hmem
    obtain ⟨u, hu, hwu⟩ := ih hvv'
    exact ⟨u, .field hv' hu, hwu⟩
  | @item items v w p hmem inner ih =>
    obtain ⟨js, rfl, hjs⟩ := h.array
    obtain ⟨v', hv', hvv'⟩ := hjs v hmem
    obtain ⟨u, hu, hwu⟩ := ih hvv'
    exact ⟨u, .item hv' hu, hwu⟩

/-- Whatever looks only at the value itself sees no difference. -/
theorem same_value {α : Sort*} {f : Doc → α}
    (hobject : ∀ fs gs, f (.object fs) = f (.object gs))
    (harray : ∀ is js, f (.array is) = f (.array js)) : f d = f e := by
  cases d with
  | object fs =>
    obtain ⟨gs, rfl, -⟩ := h.object
    exact hobject fs gs
  | array is =>
    obtain ⟨js, rfl, -⟩ := h.array
    exact harray is js
  | _ => rw [h.value trivial]

theorem decl_eq (spi : ScalarSpi D) : (d.decl spi : Decl T) = e.decl spi :=
  h.same_value (fun _ _ => rfl) fun _ _ => rfl

theorem heldBy_iff (spi : ScalarSpi D) (x : Decl T) : d.HeldBy spi x ↔ e.HeldBy spi x :=
  iff_of_eq (h.same_value (f := fun v => v.HeldBy spi x) (fun _ _ => rfl) fun _ _ => rfl)

omit [TypeSet T] in
theorem changeCost_eq (base : ChangeLevel) (x : Decl T) :
    changeCost base x d = changeCost base x e :=
  h.same_value (f := changeCost base x) (fun _ _ => rfl) fun _ _ => rfl

variable {spi : ScalarSpi D} {F : Shape T}

theorem needs {p : List Segment} {x : Decl T} (hneeds : Needs spi F d p x) : Needs spi F e p x := by
  cases hneeds with
  | @value p v hat hmissing =>
    obtain ⟨w, hw, hvw⟩ := h.at_path hat
    rw [hvw.decl_eq spi]
    refine .value hw fun hheld => hmissing ?_
    obtain ⟨y, hy, hheld⟩ := hheld
    exact ⟨y, hy, (hvw.heldBy_iff spi y).mpr hheld⟩
  | element hat hmissing =>
    obtain ⟨w, hw, hvw⟩ := h.at_path hat
    rw [hvw.array_nil] at hw
    exact .element hw hmissing

theorem covers_iff {f : Shape T} : Covers spi F d f ↔ Covers spi F e f :=
  ⟨fun hcov p x hneeds => hcov p x (h.symm.needs hneeds),
    fun hcov p x hneeds => hcov p x (h.needs hneeds)⟩

theorem requires {base L : ChangeLevel} (hreq : Requires spi F base d L) :
    Requires spi F base e L := by
  cases hreq with
  | value hat hnode hmissing =>
    obtain ⟨w, hw, hvw⟩ := h.at_path hat
    rw [hvw.changeCost_eq]
    exact .value hw hnode fun hheld => hmissing ((hvw.heldBy_iff spi _).mpr hheld)
  | newField hat hnode hdeclared hmem hmissing =>
    obtain ⟨w, hw, hvw⟩ := h.at_path hat
    obtain ⟨gs, rfl, hgs⟩ := hvw.object
    obtain ⟨u, hu, -⟩ := hgs _ hmem
    exact .newField hw hnode hdeclared hu hmissing
  | element hat hnode hdeclared hmissing =>
    obtain ⟨w, hw, hvw⟩ := h.at_path hat
    obtain ⟨js, rfl, -⟩ := hvw.array
    exact .element hw hnode hdeclared hmissing

end Doc.Rearranged

/-! ## The traversal succeeds in every order -/

section Success

variable {α : Type} {combine : Option (ModelNode T) → α → ModelNode T → ModelNode T}
  {finding : α → Except AdmitError (Finding T)}

open Checked

omit [TypeSet T] in
/-- A loop succeeds exactly when each of its parts does, whatever came before. -/
theorem foldlM_collect_succeeds {parts : List α} {acc : Finding T} :
    (∃ r, parts.foldlM (collect combine finding) acc = .ok r) ↔
      ∀ part ∈ parts, ∃ r, finding part = .ok r := by
  induction parts generalizing acc with
  | nil => simp [pure, Except.pure]
  | cons part rest ih =>
    simp only [foldlM_cons_eq_ok, List.forall_mem_cons]
    constructor
    · rintro ⟨r, mid, hmid, hrest⟩
      obtain ⟨o, changes, hpart, -⟩ := collect_eq_ok.mp hmid
      exact ⟨⟨_, hpart⟩, ih.mp ⟨r, hrest⟩⟩
    · rintro ⟨⟨⟨o, changes⟩, hpart⟩, hrest⟩
      obtain ⟨r, hr⟩ := ih.mpr hrest
      exact ⟨r, _, collect_eq_ok.mpr ⟨o, changes, hpart, rfl⟩, hr⟩

/-- A rearranged document is walked with success where the document was. -/
structure Deeper.Even (deeper : Deeper T) : Prop where
  node : ∀ {model : ModelNode T} {d e : Doc} {path docPath path' docPath' : String}
    {level level' : ChangeLevel}, d.Rearranged e →
    (∃ r, deeper.node model d path docPath level = .ok r) →
    ∃ r, deeper.node model e path' docPath' level' = .ok r
  describeAt : ∀ {d e : Doc} {path docPath path' docPath' : String}, d.Rearranged e →
    (∃ r, deeper.describeAt d path docPath = .ok r) →
    ∃ r, deeper.describeAt e path' docPath' = .ok r

variable {spi : ScalarSpi D} {deeper : Deeper T} {model : ModelNode T} {d e : Doc}
  {path docPath path' docPath' : String} {level level' : ChangeLevel}

omit [TypeSet T] in
theorem fieldFinding_even (hdeeper : deeper.Even) {name : String} {v w : Doc}
    (hvw : v.Rearranged w)
    (h : ∃ r, fieldFinding deeper false model path docPath (name, v) = .ok r) :
    ∃ r, fieldFinding deeper false model path' docPath' (name, w) = .ok r := by
  cases hchild : model.child name with
  | some c =>
    simp only [fieldFinding, hchild] at h ⊢
    exact hdeeper.node hvw h
  | none =>
    obtain ⟨r, h⟩ := h
    simp only [fieldFinding, hchild] at h ⊢
    by_cases hname : isSegmentName name
    · simp only [hname, if_true] at h ⊢
      obtain ⟨derived, hderived, -⟩ := bind_eq_ok.mp h
      obtain ⟨derived', hderived'⟩ := hdeeper.describeAt hvw ⟨derived, hderived⟩
      exact ⟨_, bind_eq_ok.mpr ⟨derived', hderived', rfl⟩⟩
    · simp only [hname, Bool.false_eq_true, if_false] at h
      exact absurd h throw_ne_ok

omit [TypeSet T] in
theorem object_even (hdeeper : deeper.Even) {fs gs : List (String × Doc)}
    (hback : ∀ y ∈ gs, ∃ v, (y.1, v) ∈ fs ∧ v.Rearranged y.2)
    (h : ∃ r, object deeper false model fs path docPath = .ok r) :
    ∃ r, object deeper false model gs path' docPath' = .ok r := by
  rw [object, foldlM_collect_succeeds] at h ⊢
  intro y hy
  obtain ⟨v, hv, hvy⟩ := hback y hy
  exact fieldFinding_even hdeeper hvy (h _ hv)

/-- What is done with each item succeeds alike, whatever its position. -/
theorem items_even {find find' : Doc × Nat → Except AdmitError (Finding T)} {is js : List Doc}
    (hfind : ∀ {v w : Doc} {i j : Nat}, v.Rearranged w → (∃ r, find (v, i) = .ok r) →
      ∃ r, find' (w, j) = .ok r)
    (hback : ∀ w ∈ js, ∃ v ∈ is, v.Rearranged w) {acc acc' : Finding T}
    (h : ∃ r, is.zipIdx.foldlM (collect mergeItem find) acc = .ok r) :
    ∃ r, js.zipIdx.foldlM (collect mergeItem find') acc' = .ok r := by
  rw [foldlM_collect_succeeds] at h ⊢
  rintro ⟨w, j⟩ hw
  obtain ⟨v, hv, hvw⟩ := hback w (List.fst_mem_of_mem_zipIdx hw)
  obtain ⟨i, hi, hget⟩ := List.mem_iff_getElem.mp hv
  have hmem : (v, i) ∈ is.zipIdx := List.mem_zipIdx_iff_getElem?.mpr (by simp [hi, hget])
  exact hfind hvw (h _ hmem)

omit [TypeSet T] in
theorem learnItem_even (hdeeper : deeper.Even) {v w : Doc} {i j : Nat} (hvw : v.Rearranged w)
    (h : ∃ r, learnItem deeper path docPath (v, i) = .ok r) :
    ∃ r, learnItem deeper path' docPath' (w, j) = .ok r := by
  obtain ⟨r, h⟩ := h
  obtain ⟨derived, hderived, -⟩ := bind_eq_ok.mp h
  obtain ⟨derived', hderived'⟩ := hdeeper.describeAt hvw ⟨derived, hderived⟩
  exact ⟨_, bind_eq_ok.mpr ⟨derived', hderived', rfl⟩⟩

theorem array_even (hdeeper : deeper.Even) {is js : List Doc}
    (hforth : ∀ v ∈ is, ∃ w ∈ js, v.Rearranged w) (hback : ∀ w ∈ js, ∃ v ∈ is, v.Rearranged w)
    (h : ∃ r, array deeper model is path docPath = .ok r) :
    ∃ r, array deeper model js path' docPath' = .ok r := by
  obtain ⟨r, h⟩ := h
  cases helem : model.element with
  | some element =>
    rw [array_of_some helem] at h ⊢
    obtain ⟨inner, hinner, -⟩ := map_eq_ok.mp h
    have hitems : ∃ r, js.zipIdx.foldlM
        (collect mergeItem (judgeItem deeper element path' docPath')) (none, []) = .ok r :=
      items_even (fun hvw hfind => hdeeper.node hvw hfind) hback ⟨inner, hinner⟩
    obtain ⟨inner', hinner'⟩ := hitems
    exact ⟨_, map_eq_ok.mpr ⟨inner', hinner', rfl⟩⟩
  | none =>
    rw [array_of_none helem] at h ⊢
    cases js with
    | nil => exact ⟨_, map_eq_ok.mpr ⟨_, rfl, rfl⟩⟩
    | cons w rest =>
      obtain ⟨v, hv, -⟩ := hback w (List.mem_cons_self ..)
      have hempty : is.isEmpty = false := by
        cases is with
        | nil => cases hv
        | cons _ _ => rfl
      simp only [hempty, Bool.false_eq_true, if_false] at h
      obtain ⟨inner, hinner, -⟩ := map_eq_ok.mp h
      have hitems : ∃ r, (w :: rest).zipIdx.foldlM
          (collect mergeItem (learnItem deeper path' docPath'))
          (none, [learnChange model (w :: rest) path' docPath']) = .ok r :=
        items_even (fun hvw hfind => learnItem_even hdeeper hvw hfind) hback ⟨inner, hinner⟩
      obtain ⟨inner', hinner'⟩ := hitems
      exact ⟨_, map_eq_ok.mpr ⟨inner', hinner', rfl⟩⟩

theorem nodeValue_even (path' docPath' : String) (level' : ChangeLevel)
    (h : ∃ r, nodeValue spi model d path docPath level = .ok r) :
    ∃ r, nodeValue spi model d path' docPath' level' = .ok r := by
  obtain ⟨r, h⟩ := h
  cases d with
  | float64 => cases h
  | other goType => cases h
  | _ => exact ⟨_, rfl⟩

theorem describeBody_even (hdeeper : deeper.Even) (hde : d.Rearranged e)
    (h : ∃ r, describeBody spi deeper false d path docPath = .ok r) :
    ∃ r, describeBody spi deeper false e path' docPath' = .ok r := by
  obtain ⟨r, h⟩ := h
  cases d with
  | object fs =>
    obtain ⟨inner, hinner, -⟩ := bind_eq_ok.mp h
    obtain ⟨gs, rfl, -⟩ := hde.object
    obtain ⟨_, hfs, hback⟩ := hde.symm.object
    cases hfs
    obtain ⟨inner', hinner'⟩ := object_even hdeeper
      (fun y hy => (hback y hy).imp fun v hv => ⟨hv.1, hv.2.symm⟩) ⟨inner, hinner⟩
    exact ⟨_, bind_eq_ok.mpr ⟨inner', hinner', rfl⟩⟩
  | array is =>
    obtain ⟨inner, hinner, -⟩ := bind_eq_ok.mp h
    obtain ⟨js, rfl, hforth⟩ := hde.array
    obtain ⟨_, his, hback⟩ := hde.symm.array
    cases his
    obtain ⟨inner', hinner'⟩ := array_even hdeeper hforth
      (fun w hw => (hback w hw).imp fun v hv => ⟨hv.1, hv.2.symm⟩) ⟨inner, hinner⟩
    exact ⟨_, bind_eq_ok.mpr ⟨inner', hinner', rfl⟩⟩
  | _ =>
    obtain ⟨inner, hinner, -⟩ := bind_eq_ok.mp h
    obtain rfl := hde.value trivial
    obtain ⟨inner', hinner'⟩ := nodeValue_even path' docPath' .type ⟨inner, hinner⟩
    exact ⟨_, bind_eq_ok.mpr ⟨inner', hinner', rfl⟩⟩

theorem wrongKind_even (hdeeper : deeper.Even) (hde : d.Rearranged e)
    (h : ∃ r, nodeBody.wrongKind spi deeper false model d path docPath level = .ok r) :
    ∃ r, nodeBody.wrongKind spi deeper false model e path' docPath' level' = .ok r := by
  obtain ⟨r, h⟩ := h
  obtain ⟨derived, hderived, -⟩ := bind_eq_ok.mp h
  obtain ⟨derived', hderived'⟩ := describeBody_even hdeeper hde ⟨derived, hderived⟩
  exact ⟨_, bind_eq_ok.mpr ⟨derived', hderived', rfl⟩⟩

theorem nodeBody_even (hdeeper : deeper.Even) (hde : d.Rearranged e)
    (h : ∃ r, nodeBody spi deeper false model d path docPath level = .ok r) :
    ∃ r, nodeBody spi deeper false model e path' docPath' level' = .ok r := by
  cases d with
  | object fs =>
    have hback := hde.symm
    obtain ⟨gs, rfl, -⟩ := hde.object
    obtain ⟨_, hfs, hmembers⟩ := hback.object
    cases hfs
    simp only [nodeBody] at h ⊢
    split at h
    · next hnone =>
      rw [if_pos hnone]
      exact wrongKind_even hdeeper hde h
    · next hsome =>
      rw [if_neg hsome]
      exact object_even hdeeper
        (fun y hy => (hmembers y hy).imp fun v hv => ⟨hv.1, hv.2.symm⟩) h
  | array is =>
    have hback := hde.symm
    obtain ⟨js, rfl, hforth⟩ := hde.array
    obtain ⟨_, his, hitems⟩ := hback.array
    cases his
    simp only [nodeBody] at h ⊢
    split at h
    · next hnone =>
      rw [if_pos hnone]
      exact wrongKind_even hdeeper hde h
    · next hsome =>
      rw [if_neg hsome]
      exact array_even hdeeper hforth
        (fun w hw => (hitems w hw).imp fun v hv => ⟨hv.1, hv.2.symm⟩) h
  | _ =>
    obtain rfl := hde.value trivial
    simp only [nodeBody] at h ⊢
    exact nodeValue_even _ _ _ h

theorem walk_even (spi : ScalarSpi D) (left : Nat) : (walk spi false left : Deeper T).Even := by
  induction left with
  | zero =>
    exact ⟨fun _ ⟨_, h⟩ => (throw_ne_ok h).elim,
      fun _ ⟨_, h⟩ => (throw_ne_ok h).elim⟩
  | succ left ih => exact ⟨nodeBody_even ih, describeBody_even ih⟩

end Success

/-! ## Extend -/

section Extend

variable {spi : ScalarSpi D} {m m' : ModelNode T} {d e : Doc} {level : ChangeLevel}

theorem extend_rearranged (hd : d.Distinct) (hde : d.Rearranged e)
    (h : extend spi m d level = .ok m') :
    ∃ m'', extend spi m e level = .ok m'' ∧ Same m' m'' := by
  have he := hde.distinct hd
  obtain ⟨o, changes, hfinding, hall⟩ := admit_of_extend h
  have hsucceeds : ∃ r, admitData spi m e = .ok r :=
    (walk_even spi maxValidationDepth).node hde ⟨_, hfinding⟩
  obtain ⟨⟨o', changes'⟩, hfinding'⟩ := hsucceeds
  have hfound := admit_found (R := False) False.elim hd hfinding
  have hfound' := admit_found (R := False) False.elim he hfinding'
  have hall' : ∀ c ∈ changes', level.levelPermits c.required = true := by
    intro c hc
    have hneeded := hde.symm.requires ((hfound'.asked _).mp ⟨c, hc, rfl⟩)
    obtain ⟨c', hc', hlevel⟩ := (hfound.asked _).mpr hneeded
    exact hlevel ▸ hall c' hc'
  have h' := extend_of_permitted hfinding' hall'
  refine ⟨_, h', ?_⟩
  -- Both are the least model above `m` that covers what is needed.
  apply le_antisymm
  · rw [extend_le_iff hd h (le_extend h'), hde.covers_iff]
    exact (extend_le_iff he h' (le_extend h')).mp le_rfl
  · rw [extend_le_iff he h' (le_extend h), ← hde.covers_iff]
    exact (extend_le_iff hd h (le_extend h)).mp le_rfl

end Extend

/-- Up to the order of children, merging is commutative, associative and idempotent; and
extending a model by a document succeeds, with the same model, in whatever order the members of
its objects and the elements of its arrays come. -/
theorem merge_join_extend_orderless (spi : ScalarSpi D) :
    (∀ a b : ModelNode T, a.Distinct → b.Distinct → Same (a.merge b) (b.merge a)) ∧
    (∀ a b c : ModelNode T, a.Distinct → b.Distinct → c.Distinct →
      Same (a.merge (b.merge c)) ((a.merge b).merge c)) ∧
    (∀ a : ModelNode T, a.Distinct → Same (a.merge a) a) ∧
    (∀ (m : ModelNode T) (d e : Doc) (level : ChangeLevel), d.Distinct → d.Rearranged e →
      (∀ m', extend spi m d level = .ok m' →
        ∃ m'', extend spi m e level = .ok m'' ∧ Same m' m'') ∧
      (∀ err, extend spi m d level = .error err →
        ∃ err', extend spi m e level = .error err')) := by
  refine ⟨fun a b => same_merge_comm, fun a b c _ => same_merge_assoc,
    fun a => same_merge_self, fun m d e level hd hde => ⟨fun m' => extend_rearranged hd hde, ?_⟩⟩
  intro err herr
  cases h : extend spi m e level with
  | error err' => exact ⟨err', rfl⟩
  | ok m'' =>
    obtain ⟨m', hm', -⟩ := extend_rearranged (hde.distinct hd) hde.symm h
    cases herr.symm.trans hm'

namespace Sample

/-- Two values that the model has not seen, in an array and beside it. -/
def mixedDoc : Doc := .object [("a", .number "7"), ("b", .array [.number "1", .string "x"])]

def mixedDocReversed : Doc := .object [("b", .array [.string "x", .number "1"]), ("a", .number "7")]

theorem mixedDoc_distinct : mixedDoc.Distinct := by
  have hleaf : ∀ v : Doc, v.IsValue → v.Distinct := by
    intro v hv
    refine .mk ?_ ?_ ?_ <;> rintro _ rfl <;> exact hv.elim
  refine .mk ?_ ?_ nofun
  · rintro _ ⟨⟩
    decide
  · rintro _ ⟨⟩ x hx
    rcases List.mem_cons.mp hx with rfl | hx
    · exact hleaf _ trivial
    rw [List.mem_singleton.mp hx]
    refine .mk nofun nofun ?_
    rintro _ ⟨⟩ v hv
    rcases List.mem_cons.mp hv with rfl | hv
    · exact hleaf _ trivial
    · exact List.mem_singleton.mp hv ▸ hleaf _ trivial

theorem mixedDoc_rearranged : mixedDoc.Rearranged mixedDocReversed :=
  .trans (@Doc.Rearranged.field [_] _ _ _ _ (.items (.swap ..))) (.fields (.swap ..))

end Sample

theorem merge_join_extend_orderless_mixedDoc :
    ∃ m' m'', extend Sample.decimals Sample.textField Sample.mixedDoc .structural = .ok m' ∧
      extend Sample.decimals Sample.textField Sample.mixedDocReversed .structural = .ok m'' ∧
      Same m' m'' := by
  obtain ⟨m'', hm'', hsame⟩ := ((merge_join_extend_orderless Sample.decimals).2.2.2
    Sample.textField _ _ .structural Sample.mixedDoc_distinct Sample.mixedDoc_rearranged).1 _ rfl
  exact ⟨_, m'', rfl, hm'', hsame⟩

end CyodaGo.Schema
