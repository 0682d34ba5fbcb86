import CyodaGo.Model.Models.Admin
import CyodaGo.Verification.Models.Import

/-! # The lock of a model

Every operation checks the state of the model in one step and acts in a later one. The check
still holds then while nothing runs beside the operation that could undo it: no lock beside an
operation that needs the model unlocked, and no unlock beside the creation of an entity. -/

namespace CyodaGo.ModelAdmin

open Models Schema

open Stores

variable {T D E : Type}

/-! ## What a store call does -/

section Served

variable {apply : ApplyFunc (ModelNode T) (SchemaDelta T) E} {x y : Stores T} {o : Outside}
  {c : Call (ModelNode T) (SchemaDelta T) DescriptorRest}
  {a : Fetched (ModelNode T) DescriptorRest}

/-- A call of the model store fails and changes nothing, or does what the store does. -/
theorem model_served (h : serve apply o x (.model c) = some (a, y)) :
    (∃ fault, a = .error fault) ∧ y = x ∨
      ∃ answer desc, (ModelStore.perform (some apply) x.desc c :
          Models.Answer (ModelNode T) DescriptorRest E × _) = (.ok answer, desc) ∧
        a = .ok answer ∧ y = { x with desc } := by
  obtain ⟨_ | cause, segments⟩ := o
  · have h := Option.some.inj h
    rw [model] at h
    split at h <;> cases h
    · exact .inl ⟨⟨_, rfl⟩, rfl⟩
    · exact .inl ⟨⟨_, rfl⟩, rfl⟩
    · next answer desc hperform => exact .inr ⟨answer, desc, hperform, rfl, rfl⟩
  · cases h
    exact .inl ⟨⟨_, rfl⟩, rfl⟩

theorem get_served (h : serve apply o x (.model .get) = some (a, y)) :
    y = x ∧ ((∃ fault, a = .error fault) ∨ ∃ desc, x.desc = some desc ∧ a = .ok (some desc)) := by
  obtain ⟨hfault, rfl⟩ | ⟨answer, desc, hperform, rfl, rfl⟩ := model_served h
  · exact ⟨rfl, .inl hfault⟩
  · cases hdesc : x.desc with
    | none =>
      rw [hdesc] at hperform
      cases hperform
    | some d =>
      rw [hdesc] at hperform
      obtain ⟨hanswer, rfl⟩ := Prod.mk.inj hperform
      refine ⟨?_, .inr ⟨d, rfl, by rw [← Except.ok.inj hanswer]⟩⟩
      rw [← hdesc]

/-- A read that meets no failure answers what is stored. -/
theorem get_served_of_locked (h : serve apply o x (.model .get) = some (a, y))
    (ho : o.failure = none) {desc : Descriptor T} (hdesc : x.desc = some desc) :
    a = .ok (some desc) := by
  simp only [serve, ho, model, hdesc, Option.some.injEq] at h
  exact (congrArg Prod.fst h).symm

theorem count_served {n : Except Fault ℕ} (h : serve apply o x .count = some (n, y)) :
    y = x ∧ ∀ k, n = .ok k → k = x.live.length := by
  obtain ⟨_ | cause, segments⟩ := o <;> cases h
  · exact ⟨rfl, fun k hk => (Except.ok.inj hk).symm⟩
  · exact ⟨rfl, fun k hk => by cases hk⟩

/-- The calls that do not go to the model store change nothing, or commit an entity. -/
theorem flow_served {q : Question T} (hq : ∀ c, q ≠ .model c) {b : Answer q}
    (h : serve apply o x q = some (b, y)) : y = x ∨ ∃ id, y = x.commit id := by
  obtain ⟨_ | cause, segments⟩ := o
  all_goals
    cases q with
    | model c => exact absurd rfl (hq c)
    | _ =>
      cases h
      first | exact .inl rfl | exact .inr ⟨_, rfl⟩

/-- Schema and unique keys. -/
def Stores.content (s : Stores T) : Option (Option (ModelNode T) × List UniqueKey) :=
  s.desc.map fun desc => (desc.schema, desc.rest.uniqueKeys)

/-- The stored descriptor is what `ExtendSchema` makes of the one before. -/
def Extends (apply : ApplyFunc (ModelNode T) (SchemaDelta T) E) (x y : Stores T) : Prop :=
  ∃ delta, ModelStore.extendSchema (some apply) (some delta) x.desc = .ok y.desc

theorem Extends.locked_iff (h : Extends apply x y) : x.Locked ↔ y.Locked := by
  obtain ⟨delta, h⟩ := h
  cases hdesc : x.desc with
  | none =>
    rw [hdesc] at h
    cases h
  | some d =>
    simp only [ModelStore.extendSchema, hdesc] at h
    split at h
    · cases h
    · simp [Stores.Locked, hdesc, ← Except.ok.inj h]

theorem not_locked_of_state {desc : Descriptor T} (hdesc : x.desc = some desc)
    (hstate : desc.state = .unlocked) : ¬ x.Locked := by
  rintro ⟨d, hd, hlocked⟩
  cases hdesc.symm.trans hd
  exact nomatch hstate.symm.trans hlocked

end Served

/-! ## What the operations rely on and promise -/

namespace Operation

/-- The first operation can undo a check of the second, or ends what the second promises. -/
def Disturbs : Operation → Operation → Prop
  | .lockModel, .importModel .. | .lockModel, .setUniqueKeys .. => True
  | .lockModel, .deleteModel | .lockModel, .unlockModel => True
  | .unlockModel, .createEntity .. => True
  | _, _ => False

/-- The operation takes a failed read for an absent model. -/
def TrustsFailedRead : Operation → Prop
  | .importModel .. => True
  | _ => False

def rely : Operation → Stores T → Stores T → Prop
  | .importModel .., x, y | .setUniqueKeys .., x, y | .deleteModel, x, y => ¬ x.Locked → ¬ y.Locked
  | .unlockModel, x, y => x.live = [] → y.live = []
  | .createEntity .., x, y => x.Locked → y.Locked
  | .lockModel, _, _ => True

variable (apply : ApplyFunc (ModelNode T) (SchemaDelta T) E)

def kept : Operation → Stores T → Stores T → Prop
  | .importModel .., x, y | .setUniqueKeys .., x, y | .deleteModel, x, y =>
    y = x ∨ ¬ x.Locked ∧ ¬ y.Locked ∧ y.live = x.live
  | .unlockModel, x, y => y = x ∨ ¬ y.Locked ∧ x.live = [] ∧ y.live = []
  | .createEntity .., x, y =>
    (x.Locked ↔ y.Locked) ∧ (y.live = x.live ∨ x.Locked) ∧ (y.desc = x.desc ∨ Extends apply x y)
  | .lockModel, x, y => (x.Locked → y.Locked) ∧ y.live = x.live ∧ y.content = x.content

def post : Operation → Except AppError Unit → Stores T → Prop
  | .lockModel, .ok (), x => x.Locked
  | _, _, _ => True

end Operation

def Question.isRead : Question T → Bool
  | .model .get => true
  | _ => false

/-- A failing read is excluded where it would be taken for an absent model. -/
def Served (apply : ApplyFunc (ModelNode T) (SchemaDelta T) E) (r : Operation) (x : Stores T)
    (q : Question T) (a : Answer q) (y : Stores T) : Prop :=
  ∃ o, serve apply o x q = some (a, y) ∧
    (r.TrustsFailedRead → q.isRead → x.Locked → o.failure = none)

def discipline (apply : ApplyFunc (ModelNode T) (SchemaDelta T) E) :
    Threads.Contract (Stores T) Operation (Question T) Answer (Except AppError Unit) where
  rely := Operation.rely
  exchange := Served apply
  kept := Operation.kept apply
  post := Operation.post
  rely_trans r x y z hxy hyz := by
    cases r with
    | lockModel => trivial
    | _ => exact hyz ∘ hxy

section Bodies

variable {apply : ApplyFunc (ModelNode T) (SchemaDelta T) E} {r : Operation} {x : Stores T}
  {α : Type}

abbrev Ensured (apply : ApplyFunc (ModelNode T) (SchemaDelta T) E) (r : Operation) (p : Code T α)
    (post : α → Stores T → Prop) (x : Stores T) : Prop :=
  p.Ensures ((discipline apply).around r) (r.kept apply) post x

theorem kept_refl (r : Operation) (x : Stores T) : r.kept apply x x := by
  cases r with
  | createEntity => exact ⟨.rfl, .inl rfl, .inl rfl⟩
  | lockModel => exact ⟨id, rfl, rfl⟩
  | _ => exact .inl rfl

/-- The gating read of an operation that looks at the outcome. -/
theorem ensured_get {post : Except Fault (Option (Descriptor T)) → Stores T → Prop}
    (h : ∀ y, r.rely x y → (∀ fault, post (.error fault) y) ∧
      ∀ desc, y.desc = some desc → post (.ok (some desc)) y) :
    Ensured apply r (getModelFresh modelStore) post x := by
  rintro y hxy a z ⟨o, hserve, -⟩
  obtain ⟨rfl, ⟨fault, rfl⟩ | ⟨desc, hdesc, rfl⟩⟩ := get_served hserve
  · exact ⟨kept_refl r z, (h z hxy).1 fault⟩
  · exact ⟨kept_refl r z, (h z hxy).2 desc hdesc⟩

variable {c : Call (ModelNode T) (SchemaDelta T) DescriptorRest} {desc : Descriptor T}
  {input : ImportModelInput} {now : Memory.Time}

/-- A mutating call fails and changes nothing, or does what the store does. -/
theorem ensured_call {post : Except Fault Unit → Stores T → Prop}
    (h : ∀ y, r.rely x y → (∀ fault, post (.error fault) y) ∧
      ∀ answer desc, (ModelStore.perform (some apply) y.desc c :
          Models.Answer (ModelNode T) DescriptorRest E × _) = (.ok answer, desc) →
        r.kept apply y { y with desc } ∧ post (.ok ()) { y with desc }) :
    Ensured apply r (call c) post x := by
  rintro y hxy a z ⟨o, hserve, -⟩
  obtain ⟨⟨fault, rfl⟩, rfl⟩ | ⟨answer, desc, hperform, rfl, rfl⟩ := model_served hserve
  · exact ⟨kept_refl r z, (h z hxy).1 fault⟩
  · exact (h y hxy).2 answer desc hperform

/-- Saving an unlocked descriptor over one that is not locked. -/
theorem ensured_save (hdesc : desc.state = .unlocked)
    (hrely : ∀ y, r.rely x y → ¬ x.Locked → ¬ y.Locked)
    (hkept : ∀ y z : Stores T, ¬ y.Locked → ¬ z.Locked → z.live = y.live → r.kept apply y z)
    (hx : ¬ x.Locked) :
    Ensured apply r (modelStore.save desc) (fun _ _ => True) x := by
  refine ensured_call fun y hxy => ⟨fun _ => trivial, ?_⟩
  rintro answer desc' hperform
  cases hperform
  exact ⟨hkept _ _ (hrely y hxy hx) (not_locked_of_state rfl hdesc) rfl, trivial⟩

/-- The gating read: the operation stops, or goes on with the stored descriptor in the state it
needs. -/
theorem ensured_gate {expected : ModelState} {f : Descriptor T → Code T (Except AppError Unit)}
    (h : ∀ y desc, r.rely x y → y.desc = some desc → desc.state = expected →
      Ensured apply r (f desc) r.post y)
    (hpost : ∀ err y, r.post (.error err) (y : Stores T)) :
    Ensured apply r (do
      match gate expected (← getModelFresh modelStore) with
      | .error err => return Except.error err
      | .ok desc => f desc) r.post x := by
  apply Program.ensures_bind
  refine ensured_get fun y hxy => ⟨fun fault => hpost _ y, fun desc hdesc => ?_⟩
  by_cases hstate : desc.state = expected
  · simp only [gate, if_pos hstate]
    exact h y desc hxy hdesc hstate
  simp only [gate, if_neg hstate]
  exact hpost _ y

theorem lock_ensured :
    Ensured apply .lockModel (lockModel modelStore) (Operation.post .lockModel) x := by
  refine ensured_gate (fun y desc _ hdesc _ => ?_) fun _ _ => trivial
  apply Program.ensures_bind
  refine ensured_call fun z _ => ⟨fun _ => trivial, ?_⟩
  rintro answer desc' hperform
  cases hz : z.desc with
  | none =>
    rw [hz] at hperform
    cases hperform
  | some d =>
    rw [hz] at hperform
    cases hperform
    have hlocked : Stores.Locked { z with desc := some { d with state := .locked } } :=
      ⟨_, rfl, rfl⟩
    exact ⟨⟨fun _ => hlocked, rfl, by simp [content, hz]⟩, hlocked⟩

/-- The count is taken in one step, the mutation made in a later one. -/
theorem ensured_whenEmpty {P : Stores T → Prop} (hrely : ∀ y z, r.rely y z → P y → P z) (hx : P x)
    (hcall : ∀ y, P y → y.live = [] → Ensured apply r (call c) (fun _ _ => True) y) :
    Ensured apply r (whenEmpty (ask .count) (call c)) (fun _ _ => True) x := by
  apply Program.ensures_bind
  rintro y hxy n z ⟨o, hserve, -⟩
  obtain ⟨rfl, hcount⟩ := count_served hserve
  refine ⟨kept_refl r z, ?_⟩
  cases n with
  | error fault => trivial
  | ok k =>
    have hk := hcount k rfl
    by_cases hpos : 0 < k
    · simp only [Program.Ensures, if_pos hpos]
      trivial
    simp only [Program.Ensures, if_neg hpos]
    have hempty : z.live = [] := List.eq_nil_of_length_eq_zero (by omega)
    exact Program.ensures_bind (hcall z (hrely x z hxy hx) hempty)

theorem unlock_ensured :
    Ensured apply .unlockModel (unlockModel modelStore (ask .count))
      (Operation.post .unlockModel) x := by
  refine ensured_gate (fun y desc _ _ _ => ?_) fun _ _ => trivial
  refine ensured_whenEmpty (P := fun _ => True) (fun _ _ _ h => h) trivial fun z _ hempty => ?_
  refine ensured_call fun w hzw => ⟨fun _ => trivial, ?_⟩
  rintro answer desc' hperform
  cases hw : w.desc with
  | none =>
    rw [hw] at hperform
    cases hperform
  | some d =>
    rw [hw] at hperform
    cases hperform
    have hlive : w.live = [] := hzw hempty
    exact ⟨.inr ⟨not_locked_of_state rfl rfl, hlive, hlive⟩, trivial⟩

theorem delete_ensured :
    Ensured apply .deleteModel (deleteModel modelStore (ask .count))
      (Operation.post .deleteModel) x := by
  refine ensured_gate (fun y desc _ hdesc hstate => ?_) fun _ _ => trivial
  refine ensured_whenEmpty (P := fun z => ¬ z.Locked) (fun _ _ h => h)
    (not_locked_of_state hdesc hstate) fun z hz _ => ?_
  refine ensured_call fun w hzw => ⟨fun _ => trivial, ?_⟩
  rintro answer desc' hperform
  have hdeleted : desc' = none := by
    cases hw : w.desc with
    | none =>
      rw [hw] at hperform
      cases hperform
    | some d =>
      rw [hw] at hperform
      exact (Prod.mk.inj hperform).2.symm
  obtain rfl := hdeleted
  have hgone : ¬ Stores.Locked ({ w with desc := none } : Stores T) := by
    rintro ⟨d, hd, -⟩
    cases hd
  exact ⟨.inr ⟨hzw hz, hgone, rfl⟩, trivial⟩

/-- The questions that come after the check of a new entity's model. -/
def Question.Creates : Question T → Prop
  | .model (.extendSchema (some _)) => True
  | .beginTx | .execute | .save => True
  | .commitSegment _ | .commit _ => True
  | _ => False

theorem cascade_within (id : String) (segments : ℕ) :
    (cascade (entityFlow id) segments : Code T _).Within Question.Creates := by
  induction segments with
  | zero => trivial
  | succ segments ih =>
    refine Program.within_bind ⟨trivial, fun _ => trivial⟩ fun a => ?_
    cases a with
    | error fault => trivial
    | ok u => exact ih

theorem storeEntity_within (id : String) :
    (storeEntity (entityFlow id) : Code T _).Within Question.Creates := by
  refine Program.within_bind ⟨trivial, fun _ => trivial⟩ fun a => ?_
  cases a with
  | error fault => trivial
  | ok u =>
    refine Program.within_bind ⟨trivial, fun _ => trivial⟩ fun a => ?_
    cases a with
    | error fault => trivial
    | ok segments =>
      refine Program.within_bind (cascade_within id segments) fun a => ?_
      cases a with
      | error err => trivial
      | ok u =>
        refine Program.within_bind ⟨trivial, fun _ => trivial⟩ fun a => ?_
        cases a with
        | error fault => trivial
        | ok u => exact Program.within_bind ⟨trivial, fun _ => trivial⟩ fun _ => trivial

/-- After the check, while the model stays locked. -/
theorem creates_served {id : String} {input : CreateEntityInput} {q : Question T} {a : Answer q}
    {y : Stores T} (hq : q.Creates) (hx : x.Locked)
    (h : Served apply (.createEntity id input) x q a y) :
    Operation.kept apply (.createEntity id input) x y ∧ y.Locked := by
  obtain ⟨o, hserve, -⟩ := h
  cases q with
  | model c =>
    cases c with
    | extendSchema delta =>
      cases delta with
      | none => exact hq.elim
      | some delta =>
        obtain ⟨-, rfl⟩ | ⟨answer, desc, hperform, -, rfl⟩ := model_served hserve
        · exact ⟨kept_refl _ y, hx⟩
        · have hextends : Extends apply x { x with desc } := by
            refine ⟨delta, ?_⟩
            cases hresult : ModelStore.extendSchema (some apply) (some delta) x.desc with
            | error err =>
              rw [ModelStore.perform, hresult] at hperform
              cases hperform
            | ok desc' =>
              rw [ModelStore.perform, hresult] at hperform
              rw [(Prod.mk.inj hperform).2]
          exact ⟨⟨hextends.locked_iff, .inl rfl, .inr hextends⟩, hextends.locked_iff.mp hx⟩
    | _ => exact hq.elim
  | count => exact hq.elim
  | beginTx | execute | save | commitSegment | commit =>
    obtain rfl | ⟨id', rfl⟩ := flow_served (by simp) hserve
    · exact ⟨kept_refl _ y, hx⟩
    · exact ⟨⟨iff_of_true hx hx, .inr hx, .inl rfl⟩, hx⟩

theorem ensured_creates {id : String} {input : CreateEntityInput}
    {p : Code T (Except AppError Unit)} (hp : p.Within Question.Creates) (hx : x.Locked) :
    Ensured apply (.createEntity id input) p (Operation.post (.createEntity id input)) x := by
  have hlocked : Ensured apply (.createEntity id input) p (fun _ y => y.Locked) x :=
    hp.ensures (w := (discipline apply).around (.createEntity id input))
      (fun _ _ hrely h => hrely h) (fun _ _ _ _ hq h hserved => creates_served hq h hserved) hx
  exact hlocked.mono fun _ _ _ => trivial

variable [TypeSet T] {spi : ScalarSpi D} {parsers : Parsers}

theorem importedDescriptor_state {existing : Option (Descriptor T)}
    (h : importedDescriptor spi parsers existing input now = .ok desc) :
    desc.state = .unlocked := by
  rw [importedDescriptor] at h
  split at h
  · cases h
  split at h
  · cases h
  split at h
  · cases h
  split at h
  · rw [← Except.ok.inj h]
  split at h
  · cases h
  · rw [← Except.ok.inj h]

theorem importedDescriptor_locked {d : Descriptor T} (h : d.state = .locked) :
    importedDescriptor spi parsers (some d) input now = .error .alreadyRegistered := by
  simp [importedDescriptor, h]

theorem saveImported_ensured {existing : Option (Descriptor T)}
    (hlocked : x.Locked → ∃ d, existing = some d ∧ d.state = .locked) :
    Ensured apply (.importModel input now)
      (saveImported spi parsers modelStore existing input now) (fun _ _ => True) x := by
  rw [saveImported]
  cases himported : importedDescriptor spi parsers existing input now with
  | error err => trivial
  | ok desc =>
    have hx : ¬ x.Locked := by
      intro h
      obtain ⟨d, rfl, hd⟩ := hlocked h
      cases himported.symm.trans (importedDescriptor_locked hd)
    apply Program.ensures_bind
    exact ensured_save (importedDescriptor_state himported) (fun _ h => h)
      (fun _ _ h h' h'' => .inr ⟨h, h', h''⟩) hx

theorem import_ensured (input : ImportModelInput) (now : Memory.Time) :
    Ensured apply (.importModel input now) (importModel spi parsers modelStore input now)
      (fun _ _ => True) x := by
  rw [importModel]
  split
  · trivial
  apply Program.ensures_bind
  rintro y - a z ⟨o, hserve, htrust⟩
  obtain ⟨rfl, -⟩ := get_served hserve
  have hlocked : z.Locked → ∃ d, existingModel a = some d ∧ d.state = .locked := by
    rintro ⟨d, hd, hstate⟩
    obtain rfl := get_served_of_locked hserve (htrust trivial rfl ⟨d, hd, hstate⟩) hd
    exact ⟨d, rfl, hstate⟩
  exact ⟨.inl rfl, saveImported_ensured hlocked⟩

theorem withKeys_state {desc' : Descriptor T} {keys : List UniqueKey}
    (h : withKeys desc keys = .ok desc') : desc'.state = desc.state := by
  rw [withKeys] at h
  split at h
  · cases h
  split at h
  · split at h
    · cases h
    · rw [← Except.ok.inj h]
  · cases h

theorem setUniqueKeys_ensured (supported : Bool) (keys : List UniqueKey) :
    Ensured apply (.setUniqueKeys supported keys) (setUniqueKeys modelStore supported keys)
      (Operation.post (.setUniqueKeys supported keys)) x := by
  rw [setUniqueKeys]
  split
  · trivial
  refine ensured_gate (fun y desc _ hdesc hstate => ?_) fun _ _ => trivial
  cases hkeys : withKeys desc keys with
  | error err => trivial
  | ok desc' =>
    exact Program.ensures_bind (ensured_save ((withKeys_state hkeys).trans hstate)
      (fun _ h => h) (fun _ _ h h' h'' => .inr ⟨h, h', h''⟩) (not_locked_of_state hdesc hstate))

theorem validateOrExtend_within (desc : Descriptor T) (data : Doc) :
    (validateOrExtend spi modelStore desc data : Code T _).Within Question.Creates := by
  rw [validateOrExtend]
  split
  · trivial
  · trivial
  · refine Program.within_bind (Program.within_bind ⟨trivial, fun _ => trivial⟩ fun _ => trivial)
      fun a => ?_
    cases a with
    | error fault => trivial
    | ok u => trivial

theorem createEntity_ensured (id : String) (input : CreateEntityInput) :
    Ensured apply (.createEntity id input) (createEntity spi modelStore (entityFlow id) input)
      (Operation.post (.createEntity id input)) x := by
  apply Program.ensures_bind
  refine ensured_get fun y _ => ⟨fun fault => trivial, fun desc hdesc => ?_⟩
  by_cases hstate : desc.state = .locked
  · simp only [hstate, ne_eq, not_true, if_false]
    cases input.body with
    | none => trivial
    | some data =>
      dsimp only
      split
      · trivial
      refine ensured_creates (Program.within_bind (validateOrExtend_within desc data) ?_)
        ⟨desc, hdesc, hstate⟩
      intro a
      cases a with
      | error err => trivial
      | ok u =>
        dsimp only
        split
        · trivial
        · exact storeEntity_within id
  · simp only [ne_eq, hstate, not_false_iff, if_true]
    trivial

theorem body_holds (r : Operation) (x : Stores T) :
    (discipline apply).Holds r (r.body spi parsers) x := by
  cases r with
  | importModel input now => exact import_ensured input now
  | lockModel => exact lock_ensured
  | unlockModel => exact unlock_ensured
  | deleteModel => exact delete_ensured
  | setUniqueKeys supported keys => exact setUniqueKeys_ensured supported keys
  | createEntity id input => exact createEntity_ensured id input

end Bodies

/-! ## Runs -/

/-- The condition on a step: the operations that run at once do not disturb each other, and no
failing read meets the import of a locked model. -/
def Undisturbed (s : System T) : Move Operation Outside → Prop
  | .start _ r => ∀ c' r', s.Running c' r' → ¬ r.Disturbs r' ∧ ¬ r'.Disturbs r
  | .advance c x => ∀ c' r, s.Running c' r → c' = c → r.TrustsFailedRead →
      (s.asked c).any Question.isRead → s.shared.Locked → x.failure = none

structure Disciplined (apply : ApplyFunc (ModelNode T) (SchemaDelta T) E) (s : System T) : Prop where
  meets : s.Meets (discipline apply)
  apart : ∀ c r c' r', s.Running c r → s.Running c' r' → ¬ r.Disturbs r'
  held : s.shared.live ≠ [] → s.shared.Locked

section Runs

variable {apply : ApplyFunc (ModelNode T) (SchemaDelta T) E} {x y : Stores T} {r r' : Operation}

theorem Operation.not_disturbs_self (r : Operation) : ¬ r.Disturbs r := by
  cases r <;> exact id

theorem unlocked_of_kept (hr : r ≠ .lockModel) (h : r.kept apply x y) (hx : ¬ x.Locked) :
    ¬ y.Locked := by
  cases r with
  | lockModel => exact absurd rfl hr
  | createEntity id input => exact fun hy => hx (h.1.mpr hy)
  | unlockModel =>
    obtain rfl | h := h
    · exact hx
    · exact h.1
  | importModel | setUniqueKeys | deleteModel =>
    obtain rfl | h := h
    · exact hx
    · exact h.2.1

theorem locked_of_kept (hr : r ≠ .unlockModel) (h : r.kept apply x y) (hx : x.Locked) :
    y.Locked := by
  cases r with
  | lockModel => exact h.1 hx
  | createEntity id input => exact h.1.mp hx
  | unlockModel => exact absurd rfl hr
  | importModel | setUniqueKeys | deleteModel =>
    obtain rfl | h := h
    · exact hx
    · exact absurd hx h.1

/-- Only the creation of an entity adds one, and it does so while the model is locked. -/
theorem live_of_kept (h : r.kept apply x y) :
    y.live = x.live ∨ (∃ id input, r = .createEntity id input) ∧ x.Locked := by
  cases r with
  | lockModel => exact .inl h.2.1
  | createEntity id input => exact h.2.1.imp_right fun hx => ⟨⟨id, input, rfl⟩, hx⟩
  | unlockModel =>
    obtain rfl | h := h
    · exact .inl rfl
    · exact .inl (h.2.2.trans h.2.1.symm)
  | importModel | setUniqueKeys | deleteModel =>
    obtain rfl | h := h
    · exact .inl rfl
    · exact .inl h.2.2

/-- What one operation promises is what the others rely on. -/
theorem rely_of_kept (hapart : ¬ r.Disturbs r') (hapart' : ¬ r'.Disturbs r)
    (h : r.kept apply x y) : r'.rely x y := by
  cases r' with
  | lockModel => trivial
  | unlockModel =>
    intro hx
    obtain hlive | ⟨⟨id, input, rfl⟩, -⟩ := live_of_kept h
    · exact hlive.trans hx
    · exact absurd trivial hapart'
  | createEntity id input =>
    refine locked_of_kept ?_ h
    rintro rfl
    exact hapart trivial
  | importModel | setUniqueKeys | deleteModel =>
    refine unlocked_of_kept ?_ h
    rintro rfl
    exact hapart trivial

theorem held_of_kept (hx : x.live ≠ [] → x.Locked) (h : r.kept apply x y) (hy : y.live ≠ []) :
    y.Locked := by
  by_cases hr : r = .unlockModel
  · subst hr
    obtain rfl | h := h
    · exact hx hy
    · exact absurd h.2.2 hy
  · obtain hlive | ⟨-, hlocked⟩ := live_of_kept h
    · exact locked_of_kept hr h (hx (hlive ▸ hy))
    · exact locked_of_kept hr h hlocked

/-- An operation that is not an unlock leaves the schema and the keys of a locked model, or
extends the schema. -/
theorem content_of_kept (hr : r ≠ .unlockModel) (hx : x.Locked) (h : r.kept apply x y) :
    y.content = x.content ∨ Extends apply x y := by
  cases r with
  | lockModel => exact .inl h.2.2
  | createEntity id input =>
    exact h.2.2.imp_left fun hdesc => by rw [content, hdesc, content]
  | unlockModel => exact absurd rfl hr
  | importModel | setUniqueKeys | deleteModel =>
    obtain rfl | h := h
    · exact .inl rfl
    · exact absurd hx h.1

variable {s s' : System T} {e : Option (Exchange (Question T) Answer)} {c : ℕ} {o : Outside}

/-- What an answered question does to the stores, and what is left of its operation. -/
theorem Disciplined.advance {q : Question T} {next : Answer q → Code T (Except AppError Unit)}
    {a : Answer q} (h : Disciplined apply s) (hallowed : Undisturbed s (.advance c o))
    (hadv : Threads.Advances (serve apply) s s' c o r q next a) :
    r.kept apply s.shared s'.shared ∧ (discipline apply).Holds r (next a) s'.shared ∧
      Disciplined apply s' := by
  have hserved : Served apply r s.shared q a s'.shared := by
    refine ⟨o, hadv.served, fun htrusts hread hlocked => ?_⟩
    exact hallowed c r hadv.running rfl htrusts (by simp [hadv.asked_eq, hread]) hlocked
  have hrefl : r.rely s.shared s.shared := by
    cases r with
    | lockModel => trivial
    | _ => exact id
  obtain ⟨hkept, hnext, hmeets⟩ := h.meets.advance hadv hrefl hserved
    fun hkept c' r' _ hrunning => rely_of_kept (h.apart c r c' r' hadv.running hrunning)
      (h.apart c' r' c r hrunning hadv.running) hkept
  refine ⟨hkept, hnext, hmeets, ?_, held_of_kept h.held hkept⟩
  intro c1 r1 c2 r2 h1 h2
  exact h.apart c1 r1 c2 r2 (hadv.running_of h1) (hadv.running_of h2)

variable [TypeSet T] {spi : ScalarSpi D} {parsers : Parsers}

open Threads

theorem Disciplined.start (h : Disciplined apply s) (hallowed : Undisturbed s (.start c r))
    (hstep : System.step spi parsers apply s (.start c r) = some (e, s')) :
    Disciplined apply s' := by
  have hshared : s'.shared = s.shared := by
    obtain ⟨-, rfl⟩ := start_cases hstep
    rfl
  refine ⟨h.meets.start (body_holds r _) hstep, ?_, hshared ▸ h.held⟩
  intro c1 r1 c2 r2 h1 h2
  obtain ⟨rfl, rfl⟩ | h1 := running_start hstep h1
  · obtain ⟨rfl, rfl⟩ | h2 := running_start hstep h2
    · exact r2.not_disturbs_self
    · exact (hallowed c2 r2 h2).1
  · obtain ⟨rfl, rfl⟩ | h2 := running_start hstep h2
    · exact (hallowed c1 r1 h1).2
    · exact h.apart c1 r1 c2 r2 h1 h2

variable {m : Move Operation Outside}

theorem Disciplined.step (h : Disciplined apply s) (hallowed : Undisturbed s m)
    (hstep : System.step spi parsers apply s m = some (e, s')) :
    Disciplined apply s' := by
  cases m with
  | start c r => exact h.start hallowed hstep
  | advance c o =>
    obtain ⟨r, q, next, a, hadv, -⟩ := advance_cases hstep
    exact (h.advance hallowed hadv).2.2

/-- The model is locked and nothing is about to unlock it. -/
def Secured (s : System T) : Prop := s.shared.Locked ∧ ∀ c, ¬ s.Running c .unlockModel

theorem Secured.step (h : Secured s) (hs : Disciplined apply s) (hallowed : Undisturbed s m)
    (hm : ∀ c, m ≠ .start c .unlockModel) (hstep : System.step spi parsers apply s m = some (e, s')) :
    Secured s' ∧
      (s'.shared.content = s.shared.content ∨ Extends apply s.shared s'.shared) := by
  cases m with
  | start c r =>
    have hrunning : ∀ c', ¬ s'.Running c' .unlockModel := by
      intro c' hc'
      obtain ⟨rfl, rfl⟩ | hc' := running_start hstep hc'
      · exact hm c' rfl
      · exact h.2 c' hc'
    obtain ⟨-, rfl⟩ := start_cases hstep
    exact ⟨⟨h.1, hrunning⟩, .inl rfl⟩
  | advance c o =>
    obtain ⟨r, q, next, a, hadv, -⟩ := advance_cases hstep
    have hkept := (hs.advance hallowed hadv).1
    have hr : r ≠ .unlockModel := by
      rintro rfl
      exact h.2 c hadv.running
    exact ⟨⟨locked_of_kept hr hkept h.1, fun c' hc' => h.2 c' (hadv.running_of hc')⟩,
      content_of_kept hr h.1 hkept⟩

/-- The step in which a lock returns successfully. -/
theorem secured_of_lock (hs : Disciplined apply s) (hallowed : Undisturbed s m)
    (hstep : System.step spi parsers apply s m = some (e, s'))
    (hbefore : ¬ s.Returned c .lockModel (.ok ())) (hafter : s'.Returned c .lockModel (.ok ())) :
    Secured s' := by
  cases m with
  | start c' r =>
    obtain ⟨-, rfl⟩ := start_cases hstep
    rw [Threads.Returned, GoMap.get_set] at hafter
    split at hafter
    · obtain ⟨rfl, hprogram⟩ := Thread.mk.inj (Option.some.inj hafter)
      cases hprogram
    · exact absurd hafter hbefore
  | advance c' o =>
    obtain ⟨r, q, next, a, hadv, -⟩ := advance_cases hstep
    have hc : c' = c := by
      by_contra hne
      rw [Threads.Returned, hadv.goesOn, GoMap.get_set_of_ne _ _ (Ne.symm hne)] at hafter
      exact hbefore hafter
    subst hc
    obtain ⟨rfl, hnext⟩ := hadv.returned hafter
    have hholds := (hs.advance hallowed hadv).2.1
    rw [hnext] at hholds
    refine ⟨hholds, fun c hrunning => ?_⟩
    exact hs.apart c' .lockModel c .unlockModel hadv.running (hadv.running_of hrunning) trivial

variable {start : Stores T}
  {tr : List (Event (System T) (Move Operation Outside) (Option (Exchange (Question T) Answer)))}

theorem disciplined_of_run (hstart : start.live ≠ [] → start.Locked)
    (hrun : Run (System.step spi parsers apply) (fun _ => Undisturbed) ⟨start, ∅⟩ tr s) :
    Disciplined apply s := by
  refine hrun.inv (I := fun _ s => Disciplined apply s) ⟨?_, ?_, hstart⟩
    fun _ _ m _ _ h hallowed hstep => h.step (m := m) hallowed hstep
  · intro c r q next hget
    simp at hget
  · rintro c r c' r' ⟨q, next, hget⟩
    simp at hget

theorem secured_of_run (hstart : start.live ≠ [] → start.Locked)
    {newer older : List (Event (System T) (Move Operation Outside)
      (Option (Exchange (Question T) Answer)))}
    {ev : Event (System T) (Move Operation Outside) (Option (Exchange (Question T) Answer))}
    (hrun : Run (System.step spi parsers apply) (fun _ => Undisturbed) ⟨start, ∅⟩
      (newer ++ ev :: older) s)
    (hbefore : ¬ ev.before.Returned c .lockModel (.ok ()))
    (hafter : ev.after.Returned c .lockModel (.ok ()))
    (hcalled : ∀ e ∈ newer, ∀ c', e.action ≠ .start c' .unlockModel) :
    Secured s ∧ ∀ e ∈ newer, e.after.shared.content = e.before.shared.content ∨
      Extends apply e.before.shared e.after.shared := by
  induction newer generalizing s with
  | nil =>
    cases hrun with
    | cons m hrun hallowed hstep =>
      exact ⟨secured_of_lock (disciplined_of_run hstart hrun) hallowed hstep hbefore hafter,
        by simp⟩
  | cons e newer ih =>
    cases hrun with
    | cons m hrun hallowed hstep =>
      obtain ⟨hsecured, hcontent⟩ := ih hrun fun e he => hcalled e (List.mem_cons_of_mem _ he)
      obtain ⟨hnext, hchange⟩ := hsecured.step (disciplined_of_run hstart hrun) hallowed
        (hcalled _ List.mem_cons_self) hstep
      refine ⟨hnext, fun e he => ?_⟩
      obtain rfl | he := List.mem_cons.mp he
      · exact hchange
      · exact hcontent e he

/-- In runs whose steps are undisturbed a model with live entities is locked; and from a
successful lock until an unlock is called it stays locked, its schema and keys change by
extensions only. -/
theorem lock_discipline (hstart : start.live ≠ [] → start.Locked)
    (hrun : Run (System.step spi parsers apply) (fun _ => Undisturbed) ⟨start, ∅⟩ tr s) :
    (s.shared.live ≠ [] → s.shared.Locked) ∧
      ∀ c newer ev older, tr = newer ++ ev :: older →
        ¬ ev.before.Returned c .lockModel (.ok ()) → ev.after.Returned c .lockModel (.ok ()) →
        (∀ e ∈ newer, ∀ c', e.action ≠ .start c' .unlockModel) →
          s.shared.Locked ∧ ∀ e ∈ newer, e.after.shared.content = e.before.shared.content ∨
            Extends apply e.before.shared e.after.shared := by
  refine ⟨(disciplined_of_run hstart hrun).held, ?_⟩
  rintro c newer ev older rfl hbefore hafter hcalled
  obtain ⟨hsecured, hcontent⟩ := secured_of_run hstart hrun hbefore hafter hcalled
  exact ⟨hsecured.1, hcontent⟩

end Runs

/-! ## Runs that can be executed -/

instance : DecidableRel Operation.Disturbs
  | .lockModel, .importModel .. | .lockModel, .setUniqueKeys .. => isTrue trivial
  | .lockModel, .deleteModel | .lockModel, .unlockModel => isTrue trivial
  | .unlockModel, .createEntity .. => isTrue trivial
  | .lockModel, .lockModel | .lockModel, .createEntity .. => isFalse id
  | .unlockModel, .importModel .. | .unlockModel, .setUniqueKeys .. => isFalse id
  | .unlockModel, .deleteModel | .unlockModel, .unlockModel | .unlockModel, .lockModel => isFalse id
  | .importModel .., _ | .setUniqueKeys .., _ | .deleteModel, _ | .createEntity .., _ => isFalse id

instance : DecidablePred Operation.TrustsFailedRead
  | .importModel .. => isTrue trivial
  | .lockModel | .unlockModel | .deleteModel => isFalse id
  | .setUniqueKeys .. | .createEntity .. => isFalse id

instance (s : Stores T) : Decidable s.Locked :=
  inferInstanceAs (Decidable (∃ desc ∈ s.desc, desc.state = .locked))

instance (s : System T) : DecidablePred (Undisturbed s)
  | .start _ r => inferInstanceAs
    (Decidable (∀ c' r', s.Running c' r' → ¬ r.Disturbs r' ∧ ¬ r'.Disturbs r))
  | .advance c x => inferInstanceAs
    (Decidable (∀ c' r, s.Running c' r → c' = c → r.TrustsFailedRead →
      (s.asked c).any Question.isRead → s.shared.Locked → x.failure = none))

namespace Sample

open Schema.Sample (TypeFlags decimals textField)
open ModelCache.Sample (oneDocument noExtension sampleData)

def entity : CreateEntityInput := ⟨some (.object [("a", .string "x")]), true, fun _ => true⟩

def steps (c n : ℕ) : List (Move Operation Outside) := List.replicate n (.advance c ⟨none, 0⟩)

abbrev step := System.step decimals oneDocument noExtension

/-- An import; then a lock and the creation of two entities, whose steps interleave. -/
def interleaved : List (Move Operation Outside) :=
  [.start 0 (.importModel sampleData 1)] ++ steps 0 2 ++
    [.start 1 .lockModel, .start 2 (.createEntity "e" entity)] ++ steps 1 1 ++
    [.start 3 (.createEntity "f" entity)] ++ steps 1 1 ++
    (List.replicate 5 (steps 2 1 ++ steps 3 1)).flatten

/-- An import has read the model before it is locked, and saves after an entity exists. -/
def lateSave : List (Move Operation Outside) :=
  [.start 0 (.importModel sampleData 1)] ++ steps 0 1 ++ [.start 1 .lockModel] ++ steps 1 2 ++
    [.start 2 (.createEntity "e" entity)] ++ steps 2 5 ++ steps 0 1

def unlocked : Stores TypeFlags := ⟨some ⟨.unlocked, noChangeLevel, some textField, ⟨0, []⟩⟩, []⟩

def lockReturned (s : System TypeFlags) (c : ℕ) : Bool :=
  match s.calls.get c with
  | some ⟨.lockModel, .done (.ok ())⟩ => true
  | _ => false

theorem lockReturned_iff {s : System TypeFlags} {c : ℕ} :
    lockReturned s c = true ↔ s.Returned c .lockModel (.ok ()) := by
  constructor
  · intro h
    rw [lockReturned] at h
    split at h
    · assumption
    · cases h
  · intro h
    rw [lockReturned, h]

def callsUnlock : Move Operation Outside → Bool
  | .start _ .unlockModel => true
  | _ => false

theorem ne_start_of_callsUnlock {move : Move Operation Outside} (h : callsUnlock move = false)
    (c : ℕ) : move ≠ .start c .unlockModel := by
  rintro rfl
  cases h

/-- The lock of the call 1 returns in the event before the newest `n`, which call no unlock. -/
def lockReturns {ω : Type} (n : ℕ)
    (tr : List (Event (System TypeFlags) (Move Operation Outside) ω)) : Bool :=
  (tr.take n).all (fun e => !callsUnlock e.action) &&
    (tr.drop n).head?.any fun ev => !lockReturned ev.before 1 && lockReturned ev.after 1

end Sample

open Sample

/-- Ten steps of the two creations follow on the lock. -/
theorem lock_discipline_of_four : ∃ newer ev older s, Run step (fun _ => Undisturbed)
      ⟨⟨none, []⟩, ∅⟩ (newer ++ ev :: older) s ∧ newer.length = 10 ∧
      ev.after.Returned 1 .lockModel (.ok ()) ∧ s.shared.live.length = 2 ∧ s.shared.Locked ∧
      ∀ e ∈ newer, e.after.shared.content = e.before.shared.content ∨
        Extends ModelCache.Sample.noExtension e.before.shared e.after.shared := by
  have hexecuted : ∃ tr s, Run step (fun _ => Undisturbed) ⟨⟨none, []⟩, ∅⟩ tr s ∧
      (lockReturns 10 tr && decide (10 ≤ tr.length ∧ s.shared.live.length = 2)) = true :=
    exists_run_of_execute (fun _ _ _ h => of_decide_eq_true h) interleaved (by decide +kernel)
  obtain ⟨tr, s, hrun, hcheck⟩ := hexecuted
  simp only [lockReturns, Bool.and_eq_true, decide_eq_true_eq, List.all_eq_true,
    Bool.not_eq_true', Option.any_eq_true] at hcheck
  obtain ⟨⟨hcalls, ev, hev, hbefore, hafter⟩, hlength, hlive⟩ := hcheck
  obtain ⟨older, hdrop⟩ := List.head?_eq_some_iff.mp hev
  have hsplit : tr = tr.take 10 ++ ev :: older := by rw [← hdrop, List.take_append_drop]
  obtain ⟨hheld, hdiscipline⟩ := lock_discipline (fun h => absurd rfl h) hrun
  have hreturned := lockReturned_iff.mp hafter
  obtain ⟨hlocked, hcontent⟩ := hdiscipline 1 _ ev older hsplit
    (fun h => by simp [lockReturned_iff.mpr h] at hbefore) hreturned
    fun e he => ne_start_of_callsUnlock (hcalls e he)
  exact ⟨_, ev, older, s, hsplit ▸ hrun, List.length_take_of_le hlength, hreturned, hlive, hlocked,
    hcontent⟩

/-- No unlock is ever called, and the model with an entity ends up unlocked. -/
theorem import_undoes_lock : ∃ tr s, Run step AnyStep ⟨unlocked, ∅⟩ tr s ∧
      (∀ e ∈ tr, ∀ c, e.action ≠ .start c .unlockModel) ∧
      s.Returned 1 .lockModel (.ok ()) ∧ s.shared.live ≠ [] ∧ ¬ s.shared.Locked := by
  have hexecuted : ∃ tr s, Run step AnyStep ⟨unlocked, ∅⟩ tr s ∧
      (tr.all (fun e => !callsUnlock e.action) && lockReturned s 1 &&
        decide (s.shared.live ≠ [] ∧ ¬ s.shared.Locked)) = true :=
    exists_any_of_execute lateSave (by decide +kernel)
  obtain ⟨tr, s, hrun, hcheck⟩ := hexecuted
  simp only [Bool.and_eq_true, decide_eq_true_eq, List.all_eq_true] at hcheck
  obtain ⟨⟨hcalls, hlock⟩, hend⟩ := hcheck
  refine ⟨tr, s, hrun, fun e he c hc => ?_, lockReturned_iff.mp hlock, hend⟩
  exact ne_start_of_callsUnlock (by simpa using hcalls e he) c hc

end CyodaGo.ModelAdmin
