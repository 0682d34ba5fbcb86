import CyodaGo.Model.Models.Node
import CyodaGo.Shared.Unwinding
import CyodaGo.Verification.Memory.Steps
import CyodaGo.Verification.Models.Fold

/-! # When an extension can be seen

The memory store applies a delta in place, whatever the transaction of the caller, and a rollback
does not touch it. A run and the run without the extensions of one transaction stay alike except
for the schemas it extended, until these are replaced. -/

namespace CyodaGo.Models

open Memory (TxID CallID)

variable {S Δ A E : Type}

abbrev NodeEvent (S Δ A E : Type) := Event (Node S A) (Op S Δ A) (Reply S A E)

/-! ## The transaction's extensions -/

variable (T : TxID)

/-- The store's part of an `ExtendSchema` call of the transaction. -/
def isExtension : Op S Δ A → Bool
  | .mutate _ tx _ (.extendSchema _) => tx = some T
  | _ => false

theorem eq_mutate_of_isExtension {T : TxID} {op : Op S Δ A} (h : isExtension T op = true) :
    ∃ c key delta, op = .mutate c (some T) key (.extendSchema delta) := by
  cases op with
  | mutate c tx key call =>
    cases call with
    | extendSchema delta =>
      obtain rfl : tx = some T := of_decide_eq_true h
      exact ⟨c, key, delta, rfl⟩
    | _ => cases h
  | _ => cases h

/-- Without the store's part, the cache's part of the call is an eviction. -/
def withoutExtension (n : Node S A) : Op S Δ A → Op S Δ A
  | .invalidate c =>
    match n.calls.get c with
    | some (.invalidating key extension) =>
      if extension = some T then .evict key else .invalidate c
    | _ => .invalidate c
  | op => op

/-- The call stores a whole descriptor, or deletes it. -/
def Call.replaces : Call S Δ A → Bool
  | .save _ => true
  | .delete => true
  | _ => false

def replaces (key : Key) (ev : NodeEvent S Δ A E) : Bool :=
  match ev.action, ev.result with
  | .mutate _ _ key' call, .running => call.replaces && key' = key
  | _, _ => false

/-- What the store holds for the key was changed by an extension of `T` and not replaced
since. -/
def ShowsExtension (T : TxID) (key : Key) : List (NodeEvent S Δ A E) → Prop
  | [] => False
  | ev :: tr =>
    replaces key ev = false ∧ (ShowsExtension T key tr ∨
      isExtension T ev.action = true ∧
        ev.after.modelData.get key ≠ ev.before.modelData.get key)

/-- `T` does not commit, and while the store shows an extension of `T` nobody reads that schema
from it or extends it further. -/
def UnreadUntilReplaced (tr : List (NodeEvent S Δ A E)) (n : Node S A) : Op S Δ A → Prop
  | .memory (.commitFinish _ _) => n.world.inside.map (·.txID) ≠ some T
  | .read key => ¬ ShowsExtension T key tr
  | .fetch c => ∀ key, n.calls.get c = some (.fetching key) → ¬ ShowsExtension T key tr
  | .mutate _ tx key (.extendSchema _) => tx ≠ some T → ¬ ShowsExtension T key tr
  | _ => True

/-! ## Alike descriptors -/

/-- What calls other than `Get` and `ExtendSchema` look at and change. -/
def ModelDescriptor.lifecycle (d : ModelDescriptor S A) : ModelState × Schema.ChangeLevel × A :=
  (d.state, d.changeLevel, d.rest)

def LifecycleEq (entry entry' : ModelStore.Entry S A) : Prop :=
  entry.map ModelDescriptor.lifecycle = entry'.map ModelDescriptor.lifecycle

namespace ModelStore

theorem extendSchema_lifecycle {applyFunc : Option (ApplyFunc S Δ E)} {delta : Option Δ}
    {entry after : Entry S A} (h : extendSchema applyFunc delta entry = .ok after) :
    LifecycleEq after entry := by
  unfold extendSchema at h
  cases delta with
  | none => cases h; rfl
  | some delta =>
    cases applyFunc with
    | none => cases h
    | some apply =>
      cases entry with
      | none => cases h
      | some desc =>
        dsimp only at h
        split at h
        · cases h
        · cases h; rfl

/-- A setter changes alike entries alike. -/
theorem update_alike {entry entry' : Entry S A} (f : ModelDescriptor S A → ModelDescriptor S A)
    (hf : ∀ d d', d.lifecycle = d'.lifecycle → (f d).lifecycle = (f d').lifecycle)
    (h : LifecycleEq entry entry') :
    ∃ (answer : Answer S A E) (after after' : Entry S A),
      settle entry (update f entry) = (answer, after) ∧
        settle entry' (update f entry') = (answer, after') ∧ LifecycleEq after after' ∧
        (false = true ∨ entry = entry' → after = after') := by
  cases entry with
  | none =>
    cases entry' with
    | none => exact ⟨_, _, _, rfl, rfl, h, fun _ => rfl⟩
    | some d' => cases h
  | some d =>
    cases entry' with
    | none => cases h
    | some d' =>
      refine ⟨_, _, _, rfl, rfl, congrArg some (hf d d' (Option.some.inj h)), ?_⟩
      rintro (hfalse | heq)
      · cases hfalse
      · rw [Option.some.inj heq]

/-- Calls that do not extend the schema treat alike entries alike. -/
theorem perform_alike (applyFunc : Option (ApplyFunc S Δ E)) {entry entry' : Entry S A}
    {call : Call S Δ A} (h : LifecycleEq entry entry') (hget : call ≠ .get)
    (hextend : ∀ delta, call = .extendSchema delta → entry = entry') :
    ∃ answer after after', perform applyFunc entry call = (answer, after) ∧
      perform applyFunc entry' call = (answer, after') ∧ LifecycleEq after after' ∧
      (call.replaces = true ∨ entry = entry' → after = after') := by
  cases call with
  | save desc => exact ⟨_, _, _, rfl, rfl, rfl, fun _ => rfl⟩
  | get => exact absurd rfl hget
  | delete =>
    cases entry with
    | none =>
      cases entry' with
      | none => exact ⟨_, _, _, rfl, rfl, h, fun _ => rfl⟩
      | some d' => cases h
    | some d =>
      cases entry' with
      | none => cases h
      | some d' => exact ⟨_, _, _, rfl, rfl, rfl, fun _ => rfl⟩
  | lock =>
    refine update_alike _ ?_ h
    intro d d' hd
    simpa [ModelDescriptor.lifecycle] using congrArg Prod.snd hd
  | unlock =>
    refine update_alike _ ?_ h
    intro d d' hd
    simpa [ModelDescriptor.lifecycle] using congrArg Prod.snd hd
  | setChangeLevel level =>
    refine update_alike _ ?_ h
    intro d d' hd
    simp_all [ModelDescriptor.lifecycle]
  | extendSchema delta =>
    obtain rfl := hextend delta rfl
    exact ⟨_, _, _, rfl, rfl, rfl, fun _ => rfl⟩

end ModelStore

namespace Node

variable (n : Node S A) (key : Key) (entry : ModelStore.Entry S A)

theorem get_put (key' : Key) :
    (n.put key entry).modelData.get key' = if key' = key then entry else n.modelData.get key' := by
  cases entry with
  | none => exact GoMap.get_del _ _ _
  | some desc => exact GoMap.get_set _ _ _ _

@[simp] theorem put_world : (n.put key entry).world = n.world := by
  cases entry <;> rfl

@[simp] theorem put_entries : (n.put key entry).entries = n.entries := by
  cases entry <;> rfl

@[simp] theorem put_calls : (n.put key entry).calls = n.calls := by
  cases entry <;> rfl

end Node

/-! ## Alike nodes -/

/-- A call as the run without the extensions of `T` has it. -/
def dropExtension : Option (Pending S A) → Option (Pending S A)
  | some (.invalidating key extension) =>
    if extension = some T then none else some (.invalidating key extension)
  | p => p

structure Alike (T : TxID) (tr : List (NodeEvent S Δ A E)) (n n' : Node S A) : Prop where
  world : n.world = n'.world
  entries : n.entries = n'.entries
  lifecycle : ∀ key, LifecycleEq (n.modelData.get key) (n'.modelData.get key)
  stored : ∀ key, ¬ ShowsExtension T key tr → n.modelData.get key = n'.modelData.get key
  calls : ∀ c, n'.calls.get c = dropExtension T (n.calls.get c)

theorem stepNode_mutate {spi : Memory.Spi} {applyFunc : Option (ApplyFunc S Δ E)} {n : Node S A}
    {c : CallID} {tx : Option TxID} {key : Key} {call : Call S Δ A} (h : call ≠ .get) :
    stepNode spi applyFunc n (.mutate c tx key call) =
      if c ∈ n.calls.keys then none else some (n.mutated applyFunc c tx key call) := by
  cases call with
  | get => exact absurd rfl h
  | _ => rfl

namespace Alike

variable {T : TxID} {tr : List (NodeEvent S Δ A E)} {n n' : Node S A}

theorem init : Alike T ([] : List (NodeEvent S Δ A E)) .init (.init : Node S A) :=
  ⟨rfl, rfl, fun _ => rfl, fun _ _ => rfl, fun _ => rfl⟩

theorem free (h : Alike T tr n n') {c : CallID} (hc : c ∉ n.calls.keys) : c ∉ n'.calls.keys := by
  intro hc'
  obtain ⟨p, hp⟩ := (n'.calls.mem_keys c).mp hc'
  rw [h.calls, GoMap.get_eq_none_of_notMem hc] at hp
  cases hp

/-- A step that leaves the stored descriptors alone on both sides. -/
theorem frame {ev : NodeEvent S Δ A E} {m m' : Node S A} (h : Alike T tr n n')
    (hreplaces : ∀ key, replaces key ev = false)
    (hworld : m.world = m'.world) (hentries : m.entries = m'.entries)
    (hdata : m.modelData = n.modelData) (hdata' : m'.modelData = n'.modelData)
    (hcalls : ∀ c, m'.calls.get c = dropExtension T (m.calls.get c)) :
    Alike T (ev :: tr) m m' := by
  refine ⟨hworld, hentries, ?_, ?_, hcalls⟩
  · intro key
    rw [hdata, hdata']
    exact h.lifecycle key
  · intro key hshows
    rw [hdata, hdata']
    exact h.stored key fun hold => hshows ⟨hreplaces key, .inl hold⟩

theorem pend (h : Alike T tr n n') (c : CallID) {p : Pending S A}
    (hp : dropExtension T (some p) = some p) (a : CallID) :
    (n'.calls.set c p).get a = dropExtension T ((n.calls.set c p).get a) := by
  rw [GoMap.get_set, GoMap.get_set, h.calls]
  split
  · exact hp.symm
  · rfl

theorem finish (h : Alike T tr n n') (c a : CallID) :
    (n'.calls.del c).get a = dropExtension T ((n.calls.del c).get a) := by
  rw [GoMap.get_del, GoMap.get_del, h.calls]
  split <;> rfl

/-! ### Steps -/

variable {spi : Memory.Spi} {applyFunc : Option (ApplyFunc S Δ E)} {r : Reply S A E}
  {m : Node S A}

/-- The store's part of an extension is not taken on the other side. -/
theorem extension {op : Op S Δ A} (h : Alike T tr n n')
    (hs : stepNode spi applyFunc n op = some (r, m)) (hext : isExtension T op = true) :
    Alike T (⟨n, op, r, m⟩ :: tr) m n' := by
  obtain ⟨c, key, delta, rfl⟩ := eq_mutate_of_isExtension hext
  simp only [stepNode] at hs
  split at hs
  · cases hs
  · next hc =>
    have hfree : n'.calls.get c = none := GoMap.get_eq_none_of_notMem (h.free hc)
    cases happly : ModelStore.extendSchema applyFunc delta (n.modelData.get key) with
    | error err =>
      simp only [Node.mutated, ModelStore.perform, happly, settle] at hs
      cases hs
      exact h.frame (fun _ => rfl) h.world h.entries rfl rfl h.calls
    | ok after =>
      simp only [Node.mutated, ModelStore.perform, happly, settle] at hs
      cases hs
      refine ⟨?_, ?_, ?_, ?_, ?_⟩
      · simpa [Node.pend] using h.world
      · simpa [Node.pend] using h.entries
      · intro k
        show LifecycleEq ((n.put key after).modelData.get k) _
        rw [Node.get_put]
        split
        · next hk =>
          subst hk
          exact (ModelStore.extendSchema_lifecycle happly).trans (h.lifecycle k)
        · exact h.lifecycle k
      · intro k hshows
        -- an extension that changed nothing is not shown
        have hsame : (n.put key after).modelData.get k = n.modelData.get k := by
          by_contra hne
          exact hshows ⟨rfl, .inr ⟨hext, hne⟩⟩
        show (n.put key after).modelData.get k = _
        rw [hsame]
        exact h.stored k fun hold => hshows ⟨rfl, .inl hold⟩
      · intro a
        show _ = dropExtension T (((n.put key after).calls.set c _).get a)
        rw [Node.put_calls, GoMap.get_set]
        split
        · next ha =>
          subst ha
          simp [hfree, dropExtension]
        · exact h.calls a

/-- A mutation other than an extension of `T`. -/
theorem mutate {c : CallID} {tx : Option TxID} {key : Key} {call : Call S Δ A}
    (h : Alike T tr n n') (hget : call ≠ .get)
    (hextend : ∀ delta, call = .extendSchema delta →
      tx ≠ some T ∧ n.modelData.get key = n'.modelData.get key) :
    ∃ r m m', n.mutated applyFunc c tx key call = (r, m) ∧
      n'.mutated applyFunc c tx key call = (r, m') ∧
      Alike T (⟨n, .mutate c tx key call, r, m⟩ :: tr) m m' := by
  obtain ⟨answer, after, after', hp, hp', hlife, heq⟩ :=
    ModelStore.perform_alike applyFunc (h.lifecycle key) hget fun delta hd => (hextend delta hd).2
  cases answer with
  | error err =>
    simp only [Node.mutated, hp, hp']
    exact ⟨_, _, _, rfl, rfl, h.frame (fun _ => rfl) h.world h.entries rfl rfl h.calls⟩
  | ok answer =>
    simp only [Node.mutated, hp, hp']
    refine ⟨_, _, _, rfl, rfl, ?_, ?_, ?_, ?_, ?_⟩
    · simpa [Node.pend] using h.world
    · simpa [Node.pend] using h.entries
    · intro k
      show LifecycleEq ((n.put key after).modelData.get k) ((n'.put key after').modelData.get k)
      rw [Node.get_put, Node.get_put]
      split
      · exact hlife
      · exact h.lifecycle k
    · intro k hshows
      show (n.put key after).modelData.get k = (n'.put key after').modelData.get k
      rw [Node.get_put, Node.get_put]
      split
      · next hk =>
        subst hk
        apply heq
        by_contra hnot
        obtain ⟨hkeeps, hne⟩ := not_or.mp hnot
        refine hshows ⟨by simp [replaces, hkeeps], .inl ?_⟩
        by_contra hold
        exact hne (h.stored k hold)
      · next hk =>
        refine h.stored k fun hold => hshows ⟨?_, .inl hold⟩
        simp [replaces, Ne.symm hk]
    · intro a
      simp only [Node.pend, Node.put_calls]
      refine h.pend c ?_ a
      cases call with
      | extendSchema delta => simp [dropExtension, (hextend delta rfl).1]
      | _ => rfl

/-- Every other step is taken on both sides and answers alike. -/
theorem step {op : Op S Δ A} (h : Alike T tr n n') (hallowed : UnreadUntilReplaced T tr n op)
    (hs : stepNode spi applyFunc n op = some (r, m)) (hvisible : isExtension T op = false) :
    ∃ m', stepNode spi applyFunc n' (withoutExtension T n op) = some (r, m') ∧
      Alike T (⟨n, op, r, m⟩ :: tr) m m' := by
  cases op with
  | memory action =>
    obtain ⟨⟨result, world⟩, hw, heq⟩ := Option.map_eq_some_iff.mp hs
    cases heq
    refine ⟨{ n' with world }, ?_, h.frame (fun _ => rfl) rfl h.entries rfl rfl h.calls⟩
    simp [withoutExtension, stepNode, ← h.world, hw]
  | read key =>
    cases hs
    refine ⟨n', ?_, h.frame (fun _ => rfl) h.world h.entries rfl rfl h.calls⟩
    simp [withoutExtension, stepNode, h.stored key hallowed]
  | lookup c key now =>
    simp only [stepNode] at hs
    split at hs
    · cases hs
    · next hc =>
      have hcached : n.cached key now = n'.cached key now := by simp [Node.cached, h.entries]
      simp only [withoutExtension, stepNode, if_neg (h.free hc), ← hcached]
      split at hs
      · cases hs
        exact ⟨_, rfl, h.frame (fun _ => rfl) h.world h.entries rfl rfl h.calls⟩
      cases hs
      exact ⟨_, rfl, h.frame (fun _ => rfl) h.world h.entries rfl rfl (h.pend c rfl)⟩
  | refresh c key =>
    simp only [stepNode] at hs
    split at hs
    · cases hs
    · next hc =>
      cases hs
      simp only [withoutExtension, stepNode, if_neg (h.free hc)]
      exact ⟨_, rfl, h.frame (fun _ => rfl) h.world (congrArg (·.del key) h.entries) rfl rfl
        (h.pend c rfl)⟩
  | fetch c =>
    simp only [stepNode] at hs
    split at hs
    · next key hc =>
      have hc' : n'.calls.get c = some (.fetching key) := by rw [h.calls, hc]; rfl
      have hread := h.stored key (hallowed key hc)
      simp only [withoutExtension, stepNode, hc', Node.fetched, ← hread]
      simp only [Node.fetched] at hs
      split at hs
      · cases hs
        exact ⟨_, rfl, h.frame (fun _ => rfl) h.world h.entries rfl rfl (h.finish c)⟩
      · next desc hdesc =>
        split at hs
        · next hlocked =>
          cases hs
          rw [if_pos hlocked]
          exact ⟨_, rfl, h.frame (fun _ => rfl) h.world h.entries rfl rfl (h.pend c rfl)⟩
        · next hlocked =>
          cases hs
          rw [if_neg hlocked]
          exact ⟨_, rfl, h.frame (fun _ => rfl) h.world h.entries rfl rfl (h.finish c)⟩
    · cases hs
  | keep c expiresAt =>
    simp only [stepNode] at hs
    split at hs
    · next key desc hc =>
      cases hs
      have hc' : n'.calls.get c = some (.storing key desc) := by rw [h.calls, hc]; rfl
      simp only [withoutExtension, stepNode, hc']
      exact ⟨_, rfl, h.frame (fun _ => rfl) h.world
        (congrArg (·.set key (desc, expiresAt)) h.entries) rfl rfl (h.finish c)⟩
    · cases hs
  | mutate c tx key call =>
    have hget : call ≠ .get := by rintro rfl; cases hs
    rw [stepNode_mutate hget] at hs
    split at hs
    · cases hs
    · next hc =>
      have hextend : ∀ delta, call = .extendSchema delta →
          tx ≠ some T ∧ n.modelData.get key = n'.modelData.get key := by
        rintro delta rfl
        have htx : tx ≠ some T := of_decide_eq_false hvisible
        exact ⟨htx, h.stored key (hallowed htx)⟩
      obtain ⟨r', m1, m', hm, hm', halike⟩ := h.mutate hget hextend
      rw [hm] at hs
      cases hs
      refine ⟨m', ?_, halike⟩
      simp only [withoutExtension]
      rw [stepNode_mutate hget, if_neg (h.free hc), hm']
  | invalidate c =>
    simp only [stepNode] at hs
    split at hs
    · next key extension hc =>
      cases hs
      have hentries := congrArg (·.del key) h.entries
      by_cases hT : extension = some T
      · -- the other side has no such call, and evicts instead
        subst hT
        refine ⟨n'.evict key, by simp [withoutExtension, stepNode, hc],
          h.frame (fun _ => rfl) h.world hentries rfl rfl ?_⟩
        intro a
        show n'.calls.get a = dropExtension T ((n.calls.del c).get a)
        rw [GoMap.get_del, h.calls]
        split
        · next ha =>
          subst ha
          simp [hc, dropExtension]
        · rfl
      · have hc' : n'.calls.get c = some (.invalidating key extension) := by
          rw [h.calls, hc]
          exact if_neg hT
        refine ⟨(n'.evict key).finish c, ?_,
          h.frame (fun _ => rfl) h.world hentries rfl rfl (h.finish c)⟩
        simp [withoutExtension, stepNode, hc, hT, hc']
    · cases hs
  | evict key =>
    cases hs
    exact ⟨_, rfl, h.frame (fun _ => rfl) h.world (congrArg (·.del key) h.entries) rfl rfl
      h.calls⟩

end Alike

/-- Runs of a node in which the plugin cuts no list beyond its length. -/
abbrev NodeRun (spi : Memory.Spi) (applyFunc : Option (ApplyFunc S Δ E))
    (allowed : List (NodeEvent S Δ A E) → Node S A → Op S Δ A → Prop) :
    List (NodeEvent S Δ A E) → Node S A → Prop :=
  Run (stepNode spi applyFunc) (fun tr n op => n.cutsWithin op = true ∧ allowed tr n op) .init

theorem cutsWithin_withoutExtension {tr : List (NodeEvent S Δ A E)} {n n' : Node S A}
    (h : Alike T tr n n') {op : Op S Δ A} (hcuts : n.cutsWithin op = true) :
    n'.cutsWithin (withoutExtension T n op) = true := by
  cases op with
  | memory action => exact (congrArg (·.cutsWithin action) h.world).symm.trans hcuts
  | invalidate c =>
    rw [withoutExtension]
    repeat' split <;> try rfl
  | _ => rfl

/-- The same step, but for an extension's eviction, with the same answer. -/
def SameAnswer (ev ev' : NodeEvent S Δ A E) : Prop :=
  ev'.action = withoutExtension T ev.before ev.action ∧ ev'.result = ev.result

/-- A run in which `T` does not commit, and in which no schema that shows an extension of `T` is
read, goes on without the extensions of `T` as it goes on with them: every other call, each `Get`
among them, answers the same. -/
theorem extension_unseen (spi : Memory.Spi) (applyFunc : Option (ApplyFunc S Δ E)) (T : TxID)
    {tr : List (NodeEvent S Δ A E)} {n : Node S A}
    (hrun : NodeRun spi applyFunc (UnreadUntilReplaced T) tr n) :
    ∃ tr' n', NodeRun spi applyFunc AnyStep tr' n' ∧
      List.Forall₂ (SameAnswer T) (tr.filter fun ev => !isExtension T ev.action) tr' := by
  have hunwinding : TracedUnwinding (stepNode spi applyFunc)
      (fun tr n op => n.cutsWithin op = true ∧ UnreadUntilReplaced T tr n op)
      (fun tr n op => n.cutsWithin op = true ∧ AnyStep tr n op) .init
      (fun _ => isExtension T) (withoutExtension T) (SameAnswer T) (Alike (A := A) T) := by
    refine ⟨Alike.init, ?_, ?_⟩
    · intro tr s s' a r s1 halike _ hs hext
      exact halike.extension hs hext
    · intro tr s tr' s' a r s1 halike hallowed hs hvisible
      obtain ⟨m', hs', halike'⟩ := halike.step hallowed.2 hs hvisible
      exact ⟨⟨cutsWithin_withoutExtension T halike hallowed.1, trivial⟩, r, m', hs', halike',
        rfl, rfl⟩
  obtain ⟨tr', n', hrun', -, hsame⟩ := hunwinding.run hrun
  exact ⟨tr', n', hrun', hsame⟩

namespace Sample

abbrev Ops := Op (List Nat) Nat Unit

abbrev Record := List (NodeEvent (List Nat) Nat Unit Unit)

abbrev SampleRun (allowed : Record → Node (List Nat) Unit → Ops → Prop) :
    Record → Node (List Nat) Unit → Prop :=
  NodeRun Memory.Sample.spi (some addName) allowed

def anyOp (_ : Record) (n : Node (List Nat) Unit) (op : Ops) : Bool := n.cutsWithin op

def key : Key := ⟨"A", ⟨"order", "1"⟩⟩

instance decidableShowsExtension (T : TxID) (key : Key) :
    (tr : Record) → Decidable (ShowsExtension T key tr)
  | [] => .isFalse id
  | _ :: tr =>
    have := decidableShowsExtension T key tr
    inferInstanceAs (Decidable (_ ∧ (_ ∨ _)))

variable (tr : Record)

/-- A test for the condition on runs, for runs that read the store directly. -/
def unread (_ : Node (List Nat) Unit) : Ops → Bool
  | .memory (.commitFinish _ _) => false
  | .read key => ¬ ShowsExtension "t" key tr
  | .fetch _ => false
  | .mutate _ tx key (.extendSchema _) => tx = some "t" ∨ ¬ ShowsExtension "t" key tr
  | _ => true

theorem unread_allowed (n : Node (List Nat) Unit) (op : Ops)
    (h : (n.cutsWithin op && unread tr n op) = true) :
    n.cutsWithin op = true ∧ UnreadUntilReplaced "t" tr n op := by
  rw [Bool.and_eq_true] at h
  refine ⟨h.1, ?_⟩
  have hunread := h.2
  unfold UnreadUntilReplaced
  split
  · cases hunread
  · exact of_decide_eq_true hunread
  · cases hunread
  · exact (of_decide_eq_true hunread).resolve_left
  · trivial

/-- The schemas that direct reads returned, newest first. -/
def readSchemas : List (Option (List Nat)) :=
  tr.filterMap fun ev =>
    match ev.action, ev.result with
    | .read _, .answer (.ok (some desc)) => some desc.schema
    | _, _ => none

def rollsBack (ev : NodeEvent (List Nat) Nat Unit Unit) : Bool :=
  match ev.action, ev.result with
  | .memory (.rollbackFinish 9), .memory (.done (.ok _)) => true
  | _, _ => false

def savedAndLocked (c : CallID) (schema : List Nat) : List Ops :=
  [.mutate c none key (.save (model schema)), .invalidate c, .mutate c none key .lock,
    .invalidate c]

def extendsInTx (c : CallID) (name : Nat) : List Ops :=
  [.mutate c (some "t") key (.extendSchema (some name)), .invalidate c]

def begins : List Ops := [.memory (.manage (some "A") (.begin "t" 1))]

/-- A read, the rollback, and one more read. -/
def readAroundRollback : List Ops :=
  [.read key, .memory (.rollbackMark 9 (some "A") "t"), .memory (.rollbackFinish 9), .read key]

end Sample

open Sample in
/-- The extended schema is saved over before it is read. -/
theorem extension_unseen_replaced :
    ∃ tr n tr' n', SampleRun (UnreadUntilReplaced "t") tr n ∧ readSchemas tr = [some [7], some [7]] ∧
      SampleRun AnyStep tr' n' ∧
      List.Forall₂ (SameAnswer "t") (tr.filter fun ev => !isExtension "t" ev.action) tr' := by
  have hrun : ∃ tr n, SampleRun (UnreadUntilReplaced "t") tr n ∧
      decide (readSchemas tr = [some [7], some [7]]) = true :=
    exists_run_of_execute unread_allowed
      (savedAndLocked 0 [1] ++ begins ++ extendsInTx 1 2 ++ savedAndLocked 2 [7] ++
        readAroundRollback) (by decide)
  obtain ⟨tr, n, hrun, hreads⟩ := hrun
  obtain ⟨tr', n', hrun', hsame⟩ := extension_unseen Memory.Sample.spi (some addName) "t" hrun
  exact ⟨tr, n, tr', n', hrun, of_decide_eq_true hreads, hrun', hsame⟩

open Sample in
/-- A read before the transaction ends and one after its rollback both see its extension. -/
theorem rolled_back_extension_seen :
    ∃ tr n tr' n', SampleRun AnyStep tr n ∧
      tr.map (·.action) =
        (savedAndLocked 0 [1] ++ begins ++ extendsInTx 1 2 ++ readAroundRollback).reverse ∧
      (∃ ev ∈ tr, rollsBack ev = true) ∧ readSchemas tr = [some [1, 2], some [1, 2]] ∧
      SampleRun AnyStep tr' n' ∧
      tr'.map (·.action) = (savedAndLocked 0 [1] ++ begins ++ readAroundRollback).reverse ∧
      readSchemas tr' = [some [1], some [1]] := by
  have hwith : ∃ tr n, SampleRun AnyStep tr n ∧
      tr.map (·.action) =
        (savedAndLocked 0 [1] ++ begins ++ extendsInTx 1 2 ++ readAroundRollback).reverse ∧
      (tr.any rollsBack && readSchemas tr = [some [1, 2], some [1, 2]]) = true :=
    exists_actions_of_execute (fun tr n op (h : anyOp tr n op = true) => ⟨h, trivial⟩) _ (by decide)
  have hwithout : ∃ tr n, SampleRun AnyStep tr n ∧
      tr.map (·.action) = (savedAndLocked 0 [1] ++ begins ++ readAroundRollback).reverse ∧
      decide (readSchemas tr = [some [1], some [1]]) = true :=
    exists_actions_of_execute (fun tr n op (h : anyOp tr n op = true) => ⟨h, trivial⟩) _ (by decide)
  obtain ⟨tr, n, hrun, hactions, hcheck⟩ := hwith
  obtain ⟨tr', n', hrun', hactions', hcheck'⟩ := hwithout
  rw [Bool.and_eq_true, List.any_eq_true, decide_eq_true_eq] at hcheck
  exact ⟨tr, n, tr', n', hrun, hactions, hcheck.1, hcheck.2, hrun', hactions',
    of_decide_eq_true hcheck'⟩

end CyodaGo.Models
