import CyodaGo.Model.Auth.TrustedKeys
import CyodaGo.Shared.Checked
import CyodaGo.Shared.Joined
import CyodaGo.Shared.Run

/-! # The trusted-key cache

While no mutation holds the mutex, the cache is exactly what the backend holds. -/

namespace CyodaGo.Auth

variable {P : Type}

/-! ## Backend keys -/

theorem trustedKeyKey_inj {t t' : TenantID} {kid kid' : KID}
    (h : trustedKeyKey t kid = trustedKeyKey t' kid') : t = t' ∧ kid = kid' := by
  have hchars : t.toList ++ ':' :: kid.name.toList = t'.toList ++ ':' :: kid'.name.toList := by
    simpa [trustedKeyKey] using congrArg String.toList h
  obtain ⟨ht, hkid⟩ := List.append_cons_inj_of_notMem_right kid.plain kid'.plain hchars
  refine ⟨String.toList_inj.mp ht, ?_⟩
  cases kid
  cases kid'
  simpa using String.toList_inj.mp hkid

theorem contains_trustedKeyKey (t : TenantID) (kid : KID) :
    (trustedKeyKey t kid).toList.contains ':' = true := by
  simp [trustedKeyKey]

/-! ## Coherence -/

/-- Every record stands under its own key and has a tenant, and no two have one key id. -/
structure WellFormed (kv : GoMap String (TrustedKey P)) : Prop where
  own : ∀ k tk, kv.get k = some tk → k = trustedKeyKey tk.tenantID tk.kid ∧ tk.tenantID ≠ ""
  unique : ∀ k k' tk tk', kv.get k = some tk → kv.get k' = some tk' → tk.kid = tk'.kid → tk = tk'

/-- The cache holds exactly the records of the backend. -/
structure Coherent (kv : GoMap String (TrustedKey P)) (keys : GoMap KID (TrustedKey P)) :
    Prop where
  own : ∀ k tk, kv.get k = some tk → k = trustedKeyKey tk.tenantID tk.kid ∧ tk.tenantID ≠ ""
  shown : ∀ kid tk, keys.get kid = some tk ↔
    tk.kid = kid ∧ kv.get (trustedKeyKey tk.tenantID kid) = some tk

namespace Coherent

variable {kv : GoMap String (TrustedKey P)} {keys keys' : GoMap KID (TrustedKey P)}

theorem get_kid (h : Coherent kv keys) {k : String} {tk : TrustedKey P}
    (hk : kv.get k = some tk) : keys.get tk.kid = some tk := by
  rw [h.shown]
  exact ⟨rfl, (h.own k tk hk).1 ▸ hk⟩

theorem wellFormed (h : Coherent kv keys) : WellFormed kv := by
  refine ⟨h.own, ?_⟩
  intro k k' tk tk' hk hk' hkid
  have hget := h.get_kid hk
  rw [hkid, h.get_kid hk'] at hget
  exact (Option.some.inj hget).symm

theorem congr (h : Coherent kv keys) (heq : ∀ kid, keys'.get kid = keys.get kid) :
    Coherent kv keys' := by
  refine ⟨h.own, ?_⟩
  intro kid tk
  rw [heq]
  exact h.shown kid tk

/-- The record that the backend holds for a tenant's key is that tenant's. -/
theorem eq_of_get (h : Coherent kv keys) {t : TenantID} {kid : KID} {tk : TrustedKey P}
    (hk : kv.get (trustedKeyKey t kid) = some tk) : tk.tenantID = t ∧ tk.kid = kid := by
  obtain ⟨ht, hkid⟩ := trustedKeyKey_inj (h.own _ tk hk).1
  exact ⟨ht.symm, hkid.symm⟩

end Coherent

/-! ### Listing the backend -/

variable {kv : GoMap String (TrustedKey P)} {n : KeyNode P} {s : KVTrustedKeyStore P} {w : Write P}
  {tk : TrustedKey P} {now : Int} {tenantID : TenantID}

open GoMap

theorem buildTrustedKeyMap_eq (h : WellFormed kv) (order : List String) :
    buildTrustedKeyMap kv order =
      (kv.inOrder order).foldl (fun keys entry => keys.set entry.2.kid entry.2) ∅ := by
  unfold buildTrustedKeyMap
  have hentries : ∀ entry ∈ kv.inOrder order,
      entry.1.toList.contains ':' = true ∧ entry.2.tenantID ≠ "" := by
    intro entry hentry
    obtain ⟨-, hget⟩ := mem_inOrder.mp hentry
    obtain ⟨hkey, htenant⟩ := h.own _ _ hget
    exact ⟨hkey ▸ contains_trustedKeyKey _ _, htenant⟩
  generalize (∅ : GoMap KID (TrustedKey P)) = keys
  generalize kv.inOrder order = entries at hentries
  induction entries generalizing keys with
  | nil => rfl
  | cons entry entries ih =>
    obtain ⟨hcolon, htenant⟩ := hentries entry List.mem_cons_self
    rw [List.foldl_cons, List.foldl_cons, if_neg (not_not.mpr hcolon), if_neg htenant]
    exact ih _ fun e he => hentries e (List.mem_cons_of_mem _ he)

theorem coherent_build (h : WellFormed kv) {order : List String} (horder : order.Perm kv.keys) :
    Coherent kv (buildTrustedKeyMap kv order) := by
  have hmem : ∀ k tk, kv.get k = some tk → (k, tk) ∈ kv.inOrder order := fun k tk hk =>
    mem_inOrder.mpr ⟨horder.mem_iff.mpr (mem_keys_of_get hk), hk⟩
  have hnodup : ((kv.inOrder order).map (fun entry => entry.2.kid)).Nodup := by
    have hkeys : ((kv.inOrder order).map Prod.fst).Nodup := by
      rw [map_fst_inOrder fun k hk => horder.mem_iff.mp hk]
      exact horder.nodup_iff.mpr kv.keys_nodup
    refine hkeys.of_map _ |>.map_on ?_
    rintro ⟨k, tk⟩ hentry ⟨k', tk'⟩ hentry' hkid
    obtain ⟨-, hk⟩ := mem_inOrder.mp hentry
    obtain ⟨-, hk'⟩ := mem_inOrder.mp hentry'
    obtain rfl := h.unique k k' tk tk' hk hk' hkid
    rw [(h.own k tk hk).1, (h.own k' tk hk').1]
  refine ⟨h.own, ?_⟩
  intro kid tk
  rw [buildTrustedKeyMap_eq h]
  constructor
  · intro hget
    by_cases hkid : kid ∈ (kv.inOrder order).map (fun entry => entry.2.kid)
    · obtain ⟨entry, hentry, rfl⟩ := List.mem_map.mp hkid
      rw [get_foldl_set_of_mem (fun entry => entry.2.kid) (fun entry => entry.2) hnodup _
        hentry] at hget
      cases hget
      obtain ⟨-, hk⟩ := mem_inOrder.mp hentry
      exact ⟨rfl, (h.own _ _ hk).1 ▸ hk⟩
    · rw [get_foldl_set_of_notMem (fun entry : String × TrustedKey P => entry.2.kid)
        (fun entry => entry.2) _ _ hkid] at hget
      cases hget
  · rintro ⟨rfl, hk⟩
    exact get_foldl_set_of_mem (fun entry => entry.2.kid) (fun entry => entry.2) hnodup _
      (hmem _ _ hk)

/-! ### Writing a key -/

/-- The write is for a tenant's own key, and no other tenant has one with that id. -/
structure Write.Fits (w : Write P) (keys : GoMap KID (TrustedKey P)) : Prop where
  value : ∀ tk, w.value = some tk → tk.tenantID = w.tenantID ∧ tk.kid = w.kid ∧ w.tenantID ≠ ""
  owner : ∀ tk, keys.get w.kid = some tk → tk.tenantID = w.tenantID

theorem KVTrustedKeyStore.get_put (s : KVTrustedKeyStore P) (kid : KID)
    (value : Option (TrustedKey P)) (a : KID) :
    (s.put kid value).keys.get a = if a = kid then value else s.keys.get a := by
  cases value with
  | none => exact get_del _ _ _
  | some tk => exact get_set _ _ _ _

theorem KeyNode.get_kvPut (n : KeyNode P) (key : String) (value : Option (TrustedKey P))
    (k : String) : (n.kvPut key value).kv.get k = if k = key then value else n.kv.get k := by
  cases value with
  | none => exact get_del _ _ _
  | some tk => exact get_set _ _ _ _

open KVTrustedKeyStore

/-- Writing a key to the backend and to the cache keeps them coherent. -/
theorem Coherent.write (h : Coherent n.kv s.keys) (hw : w.Fits s.keys) :
    Coherent (n.kvPut (trustedKeyKey w.tenantID w.kid) w.value).kv
      (s.put w.kid w.value).keys := by
  constructor
  · intro k tk hk
    rw [KeyNode.get_kvPut] at hk
    split at hk
    · next heq =>
      obtain ⟨htenant, hkid, hne⟩ := hw.value tk hk
      rw [heq, htenant, hkid]
      exact ⟨rfl, hne⟩
    · exact h.own k tk hk
  · intro kid tk
    rw [get_put, KeyNode.get_kvPut]
    by_cases hkid : kid = w.kid
    · subst hkid
      rw [if_pos rfl]
      by_cases htenant : tk.tenantID = w.tenantID
      · rw [htenant, if_pos rfl]
        constructor
        · intro hvalue
          exact ⟨(hw.value tk hvalue).2.1, hvalue⟩
        · exact fun hvalue => hvalue.2
      · -- another tenant's record of this id would already be in the cache
        rw [if_neg fun heq => htenant (trustedKeyKey_inj heq).1]
        constructor
        · intro hvalue
          exact absurd (hw.value tk hvalue).1 htenant
        · intro hold
          exact absurd (hw.owner tk ((h.shown _ tk).mpr hold)) htenant
    · rw [if_neg hkid, if_neg fun heq => hkid (trustedKeyKey_inj heq).2]
      exact h.shown kid tk

/-! ### Checks -/

theorem checkRegister_owner {existing : TrustedKey P} (h : s.checkRegister tk now = .ok ())
    (hget : s.keys.get tk.kid = some existing) :
    existing.tenantID = tk.tenantID := by
  unfold checkRegister at h
  split at h
  · cases h
  · next howner => simpa [hget] using howner

theorem owned_eq_ok {kid : KID} (h : s.owned tenantID kid = .ok tk) :
    s.keys.get kid = some tk ∧ tk.tenantID = tenantID := by
  unfold owned at h
  split at h
  · cases h
  · next found hget =>
    split at h
    · cases h
    · next howner =>
      cases h
      exact ⟨hget, not_not.mp howner⟩

theorem owned_owner {kid : KID} (h : s.owned tenantID kid = .ok tk) :
    ∀ tk', s.keys.get kid = some tk' → tk'.tenantID = tenantID := by
  intro tk' hget
  obtain ⟨hown, howner⟩ := owned_eq_ok h
  rw [hown] at hget
  rw [← Option.some.inj hget, howner]

theorem Coherent.owned (h : Coherent kv s.keys) {kid : KID} (hok : s.owned tenantID kid = .ok tk) :
    tk.tenantID = tenantID ∧ tk.kid = kid ∧ tenantID ≠ "" := by
  obtain ⟨hget, howner⟩ := owned_eq_ok hok
  obtain ⟨hkid, hkv⟩ := (h.shown kid tk).mp hget
  exact ⟨howner, hkid, howner ▸ (h.own _ tk hkv).2⟩

/-- The parts of a key that only a registration sets. -/
def TrustedKey.material (tk : TrustedKey P) : KID × TenantID × P × List String :=
  (tk.kid, tk.tenantID, tk.publicKey, tk.issuers)

/-- A mutation that passes its checks registers a key, or changes or deletes one that the tenant
owns. -/
theorem prepare_cases {m : Mutation P} (h : s.prepare now m = .ok w) :
    (∃ tk opts, m = .register tk opts ∧ s.checkRegister tk now = .ok () ∧
      w.tenantID = tk.tenantID ∧ w.kid = tk.kid ∧ w.value = some tk) ∨
    ∃ tk, s.owned w.tenantID w.kid = .ok tk ∧
      ∀ value, w.value = some value → value.material = tk.material := by
  cases m with
  | register tk opts =>
    obtain ⟨u, hcheck, hw⟩ := Checked.bind_eq_ok.mp h
    cases hw
    exact .inl ⟨tk, opts, rfl, hcheck, rfl, rfl, rfl⟩
  | delete tenantID kid =>
    obtain ⟨tk, howned, hw⟩ := Checked.bind_eq_ok.mp h
    cases hw
    exact .inr ⟨tk, howned, fun value hvalue => by cases hvalue⟩
  | invalidate tenantID kid gracePeriodSec =>
    obtain ⟨tk, howned, hw⟩ := Checked.bind_eq_ok.mp h
    cases hw
    exact .inr ⟨tk, howned, fun value hvalue => by cases hvalue; rfl⟩
  | reactivate tenantID kid validFrom validTo =>
    simp only [prepare] at h
    split at h
    · cases h
    split at h
    · cases h
    split at h
    · cases h
    obtain ⟨tk, howned, hw⟩ := Checked.bind_eq_ok.mp h
    cases hw
    exact .inr ⟨tk, howned, fun value hvalue => by cases hvalue; rfl⟩

/-- A mutation that passes its checks writes its own tenant's key. -/
theorem prepare_fits (h : Coherent kv s.keys) {m : Mutation P}
    (hm : ∀ tk opts, m = .register tk opts → tk.tenantID ≠ "") (hok : s.prepare now m = .ok w) :
    w.Fits s.keys := by
  rcases prepare_cases hok with ⟨tk, opts, rfl, hcheck, htenant, hkid, hvalue⟩ | ⟨tk, howned, hvalue⟩
  · refine ⟨?_, ?_⟩
    · intro value hvalue'
      cases hvalue.symm.trans hvalue'
      exact ⟨htenant.symm, hkid.symm, htenant ▸ hm tk opts rfl⟩
    · intro existing hexisting
      rw [htenant]
      exact checkRegister_owner hcheck (hkid ▸ hexisting)
  · obtain ⟨howner, hown, hne⟩ := h.owned howned
    refine ⟨?_, owned_owner howned⟩
    intro value hvalue'
    have hmaterial := hvalue value hvalue'
    simp only [TrustedKey.material, Prod.mk.injEq] at hmaterial
    exact ⟨hmaterial.2.1.trans howner, hmaterial.1.trans hown, hne⟩

/-! ## Nodes -/

/-- The phases in which a call holds the store's mutex. -/
def KeyCall.locks : KeyCall P → Bool
  | .writing _ => true
  | .committing _ => true
  | .rotating _ _ => true
  | .rotated _ _ _ _ => true
  | _ => false

namespace KeyNode

/-- The call that holds the mutex. -/
def holder (n : KeyNode P) : Option (KeyCall P) := n.mu.bind n.calls.get

/-- The cache after the commit that the backend is ahead by. -/
def intended (n : KeyNode P) : KVTrustedKeyStore P :=
  match n.holder with
  | some (.committing w) => n.store.put w.kid w.value
  | some (.rotated _ kid sibling _) => n.store.put kid (some sibling)
  | _ => n.store

/-- The backend is ahead by a commit that will advance the generation. -/
def ahead (n : KeyNode P) : Bool :=
  match n.holder with
  | some (.committing _) => true
  | _ => false

end KeyNode

open KeyNode

/-- What is known of a call. A snapshot is good as long as the generation stands and the backend
is not ahead. -/
def KeyCall.Sound (n : KeyNode P) : KeyCall P → Prop
  | .writing w => w.Fits n.store.keys
  | .installing tenantID kid tk =>
    tk.tenantID = tenantID ∧ n.kv.get (trustedKeyKey tenantID kid) = some tk
  | .listing _ gen => gen ≤ n.store.gen
  | .swapping _ gen fresh =>
    gen ≤ n.store.gen ∧ (n.store.gen = gen → n.ahead = false → Coherent n.kv fresh)
  | _ => True

structure NodeInv (n : KeyNode P) : Prop where
  coherent : Coherent n.kv n.intended.keys
  held : ∀ c, n.mu = some c → ∃ call, n.calls.get c = some call ∧ call.locks = true
  exclusive : ∀ c call, n.calls.get c = some call → call.locks = true → n.mu = some c
  sound : ∀ c call, n.calls.get c = some call → call.Sound n

/-- The calls that may not see a write of this backend key: a read-through that has read it, and
for a sibling also a reconcile whose snapshot would be swapped in. -/
def Undisturbed (n : KeyNode P) (key : String) : Prop :=
  ∀ c tenantID kid tk, n.calls.get c = some (.installing tenantID kid tk) →
    trustedKeyKey tenantID kid ≠ key

def NoSnapshot (n : KeyNode P) : Prop :=
  ∀ c attempt gen fresh, n.calls.get c = some (.swapping attempt gen fresh) → n.store.gen ≠ gen

/-- Tenants have ids, no key is written between the read of a read-through and its install, and
no sibling is written between the listing and the swap of a reconcile. -/
def NoRace (_ : List (Event (KeyNode P) (KeyOp P) (KeyReply P))) (n : KeyNode P) : KeyOp P → Prop
  | .mutate _ (.register tk _) _ => tk.tenantID ≠ ""
  | .write c => ∀ w, n.calls.get c = some (.writing w) →
      Undisturbed n (trustedKeyKey w.tenantID w.kid)
  | .writeSibling c => ∀ validTo kid rest k, n.calls.get c = some (.rotating validTo (kid :: rest)) →
      n.store.keys.get kid = some k →
      Undisturbed n (trustedKeyKey k.tenantID k.kid) ∧ NoSnapshot n
  | _ => True

namespace NodeInv

variable {n : KeyNode P}

/-- While nobody holds the mutex, the cache is what the backend holds. -/
theorem coherent_of_free (h : NodeInv n) (hmu : n.mu = none) : Coherent n.kv n.store.keys := by
  have hholder : n.holder = none := by simp [KeyNode.holder, hmu]
  have hcoherent := h.coherent
  rwa [KeyNode.intended, hholder] at hcoherent

theorem ahead_of_free (hmu : n.mu = none) : n.ahead = false := by
  simp [KeyNode.ahead, KeyNode.holder, hmu]

variable {c : CallID} {call : KeyCall P} {n' : KeyNode P} {w : Write P}
  {tr : List (Event (KeyNode P) (KeyOp P) (KeyReply P))} {kv : GoMap String (TrustedKey P)}

theorem not_locks_of_free (h : NodeInv n) (hmu : n.mu = none) (hc : n.calls.get c = some call) :
    call.locks = false := by
  cases hlocks : call.locks with
  | false => rfl
  | true =>
    cases (h.exclusive c call hc hlocks).symm.trans hmu

/-- The holder is the only call in a locking phase. -/
theorem eq_of_locks (h : NodeInv n) {a : CallID} {other : KeyCall P}
    (hc : n.calls.get c = some call) (hlocks : call.locks = true) (ha : n.calls.get a = some other)
    (hother : other.locks = true) : a = c := by
  have hmu := h.exclusive c call hc hlocks
  rw [h.exclusive a other ha hother] at hmu
  exact Option.some.inj hmu

theorem holder_eq (h : NodeInv n) (hc : n.calls.get c = some call) (hlocks : call.locks = true) :
    n.holder = some call := by
  rw [KeyNode.holder, h.exclusive c call hc hlocks, Option.bind_some, hc]

/-! ### Frames -/

theorem sound_congr (h : call.Sound n) (hkv : n'.kv = n.kv)
    (hgen : n'.store.gen = n.store.gen) (hahead : n'.ahead = n.ahead)
    (hkeys : call.locks = true → n'.store.keys = n.store.keys) : call.Sound n' := by
  cases call with
  | writing w =>
    show w.Fits n'.store.keys
    rw [hkeys rfl]
    exact h
  | _ => simp only [KeyCall.Sound, hkv, hgen, hahead] at h ⊢ <;> exact h

/-- A step of a call that does not hold the mutex, and leaves backend and cache alone. -/
theorem frame (h : NodeInv n) (hkv : n'.kv = n.kv) (hstore : n'.store = n.store)
    (hmu : n'.mu = n.mu)
    (hkept : ∀ a call, n.calls.get a = some call → call.locks = true → n'.calls.get a = some call)
    (hnew : ∀ a call, n'.calls.get a = some call →
      n.calls.get a = some call ∨ call.locks = false ∧ call.Sound n) : NodeInv n' := by
  have hholder : n'.holder = n.holder := by
    rw [KeyNode.holder, KeyNode.holder, hmu]
    cases hlock : n.mu with
    | none => rfl
    | some c =>
      obtain ⟨call, hcall, hlocks⟩ := h.held c hlock
      rw [Option.bind_some, Option.bind_some, hkept c call hcall hlocks, hcall]
  have hahead : n'.ahead = n.ahead := by rw [KeyNode.ahead, KeyNode.ahead, hholder]
  refine ⟨?_, ?_, ?_, ?_⟩
  · rw [hkv, KeyNode.intended, hholder, hstore]
    exact h.coherent
  · intro c hc
    obtain ⟨call, hcall, hlocks⟩ := h.held c (hmu ▸ hc)
    exact ⟨call, hkept c call hcall hlocks, hlocks⟩
  · intro c call hcall hlocks
    rw [hmu]
    rcases hnew c call hcall with hold | ⟨hfree, -⟩
    · exact h.exclusive c call hold hlocks
    cases hfree.symm.trans hlocks
  · intro c call hcall
    rcases hnew c call hcall with hold | ⟨-, hsound⟩
    · exact sound_congr (h.sound c call hold) hkv (hstore ▸ rfl) hahead fun _ => hstore ▸ rfl
    · exact sound_congr hsound hkv (hstore ▸ rfl) hahead fun _ => hstore ▸ rfl

/-- A step of the call that holds the mutex, to its next phase or to its end. -/
theorem turn (h : NodeInv n) (hc : n.calls.get c = some call) (hlocks : call.locks = true)
    (next : Option (KeyCall P))
    (hcalls : ∀ a, n'.calls.get a = if a = c then next else n.calls.get a)
    (hmu : n'.mu = next.map fun _ => c)
    (hnext : ∀ call', next = some call' → call'.locks = true ∧ call'.Sound n')
    (hcoherent : Coherent n'.kv n'.intended.keys)
    (hothers : ∀ a other, n.calls.get a = some other → other.locks = false → other.Sound n') :
    NodeInv n' := by
  refine ⟨hcoherent, ?_, ?_, ?_⟩
  · intro a ha
    rw [hmu] at ha
    obtain ⟨call', hcall', rfl⟩ := Option.map_eq_some_iff.mp ha
    exact ⟨call', by rw [hcalls, if_pos rfl, hcall'], (hnext call' hcall').1⟩
  · intro a other ha hother
    rw [hcalls] at ha
    split at ha
    · next heq =>
      rw [hmu, ha, heq]
      rfl
    · next hne => exact absurd (h.eq_of_locks hc hlocks ha hother) hne
  · intro a other ha
    rw [hcalls] at ha
    split at ha
    · exact (hnext other ha).2
    · next hne =>
      cases hother : other.locks with
      | false => exact hothers a other ha hother
      | true => exact absurd (h.eq_of_locks hc hlocks ha hother) hne

/-- With the mutex free there are only calls outside it. -/
theorem of_free (hmu : n'.mu = none) (hcoherent : Coherent n'.kv n'.store.keys)
    (hcalls : ∀ a call, n'.calls.get a = some call → call.locks = false ∧ call.Sound n') :
    NodeInv n' := by
  refine ⟨?_, ?_, ?_, ?_⟩
  · have hholder : n'.holder = none := by simp [KeyNode.holder, hmu]
    rwa [KeyNode.intended, hholder]
  · intro c hc
    cases hmu.symm.trans hc
  · intro c call hcall hlocks
    cases ((hcalls c call hcall).1).symm.trans hlocks
  · intro c call hcall
    exact (hcalls c call hcall).2

/-! ### Calls outside the mutex -/

/-- A call outside the mutex goes on to another phase outside it. -/
theorem pend (h : NodeInv n) (hc : ∀ old, n.calls.get c = some old → old.locks = false)
    (hfree : call.locks = false) (hsound : call.Sound n) : NodeInv (n.pend c call) := by
  refine h.frame rfl rfl rfl ?_ ?_
  · intro a old ha hlocks
    have hne : a ≠ c := by
      rintro rfl
      cases (hc old ha).symm.trans hlocks
    exact (get_set_of_ne _ _ hne).trans ha
  · intro a new ha
    rw [KeyNode.pend, get_set] at ha
    split at ha
    · cases ha
      exact .inr ⟨hfree, hsound⟩
    · exact .inl ha

theorem finish (h : NodeInv n) (hc : ∀ old, n.calls.get c = some old → old.locks = false) :
    NodeInv (n.finish c) := by
  refine h.frame rfl rfl rfl ?_ ?_
  · intro a old ha hlocks
    have hne : a ≠ c := by
      rintro rfl
      cases (hc old ha).symm.trans hlocks
    exact (get_del_of_ne _ hne).trans ha
  · intro a new ha
    rw [KeyNode.finish, get_del] at ha
    split at ha
    · cases ha
    · exact .inl ha

theorem setReconcileMu (h : NodeInv n) (holder : Option CallID) :
    NodeInv { n with reconcileMu := holder } :=
  h.frame rfl rfl rfl (fun _ _ ha _ => ha) (fun _ _ ha => .inl ha)

theorem unlocked_of_get (hc : n.calls.get c = some call) (hfree : call.locks = false) :
    ∀ old, n.calls.get c = some old → old.locks = false := by
  intro old hold
  rw [hc] at hold
  rw [← Option.some.inj hold, hfree]

theorem unlocked_of_notMem (hc : c ∉ n.calls.keys) :
    ∀ old, n.calls.get c = some old → old.locks = false :=
  fun _ hold => absurd (mem_keys_of_get hold) hc

/-! ### Cache updates with the mutex free -/

/-- A cache update that advances the generation leaves every listing outdated. -/
theorem sound_of_gen_lt (h : call.Sound n) (hfree : call.locks = false) (hkv : n'.kv = n.kv)
    (hgen : n.store.gen < n'.store.gen) :
    call.Sound n' := by
  cases call with
  | installing tenantID kid tk =>
    simp only [KeyCall.Sound, hkv] at h ⊢
    exact h
  | listing attempt gen =>
    simp only [KeyCall.Sound] at h ⊢
    omega
  | swapping attempt gen fresh =>
    simp only [KeyCall.Sound] at h ⊢
    exact ⟨by omega, fun heq => absurd heq (by omega)⟩
  | writing w => cases hfree
  | _ => trivial

/-- The record that a read-through installs is already in the cache. -/
theorem install {tenantID : TenantID} {kid : KID} {tk : TrustedKey P} (h : NodeInv n)
    (hc : n.calls.get c = some (.installing tenantID kid tk)) (hmu : n.mu = none) :
    NodeInv ({ n with store := (n.store.put kid (some tk)).advance }.pend c
      (.rereading tenantID kid)) := by
  have hcoherent := h.coherent_of_free hmu
  obtain ⟨rfl, hkv⟩ := h.sound c _ hc
  have hkid := (hcoherent.eq_of_get hkv).2
  have hcached : n.store.keys.get kid = some tk := (hcoherent.shown kid tk).mpr ⟨hkid, hkv⟩
  refine of_free hmu (hcoherent.congr fun a => ?_) ?_
  · show (n.store.put kid (some tk)).keys.get a = _
    rw [get_put]
    split
    · next heq => rw [heq, hcached]
    · rfl
  · intro a call ha
    rw [KeyNode.pend, get_set] at ha
    split at ha
    · cases ha
      exact ⟨rfl, trivial⟩
    have hfree := h.not_locks_of_free hmu ha
    exact ⟨hfree, sound_of_gen_lt (h.sound a call ha) hfree rfl (Nat.lt_succ_self _)⟩

theorem swap {attempt : Nat} {fresh : GoMap KID (TrustedKey P)} (h : NodeInv n)
    (hc : n.calls.get c = some (.swapping attempt n.store.gen fresh)) (hmu : n.mu = none) :
    NodeInv ({ n with store := { n.store with keys := fresh }.advance }.unlockReconcile c) := by
  obtain ⟨-, hfresh⟩ := h.sound c _ hc
  refine of_free hmu (hfresh rfl (ahead_of_free hmu)) ?_
  intro a call ha
  have hold : n.calls.get a = some call := by
    simp only [unlockReconcile, KeyNode.finish, get_del] at ha
    split at ha
    · cases ha
    · exact ha
  have hfree := h.not_locks_of_free hmu hold
  exact ⟨hfree, sound_of_gen_lt (h.sound a call hold) hfree rfl (Nat.lt_succ_self _)⟩

/-! ### Mutations -/

theorem mutate (h : NodeInv n) (hmu : n.mu = none) (hw : w.Fits n.store.keys) :
    NodeInv { n.pend c (.writing w) with mu := some c } := by
  have hholder : KeyNode.holder { n.pend c (.writing w) with mu := some c } = some (.writing w) := by
    simp [KeyNode.holder, KeyNode.pend]
  have hget : ∀ a, (n.pend c (.writing w)).calls.get a =
      if a = c then some (.writing w) else n.calls.get a := fun a => get_set _ _ _ _
  refine ⟨?_, ?_, ?_, ?_⟩
  · rw [KeyNode.intended, hholder]
    exact h.coherent_of_free hmu
  · rintro a ha
    cases ha
    exact ⟨.writing w, by simp [hget], rfl⟩
  · intro a call ha hlocks
    rw [hget] at ha
    split at ha
    · next heq => rw [heq]
    cases (h.not_locks_of_free hmu ha).symm.trans hlocks
  · intro a call ha
    rw [hget] at ha
    split at ha
    · cases ha
      exact hw
    refine sound_congr (h.sound a call ha) rfl rfl ?_ fun _ => rfl
    rw [ahead_of_free hmu, KeyNode.ahead, hholder]

/-- A backend write leaves what other calls know, if none of them read that key and every
snapshot is outdated or about to be. -/
theorem sound_kvPut {key : String} {value : Option (TrustedKey P)} {a : CallID} (h : NodeInv n)
    (ha : n.calls.get a = some call) (hfree : call.locks = false)
    (hkv : n'.kv = (n.kvPut key value).kv) (hstore : n'.store = n.store)
    (hundisturbed : Undisturbed n key) (hsnapshot : n'.ahead = true ∨ NoSnapshot n) :
    call.Sound n' := by
  have hsound := h.sound a call ha
  cases call with
  | installing tenantID kid tk =>
    simp only [KeyCall.Sound] at hsound ⊢
    rw [hkv, get_kvPut, if_neg (hundisturbed a tenantID kid tk ha)]
    exact hsound
  | listing attempt gen =>
    simp only [KeyCall.Sound, hstore] at hsound ⊢
    exact hsound
  | swapping attempt gen fresh =>
    simp only [KeyCall.Sound, hstore] at hsound ⊢
    refine ⟨hsound.1, fun hgen hahead => ?_⟩
    rcases hsnapshot with htrue | hnone
    · cases htrue.symm.trans hahead
    · exact absurd hgen (hnone a attempt gen fresh ha)
  | writing w => cases hfree
  | _ => trivial

theorem write (h : NodeInv n) (hc : n.calls.get c = some (.writing w))
    (hundisturbed : Undisturbed n (trustedKeyKey w.tenantID w.kid)) :
    NodeInv ((n.kvPut (trustedKeyKey w.tenantID w.kid) w.value).pend c (.committing w)) := by
  have hmu := h.exclusive c _ hc rfl
  have hcoherent : Coherent n.kv n.store.keys := by
    simpa only [KeyNode.intended, h.holder_eq hc rfl] using h.coherent
  have hn' : ∀ value, (n.kvPut (trustedKeyKey w.tenantID w.kid) value).store = n.store ∧
      (n.kvPut (trustedKeyKey w.tenantID w.kid) value).calls = n.calls ∧
      (n.kvPut (trustedKeyKey w.tenantID w.kid) value).mu = n.mu := by
    intro value
    cases value <;> exact ⟨rfl, rfl, rfl⟩
  obtain ⟨hstore, hcalls, hmu'⟩ := hn' w.value
  have hholder : KeyNode.holder ((n.kvPut (trustedKeyKey w.tenantID w.kid) w.value).pend c
      (.committing w)) = some (.committing w) := by
    simp [KeyNode.holder, KeyNode.pend, hmu', hmu]
  refine h.turn hc rfl (some (.committing w)) ?_ ?_ ?_ ?_ ?_
  · intro a
    rw [KeyNode.pend, get_set, hcalls]
  · exact hmu'.trans hmu
  · rintro call' hcall'
    cases hcall'
    exact ⟨rfl, trivial⟩
  · rw [KeyNode.intended, hholder]
    show Coherent (n.kvPut _ w.value).kv ((n.kvPut _ w.value).store.put w.kid w.value).keys
    rw [hstore]
    exact hcoherent.write (h.sound c _ hc)
  · intro a other ha hfree
    refine h.sound_kvPut ha hfree rfl hstore hundisturbed (.inl ?_)
    rw [KeyNode.ahead, hholder]

theorem writeSibling {validTo : Int} {kid : KID} {rest : List KID} {k : TrustedKey P}
    (h : NodeInv n) (hc : n.calls.get c = some (.rotating validTo (kid :: rest)))
    (hk : n.store.keys.get kid = some k)
    (hundisturbed : Undisturbed n (trustedKeyKey k.tenantID k.kid)) (hsnapshot : NoSnapshot n) :
    NodeInv ((n.kvPut (trustedKeyKey k.tenantID k.kid) (some (k.invalidated validTo))).pend c
      (.rotated validTo kid (k.invalidated validTo) rest)) := by
  have hmu := h.exclusive c _ hc rfl
  have hcoherent : Coherent n.kv n.store.keys := by
    simpa only [KeyNode.intended, h.holder_eq hc rfl] using h.coherent
  obtain ⟨rfl, hkv⟩ := (hcoherent.shown kid k).mp hk
  have hfits : Write.Fits ⟨k.tenantID, k.kid, some (k.invalidated validTo), none⟩ n.store.keys := by
    refine ⟨?_, ?_⟩
    · intro tk htk
      cases htk
      exact ⟨rfl, rfl, (hcoherent.own _ k hkv).2⟩
    · intro tk htk
      rw [hk] at htk
      rw [← Option.some.inj htk]
  have hholder : KeyNode.holder ((n.kvPut (trustedKeyKey k.tenantID k.kid)
      (some (k.invalidated validTo))).pend c (.rotated validTo k.kid (k.invalidated validTo) rest)) =
      some (.rotated validTo k.kid (k.invalidated validTo) rest) := by
    simp [KeyNode.holder, KeyNode.pend, kvPut, hmu]
  refine h.turn hc rfl (some (.rotated validTo k.kid (k.invalidated validTo) rest))
    ?_ ?_ ?_ ?_ ?_
  · intro a
    exact get_set _ _ _ _
  · exact hmu
  · rintro call' hcall'
    cases hcall'
    exact ⟨rfl, trivial⟩
  · rw [KeyNode.intended, hholder]
    exact hcoherent.write hfits
  · intro a other ha hfree
    exact h.sound_kvPut ha hfree rfl rfl hundisturbed (.inr hsnapshot)

/-- The end of a commit: the mutation is over, or goes on to its next sibling. -/
theorem committed (n₁ : KeyNode P) (h : NodeInv n) (hc : n.calls.get c = some call)
    (hlocks : call.locks = true) (hcalls : n₁.calls = n.calls) (hmu : n₁.mu = n.mu)
    (hcoherent : Coherent n₁.kv n₁.store.keys)
    (hothers : ∀ a other n', n.calls.get a = some other → other.locks = false →
      n'.kv = n₁.kv → n'.store = n₁.store → n'.ahead = false → other.Sound n') :
    NodeInv (n₁.unlock c) ∧ ∀ validTo rest, NodeInv (n₁.rotate c validTo rest).2 := by
  have hunlock : NodeInv (n₁.unlock c) := by
    refine h.turn hc hlocks none ?_ rfl (fun _ hnone => by cases hnone) ?_ ?_
    · intro a
      simp only [unlock, KeyNode.finish, get_del, hcalls]
    · exact hcoherent
    · intro a other ha hfree
      exact hothers a other _ ha hfree rfl rfl rfl
  refine ⟨hunlock, ?_⟩
  intro validTo rest
  cases rest with
  | nil => exact hunlock
  | cons kid rest =>
    have hmu' : n₁.mu = some c := hmu.trans (h.exclusive c call hc hlocks)
    have hholder : KeyNode.holder (n₁.pend c (.rotating validTo (kid :: rest))) =
        some (.rotating validTo (kid :: rest)) := by
      simp [KeyNode.holder, KeyNode.pend, hmu']
    refine h.turn hc hlocks (some (.rotating validTo (kid :: rest))) ?_ hmu' ?_ ?_ ?_
    · intro a
      exact (get_set _ _ _ _).trans (by rw [hcalls])
    · rintro call' hcall'
      cases hcall'
      exact ⟨rfl, trivial⟩
    · show Coherent n₁.kv (KeyNode.intended (n₁.pend c (.rotating validTo (kid :: rest)))).keys
      rw [KeyNode.intended, hholder]
      exact hcoherent
    · intro a other ha hfree
      refine hothers a other _ ha hfree rfl rfl ?_
      show KeyNode.ahead (n₁.pend c (.rotating validTo (kid :: rest))) = false
      rw [KeyNode.ahead, hholder]

theorem commit (h : NodeInv n) (hc : n.calls.get c = some (.committing w)) :
    NodeInv ({ n with store := (n.store.put w.kid w.value).advance }.unlock c) ∧
      ∀ validTo rest, NodeInv
        ({ n with store := (n.store.put w.kid w.value).advance }.rotate c validTo rest).2 := by
  have hcoherent : Coherent n.kv (n.store.put w.kid w.value).keys := by
    simpa only [KeyNode.intended, h.holder_eq hc rfl] using h.coherent
  have hgen : (n.store.put w.kid w.value).gen = n.store.gen := by
    cases w.value <;> rfl
  refine committed _ h hc rfl rfl rfl hcoherent ?_
  intro a other n' ha hfree hkv hstore _
  refine sound_of_gen_lt (h.sound a other ha) hfree hkv ?_
  rw [hstore]
  show n.store.gen < (n.store.put w.kid w.value).gen + 1
  omega

theorem commitSibling {validTo : Int} {kid : KID} {sibling : TrustedKey P} {rest : List KID}
    (h : NodeInv n) (hc : n.calls.get c = some (.rotated validTo kid sibling rest)) :
    NodeInv ({ n with store := n.store.put kid (some sibling) }.rotate c validTo rest).2 := by
  have hholder := h.holder_eq hc rfl
  have hcoherent : Coherent n.kv (n.store.put kid (some sibling)).keys := by
    have hcoherent := h.coherent
    rwa [KeyNode.intended, hholder] at hcoherent
  have hahead : n.ahead = false := by rw [KeyNode.ahead, hholder]
  refine (committed { n with store := n.store.put kid (some sibling) } h hc rfl rfl rfl hcoherent
    ?_).2 validTo rest
  intro a other n' ha hfree hkv hstore hahead'
  refine sound_congr (h.sound a other ha) hkv (hstore ▸ rfl) (hahead'.trans hahead.symm) ?_
  intro hlocks
  cases hfree.symm.trans hlocks

theorem step {op : KeyOp P} {r : KeyReply P} (h : NodeInv n) (hallowed : NoRace tr n op)
    (hs : stepKeys n op = some (r, n')) : NodeInv n' := by
  cases op with
  | mutate c m now =>
    simp only [stepKeys] at hs
    split at hs
    · cases hs
    · next hfree =>
      rw [not_or, not_not] at hfree
      cases hok : n.store.prepare now m with
      | error err =>
        simp only [hok] at hs
        cases hs
        exact h
      | ok w =>
        simp only [hok] at hs
        cases hs
        refine h.mutate hfree.2 (prepare_fits (h.coherent_of_free hfree.2) ?_ hok)
        rintro tk opts rfl
        exact hallowed
  | write c =>
    simp only [stepKeys] at hs
    split at hs
    · next w hc =>
      cases hs
      exact h.write hc (hallowed w hc)
    · cases hs
  | commit c now order =>
    simp only [stepKeys] at hs
    split at hs
    · next w hc =>
      obtain ⟨hunlock, hrotate⟩ := h.commit hc
      split at hs
      · cases hs
      split at hs
      · cases hs
        exact hunlock
      have hn' : n' = _ := (congrArg Prod.snd (Option.some.inj hs)).symm
      rw [hn']
      exact hrotate _ _
    · cases hs
  | writeSibling c =>
    simp only [stepKeys] at hs
    split at hs
    · next validTo kid rest hc =>
      split at hs
      · cases hs
      · next k hk =>
        cases hs
        obtain ⟨hundisturbed, hsnapshot⟩ := hallowed validTo kid rest k hc hk
        exact h.writeSibling hc hk hundisturbed hsnapshot
    · cases hs
  | commitSibling c =>
    simp only [stepKeys] at hs
    split at hs
    · next hc =>
      have hn' : n' = _ := (congrArg Prod.snd (Option.some.inj hs)).symm
      rw [hn']
      exact h.commitSibling hc
    · cases hs
  | get c tenantID kid stale =>
    simp only [stepKeys] at hs
    split at hs
    · cases hs
    · next hc =>
      split at hs
      · cases hs
        exact h.pend (unlocked_of_notMem hc) rfl trivial
      split at hs
      · cases hs
      split at hs
      · cases hs
        exact h.pend (unlocked_of_notMem hc) rfl trivial
      cases hs
      exact h
  | load c =>
    simp only [stepKeys] at hs
    split at hs
    · next tenantID kid hc =>
      have hunlocked := unlocked_of_get hc rfl
      split at hs
      · cases hs
        exact h.finish hunlocked
      · next tk hkv =>
        split at hs
        · cases hs
          exact h.finish hunlocked
        · next howner =>
          cases hs
          exact h.pend hunlocked rfl ⟨not_not.mp howner, hkv⟩
    · cases hs
  | install c =>
    simp only [stepKeys] at hs
    split at hs
    · next hc =>
      split at hs
      · cases hs
      · next hmu =>
        cases hs
        exact h.install hc (not_not.mp hmu)
    · cases hs
  | reread c =>
    simp only [stepKeys] at hs
    split at hs
    · next hc =>
      split at hs
      · cases hs
      cases hs
      exact h.finish (unlocked_of_get hc rfl)
    · cases hs
  | listForVerification stale now order =>
    simp only [stepKeys] at hs
    split at hs
    · cases hs
    cases hs
    exact h
  | reconcile c =>
    simp only [stepKeys] at hs
    split at hs
    · cases hs
    · next hfree =>
      rw [not_or] at hfree
      cases hs
      have hpend : NodeInv (n.pend c (.reconciling 0)) :=
        h.pend (unlocked_of_notMem hfree.1) rfl trivial
      exact hpend.setReconcileMu (some c)
  | loadGen c =>
    simp only [stepKeys] at hs
    split at hs
    · next hc =>
      cases hs
      exact h.pend (unlocked_of_get hc rfl) rfl (Nat.le_refl _)
    · cases hs
  | list c order =>
    simp only [stepKeys] at hs
    split at hs
    · next hc =>
      split at hs
      · cases hs
      · next horder =>
        cases hs
        exact h.pend (unlocked_of_get hc rfl) rfl
          ⟨h.sound c _ hc, fun _ _ => coherent_build h.coherent.wellFormed (not_not.mp horder)⟩
    · cases hs
  | swap c =>
    simp only [stepKeys] at hs
    split at hs
    · next attempt gen fresh hc =>
      have hunlocked := unlocked_of_get hc rfl
      split at hs
      · cases hs
      · next hmu =>
        split at hs
        · next hgen =>
          cases hs
          exact h.swap (hgen ▸ hc) (not_not.mp hmu)
        · split at hs
          · cases hs
            exact h.pend hunlocked rfl trivial
          cases hs
          exact (h.finish hunlocked).setReconcileMu none
    · cases hs

theorem init (hkv : WellFormed kv) (maxPerTenant : Int) {order : List String}
    (horder : order.Perm kv.keys) :
    NodeInv (new maxPerTenant kv order) := by
  refine of_free rfl (coherent_build hkv horder) ?_
  intro c call hcall
  cases hcall

theorem of_run (hkv : WellFormed kv) {maxPerTenant : Int} {order : List String}
    (horder : order.Perm kv.keys)
    (hrun : Run stepKeys NoRace (new maxPerTenant kv order) tr n) : NodeInv n := by
  refine hrun.inv (I := fun _ n => NodeInv n) (init hkv maxPerTenant horder) ?_
  intro tr n op r n' h hallowed hs
  exact h.step hallowed hs

end NodeInv

/-! ## What callers see -/

abbrev KeyEvent (P : Type) := Event (KeyNode P) (KeyOp P) (KeyReply P)

/-- The `Get` call that the event answers. -/
def answeredGet (ev : KeyEvent P) : Option (TenantID × KID) :=
  match ev.result with
  | .running => none
  | _ =>
    match ev.action with
    | .get _ tenantID kid _ => some (tenantID, kid)
    | .load c =>
      match ev.before.calls.get c with
      | some (.loading tenantID kid) => some (tenantID, kid)
      | _ => none
    | .reread c =>
      match ev.before.calls.get c with
      | some (.rereading tenantID kid) => some (tenantID, kid)
      | _ => none
    | _ => none

/-- The answer that shows a record of the backend. -/
def KeyReply.show (kid : KID) : Option (TrustedKey P) → KeyReply P
  | none => .failed (.trustedKeyNotFound kid)
  | some tk => .found tk

theorem Coherent.answer {keys : GoMap KID (TrustedKey P)} (h : Coherent kv keys)
    (tenantID : TenantID) (kid : KID) :
    KeyNode.answer tenantID kid (keys.get kid) =
      .show kid (kv.get (trustedKeyKey tenantID kid)) := by
  cases hkv : kv.get (trustedKeyKey tenantID kid) with
  | some tk =>
    obtain ⟨htenant, hkid⟩ := h.eq_of_get hkv
    have hcached := h.get_kid hkv
    rw [hkid] at hcached
    rw [hcached, KeyNode.answer, if_pos htenant, KeyReply.show]
  | none =>
    cases hcached : keys.get kid with
    | none => rfl
    | some tk =>
      have hne : tk.tenantID ≠ tenantID := by
        rintro rfl
        rw [((h.shown kid tk).mp hcached).2] at hkv
        cases hkv
      rw [KeyNode.answer, if_neg hne, KeyReply.show]

/-- A `Get` answers what the backend holds at that moment. -/
theorem NodeInv.get_answer {n' : KeyNode P} {op : KeyOp P} {r : KeyReply P} (h : NodeInv n)
    (hs : stepKeys n op = some (r, n')) {kid : KID}
    (hanswered : answeredGet ⟨n, op, r, n'⟩ = some (tenantID, kid)) :
    r = .show kid (n.kv.get (trustedKeyKey tenantID kid)) := by
  cases op with
  | get c tenantID' kid' stale =>
    simp only [stepKeys] at hs
    split at hs
    · cases hs
    split at hs
    · cases hs
      cases hanswered
    split at hs
    · cases hs
    · next hmu =>
      split at hs
      · cases hs
        cases hanswered
      · next tk hcached =>
        have hanswer := (h.coherent_of_free (not_not.mp hmu)).answer tenantID' kid'
        rw [hcached] at hanswer
        cases hs
        have hget : (tenantID', kid') = (tenantID, kid) := by
          simp only [answeredGet, KeyNode.answer] at hanswered
          split at hanswered
          · next hrunning =>
            split at hrunning <;> cases hrunning
          · exact Option.some.inj hanswered
        cases hget
        exact hanswer
  | load c =>
    simp only [stepKeys] at hs
    split at hs
    · next tenantID' kid' hc =>
      split at hs
      · next hkv =>
        cases hs
        simp only [answeredGet, hc] at hanswered
        cases hanswered
        rw [hkv, KeyReply.show]
      · next tk hkv =>
        split at hs
        · next hne =>
          exact absurd (h.coherent.eq_of_get hkv).1 hne
        cases hs
        cases hanswered
    · cases hs
  | reread c =>
    simp only [stepKeys] at hs
    split at hs
    · next tenantID' kid' hc =>
      split at hs
      · cases hs
      · next hmu =>
        have hanswer := (h.coherent_of_free (not_not.mp hmu)).answer tenantID' kid'
        cases hs
        have hget : (tenantID', kid') = (tenantID, kid) := by
          simp only [answeredGet, hc] at hanswered
          split at hanswered
          · cases hanswered
          · exact Option.some.inj hanswered
        cases hget
        exact hanswer
    · cases hs
  | _ =>
    simp only [answeredGet] at hanswered
    split at hanswered <;> cases hanswered

/-- The records a fresh listing shows are those of the backend that have not expired. -/
theorem Coherent.mem_listForVerification (h : Coherent kv s.keys) {order : List KID}
    (horder : order.Perm s.keys.keys) (tk : TrustedKey P) :
    tk ∈ s.listForVerification false now order ↔
      (∃ k, kv.get k = some tk) ∧ tk.unexpired now = true := by
  simp only [listForVerification, Bool.false_eq_true, if_false,
    List.mem_filterMap, Prod.exists]
  constructor
  · rintro ⟨kid, tk', hmem, hvalid⟩
    obtain ⟨-, hget⟩ := mem_inOrder.mp hmem
    split at hvalid
    · next hunexpired =>
      obtain rfl := Option.some.inj hvalid
      exact ⟨⟨_, ((h.shown kid tk').mp hget).2⟩, hunexpired⟩
    · cases hvalid
  · rintro ⟨⟨k, hk⟩, hunexpired⟩
    have hget := h.get_kid hk
    refine ⟨tk.kid, tk, mem_inOrder.mpr ⟨?_, hget⟩, if_pos hunexpired⟩
    exact horder.mem_iff.mpr (mem_keys_of_get hget)

theorem NodeInv.list_answer {n' : KeyNode P} {stale : Bool} {order : List KID} {r : KeyReply P}
    (h : NodeInv n) (hs : stepKeys n (.listForVerification stale now order) = some (r, n')) :
    ∃ tks, r = .listed tks ∧ (stale = true → tks = []) ∧
      (stale = false → ∀ tk, tk ∈ tks ↔ (∃ k, n.kv.get k = some tk) ∧ tk.unexpired now = true) := by
  simp only [stepKeys] at hs
  split at hs
  · cases hs
  · next hfree =>
    rw [not_or, not_and, not_not, not_not] at hfree
    cases hs
    refine ⟨_, rfl, ?_, ?_⟩
    · rintro rfl
      rfl
    · rintro rfl tk
      exact (h.coherent_of_free (hfree.1 (by decide))).mem_listForVerification hfree.2 tk

/-- Whatever calls are interleaved without the two races, a `Get` and a listing show exactly what
the backend holds at that moment, and between calls so does the cache. -/
theorem key_cache_current {kv : GoMap String (TrustedKey P)} (hkv : WellFormed kv)
    {maxPerTenant : Int} {order : List String} (horder : order.Perm kv.keys)
    {tr : List (KeyEvent P)} {n : KeyNode P}
    (hrun : Run stepKeys NoRace (new maxPerTenant kv order) tr n) :
    (∀ ev ∈ tr, ∀ tenantID kid, answeredGet ev = some (tenantID, kid) →
      ev.result = .show kid (ev.before.kv.get (trustedKeyKey tenantID kid))) ∧
    (∀ ev ∈ tr, ∀ stale now order', ev.action = .listForVerification stale now order' →
      ∃ tks, ev.result = .listed tks ∧ (stale = true → tks = []) ∧
        (stale = false → ∀ tk, tk ∈ tks ↔
          (∃ k, ev.before.kv.get k = some tk) ∧ tk.unexpired now = true)) ∧
    (n.calls.keys = [] →
      (∀ kid tk, n.store.keys.get kid = some tk →
        n.kv.get (trustedKeyKey tk.tenantID kid) = some tk) ∧
      ∀ k tk, n.kv.get k = some tk → n.store.keys.get tk.kid = some tk) := by
  refine ⟨?_, ?_, ?_⟩
  · intro ev hev tenantID kid hanswered
    obtain ⟨tr', hrun', -, hs⟩ := hrun.of_mem hev
    exact (NodeInv.of_run hkv horder hrun').get_answer hs hanswered
  · intro ev hev stale now order' haction
    obtain ⟨tr', hrun', -, hs⟩ := hrun.of_mem hev
    rw [haction] at hs
    exact (NodeInv.of_run hkv horder hrun').list_answer hs
  · intro hidle
    have hinv := NodeInv.of_run hkv horder hrun
    have hmu : n.mu = none := by
      cases hmu : n.mu with
      | none => rfl
      | some c =>
        obtain ⟨call, hcall, -⟩ := hinv.held c hmu
        have hmem := mem_keys_of_get hcall
        rw [hidle] at hmem
        cases hmem
    have hcoherent := hinv.coherent_of_free hmu
    exact ⟨fun kid tk hget => ((hcoherent.shown kid tk).mp hget).2,
      fun k tk hk => hcoherent.get_kid hk⟩

namespace Sample

def kid (name : String) (plain : ':' ∉ name.toList) : KID := ⟨name, plain⟩

def old : KID := kid "old" (by decide)

def fresh : KID := kid "new" (by decide)

def key (kid : KID) : TrustedKey Unit := ⟨kid, "A", (), [], true, 0, none⟩

def registers (c : CallID) (kid : KID) (invalidate : Bool) (keys : List KID) : List (KeyOp Unit) :=
  [.mutate c (.register (key kid) ⟨invalidate, 0⟩) 1, .write c, .commit c 1 keys]

/-- A test for the condition on runs: no write while a read-through or a snapshot waits. -/
def noRace (_ : List (KeyEvent Unit)) (n : KeyNode Unit) : KeyOp Unit → Bool
  | .mutate _ (.register tk _) _ => tk.tenantID ≠ ""
  | .write _ => quiet n
  | .writeSibling _ => quiet n
  | _ => true
where
  quiet (n : KeyNode Unit) : Bool :=
    n.calls.keys.all fun c =>
      match n.calls.get c with
      | some (.installing _ _ _) => false
      | some (.swapping _ _ _) => false
      | _ => true

theorem quiet_undisturbed {n : KeyNode Unit} (h : noRace.quiet n = true) :
    (∀ key, Undisturbed n key) ∧ NoSnapshot n := by
  have hcalls := List.all_eq_true.mp h
  constructor
  · intro key c tenantID kid tk hc
    have := hcalls c (mem_keys_of_get hc)
    simp [hc] at this
  · intro c attempt gen fresh hc
    have := hcalls c (mem_keys_of_get hc)
    simp [hc] at this

theorem noRace_of_test (tr : List (KeyEvent Unit)) (n : KeyNode Unit) (op : KeyOp Unit)
    (h : noRace tr n op = true) : NoRace tr n op := by
  cases op with
  | mutate c m now =>
    cases m with
    | register tk opts =>
      simp only [noRace, decide_eq_true_eq] at h
      exact h
    | _ => trivial
  | write c => exact fun w _ => (quiet_undisturbed h).1 _
  | writeSibling c => exact fun _ _ _ _ _ _ => ⟨(quiet_undisturbed h).1 _, (quiet_undisturbed h).2⟩
  | _ => trivial

theorem wellFormed_empty : WellFormed (∅ : GoMap String (TrustedKey Unit)) :=
  ⟨fun _ _ h => absurd h (by simp), fun _ _ _ _ h => absurd h (by simp)⟩

/-- The last event is a `Get` that found `tk`, while the backend holds `value`. -/
def lastGet (tk : TrustedKey Unit) (value : Option (TrustedKey Unit)) (tr : List (KeyEvent Unit))
    (n : KeyNode Unit) : Bool :=
  n.kv.get (trustedKeyKey tk.tenantID tk.kid) = value &&
    match tr with
    | ⟨_, .get _ tenantID kid _, .found found, _⟩ :: _ =>
      tenantID = tk.tenantID && kid = tk.kid && found = tk
    | _ => false

/-- A rotation: the new key is registered and its sibling invalidated. -/
def rotation : List (KeyOp Unit) :=
  registers 0 old false [old] ++ registers 1 fresh true [fresh, old] ++
    [.writeSibling 1, .commitSibling 1]

/-- A reconcile lists the backend after the rotation committed its new key and before it wrote
the sibling. -/
def listedMidRotation : List (KeyOp Unit) :=
  registers 0 old false [old] ++ registers 1 fresh true [fresh, old] ++
    [.reconcile 2, .loadGen 2, .list 2 ["A:old", "A:new"], .writeSibling 1, .commitSibling 1,
      .swap 2, .get 3 "A" old false]

/-- A `Get` misses, reads the key once it is registered, and installs it after its deletion. -/
def installedAfterDelete : List (KeyOp Unit) :=
  [.get 0 "A" old false] ++ registers 1 old false [old] ++
    [.load 0, .mutate 2 (.delete "A" old) 1, .write 2, .commit 2 1 [], .install 0, .reread 0,
      .get 3 "A" old false]

def anyOp (_ : List (KeyEvent Unit)) (_ : KeyNode Unit) (_ : KeyOp Unit) : Bool := true

end Sample

open Sample in
theorem key_cache_current_rotation :
    ∃ tr n, Run stepKeys NoRace (new 0 ∅ []) tr n ∧
      n.kv.get (trustedKeyKey "A" old) = some ((key old).invalidated 1) ∧
      n.store.keys.get old = some ((key old).invalidated 1) := by
  have hrun : ∃ tr n, Run stepKeys NoRace (new 0 ∅ []) tr n ∧
      (decide (n.kv.get (trustedKeyKey "A" old) = some ((key old).invalidated 1)) &&
        decide (n.calls.keys = [])) = true :=
    exists_run_of_execute noRace_of_test rotation (by decide +kernel)
  obtain ⟨tr, n, hrun, hcheck⟩ := hrun
  rw [Bool.and_eq_true, decide_eq_true_eq, decide_eq_true_eq] at hcheck
  obtain ⟨-, -, hidle⟩ := key_cache_current wellFormed_empty (.refl _) hrun
  exact ⟨tr, n, hrun, hcheck.1, (hidle hcheck.2).2 _ _ hcheck.1⟩

open Sample in
/-- A key that a rotation invalidated, and one that was deleted, are shown as they were before. -/
theorem mutation_reverted :
    (∃ tr n, Run stepKeys AnyStep (new 0 ∅ []) tr n ∧
      tr.map (·.action) = listedMidRotation.reverse ∧
      lastGet (key old) (some ((key old).invalidated 1)) tr n = true) ∧
    ∃ tr n, Run stepKeys AnyStep (new 0 ∅ []) tr n ∧
      tr.map (·.action) = installedAfterDelete.reverse ∧ lastGet (key old) none tr n = true := by
  constructor
  · exact exists_actions_of_execute (fun tr n op (_ : anyOp tr n op = true) => trivial) _
      (by decide +kernel)
  · exact exists_actions_of_execute (fun tr n op (_ : anyOp tr n op = true) => trivial) _
      (by decide +kernel)

end CyodaGo.Auth
