import CyodaGo.Shared.Ledger
import CyodaGo.Model.Grpc.Registry

/-! # Registration, eviction and the published tags

Whoever takes a member out of the registry owes its eviction, and whoever changes the members
owes a publication. The newest snapshot is published by then or still on its way. -/

namespace CyodaGo.Grpc.MemberRegistry

inductive Token where
  | evict (m : ℕ)
  | notify
  | spawn (snapshot : Snapshot)

def dues : Dues Request Question Answer Token where
  given _ := 0
  pays _
    | .evict m => {.evict m}
    | .snapshot => {.notify}
    | .spawn snapshot => {.spawn snapshot}
    | _ => 0
  keeps _ _ _ := True
  takes _
    | .register _, (_, some old) => {.notify, .evict old}
    | .register _, (_, none) => {.notify}
    | .remove m, true => {.notify, .evict m}
    | .remove m, false => {.evict m}
    | .snapshot, some snapshot => {.spawn snapshot}
    | _, _ => 0

open Dues

theorem settles_notifyChange (r : Request) :
    dues.Settles r notifyChange (fun _ rest => rest = 0) {.notify} := by
  refine settles_bind (settles_ask 0 rfl trivial fun snapshot => ?_)
  cases snapshot with
  | none => rfl
  | some snapshot => exact settles_ask 0 rfl trivial fun _ => rfl

theorem settles_body (r : Request) :
    dues.Settles r r.body (fun _ rest => rest = 0) (dues.given r) := by
  cases r with
  | register m =>
    refine settles_bind (settles_bind (settles_ask 0 rfl trivial ?_))
    rintro ⟨m, displaced⟩
    cases displaced with
    | none =>
      refine settles_bind ((settles_notifyChange _).mono fun _ _ hown => ?_)
      exact hown
    | some old =>
      refine settles_bind (settles_ask {.notify} rfl trivial fun _ => ?_)
      refine settles_bind ((settles_notifyChange _).mono fun _ _ hown => ?_)
      exact hown
  | unregister m =>
    cases m with
    | none => rfl
    | some m =>
      refine settles_bind (settles_bind (settles_ask 0 rfl trivial ?_))
      intro found
      cases found with
      | false => exact settles_bind (settles_ask 0 rfl trivial fun _ => rfl)
      | true =>
        refine settles_bind (settles_ask {.notify} rfl trivial fun _ => ?_)
        exact (settles_notifyChange _).mono fun _ _ hown => hown
  | publish =>
    exact settles_bind (settles_bind (settles_ask 0 rfl trivial fun _ => rfl))

abbrev Trace := List (Event System (Move Request Outside) (Option (Exchange Question Answer)))

section Step

variable {tr : Trace} {m m' : MemberRegistry} {o o' : Multiset Token} {r : Request} {q : Question}
  {a : Answer q} {x : Outside}
  {ev : Event System (Move Request Outside) (Option (Exchange Question Answer))}

theorem mem_of_transfer {t : Token} (ho : o' + dues.pays r q = o + dues.takes r q a)
    (ht : t ∈ o ∨ t ∈ dues.takes r q a) : t ∈ o' ∨ t ∈ dues.pays r q := by
  rwa [← Multiset.mem_add, ho, Multiset.mem_add]

theorem mem_or_taken {t : Token} (ho : o' + dues.pays r q = o + dues.takes r q a) (ht : t ∈ o') :
    t ∈ o ∨ t ∈ dues.takes r q a := by
  rw [← Multiset.mem_add, ← ho]
  exact Multiset.mem_add.mpr (.inl ht)

theorem evict_of_mem_pays {n : ℕ} (h : .evict n ∈ dues.pays r q) : q = .evict n := by
  cases q with
  | evict n' =>
    obtain rfl := Token.evict.inj (Multiset.mem_singleton.mp h)
    rfl
  | snapshot | spawn => cases Multiset.mem_singleton.mp h
  | _ => exact absurd h (Multiset.notMem_zero _)

theorem snapshot_of_mem_pays (h : .notify ∈ dues.pays r q) : q = .snapshot := by
  cases q with
  | snapshot => rfl
  | evict | spawn => cases Multiset.mem_singleton.mp h
  | _ => exact absurd h (Multiset.notMem_zero _)

variable {snapshot : Snapshot} {spawned : List Snapshot} {g : ℕ}

theorem spawn_of_mem_pays (h : .spawn snapshot ∈ dues.pays r q) : q = .spawn snapshot := by
  cases q with
  | spawn snapshot' =>
    obtain rfl := Token.spawn.inj (Multiset.mem_singleton.mp h)
    rfl
  | snapshot | evict => cases Multiset.mem_singleton.mp h
  | _ => exact absurd h (Multiset.notMem_zero _)

/-- How the goroutine number `g` publishes its snapshot. -/
inductive Publishes (m : MemberRegistry) (g : ℕ) (snapshot : Snapshot) :
    Option (Snapshot × Bool) → MemberRegistry → Prop where
  | stale : snapshot.version ≤ m.publishedVersion →
      Publishes m g snapshot none { m with spawned := m.spawned.eraseIdx g }
  | published : m.publishedVersion < snapshot.version →
      Publishes m g snapshot (some (snapshot, true))
        { m with spawned := m.spawned.eraseIdx g, publishedVersion := snapshot.version }
  | failed : m.publishedVersion < snapshot.version →
      Publishes m g snapshot (some (snapshot, false)) { m with spawned := m.spawned.eraseIdx g }

theorem publish_served {a : Answer .publish} (h : serve x m .publish = some (a, m')) :
    ∃ snapshot, m.spawned[x.goroutine]? = some snapshot ∧
      Publishes m x.goroutine snapshot a m' := by
  simp only [serve] at h
  split at h
  · cases h
  · next snapshot hspawned =>
    refine ⟨snapshot, hspawned, ?_⟩
    split at h
    · next hle =>
      cases h
      exact .stale hle
    · next hlt =>
      split at h
      · cases h
        exact .published (Nat.lt_of_not_le hlt)
      cases h
      exact .failed (Nat.lt_of_not_le hlt)

/-! ## Members that have left -/

/-- Whoever is in the map was registered under that id; whoever was registered is in the map,
or has been evicted, or some call owes the eviction. -/
structure Retiring (m : MemberRegistry) (o : Multiset Token) : Prop where
  known : ∀ id n, m.members.get id = some n → ∃ c, m.connections[n]? = some c ∧ c.id = id
  retired : ∀ n c, m.connections[n]? = some c →
    m.members.get c.id = some n ∨ n ∈ m.evicted ∨ .evict n ∈ o

theorem Retiring.frame (h : Retiring m o) (hconnections : m'.connections = m.connections)
    (hmembers : m'.members = m.members) (hevicted : m'.evicted = m.evicted)
    (ho : ∀ n, .evict n ∈ o → .evict n ∈ o') : Retiring m' o' where
  known := by
    rw [hconnections, hmembers]
    exact h.known
  retired n c hn := by
    rw [hmembers, hevicted]
    exact (h.retired n c (hconnections ▸ hn)).imp_right (.imp_right (ho n))

theorem Retiring.register (h : Retiring m o) (c : Connection)
    (ho : ∀ n, .evict n ∈ o ∨ m.members.get c.id = some n → .evict n ∈ o') (version : ℕ) :
    Retiring { m with connections := m.connections ++ [c],
                      members := m.members.set c.id m.connections.length,
                      tagsVersion := version } o' := by
  refine ⟨?_, ?_⟩
  · intro id n hget
    simp only [GoMap.get_set] at hget
    split at hget
    · next heq =>
      cases hget
      exact ⟨c, by simp, heq.symm⟩
    · obtain ⟨c', hc', hid⟩ := h.known id n hget
      have hlt := (List.getElem?_eq_some_iff.mp hc').1
      exact ⟨c', by rwa [List.getElem?_append_left hlt], hid⟩
  · intro n c' hn
    simp only [GoMap.get_set]
    rcases Nat.lt_or_ge n m.connections.length with hlt | hge
    · rw [List.getElem?_append_left hlt] at hn
      obtain hget | hevicted | howed := h.retired n c' hn
      · split
        · next heq => exact .inr (.inr (ho n (.inr (heq ▸ hget))))
        · exact .inl hget
      · exact .inr (.inl hevicted)
      · exact .inr (.inr (ho n (.inl howed)))
    · rw [List.getElem?_append_right hge, List.getElem?_singleton] at hn
      obtain ⟨hzero, heq⟩ := Option.ite_none_right_eq_some.mp hn
      cases heq
      rw [if_pos rfl]
      exact .inl (congrArg some (by omega))

theorem Retiring.remove {n : ℕ} {c : Connection} (h : Retiring m o) (hget : m.members.get c.id = some n)
    (ho : ∀ n', .evict n' ∈ o ∨ n' = n → .evict n' ∈ o') (version : ℕ) :
    Retiring { m with members := m.members.del c.id, tagsVersion := version } o' := by
  refine ⟨?_, ?_⟩
  · intro id n' hget'
    simp only [GoMap.get_del] at hget'
    split at hget'
    · cases hget'
    · exact h.known id n' hget'
  · intro n' c' hn'
    simp only [GoMap.get_del]
    obtain hget' | hevicted | howed := h.retired n' c' hn'
    · split
      · next heq =>
        rw [heq, hget] at hget'
        exact .inr (.inr (ho n' (.inr (Option.some.inj hget').symm)))
      · exact .inl hget'
    · exact .inr (.inl hevicted)
    · exact .inr (.inr (ho n' (.inl howed)))

theorem Retiring.advance (h : Retiring m o)
    (ho : o' + dues.pays r q = o + dues.takes r q a) (hserved : serve x m q = some (a, m')) :
    Retiring m' o' := by
  have hkept : ∀ n, q ≠ .evict n → .evict n ∈ o ∨ .evict n ∈ dues.takes r q a → .evict n ∈ o' :=
    fun n hq hn => (mem_of_transfer ho hn).resolve_right (hq ∘ evict_of_mem_pays)
  cases q with
  | register c =>
    cases hserved
    refine h.register c (fun n hn => hkept n (by simp) (hn.imp_right fun hget => ?_)) _
    simp [dues, hget]
  | remove n =>
    simp only [serve] at hserved
    split at hserved
    · cases hserved
    split at hserved
    · next hget =>
      cases hserved
      refine h.remove hget (fun n' hn' => hkept n' (by simp) (hn'.imp_right ?_)) _
      rintro rfl
      simp [dues]
    · cases hserved
      exact h.frame rfl rfl rfl fun n' hn' => hkept n' (by simp) (.inl hn')
  | evict n =>
    cases hserved
    refine ⟨h.known, fun n' c hn' => (h.retired n' c hn').imp_right ?_⟩
    rintro (hevicted | howed)
    · exact .inl (List.mem_cons_of_mem _ hevicted)
    · by_cases heq : n' = n
      · exact .inl (heq ▸ List.mem_cons_self)
      · exact .inr (hkept n' (by simpa using Ne.symm heq) (.inl howed))
  | snapshot | spawn =>
    cases hserved
    exact h.frame rfl rfl rfl fun n hn => hkept n (by simp) (.inl hn)
  | publish =>
    obtain ⟨snapshot, hspawned, hpublish⟩ := publish_served hserved
    cases hpublish <;> exact h.frame rfl rfl rfl fun n hn => hkept n (by simp) (.inl hn)

/-! ## Published tags -/

/-- The snapshot that a step passes to the callback. -/
def passed : Option (Exchange Question Answer) → Option Snapshot
  | some ⟨.publish, some (snapshot, _)⟩ => some snapshot
  | _ => none

/-- The snapshots that were passed to the callback, newest first. -/
def published (tr : Trace) : List Snapshot := tr.filterMap fun e => passed e.result

/-- A goroutine has the snapshot, or a call is about to start one for it. -/
def OnItsWay (spawned : List Snapshot) (o : Multiset Token) (snapshot : Snapshot) : Prop :=
  .spawn snapshot ∈ o ∨ snapshot ∈ spawned

/-- A snapshot is not newer than the registry, and one of its version has its tags. -/
def Describes (m : MemberRegistry) (snapshot : Snapshot) : Prop :=
  snapshot.version ≤ m.tagsVersion ∧
    (snapshot.version = m.tagsVersion → snapshot.tags = m.computeTagsLocked)

/-- Unless the newest version has been published, it is on its way or will be. -/
structure Publishing (tr : Trace) (m : MemberRegistry) (o : Multiset Token) : Prop where
  onChange : m.onChange = true
  snapshots : ∀ snapshot, OnItsWay m.spawned o snapshot → Describes m snapshot
  older : ∀ snapshot ∈ published tr, snapshot.version ≤ m.publishedVersion
  increasing : (published tr).Pairwise fun newer older => older.version < newer.version
  latest : m.publishedVersion = 0 ∧ published tr = [] ∨
    ∃ snapshot, (published tr).head? = some snapshot ∧ snapshot.version = m.publishedVersion ∧
      Describes m snapshot
  current : m.publishedVersion = m.tagsVersion ∨ .notify ∈ o ∨
    ∃ snapshot, OnItsWay m.spawned o snapshot ∧ snapshot.version = m.tagsVersion

theorem published_cons (h : passed ev.result = none) : published (ev :: tr) = published tr :=
  List.filterMap_cons_none h

theorem Describes.bump (h : Describes m snapshot) (hversion : m'.tagsVersion = m.tagsVersion + 1) :
    Describes m' snapshot := by
  refine ⟨hversion ▸ h.1.trans (Nat.le_succ _), fun heq => ?_⟩
  have hle := h.1
  omega

/-- The members have changed, and somebody owes a publication. -/
theorem Publishing.bump (h : Publishing tr m o) (hev : passed ev.result = none)
    (honChange : m'.onChange = m.onChange) (hversion : m'.tagsVersion = m.tagsVersion + 1)
    (hpublished : m'.publishedVersion = m.publishedVersion) (hnotify : .notify ∈ o')
    (hway : ∀ snapshot, OnItsWay m'.spawned o' snapshot → OnItsWay m.spawned o snapshot) :
    Publishing (ev :: tr) m' o' := by
  refine ⟨honChange.trans h.onChange, ?_, ?_, ?_, ?_, .inr (.inl hnotify)⟩
  · exact fun snapshot hsnapshot => (h.snapshots snapshot (hway snapshot hsnapshot)).bump hversion
  · rw [published_cons hev, hpublished]
    exact h.older
  · rw [published_cons hev]
    exact h.increasing
  · rw [published_cons hev, hpublished]
    refine h.latest.imp_right ?_
    rintro ⟨snapshot, hhead, heq, hdescribes⟩
    exact ⟨snapshot, hhead, heq, hdescribes.bump hversion⟩

/-- The members are as they were. -/
theorem Publishing.frame (h : Publishing tr m o) (hev : passed ev.result = none)
    (honChange : m'.onChange = m.onChange) (hversion : m'.tagsVersion = m.tagsVersion)
    (htags : m'.computeTagsLocked = m.computeTagsLocked)
    (hpublished : m'.publishedVersion = m.publishedVersion)
    (hway : ∀ snapshot, OnItsWay m'.spawned o' snapshot → OnItsWay m.spawned o snapshot ∨ Describes m snapshot)
    (hcurrent : m.publishedVersion = m.tagsVersion ∨ .notify ∈ o' ∨
      ∃ snapshot, OnItsWay m'.spawned o' snapshot ∧ snapshot.version = m.tagsVersion) :
    Publishing (ev :: tr) m' o' := by
  have hdescribes : ∀ snapshot, Describes m' snapshot ↔ Describes m snapshot := by
    intro snapshot
    rw [Describes, Describes, hversion, htags]
  refine ⟨honChange.trans h.onChange, ?_, ?_, ?_, ?_, ?_⟩
  · intro snapshot hsnapshot
    rw [hdescribes]
    exact (hway snapshot hsnapshot).elim (h.snapshots snapshot) id
  · rw [published_cons hev, hpublished]
    exact h.older
  · rw [published_cons hev]
    exact h.increasing
  · simp only [published_cons hev, hpublished, hdescribes]
    exact h.latest
  · rw [hpublished, hversion]
    exact hcurrent

/-- Only the goroutine that has run is gone. -/
theorem onItsWay_or_eq {snapshot' : Snapshot} (hspawned : spawned[g]? = some snapshot)
    (h : OnItsWay spawned o snapshot') :
    OnItsWay (spawned.eraseIdx g) o snapshot' ∨ snapshot' = snapshot := by
  obtain h | h := h
  · exact .inl (.inl h)
  · obtain ⟨i, hi, rfl⟩ := List.mem_iff_getElem.mp h
    by_cases hig : i = g
    · subst hig
      exact .inr (Option.some.inj ((List.getElem?_eq_getElem hi).symm.trans hspawned))
    · exact .inl (.inr (List.mem_eraseIdx_iff_getElem.mpr ⟨i, hi, hig, rfl⟩))

theorem onItsWay_of_eraseIdx (h : OnItsWay (spawned.eraseIdx g) o snapshot) :
    OnItsWay spawned o snapshot :=
  h.imp_right List.mem_of_mem_eraseIdx

theorem Publishing.stale (h : Publishing tr m o) (hspawned : m.spawned[g]? = some snapshot)
    (hle : snapshot.version ≤ m.publishedVersion) (hbound : m.publishedVersion ≤ m.tagsVersion)
    (hev : passed ev.result = none) :
    Publishing (ev :: tr) { m with spawned := m.spawned.eraseIdx g } o := by
  refine h.frame hev rfl rfl rfl rfl (fun s hs => .inl (onItsWay_of_eraseIdx hs)) ?_
  obtain hcurrent | hnotify | ⟨snapshot', hway, hversion⟩ := h.current
  · exact .inl hcurrent
  · exact .inr (.inl hnotify)
  · obtain hway | rfl := onItsWay_or_eq hspawned hway
    · exact .inr (.inr ⟨snapshot', hway, hversion⟩)
    · exact .inl (by omega)

theorem Publishing.publish (h : Publishing tr m o) (hspawned : m.spawned[g]? = some snapshot)
    (hlt : m.publishedVersion < snapshot.version) (hev : passed ev.result = some snapshot) :
    Publishing (ev :: tr)
      { m with spawned := m.spawned.eraseIdx g, publishedVersion := snapshot.version } o := by
  have hcons : published (ev :: tr) = snapshot :: published tr := List.filterMap_cons_some hev
  have hdescribes : Describes m snapshot :=
    h.snapshots snapshot (.inr (List.mem_of_getElem? hspawned))
  refine ⟨h.onChange, ?_, ?_, ?_, .inr ⟨snapshot, by simp [hcons], rfl, hdescribes⟩, ?_⟩
  · exact fun snapshot' hway => h.snapshots snapshot' (onItsWay_of_eraseIdx hway)
  · rw [hcons]
    intro snapshot' hmem
    obtain rfl | hmem := List.mem_cons.mp hmem
    · exact le_rfl
    · exact (h.older snapshot' hmem).trans hlt.le
  · rw [hcons]
    exact List.pairwise_cons.mpr
      ⟨fun snapshot' hmem => (h.older snapshot' hmem).trans_lt hlt, h.increasing⟩
  · obtain hcurrent | hnotify | ⟨snapshot', hway, hversion⟩ := h.current
    · have hle := hdescribes.1
      omega
    · exact .inr (.inl hnotify)
    · obtain hway | rfl := onItsWay_or_eq hspawned hway
      · exact .inr (.inr ⟨snapshot', hway, hversion⟩)
      · exact .inl hversion

theorem Publishing.bound (h : Publishing tr m o) : m.publishedVersion ≤ m.tagsVersion := by
  obtain ⟨hzero, -⟩ | ⟨snapshot, -, heq, hdescribes⟩ := h.latest
  · exact hzero ▸ Nat.zero_le _
  · exact heq ▸ hdescribes.1

/-- Snapshots on their way are not lost, and only those taken join them. -/
theorem onItsWay_iff (ho : o' + dues.pays r q = o + dues.takes r q a) (hq : ∀ s, q ≠ .spawn s) :
    OnItsWay spawned o' snapshot ↔
      OnItsWay spawned o snapshot ∨ .spawn snapshot ∈ dues.takes r q a := by
  constructor
  · rintro (h | h)
    · exact (mem_or_taken ho h).imp_left .inl
    · exact .inl (.inr h)
  · have hkept : .spawn snapshot ∈ o ∨ .spawn snapshot ∈ dues.takes r q a →
        .spawn snapshot ∈ o' := fun h =>
      (mem_of_transfer ho h).resolve_right (hq snapshot ∘ spawn_of_mem_pays)
    rintro ((h | h) | h)
    · exact .inl (hkept (.inl h))
    · exact .inr h
    · exact .inl (hkept (.inr h))

theorem snapshot_of_mem_takes (h : .spawn snapshot ∈ dues.takes r q a) : q = .snapshot := by
  cases q with
  | snapshot => rfl
  | register c =>
    obtain ⟨n, displaced⟩ := a
    cases displaced <;> simp [dues] at h
  | remove n => cases a <;> simp [dues] at h
  | _ => exact absurd h (Multiset.notMem_zero _)

theorem Publishing.advance (h : Publishing tr m o)
    (ho : o' + dues.pays r q = o + dues.takes r q a) (hserved : serve x m q = some (a, m'))
    (hev : ev.result = some ⟨q, a⟩) (hsucceeds : ∀ snapshot,
      (⟨q, a⟩ : Exchange Question Answer) ≠ ⟨.publish, some (snapshot, false)⟩) :
    Publishing (ev :: tr) m' o' := by
  have hnotify : q ≠ .snapshot → .notify ∈ o ∨ .notify ∈ dues.takes r q a → .notify ∈ o' :=
    fun hq hn => (mem_of_transfer ho hn).resolve_right (hq ∘ snapshot_of_mem_pays)
  have hway : q ≠ .snapshot → (∀ s, q ≠ .spawn s) → ∀ spawned snapshot,
      OnItsWay spawned o' snapshot ↔ OnItsWay spawned o snapshot := by
    intro hq hq' spawned snapshot
    rw [onItsWay_iff ho hq']
    exact ⟨fun h => h.resolve_right (hq ∘ snapshot_of_mem_takes), .inl⟩
  -- what a question without tokens of this kind leaves to show
  have hquiet : q ≠ .snapshot → (∀ s, q ≠ .spawn s) →
      m.publishedVersion = m.tagsVersion ∨ .notify ∈ o' ∨
        ∃ snapshot, OnItsWay m.spawned o' snapshot ∧ snapshot.version = m.tagsVersion := by
    intro hq hq'
    refine h.current.imp_right (.imp (hnotify hq ∘ .inl) ?_)
    rintro ⟨snapshot, hsnapshot, hversion⟩
    exact ⟨snapshot, (hway hq hq' _ _).mpr hsnapshot, hversion⟩
  cases q with
  | register c =>
    cases hserved
    refine h.bump (by rw [hev]; rfl) rfl rfl rfl (hnotify (by simp) (.inr ?_)) ?_
    · cases hget : m.members.get c.id <;> simp [dues]
    · exact fun snapshot => (hway (by simp) (by simp) _ snapshot).mp
  | remove n =>
    simp only [serve] at hserved
    split at hserved
    · cases hserved
    split at hserved
    · cases hserved
      refine h.bump (by rw [hev]; rfl) rfl rfl rfl (hnotify (by simp) (.inr ?_)) ?_
      · simp [dues]
      · exact fun snapshot => (hway (by simp) (by simp) _ snapshot).mp
    · cases hserved
      exact h.frame (by rw [hev]; rfl) rfl rfl rfl rfl
        (fun snapshot hs => .inl ((hway (by simp) (by simp) _ snapshot).mp hs))
        (hquiet (by simp) (by simp))
  | evict n =>
    cases hserved
    exact h.frame (by rw [hev]; rfl) rfl rfl rfl rfl
      (fun snapshot hs => .inl ((hway (by simp) (by simp) _ snapshot).mp hs))
      (hquiet (by simp) (by simp))
  | snapshot =>
    cases hserved
    rw [h.onChange] at ho hev
    have htaken : .spawn ⟨m.tagsVersion, m.computeTagsLocked⟩ ∈ o' := by
      refine (mem_of_transfer ho (.inr ?_)).resolve_right fun hpaid => ?_
      · exact Multiset.mem_singleton_self _
      · cases Multiset.mem_singleton.mp hpaid
    refine h.frame (by rw [hev]; rfl) rfl rfl rfl rfl (fun snapshot hs => ?_)
      (.inr (.inr ⟨_, .inl htaken, rfl⟩))
    refine ((onItsWay_iff ho (by simp)).mp hs).imp_right fun hnew => ?_
    obtain rfl := Token.spawn.inj (Multiset.mem_singleton.mp hnew)
    exact ⟨le_rfl, fun _ => rfl⟩
  | spawn snapshot =>
    cases hserved
    have ho : o' + {.spawn snapshot} = o := by simpa [dues] using ho
    subst ho
    have hiff : ∀ snapshot', OnItsWay (m.spawned ++ [snapshot]) o' snapshot' ↔
        OnItsWay m.spawned (o' + {.spawn snapshot}) snapshot' := by
      intro snapshot'
      simp only [OnItsWay, List.mem_append, List.mem_singleton, Multiset.mem_add,
        Multiset.mem_singleton, Token.spawn.injEq]
      exact ⟨fun h => by tauto, fun h => by tauto⟩
    refine h.frame (by rw [hev]; rfl) rfl rfl rfl rfl (fun _ hs => .inl ((hiff _).mp hs)) ?_
    refine h.current.imp_right (.imp (hnotify (by simp) ∘ .inl) ?_)
    rintro ⟨snapshot', hs, hversion⟩
    exact ⟨snapshot', (hiff snapshot').mpr hs, hversion⟩
  | publish =>
    obtain ⟨snapshot, hspawned, hpublish⟩ := publish_served hserved
    have ho : o' = o := by simpa [dues] using ho
    subst ho
    cases hpublish with
    | stale hle => exact h.stale hspawned hle h.bound (by rw [hev]; rfl)
    | published hlt => exact h.publish hspawned hlt (by rw [hev]; rfl)
    | failed hlt => exact absurd rfl (hsucceeds snapshot)

end Step

/-! ## Runs -/

/-! ## The aggregate of the members -/

/-- The connection is registered under some id. -/
def Member (r : MemberRegistry) (c : Connection) : Prop :=
  ∃ id n, r.members.get id = some n ∧ r.connections[n]? = some c

/-- The tags of the registered members, by tenant and each once. -/
structure Aggregates (r : MemberRegistry) (tags : TagMap) : Prop where
  tenants : ∀ t, t ∈ tags.keys ↔ ∃ c, r.Member c ∧ c.tenantID = t
  listed : ∀ t tag, tag ∈ tags.getD t [] ↔ ∃ c, r.Member c ∧ c.tenantID = t ∧ tag ∈ c.tags
  nodup : ∀ t, (tags.getD t []).Nodup

section Aggregate

variable {cs : List Connection} {tags : TagMap} {t : String}

theorem mem_keys_foldl_addTags :
    t ∈ (cs.foldl addTags tags).keys ↔ t ∈ tags.keys ∨ ∃ c ∈ cs, c.tenantID = t := by
  induction cs generalizing tags with
  | nil => simp
  | cons c cs ih =>
    rw [List.foldl_cons, ih, addTags, GoMap.mem_keys_set]
    simp only [List.mem_cons, exists_eq_or_imp, eq_comm (a := t)]
    tauto

theorem mem_foldl_addTags {tag : String} : tag ∈ (cs.foldl addTags tags).getD t [] ↔
    tag ∈ tags.getD t [] ∨ ∃ c ∈ cs, c.tenantID = t ∧ tag ∈ c.tags := by
  induction cs generalizing tags with
  | nil => simp
  | cons c cs ih =>
    rw [List.foldl_cons, ih, addTags, GoMap.getD_set]
    by_cases ht : t = c.tenantID
    · subst ht
      simp [or_assoc]
    · simp [ht, Ne.symm ht]

theorem nodup_foldl_addTags (h : ∀ t, (tags.getD t []).Nodup) :
    ((cs.foldl addTags tags).getD t []).Nodup := by
  induction cs generalizing tags with
  | nil => exact h t
  | cons c cs ih =>
    refine ih fun t => ?_
    rw [addTags, GoMap.getD_set]
    split
    · exact List.nodup_dedup _
    · exact h t

theorem aggregates_computeTagsLocked (r : MemberRegistry) : Aggregates r r.computeTagsLocked := by
  have hfold : r.computeTagsLocked = ((r.members.inOrder r.members.keys).filterMap
      fun p => r.connections[p.2]?).foldl addTags ∅ := by
    rw [computeTagsLocked, List.foldl_filterMap]
    congr 1
    funext tags p
    cases r.connections[p.2]? <;> rfl
  have hmember (c : Connection) : c ∈ (r.members.inOrder r.members.keys).filterMap
      (fun p => r.connections[p.2]?) ↔ r.Member c := by
    simp only [List.mem_filterMap, Prod.exists, GoMap.mem_inOrder, Member]
    exact exists₂_congr fun id n => ⟨fun h => ⟨h.1.2, h.2⟩, fun h =>
      ⟨⟨GoMap.mem_keys_of_get h.1, h.1⟩, h.2⟩⟩
  rw [hfold]
  refine ⟨fun t => ?_, fun t tag => ?_, fun t => nodup_foldl_addTags fun t => ?_⟩
  · simp [mem_keys_foldl_addTags, hmember]
  · rw [mem_foldl_addTags]
    simp [hmember, GoMap.getD]
  · simp [GoMap.getD]

end Aggregate

section Runs

variable {tr : Trace} {s s' : System} {own : ℕ →₀ Multiset Token}
  {e : Option (Exchange Question Answer)} {move : Move Request Outside}

structure Kept (s : System) (own : ℕ →₀ Multiset Token) : Prop where
  ledger : Threads.Ledger dues s own
  retiring : Retiring s.shared (Threads.owned own)

theorem Kept.step (h : Kept s own) (hstep : System.step s move = some (e, s')) :
    ∃ own', Kept s' own' ∧ ∀ tr, Publishing tr s.shared (Threads.owned own) →
      (∀ snapshot, e ≠ some ⟨.publish, some (snapshot, false)⟩) →
      Publishing (⟨s, move, e, s'⟩ :: tr) s'.shared (Threads.owned own') := by
  cases move with
  | start c r =>
    obtain ⟨hown, hledger⟩ := h.ledger.start (settles_body r) hstep
    have howned : Threads.owned (own.update c (dues.given r)) = Threads.owned own :=
      (Threads.owned_start _ hown).trans (add_zero _)
    have he : e = none := by
      obtain ⟨-, heq⟩ := Option.ite_none_right_eq_some.mp hstep
      exact (Prod.mk.inj (Option.some.inj heq)).1.symm
    obtain ⟨-, rfl⟩ := Threads.start_cases hstep
    subst he
    refine ⟨_, ⟨hledger, howned ▸ h.retiring⟩, fun tr hpublishing _ => ?_⟩
    rw [howned]
    exact hpublishing.frame rfl rfl rfl rfl rfl (fun _ => .inl) hpublishing.current
  | advance c x =>
    obtain ⟨r, q, next, a, hadv, rfl⟩ := Threads.advance_cases hstep
    obtain ⟨rest, hown, -, hledger⟩ := h.ledger.advance hadv
    have howned := Threads.owned_advance (a := a) hown
    refine ⟨_, ⟨hledger, h.retiring.advance howned hadv.served⟩, fun tr hpublishing hs => ?_⟩
    exact hpublishing.advance howned hadv.served rfl fun snapshot heq =>
      hs snapshot (congrArg some heq)

/-- Every call of the callback so far has succeeded. -/
def AllSucceeded (tr : Trace) : Prop :=
  ∀ e ∈ tr, ∀ snapshot, e.result ≠ some ⟨.publish, some (snapshot, false)⟩

theorem exists_kept_of_run (hrun : Run System.step AnyStep ⟨.new, ∅⟩ tr s) :
    ∃ own, Kept s own ∧ (AllSucceeded tr → Publishing tr s.shared (Threads.owned own)) := by
  refine hrun.inv (I := fun tr s => ∃ own, Kept s own ∧
    (AllSucceeded tr → Publishing tr s.shared (Threads.owned own))) ⟨0, ⟨?_, ?_⟩, fun _ => ?_⟩ ?_
  · exact ⟨(fun _ _ _ hget => nomatch hget), fun _ _ => rfl⟩
  · exact ⟨(fun _ _ hget => nomatch hget), (fun _ _ hget => nomatch hget)⟩
  · refine ⟨rfl, ?_, (fun _ hmem => nomatch hmem), .nil, .inl ⟨rfl, rfl⟩, .inl rfl⟩
    rintro snapshot (hmem | hmem)
    · exact absurd hmem (Multiset.notMem_zero _)
    · cases hmem
  · rintro tr x move e y ⟨own, hkept, hpublishing⟩ - hstep
    obtain ⟨own', hkept', hnext⟩ := hkept.step hstep
    refine ⟨own', hkept', fun hall => hnext tr (hpublishing fun e he => ?_) ?_⟩
    · exact hall e (List.mem_cons_of_mem _ he)
    · exact hall _ List.mem_cons_self

/-- Unregistering removes the member itself or nothing. -/
theorem remove_served {m m' : MemberRegistry} {x : Outside} {n n' : ℕ} {found : Bool} {id : String}
    (h : serve x m (.remove n) = some (found, m')) (hne : n' ≠ n)
    (hget : m.members.get id = some n') : m'.members.get id = some n' := by
  simp only [serve] at h
  split at h
  · cases h
  · next c hn =>
    split at h
    · next hself =>
      cases h
      refine (GoMap.get_del_of_ne _ ?_).trans hget
      rintro rfl
      exact hne (Option.some.inj (hget.symm.trans hself))
    · cases h
      exact hget

/-- Unregistering a member leaves all others in place; when the calls have returned every
member that is not in the map has been evicted; and if the callback never fails, the snapshots
that it gets have increasing versions, the last one with the tags that the members have. -/
theorem members_evicted_and_published (hrun : Run System.step AnyStep ⟨.new, ∅⟩ tr s) :
    (∀ e ∈ tr, ∀ n found, e.result = some ⟨.remove n, found⟩ → ∀ id n', n' ≠ n →
      e.before.shared.members.get id = some n' → e.after.shared.members.get id = some n') ∧
    ((∀ c r, ¬ s.Running c r) → ∀ n c, s.shared.connections[n]? = some c →
      s.shared.members.get c.id ≠ some n → n ∈ s.shared.evicted) ∧
    (AllSucceeded tr →
      ((published tr).Pairwise fun newer older => older.version < newer.version) ∧
      ((∀ c r, ¬ s.Running c r) → s.shared.spawned = [] →
        s.shared.tagsVersion = 0 ∧ published tr = [] ∨
          ∃ snapshot, (published tr).head? = some snapshot ∧
            snapshot.version = s.shared.tagsVersion ∧ Aggregates s.shared snapshot.tags)) := by
  obtain ⟨own, hkept, hpublishing⟩ := exists_kept_of_run hrun
  refine ⟨?_, ?_, ?_⟩
  · intro e he n found hresult id n' hne hget
    obtain ⟨-, -, -, hstep⟩ := hrun.of_mem he
    cases haction : e.action with
    | start c r =>
      rw [haction] at hstep
      obtain ⟨-, heq⟩ := Option.ite_none_right_eq_some.mp hstep
      exact nomatch (Prod.mk.inj (Option.some.inj heq)).1.trans hresult
    | advance c x =>
      rw [haction] at hstep
      obtain ⟨r, q, next, a, hadv, hq⟩ := Threads.advance_cases hstep
      obtain ⟨rfl, ha⟩ := Sigma.mk.inj (Option.some.inj (hq.symm.trans hresult))
      obtain rfl := eq_of_heq ha
      exact remove_served hadv.served hne hget
  · intro hreturned n c hn hget
    have hnone := hkept.ledger.owned_eq_zero hreturned
    obtain hin | hevicted | howed := hkept.retiring.retired n c hn
    · exact absurd hin hget
    · exact hevicted
    · rw [hnone] at howed
      exact absurd howed (Multiset.notMem_zero _)
  · intro hall
    have hp := hpublishing hall
    refine ⟨hp.increasing, fun hreturned hspawned => ?_⟩
    have hnone := hkept.ledger.owned_eq_zero hreturned
    have hcurrent : s.shared.publishedVersion = s.shared.tagsVersion := by
      obtain hcurrent | hnotify | ⟨snapshot, hway | hway, -⟩ := hp.current
      · exact hcurrent
      · exact absurd (hnone ▸ hnotify) (Multiset.notMem_zero _)
      · exact absurd (hnone ▸ hway) (Multiset.notMem_zero _)
      · rw [hspawned] at hway
        cases hway
    obtain ⟨hzero, hempty⟩ | ⟨snapshot, hhead, hversion, hdescribes⟩ := hp.latest
    · exact .inl ⟨hcurrent ▸ hzero, hempty⟩
    · have hversion := hversion.trans hcurrent
      exact .inr ⟨snapshot, hhead, hversion,
        hdescribes.2 hversion ▸ aggregates_computeTagsLocked s.shared⟩

end Runs

namespace Sample

def advances (c g n : ℕ) : List (Move Request Outside) := List.replicate n (.advance c ⟨g, true⟩)

/-- A member registers twice, the handler of the displaced connection unregisters it, and the
two goroutines publish in the wrong order. -/
def reregistered : List (Move Request Outside) :=
  [.start 0 (.register ⟨"m", "t", ["a"]⟩)] ++ advances 0 0 3 ++
    [.start 1 (.register ⟨"m", "t", ["b"]⟩)] ++ advances 1 0 4 ++
    [.start 2 (.unregister (some 0))] ++ advances 2 0 2 ++
    [.start 3 .publish] ++ advances 3 1 1 ++ [.start 4 .publish] ++ advances 4 0 1

def succeeded : Option (Exchange Question Answer) → Bool
  | some ⟨.publish, some (_, false)⟩ => false
  | _ => true

theorem ne_of_succeeded {e : Option (Exchange Question Answer)} (h : succeeded e = true)
    (snapshot : Snapshot) : e ≠ some ⟨.publish, some (snapshot, false)⟩ := by
  rintro rfl
  cases h

end Sample

theorem members_evicted_and_published_after_reregistration : ∃ (tr : Trace) (s : System),
    Run System.step AnyStep ⟨.new, ∅⟩ tr s ∧ 0 ∈ s.shared.evicted ∧
      ∃ snapshot, (published tr).head? = some snapshot ∧ Aggregates s.shared snapshot.tags ∧
        "b" ∈ snapshot.tags.getD "t" [] := by
  have hexecuted : ∃ (tr : Trace) (s : System), Run System.step AnyStep ⟨.new, ∅⟩ tr s ∧
      (tr.all (fun e => Sample.succeeded e.result) && s.allReturned && s.shared.spawned.isEmpty &&
        decide (s.shared.tagsVersion = 2 ∧ s.shared.connections[0]? = some ⟨"m", "t", ["a"]⟩ ∧
          s.shared.connections[1]? = some ⟨"m", "t", ["b"]⟩ ∧
          s.shared.members.get "m" = some 1)) = true :=
    exists_any_of_execute Sample.reregistered (by decide +kernel)
  obtain ⟨tr, s, hrun, hcheck⟩ := hexecuted
  simp only [Bool.and_eq_true, decide_eq_true_eq, List.all_eq_true, List.isEmpty_iff] at hcheck
  obtain ⟨⟨⟨hall, hreturned⟩, hspawned⟩, hversion, hfirst, hsecond, hget⟩ := hcheck
  have hreturned : ∀ c r, ¬ s.Running c r := fun c => Threads.not_running_of_allReturned hreturned
  obtain ⟨-, hevicted, hpublished⟩ := members_evicted_and_published hrun
  obtain ⟨-, hlast⟩ := hpublished fun e he => Sample.ne_of_succeeded (hall e he)
  refine ⟨tr, s, hrun, hevicted hreturned 0 _ hfirst (by simp [hget]), ?_⟩
  obtain ⟨hzero, -⟩ | ⟨snapshot, hhead, -, htags⟩ := hlast hreturned hspawned
  · omega
  · exact ⟨snapshot, hhead, htags, (htags.listed "t" "b").mpr ⟨_, ⟨"m", 1, hget, hsecond⟩, rfl,
      by simp⟩⟩

end CyodaGo.Grpc.MemberRegistry
