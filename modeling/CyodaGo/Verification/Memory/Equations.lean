import CyodaGo.Model.Memory.Machine
import CyodaGo.Shared.Timeline

/-! # Equations of the factory helpers -/

namespace CyodaGo.Memory

namespace StoreFactory

variable (f : StoreFactory) (tid : TenantID) (eid : EntityID)

/-! ## Histories -/

theorem versions_setVersions (vs : List EntityVersion) (t : TenantID) (e : EntityID) :
    (f.setVersions tid eid vs).versions t e = if t = tid ∧ e = eid then vs else f.versions t e := by
  unfold setVersions versions tenantData
  by_cases ht : t = tid
  · subst ht
    simp [GoMap.getD_set]
  · simp [GoMap.getD_set, ht]

@[simp] theorem versions_setVersions_self (vs : List EntityVersion) :
    (f.setVersions tid eid vs).versions tid eid = vs := by
  simp [versions_setVersions]

variable (model : ModelRef) (txID : TxID) (claims : List UniqueClaim) (version : Int) (t : TenantID)
  (e : EntityID)

@[simp] theorem versions_releaseClaims :
    (f.releaseClaims tid eid).versions t e = f.versions t e := rfl

@[simp] theorem versions_insertClaims :
    (f.insertClaims eid tid model claims).versions t e = f.versions t e := by
  unfold insertClaims
  split <;> rfl

@[simp] theorem versions_recordTxIndex :
    (f.recordTxIndex tid eid txID version).versions t e = f.versions t e := by
  unfold recordTxIndex
  split
  · rfl
  split
  · split <;> rfl
  · rfl

/-! ## The transaction index -/

@[simp] theorem txIndex_setVersions (vs : List EntityVersion) :
    (f.setVersions tid eid vs).txIndex = f.txIndex := rfl

@[simp] theorem txIndex_releaseClaims : (f.releaseClaims tid eid).txIndex = f.txIndex := rfl

@[simp] theorem txIndex_insertClaims :
    (f.insertClaims eid tid model claims).txIndex = f.txIndex := by
  unfold insertClaims
  split <;> rfl

/-- Recording keeps an entry that is already as early. -/
theorem txIndex_recordTxIndex (key : TenantID × EntityID × TxID) :
    (f.recordTxIndex tid eid txID version).txIndex.get key =
      if key = (tid, eid, txID) ∧ txID ≠ "" then
        some (((f.txIndex.get key).filter (· ≤ version)).getD version)
      else f.txIndex.get key := by
  unfold recordTxIndex
  by_cases hempty : txID = ""
  · simp [hempty]
  by_cases hkey : key = (tid, eid, txID)
  · subst hkey
    cases hget : f.txIndex.get (tid, eid, txID) with
    | none => simp [hempty]
    | some existing =>
      by_cases hle : existing ≤ version
      · simp [hempty, hle, hget, Option.filter]
      · simp [hempty, hle, Option.filter]
  · cases hget : f.txIndex.get (tid, eid, txID) with
    | none => simp [hempty, hkey, GoMap.get_set_of_ne]
    | some existing =>
      by_cases hle : existing ≤ version
      · simp [hempty, hkey, hle]
      · simp [hempty, hkey, hle, GoMap.get_set_of_ne]

/-! ## Claims -/

@[simp] theorem uniqueClaims_setVersions (vs : List EntityVersion) :
    (f.setVersions tid eid vs).uniqueClaims = f.uniqueClaims := rfl

@[simp] theorem claimsByEntity_setVersions (vs : List EntityVersion) :
    (f.setVersions tid eid vs).claimsByEntity = f.claimsByEntity := rfl

/-- Recording a transaction touches the index only. -/
theorem recordTxIndex_eq :
    ∃ index, f.recordTxIndex tid eid txID version = { f with txIndex := index } := by
  unfold recordTxIndex
  split
  · exact ⟨f.txIndex, rfl⟩
  split
  · split
    · exact ⟨f.txIndex, rfl⟩
    · exact ⟨_, rfl⟩
  · exact ⟨_, rfl⟩

@[simp] theorem uniqueClaims_recordTxIndex :
    (f.recordTxIndex tid eid txID version).uniqueClaims = f.uniqueClaims := by
  obtain ⟨index, heq⟩ := f.recordTxIndex_eq tid eid txID version
  rw [heq]

@[simp] theorem claimsByEntity_recordTxIndex :
    (f.recordTxIndex tid eid txID version).claimsByEntity = f.claimsByEntity := by
  obtain ⟨index, heq⟩ := f.recordTxIndex_eq tid eid txID version
  rw [heq]

/-! ## Scheduled tasks -/

@[simp] theorem scheduledTasks_recordTxIndex :
    (f.recordTxIndex tid eid txID version).scheduledTasks = f.scheduledTasks := by
  obtain ⟨index, heq⟩ := f.recordTxIndex_eq tid eid txID version
  rw [heq]

@[simp] theorem scheduledTasks_insertClaims :
    (f.insertClaims eid tid model claims).scheduledTasks = f.scheduledTasks := by
  unfold insertClaims
  split <;> rfl

end StoreFactory

/-! ## Direct writes -/

section Writes

variable (f : StoreFactory) (tid : TenantID)

theorem versions_writeSaved (entity : Entity) (version : Int) (now creationDate : Time)
    (claims : List UniqueClaim) (t : TenantID) (e : EntityID) :
    (f.writeSaved tid entity version now creationDate claims).versions t e =
      if t = tid ∧ e = entity.info.id then
        f.versions tid entity.info.id ++ [savedVersion tid entity version now creationDate
          (deriveChangeType entity.info.changeType
            (!(f.versions tid entity.info.id).isEmpty))]
      else f.versions t e := by
  simp [StoreFactory.writeSaved, StoreFactory.versions_setVersions]

theorem txIndex_writeSaved (entity : Entity) (version : Int) (now creationDate : Time)
    (claims : List UniqueClaim) (key : TenantID × EntityID × TxID) :
    (f.writeSaved tid entity version now creationDate claims).txIndex.get key =
      (f.recordTxIndex tid entity.info.id entity.info.transactionID version).txIndex.get key := by
  simp [StoreFactory.writeSaved, StoreFactory.txIndex_recordTxIndex]

theorem versions_writeDeleted (eid : EntityID) (version : Int) (now : Time) (a : WriteAttribution)
    (t : TenantID) (e : EntityID) :
    (f.writeDeleted tid eid version now a).versions t e =
      if t = tid ∧ e = eid then f.versions tid eid ++ [tombstone version "" now a]
      else f.versions t e := by
  simp [StoreFactory.writeDeleted, StoreFactory.versions_setVersions]

end Writes

/-! ## Scans -/

theorem lastLive_append (vs : List EntityVersion) (row : EntityVersion) :
    lastLive (vs ++ [row]) = ((if row.deleted then none else row.entity).or (lastLive vs)) := by
  unfold lastLive
  rw [List.reverse_append, List.reverse_singleton, List.singleton_append, List.findSome?_cons]
  cases (if row.deleted = true then none else row.entity) <;> rfl

@[simp] theorem baseVersion_nil : baseVersion [] = 0 := rfl

variable {vs : List EntityVersion} {row : EntityVersion}

theorem baseVersion_append_live {e : Entity} (hdel : row.deleted = false)
    (hent : row.entity = some e) :
    baseVersion (vs ++ [row]) = e.info.version := by
  unfold baseVersion
  rw [lastLive_append]
  simp [hdel, hent]

theorem baseVersion_append_deleted (hdel : row.deleted = true) :
    baseVersion (vs ++ [row]) = baseVersion vs := by
  unfold baseVersion
  rw [lastLive_append]
  simp [hdel]

/-- The newest row decides the base version when it is live. -/
theorem baseVersion_of_getLast {e : Entity} (hlast : vs.getLast? = some row)
    (hdel : row.deleted = false) (hent : row.entity = some e) :
    baseVersion vs = e.info.version := by
  obtain ⟨init, rfl⟩ := List.getLast?_eq_some_iff.mp hlast
  exact baseVersion_append_live hdel hent

/-- When `saveUnlocked` finds a number, it is the one after the base version. -/
theorem nextSaveVersion_eq_ok {n : Int} (h : nextSaveVersion vs = .ok n) :
    n = baseVersion vs + 1 := by
  unfold nextSaveVersion at h
  unfold baseVersion lastLive
  generalize vs.reverse = rows at h ⊢
  induction rows with
  | nil =>
    simp only [List.find?_nil, Outcome.ok.injEq] at h
    simp [← h]
  | cons row rows ih =>
    cases hdel : row.deleted with
    | true =>
      simp only [List.find?_cons, hdel, Bool.not_true] at h
      simpa [hdel] using ih h
    | false =>
      simp only [List.find?_cons, hdel, Bool.not_false] at h
      cases hent : row.entity with
      | none => simp [hent] at h
      | some e =>
        simp only [hent, Outcome.ok.injEq] at h
        simp [hdel, hent, ← h]

/-! ## Direct calls -/

/-- What `saveUnlocked` can do. A crash or a late error has already moved the floor. -/
inductive SaveSpec (spi : Spi) (s : System) (tid : TenantID) (keys : List UniqueKey)
    (entity : Entity) (clock : Time) : Outcome Int → System → Prop where
  | refused {r : Outcome Int} {tm : TransactionManager} (hr : ∀ n, r ≠ .ok n)
      (hcrash : r = .nilDeref → nextSaveVersion (s.factory.versions tid entity.info.id) = .nilDeref ∨
        saveCreationDate (s.factory.versions tid entity.info.id) entity.info.creationDate
          (s.tm.nextSubmitTime clock).1 = .nilDeref)
      (htm : tm = s.tm ∨ tm = (s.tm.nextSubmitTime clock).2) :
      SaveSpec spi s tid keys entity clock r { s with tm := tm }
  | saved {claims : List UniqueClaim} {creationDate : Time}
      (hclaims : spi.computeClaims keys entity.data = some claims)
      (hfree : System.claimTaken s.factory tid entity.info.id entity.info.modelRef claims = false)
      (hdate : saveCreationDate (s.factory.versions tid entity.info.id) entity.info.creationDate
        (s.tm.nextSubmitTime clock).1 = .ok creationDate) :
      SaveSpec spi s tid keys entity clock
        (.ok (baseVersion (s.factory.versions tid entity.info.id) + 1))
        { s with
          factory := s.factory.writeSaved tid entity
            (baseVersion (s.factory.versions tid entity.info.id) + 1)
            (s.tm.nextSubmitTime clock).1 creationDate claims
          tm := (s.tm.nextSubmitTime clock).2 }

theorem saveUnlocked_spec {spi : Spi} {s s' : System} {tid : TenantID} {keys : List UniqueKey}
    {entity : Entity} {clock : Time} {r : Outcome Int}
    (h : s.saveUnlocked spi tid keys entity clock = (r, s')) :
    SaveSpec spi s tid keys entity clock r s' := by
  suffices hspec : SaveSpec spi s tid keys entity clock
      (s.saveUnlocked spi tid keys entity clock).1
      (s.saveUnlocked spi tid keys entity clock).2 by
    rw [h] at hspec
    exact hspec
  unfold System.saveUnlocked
  dsimp only
  split
  · exact .refused nofun nofun (.inl rfl)
  rename_i claims hclaims
  split
  · exact .refused nofun nofun (.inl rfl)
  rename_i htaken
  split
  · exact .refused nofun nofun (.inl rfl)
  · rename_i hnil
    exact .refused nofun (fun _ => .inl hnil) (.inl rfl)
  · rename_i nextVersion hnext
    obtain rfl := nextSaveVersion_eq_ok hnext
    split
    · exact .refused nofun nofun (.inr rfl)
    · rename_i hnil
      exact .refused nofun (fun _ => .inr hnil) (.inr rfl)
    · rename_i creationDate hdate
      exact .saved hclaims (by simpa using htaken) hdate

/-- What a direct `Delete` can do. -/
inductive DeleteSpec (s : System) (tid : TenantID) (id : EntityID) (a : WriteAttribution)
    (clock : Time) : Outcome Unit → System → Prop where
  | refused {e : Err} : DeleteSpec s tid id a clock (.err e) s
  | crashed {row : EntityVersion} (hlast : (s.factory.versions tid id).getLast? = some row)
      (hdel : row.deleted = false) (hent : row.entity = none) :
      DeleteSpec s tid id a clock .nilDeref { s with tm := (s.tm.nextSubmitTime clock).2 }
  | deleted {row : EntityVersion} {e : Entity}
      (hlast : (s.factory.versions tid id).getLast? = some row) (hdel : row.deleted = false)
      (hent : row.entity = some e) :
      DeleteSpec s tid id a clock (.ok ())
        { s with
          factory := s.factory.writeDeleted tid id (e.info.version + 1)
            (s.tm.nextSubmitTime clock).1 a
          tm := (s.tm.nextSubmitTime clock).2 }

theorem deleteDirect_spec {s s' : System} {tid : TenantID} {id : EntityID} {a : WriteAttribution}
    {clock : Time} {r : Outcome Unit} (h : s.deleteDirect tid id a clock = (r, s')) :
    DeleteSpec s tid id a clock r s' := by
  suffices hspec : DeleteSpec s tid id a clock (s.deleteDirect tid id a clock).1
      (s.deleteDirect tid id a clock).2 by
    rw [h] at hspec
    exact hspec
  unfold System.deleteDirect
  dsimp only
  split
  · exact .refused
  rename_i latest hlast
  split
  · exact .refused
  rename_i hdel
  have hdel : latest.deleted = false := by simpa using hdel
  split
  · rename_i hent
    exact .crashed hlast hdel hent
  rename_i e hent
  exact .deleted hlast hdel hent

/-- What a scan at `t` finds depends on the newest visible row only. -/
theorem scanSnapshot_eq_latestAt (t : Time) (vs : List EntityVersion) :
    System.scanSnapshot t (none, false) vs =
      match Timeline.latestAt EntityVersion.submitTime t vs with
      | none => (none, false)
      | some row => if row.deleted then (none, true) else (row.entity, false) := by
  suffices h : ∀ acc, System.scanSnapshot t acc vs =
      match Timeline.latestAt EntityVersion.submitTime t vs with
      | none => acc
      | some row => if row.deleted then (none, true) else (row.entity, false) from h _
  unfold Timeline.latestAt
  induction vs with
  | nil => intro acc; rfl
  | cons row vs ih =>
    intro acc
    by_cases hle : row.submitTime ≤ t
    · simp only [System.scanSnapshot, hle, if_true, ih, decide_true, List.takeWhile_cons,
        List.getLast?_cons]
      cases (vs.takeWhile fun v => decide (v.submitTime ≤ t)).getLast? with
      | none => simp
      | some last => simp
    · simp [System.scanSnapshot, hle]

end CyodaGo.Memory
