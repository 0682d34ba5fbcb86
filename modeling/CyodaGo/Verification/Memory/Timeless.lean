import CyodaGo.Verification.Memory.Snapshot

/-! # Histories up to their times

Submit times and the dates derived from them are the only data of a history that
depend on the clock. A call that compares no times answers alike over two histories
that differ in nothing else. -/

namespace CyodaGo.Memory

/-! ## Erasing times -/

def EntityMeta.timeless (m : EntityMeta) : EntityMeta :=
  { m with creationDate := 0, lastModifiedDate := 0 }

def Entity.timeless (e : Entity) : Entity := { e with info := e.info.timeless }

def EntityVersion.timeless (v : EntityVersion) : EntityVersion :=
  { v with entity := v.entity.map Entity.timeless, submitTime := 0 }

/-- The two histories differ in their times only. -/
def SameHistory (vs vs' : List EntityVersion) : Prop :=
  vs.map EntityVersion.timeless = vs'.map EntityVersion.timeless

theorem SameHistory.append {vs vs' rows rows' : List EntityVersion} (h : SameHistory vs vs')
    (hrows : SameHistory rows rows') : SameHistory (vs ++ rows) (vs' ++ rows') := by
  unfold SameHistory at h hrows ⊢
  rw [List.map_append, List.map_append, h, hrows]

/-! ## Functions of a history that read no times -/

def TimeFree {A : Type} (g : List EntityVersion → A) : Prop :=
  ∀ vs, g (vs.map EntityVersion.timeless) = g vs

theorem TimeFree.congr {A : Type} {g : List EntityVersion → A} (hg : TimeFree g)
    {vs vs' : List EntityVersion} (h : SameHistory vs vs') : g vs = g vs' := by
  rw [← hg vs, h, hg vs']

theorem timeFree_isEmpty : TimeFree List.isEmpty := fun _ => List.isEmpty_map

theorem lastLive_timeless (vs : List EntityVersion) :
    lastLive (vs.map EntityVersion.timeless) = (lastLive vs).map Entity.timeless := by
  unfold lastLive
  rw [← List.map_reverse, List.findSome?_map]
  induction vs.reverse with
  | nil => rfl
  | cons v vs ih =>
    rw [List.findSome?_cons, List.findSome?_cons]
    cases hdel : v.deleted with
    | true => simpa [EntityVersion.timeless, hdel] using ih
    | false =>
      cases hent : v.entity with
      | none => simpa [EntityVersion.timeless, hdel, hent] using ih
      | some e => simp [EntityVersion.timeless, hdel, hent]

theorem timeFree_baseVersion : TimeFree baseVersion := by
  intro vs
  unfold baseVersion
  rw [lastLive_timeless]
  cases lastLive vs with
  | none => rfl
  | some e => rfl

/-! ## Rows a call appends -/

theorem sameHistory_tombstone (version : Int) (txID : TxID) (now now' : Time) (a : WriteAttribution) :
    SameHistory [tombstone version txID now a] [tombstone version txID now' a] := rfl

theorem sameHistory_flushRows (txID : TxID) (tid : TenantID) (now now' creationDate creationDate' : Time)
    (base : Int) (hasPrior : Bool) (staged : List Entity) :
    SameHistory (flushRows txID tid now creationDate base hasPrior staged)
      (flushRows txID tid now' creationDate' base hasPrior staged) := by
  induction staged generalizing base hasPrior with
  | nil => rfl
  | cons e staged ih =>
    have hrow : SameHistory
        [flushedVersion txID tid now creationDate (base + 1) hasPrior e]
        [flushedVersion txID tid now' creationDate' (base + 1) hasPrior e] := rfl
    exact hrow.append (ih (base + 1) true)

theorem SameHistory.rowsFor {vs vs' : List EntityVersion} (h : SameHistory vs vs') (txID : TxID)
    (tid : TenantID) (now now' : Time) (superseded : List Entity) (entity : Entity) :
    SameHistory (rowsFor txID tid now superseded entity vs)
      (rowsFor txID tid now' superseded entity vs') := by
  unfold Memory.rowsFor
  rw [timeFree_baseVersion.congr h, timeFree_isEmpty.congr h]
  exact sameHistory_flushRows _ _ _ _ _ _ _ _ _

end CyodaGo.Memory
