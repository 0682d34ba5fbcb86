import CyodaGo.Model.Models.Extensions
import CyodaGo.Shared.Snapshots

/-! # Folding the extension log

The queries of the fold go by sequence numbers. As the rows ascend, the fold replays the log
from its last savepoint: the savepoint's own number separates what it holds from what comes
after it. -/

namespace CyodaGo.Models

open Snapshots

variable {S Δ A E : Type}

/-- A row as an entry of a log with snapshots. -/
def Row.entry (r : Row S Δ) : Snapshots.Entry (Option S) Δ :=
  match r.payload with
  | .delta d => .update d
  | .savepoint s => .snapshot (some s)

def ExtensionLog.entries (log : ExtensionLog S Δ) : List (Snapshots.Entry (Option S) Δ) :=
  log.rows.map Row.entry

namespace ExtensionLog

variable {log : ExtensionLog S Δ} {base : Option S} {skip : Nat}

@[simp] theorem entries_insert (payload : Payload S Δ) :
    (log.insert skip payload).entries = log.entries ++ [Row.entry ⟨log.maxSeq + 1 + skip, payload⟩] := by
  simp [entries, insert]

@[simp] theorem updates_entries (log : ExtensionLog S Δ) : updates log.entries = log.deltas := by
  rw [entries, deltas, updates, List.filterMap_map]
  refine List.filterMap_congr fun r _ => ?_
  cases h : r.payload <;> simp [Row.entry, Row.delta?, h]

end ExtensionLog

/-- The number and the schema the fold starts from. -/
def startOf (rows : List (Row S Δ)) (base : Option S) : Nat × Option S :=
  match (rows.filterMap Row.savepoint?).getLast? with
  | none => (0, base)
  | some (seq, payload) => (seq, some payload)

def deltasAbove (rows : List (Row S Δ)) (seq : Nat) : List Δ :=
  (rows.filter fun r => seq < r.seq).filterMap Row.delta?

/-- The number the fold starts from is that of some row, or zero. -/
theorem startOf_lt {rows : List (Row S Δ)} (base : Option S) {n : Nat} (hn : 0 < n)
    (hrows : ∀ r ∈ rows, r.seq < n) : (startOf rows base).1 < n := by
  cases hlast : (rows.filterMap Row.savepoint?).getLast? with
  | none => simpa [startOf, hlast] using hn
  | some x =>
    obtain ⟨r, hr, hx⟩ := List.mem_filterMap.mp (List.mem_of_getLast? hlast)
    cases hpayload : r.payload with
    | delta d => simp [Row.savepoint?, hpayload] at hx
    | savepoint s =>
      simp only [Row.savepoint?, hpayload, Option.some.injEq] at hx
      subst hx
      simpa [startOf, hlast] using hrows r hr

/-- The savepoint found by number and the deltas above it are where the log resumes. -/
theorem startOf_deltasAbove (base : Option S) {rows : List (Row S Δ)}
    (hascending : rows.Pairwise fun a b => a.seq < b.seq) (hpositive : ∀ r ∈ rows, 0 < r.seq) :
    ((startOf rows base).2, deltasAbove rows (startOf rows base).1) =
      resume base (rows.map Row.entry) := by
  induction rows using List.reverseRecOn with
  | nil => rfl
  | append_singleton rows r ih =>
    obtain ⟨hrows, -, hlt⟩ := List.pairwise_append.mp hascending
    have hbelow : ∀ a ∈ rows, a.seq < r.seq := fun a ha => hlt a ha r (List.mem_singleton_self r)
    have ih := ih hrows fun a ha => hpositive a (List.mem_append_left _ ha)
    rw [List.map_append, List.map_singleton, resume_append, ← ih]
    cases hpayload : r.payload with
    | delta d =>
      have hstart : startOf (rows ++ [r]) base = startOf rows base := by
        simp [startOf, Row.savepoint?, hpayload]
      have habove := startOf_lt base (hpositive r (by simp)) hbelow
      rw [hstart]
      simp [deltasAbove, Row.entry, Row.delta?, advance, hpayload, habove]
    | savepoint s =>
      have hstart : startOf (rows ++ [r]) base = (r.seq, some s) := by
        simp [startOf, Row.savepoint?, hpayload]
      have hnone : rows.filter (fun a => decide (r.seq < a.seq)) = [] :=
        List.filter_eq_nil_iff.mpr fun a ha => by simpa using (hbelow a ha).le
      rw [hstart]
      simp [deltasAbove, Row.entry, advance, hpayload, hnone]

section Fold

variable {applyFunc : Option (ApplyFunc S Δ E)} {log : ExtensionLog S Δ} {base : Option S}
  {skip : Nat}

theorem foldLocked_eq_replay :
    foldLocked applyFunc log base = replay (replayDelta applyFunc) base log.entries := by
  have hstart := startOf_deltasAbove base log.ascending log.positive
  rw [replay, ExtensionLog.entries, ← hstart]
  rw [foldLocked, ExtensionLog.lastSavepoint]
  cases hlast : (log.rows.filterMap Row.savepoint?).getLast? with
  | none => simp only [startOf, hlast]; rfl
  | some x => simp only [startOf, hlast]; rfl

/-- A delta above all rows is applied last. -/
theorem foldLocked_insert_delta (delta : Δ) :
    foldLocked applyFunc (log.insert skip (.delta delta)) base =
      (foldLocked applyFunc log base >>= (replayDelta applyFunc · delta)) := by
  rw [foldLocked_eq_replay, foldLocked_eq_replay, ExtensionLog.entries_insert]
  exact replay_update

/-- A savepoint above all rows is all that counts. -/
@[simp] theorem foldLocked_insert_savepoint (payload : S) :
    foldLocked applyFunc (log.insert skip (.savepoint payload)) base = .ok (some payload) := by
  rw [foldLocked_eq_replay, ExtensionLog.entries_insert]
  exact replay_snapshot

end Fold

namespace Sample

/-- Schemas are lists of names, and a delta adds one. -/
def addName : ApplyFunc (List Nat) Nat Unit := fun schema name => .ok (schema.getD [] ++ [name])

def model (schema : List Nat) : ModelDescriptor (List Nat) Unit :=
  ⟨.unlocked, .structural, some schema, ()⟩

end Sample

end CyodaGo.Models
