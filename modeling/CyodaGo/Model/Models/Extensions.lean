import CyodaGo.Model.Models.Descriptor

/-! # The extension log

The rows of `model_schema_extensions` for one model, in the order of their primary key. -/

namespace CyodaGo.Models

variable {S Δ A E : Type}

inductive Payload (S Δ : Type) where
  | delta (d : Δ)
  | savepoint (s : S)

structure Row (S Δ : Type) where
  seq : Nat
  payload : Payload S Δ

structure ExtensionLog (S Δ : Type) where
  rows : List (Row S Δ)
  ascending : rows.Pairwise fun a b => a.seq < b.seq
  positive : ∀ r ∈ rows, 0 < r.seq

namespace Row

def savepoint? (r : Row S Δ) : Option (Nat × S) :=
  match r.payload with
  | .savepoint s => some (r.seq, s)
  | .delta _ => none

def delta? (r : Row S Δ) : Option Δ :=
  match r.payload with
  | .savepoint _ => none
  | .delta d => some d

end Row

namespace ExtensionLog

def empty : ExtensionLog S Δ := ⟨[], .nil, by simp⟩

variable (log : ExtensionLog S Δ)

/-- `COALESCE(MAX(seq), 0)`. -/
def maxSeq : Nat := (log.rows.map Row.seq).max?.getD 0

theorem seq_le_maxSeq {r : Row S Δ} (hr : r ∈ log.rows) : r.seq ≤ log.maxSeq := by
  have hmem : r.seq ∈ log.rows.map Row.seq := List.mem_map_of_mem hr
  cases hmax : (log.rows.map Row.seq).max? with
  | none =>
    rw [List.max?_eq_none_iff] at hmax
    rw [hmax] at hmem
    exact absurd hmem List.not_mem_nil
  | some m =>
    rw [maxSeq, hmax]
    exact (List.max?_eq_some_iff.mp hmax).2 _ hmem

/-- A row above all others; `skip` values of the sequence went to other models. -/
def insert (skip : Nat) (payload : Payload S Δ) : ExtensionLog S Δ where
  rows := log.rows ++ [⟨log.maxSeq + 1 + skip, payload⟩]
  ascending := by
    refine List.pairwise_append.mpr ⟨log.ascending, List.pairwise_singleton _ _, ?_⟩
    intro a ha b hb
    have hle := log.seq_le_maxSeq ha
    rw [List.mem_singleton.mp hb]
    show a.seq < log.maxSeq + 1 + skip
    omega
  positive := by
    intro r hr
    rcases List.mem_append.mp hr with hr | hr
    · exact log.positive r hr
    rw [List.mem_singleton.mp hr]
    show 0 < log.maxSeq + 1 + skip
    omega

/-- `kind = 'savepoint' ORDER BY seq DESC LIMIT 1`. -/
def lastSavepoint : Option (Nat × S) := (log.rows.filterMap Row.savepoint?).getLast?

def lastSavepointSeq : Nat := (log.lastSavepoint.map Prod.fst).getD 0

/-- `kind = 'delta' AND seq > ? ORDER BY seq ASC`. -/
def deltasAfter (seq : Nat) : List Δ := (log.rows.filter fun r => seq < r.seq).filterMap Row.delta?

/-- All deltas in log order. -/
def deltas : List Δ := log.rows.filterMap Row.delta?

end ExtensionLog

/-- What the database holds of one model reference: the `models` row and the log. -/
structure Tables (S Δ A : Type) where
  row : Option (ModelDescriptor S A)
  log : ExtensionLog S Δ

/-- One round of the fold. The wiring is only looked at when there is a delta. -/
def replayDelta (applyFunc : Option (ApplyFunc S Δ E)) (current : Option S) (delta : Δ) :
    Except (StoreError E) (Option S) :=
  match applyFunc with
  | none => .error .pendingDeltas
  | some apply =>
    match apply current delta with
    | .error err => .error (.applyDelta err)
    | .ok schema => .ok (some schema)

/-- The schema from the last savepoint, or the base, and the deltas after it. -/
def foldLocked (applyFunc : Option (ApplyFunc S Δ E)) (log : ExtensionLog S Δ)
    (baseSchema : Option S) : Except (StoreError E) (Option S) :=
  match log.lastSavepoint with
  | none => (log.deltasAfter 0).foldlM (replayDelta applyFunc) baseSchema
  | some (savepointSeq, payload) =>
    (log.deltasAfter savepointSeq).foldlM (replayDelta applyFunc) (some payload)

end CyodaGo.Models
