import CyodaGo.Model.Models.Extensions

/-! # The sqlite plugin's model store

The `models` row and the extension log of one model reference. Every method is one statement or
one transaction. -/

namespace CyodaGo.Models.Sqlite

open Schema (ChangeLevel)

variable {S Δ A E : Type}

variable (applyFunc : Option (ApplyFunc S Δ E)) (interval : Int)

/-- The row is replaced; the extension log is not touched. -/
def save (desc : ModelDescriptor S A) (t : Tables S Δ A) : Tables S Δ A :=
  { t with row := some desc }

variable (t : Tables S Δ A)

def get : Except (StoreError E) (ModelDescriptor S A) :=
  match t.row with
  | none => .error .notFound
  | some desc => do
      let folded ← foldLocked applyFunc t.log desc.schema
      return { desc with schema := folded }

/-- Only the row goes. -/
def delete : Except (StoreError E) (Tables S Δ A) :=
  match t.row with
  | none => .error .notFound
  | some _ => .ok { t with row := none }

def lock : Except (StoreError E) (Tables S Δ A) :=
  match t.row with
  | none => .error .notFound
  | some doc =>
    if doc.state = .locked then .ok t
    else
      let locked := { t with row := some { doc with state := .locked } }
      -- Nothing has been appended since the last savepoint.
      if t.log.maxSeq = t.log.lastSavepointSeq then .ok locked
      else do
        let folded ← foldLocked applyFunc t.log doc.schema
        match folded with
        | none => return locked
        | some payload => return { locked with log := t.log.insert 0 (.savepoint payload) }

/-- `updateStateField` and `SetChangeLevel` read the document, change it and write it back. -/
def update (f : ModelDescriptor S A → ModelDescriptor S A) (t : Tables S Δ A) :
    Except (StoreError E) (Tables S Δ A) :=
  match t.row with
  | none => .error .notFound
  | some doc => .ok { t with row := some (f doc) }

def unlock : Except (StoreError E) (Tables S Δ A) :=
  update (fun doc => { doc with state := .unlocked }) t

def setChangeLevel (level : ChangeLevel) (t : Tables S Δ A) :
    Except (StoreError E) (Tables S Δ A) :=
  update (fun doc => { doc with changeLevel := level }) t

/-- The savepoint trigger, after the delta has been appended at `nextSeq`. -/
def savepointAfter (base : Option S) (nextSeq : Nat) (log : ExtensionLog S Δ) :
    Except (StoreError E) (ExtensionLog S Δ) :=
  if 0 < interval ∧ interval ≤ (nextSeq : Int) - log.lastSavepointSeq then do
    let folded ← foldLocked applyFunc log base
    match folded with
    | none => .error .payloadNull
    | some payload => return log.insert 0 (.savepoint payload)
  else return log

def extendSchemaAttempt (apply : ApplyFunc S Δ E) (delta : Δ) (t : Tables S Δ A) :
    Except (StoreError E) (Tables S Δ A) :=
  match t.row with
  | none => .error .notFound
  | some doc => do
      let current ← foldLocked (some apply) t.log doc.schema
      match apply current delta with
      | .error err => .error (.applyDelta err)
      | .ok _ =>
        let nextSeq := t.log.maxSeq + 1
        let log ← savepointAfter (some apply) interval doc.schema nextSeq
          (t.log.insert 0 (.delta delta))
        return { t with log }

def extendSchema (delta : Option Δ) (t : Tables S Δ A) : Except (StoreError E) (Tables S Δ A) :=
  match delta with
  | none => .ok t
  | some delta =>
    match applyFunc with
    | none => .error .applyFuncNotWired
    | some apply => extendSchemaAttempt interval apply delta t

def perform : Call S Δ A → Answer S A E × Tables S Δ A
  | .save desc => (.ok none, save desc t)
  | .get => ((get applyFunc t).map some, t)
  | .delete => settle t (delete t)
  | .lock => settle t (lock applyFunc t)
  | .unlock => settle t (unlock t)
  | .setChangeLevel level => settle t (setChangeLevel level t)
  | .extendSchema delta => settle t (extendSchema applyFunc interval delta t)

end CyodaGo.Models.Sqlite
