import CyodaGo.Model.Models.Extensions

/-! # The postgres plugin's model store

The `models` row and the extension log of one model reference, in a production build. -/

namespace CyodaGo.Models.Postgres

open Schema (ChangeLevel)

variable {S Δ A E : Type}

/-- What a `JSONB` column gives back for a schema and for a delta written to it. -/
structure Column (S Δ : Type) where
  schema : S → S
  delta : Δ → Δ

variable (column : Column S Δ) (applyFunc : Option (ApplyFunc S Δ E)) (interval : Int)

/-- The row is replaced and rows that are left in the extension log are cleared. -/
def save (desc : ModelDescriptor S A) (_ : Tables S Δ A) : Tables S Δ A := ⟨some desc, .empty⟩

def get (t : Tables S Δ A) : Except (StoreError E) (ModelDescriptor S A) :=
  match t.row with
  | none => .error .notFound
  | some desc => do
      let folded ← foldLocked applyFunc t.log desc.schema
      return { desc with schema := folded }

def delete (t : Tables S Δ A) : Except (StoreError E) (Tables S Δ A) :=
  match t.row with
  | none => .error .notFound
  | some _ => .ok { t with row := none }

/-- The fold is taken before the state changes. -/
def lock (skip : Nat) (t : Tables S Δ A) : Except (StoreError E) (Tables S Δ A) :=
  match t.row with
  | none => .error .notFound
  | some doc =>
    if doc.state = .locked then .ok t
    else do
      let folded ← foldLocked applyFunc t.log doc.schema
      let locked := { t with row := some { doc with state := .locked } }
      match folded with
      | none => return locked
      | some payload =>
        return { locked with log := t.log.insert skip (.savepoint (column.schema payload)) }

def unlock (t : Tables S Δ A) : Except (StoreError E) (Tables S Δ A) :=
  match t.row with
  | none => .error .notFound
  | some doc => .ok ⟨some { doc with state := .unlocked }, .empty⟩

def setChangeLevel (level : ChangeLevel) (t : Tables S Δ A) :
    Except (StoreError E) (Tables S Δ A) :=
  match t.row with
  | none => .error .notFound
  | some doc => .ok { t with row := some { doc with changeLevel := level } }

/-- The check in front of the append; it is skipped while no function is wired. -/
def admitDelta (base : Option S) (log : ExtensionLog S Δ) (delta : Δ) :
    Except (StoreError E) Unit :=
  match applyFunc with
  | none => .ok ()
  | some apply => do
      let current ← foldLocked applyFunc log base
      match apply current delta with
      | .error err => .error (.applyDelta err)
      | .ok _ => return ()

/-- The savepoint trigger, after the delta has been appended at `newSeq`. -/
def savepointAfter (base : Option S) (newSeq skip : Nat) (log : ExtensionLog S Δ) :
    Except (StoreError E) (ExtensionLog S Δ) :=
  if interval ≤ (newSeq : Int) - log.lastSavepointSeq then do
    let folded ← foldLocked applyFunc log base
    match folded with
    | none => .error .payloadNull
    | some payload => return log.insert skip (.savepoint (column.schema payload))
  else return log

/-- `skip` and `skip'` values of the sequence go to other models before the two inserts. -/
def extendSchema (skip skip' : Nat) (delta : Option Δ) (t : Tables S Δ A) :
    Except (StoreError E) (Tables S Δ A) :=
  match delta with
  | none => .ok t
  | some delta =>
    match t.row with
    | none => .error .notFound
    | some doc => do
        admitDelta applyFunc doc.schema t.log delta
        let newSeq := t.log.maxSeq + 1 + skip
        let log ← savepointAfter column applyFunc interval doc.schema newSeq skip'
          (t.log.insert skip (.delta (column.delta delta)))
        return { t with log }

end CyodaGo.Models.Postgres
