import CyodaGo.Model.Models.Descriptor

/-! # The memory plugin's model store

One entry of `modelData`. Each method is one section under `modelMu`; descriptors are cloned on
the way in and out, so entries are never shared. -/

namespace CyodaGo.Models.ModelStore

open Schema (ChangeLevel)

variable {S Δ A E : Type}

abbrev Entry (S A : Type) := Option (ModelDescriptor S A)

variable (entry : Entry S A)

def get : Except (StoreError E) (ModelDescriptor S A) :=
  match entry with
  | none => .error .notFound
  | some desc => .ok desc

def delete : Except (StoreError E) (Entry S A) :=
  match entry with
  | none => .error .notFound
  | some _ => .ok none

/-- The setters of one field. -/
def update (f : ModelDescriptor S A → ModelDescriptor S A) (entry : Entry S A) :
    Except (StoreError E) (Entry S A) :=
  match entry with
  | none => .error .missing
  | some desc => .ok (some (f desc))

def lock : Except (StoreError E) (Entry S A) :=
  update (fun desc => { desc with state := .locked }) entry

def unlock : Except (StoreError E) (Entry S A) :=
  update (fun desc => { desc with state := .unlocked }) entry

def setChangeLevel (level : ChangeLevel) (entry : Entry S A) : Except (StoreError E) (Entry S A) :=
  update (fun desc => { desc with changeLevel := level }) entry

/-- The delta is applied in place. -/
def extendSchema (applyFunc : Option (ApplyFunc S Δ E)) (delta : Option Δ) (entry : Entry S A) :
    Except (StoreError E) (Entry S A) :=
  match delta with
  | none => .ok entry
  | some delta =>
    match applyFunc with
    | none => .error .applyFuncNotWired
    | some apply =>
      match entry with
      | none => .error .notFound
      | some desc =>
        match apply desc.schema delta with
        | .error err => .error (.applyDelta err)
        | .ok newSchema => .ok (some { desc with schema := some newSchema })

def perform (applyFunc : Option (ApplyFunc S Δ E)) (entry : Entry S A) :
    Call S Δ A → Answer S A E × Entry S A
  | .save desc => (.ok none, some desc)
  | .get => ((get entry).map some, entry)
  | .delete => settle entry (delete entry)
  | .lock => settle entry (lock entry)
  | .unlock => settle entry (unlock entry)
  | .setChangeLevel level => settle entry (setChangeLevel level entry)
  | .extendSchema delta => settle entry (extendSchema applyFunc delta entry)

end CyodaGo.Models.ModelStore
