import CyodaGo.Model.Workflow.Calls

/-! # Processor pipelines

The functions of `engine_processors.go`. `(ctx, txID)` is the cursor of the cascade: a
`COMMIT_BEFORE_DISPATCH` processor commits the transaction under it and moves it to the
transaction it begins. -/

namespace CyodaGo.Workflow

open Memory (TxID)

def applyProcessorData (ctx : Ctx) (data : List UInt8) : EngineM (Option EngineError) := do
  let frame ← get
  match ← ask (.checkProcessorData ctx.tx frame.entity.info.modelRef data) with
  | .error err => pure (some (.processorOutput err))
  | .ok _ => do
    modify fun f => f.withData data
    pure none

/-- The data that a callout hands back is applied; a callout without data changes nothing. -/
def applyPending (ctx : Ctx) : Option (List UInt8) → EngineM (Option EngineError)
  | none => pure none
  | some data => applyProcessorData ctx data

variable (e : Engine)

/-- Without an external processing service every callout succeeds without data. -/
def dispatchProcessor (tx : Option TxID) (proc : ProcessorDefinition) (workflow transition : String)
    (txID : TxID) :
    EngineM (Except ServiceError (Option (List UInt8))) := do
  if e.extProc then
    let frame ← get
    ask (.dispatchProcessor tx frame.entity proc workflow transition txID)
  else pure (.ok none)

def executeSyncProcessor (ctx : Ctx) (proc : ProcessorDefinition) (workflow transition : String)
    (txID : TxID) : EngineM (Option EngineError) := do
  match ← dispatchProcessor e ctx.tx proc workflow transition txID with
  | .error err => pure (some (.dispatch err))
  | .ok data => applyPending ctx data

/-- The data that the processor returns is discarded. -/
def executeAsyncNewTx (ctx : Ctx) (proc : ProcessorDefinition) (workflow transition : String)
    (txID : TxID) : EngineM (Option EngineError) := do
  if e.extProc then
    match ← ask (.savepoint txID) with
    | .error err => pure (some (.savepointCreation err))
    | .ok sp =>
      match ← dispatchProcessor e ctx.tx proc workflow transition txID with
      | .error err => do
        let _ ← ask (.rollbackToSavepoint txID sp)
        pure (some (.dispatch err))
      | .ok _ =>
        match ← ask (.releaseSavepoint txID sp) with
        | .error err => pure (some (.savepointRelease err))
        | .ok _ => pure none
  else pure none

/-! ## Segment boundaries -/

/-- The If-Match value, if one is applied, is compared; otherwise the entity is saved. -/
def flushSegment (ctx : Ctx) (expected : Option TxID) : EngineM (Option EngineError) := do
  let frame ← get
  match expected with
  | some expectedTxID =>
    match ← ask (.compareAndSave ctx.tx frame.entity expectedTxID) with
    | .error err =>
      if clientAttributableStoreErr err then pure (some (.preconditionFailed err))
      else pure (some (.segmentInfra .precondition err))
    | .ok _ => pure none
  | none =>
    match ← ask (.save ctx.tx frame.entity) with
    | .error err => pure (some (.segmentInfra .flush err))
    | .ok _ => pure none

def flushAndCommitSegment (ctx : Ctx) (txID : TxID) (expected : Option TxID) :
    EngineM (Option EngineError) := do
  match ← ask (.entityStore ctx.tx) with
  | .error err => pure (some (.segmentInfra .entityStore err))
  | .ok _ =>
    match ← flushSegment ctx expected with
    | some err => pure (some err)
    | none =>
      match ← contextErr ctx with
      | some err => pure (some (.contextExpired err))
      | none =>
        match ← ask (.commit txID) with
        | .refused err _ => pure (some (.segmentInfra .commit err))
        | .committed => pure none

/-- `Begin(context.WithoutCancel(ctx))`. -/
def beginPost (ctx : Ctx) : EngineM (Except EngineError (Ctx × TxID)) := do
  match ← ask .begin with
  | .error err => pure (.error (.segmentInfra .beginPost err))
  | .ok txID => pure (.ok ({ ctx with tx := some txID, cancellable := false }, txID))

def commitAndBeginNextSegment (ctx : Ctx) (txID : TxID) (expected : Option TxID) :
    EngineM (Except EngineError (Ctx × TxID)) := do
  match ← flushAndCommitSegment ctx txID expected with
  | some err => pure (.error err)
  | none => beginPost ctx

/-- The stored transaction id is looked up outside any transaction, for the event's data. -/
def recordAbortForIfMatchConflict (ctx : Ctx) (cascadeEntryTxID : TxID) : EngineM Unit := do
  let frame ← get
  match ← ask (.entityStore none) with
  | .error _ => recordEvent .recordAbort ctx cascadeEntryTxID .transitionAborted
  | .ok _ => do
    let _ ← ask (.getEntity none frame.entity.info.id)
    recordEvent .recordAbort ctx cascadeEntryTxID .transitionAborted

/-- A first flush that lost the If-Match comparison is audited before the error goes up. -/
def flushFailed (ctx : Ctx) (entryTxID : TxID) (expected : Option TxID) (err : EngineError) :
    EngineM (Except EngineError (Ctx × TxID)) := do
  if expected.isSome && err.is .conflict then
    recordAbortForIfMatchConflict ctx entryTxID
    pure (.error err)
  else pure (.error err)

/-- The deferred guard: the transaction begun here is rolled back before the error goes up. -/
def abandonSegment (segTxID txID : TxID) (err : EngineError) :
    EngineM (Except EngineError (Ctx × TxID)) := do
  rollbackSegment segTxID txID
  pure (.error err)

/-- The end of both branches: the processor's data is applied in `TX_post`, and the entity is
compared with the version that `TX_pre` committed. -/
def applyResult (ctx : Ctx) (newTxID tPre : TxID) (pending : Option (List UInt8)) :
    EngineM (Except EngineError (Ctx × TxID)) := do
  match ← applyPending ctx pending with
  | some err => abandonSegment newTxID tPre err
  | none =>
    match ← ask (.entityStore ctx.tx) with
    | .error err => abandonSegment newTxID tPre (.segmentInfra .entityStorePost err)
    | .ok _ => do
      let frame ← get
      match ← ask (.compareAndSave ctx.tx frame.entity tPre) with
      | .error err =>
        abandonSegment newTxID tPre
          (if clientAttributableStoreErr err then .postSegmentConflict err
            else .segmentInfra .applyResult err)
      | .ok _ => pure (.ok (ctx, newTxID))

def executeCommitBeforeDispatch (ctx : Ctx) (proc : ProcessorDefinition)
    (workflow transition : String) (txID entryTxID : TxID) :
    EngineM (Except EngineError (Ctx × TxID)) := do
  let slot ← consumeIfMatch
  let expected := if slot = "" then none else some slot
  if proc.startNewTxOnDispatch = some true then
    match ← commitAndBeginNextSegment ctx txID expected with
    | .error err => flushFailed ctx entryTxID expected err
    | .ok (newCtx, newTxID) =>
      match ← dispatchProcessor e newCtx.tx proc workflow transition newTxID with
      | .error err => abandonSegment newTxID txID (.dispatch err)
      | .ok pending => applyResult newCtx newTxID txID pending
  else
    match ← flushAndCommitSegment ctx txID expected with
    | some err => flushFailed ctx entryTxID expected err
    | none =>
      match ← dispatchProcessor e none proc workflow transition "" with
      | .error err => pure (.error (.dispatch err))
      | .ok pending =>
        match ← beginPost ctx with
        | .error err => pure (.error err)
        | .ok (newCtx, newTxID) => applyResult newCtx newTxID txID pending

/-! ## The pipeline -/

/-- One processor by its mode. A failed segment leaves the cursor where it was. -/
def executeProcessor (workflow transition : String) (txID : TxID) (ctx : Ctx) (currentTxID : TxID)
    (proc : ProcessorDefinition) : EngineM Handed := do
  match proc.executionMode with
  | .asyncNewTx => do
    let err ← executeAsyncNewTx e ctx proc workflow transition currentTxID
    pure ⟨ctx, currentTxID, err⟩
  | .commitBeforeDispatch =>
    match ← executeCommitBeforeDispatch e ctx proc workflow transition currentTxID txID with
    | .error err => pure ⟨ctx, currentTxID, some err⟩
    | .ok (newCtx, newTxID) => pure ⟨newCtx, newTxID, none⟩
  | .unspecified | .sync | .asyncSameTx => do
    let err ← executeSyncProcessor e ctx proc workflow transition currentTxID
    pure ⟨ctx, currentTxID, err⟩

/-- The error that ends the pipeline; an `ASYNC_NEW_TX` failure does not. -/
def fatalError (proc : ProcessorDefinition) : Option EngineError → Option EngineError
  | none => none
  | some err =>
    if proc.executionMode = .asyncNewTx then none else some (.processorFailed proc.name err)

def runProcessors (e : Engine) (workflow transition : String) (txID : TxID) :
    Ctx → TxID → List ProcessorDefinition → EngineM Handed
  | ctx, currentTxID, [] => pure ⟨ctx, currentTxID, none⟩
  | ctx, currentTxID, proc :: rest => do
    if proc.type = .internalized then
      recordEvent .executeProcessors ctx txID .stateProcessResult
      pure ⟨ctx, currentTxID, some (.internalizedProcessor proc.name)⟩
    else
      let handed ← executeProcessor e workflow transition txID ctx currentTxID proc
      recordEvent .executeProcessors handed.ctx txID .stateProcessResult
      match fatalError proc handed.err with
      | some err => pure ⟨handed.ctx, handed.txID, some err⟩
      | none => runProcessors e workflow transition txID handed.ctx handed.txID rest

/-- Every event of the pipeline carries `txID`, the transaction it was entered with. -/
def executeProcessors (ctx : Ctx) (processors : List ProcessorDefinition)
    (workflow transition : String) (txID : TxID) : EngineM Handed := do
  match processors with
  | [] => pure ⟨ctx, txID, none⟩
  | _ :: _ => do
    recordEvent .executeProcessors ctx txID .processingPaused
    runProcessors e workflow transition txID ctx txID processors

end CyodaGo.Workflow
