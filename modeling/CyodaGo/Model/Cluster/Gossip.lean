import CyodaGo.Shared.GoMap
import CyodaGo.Shared.Uvarint
import CyodaGo.Shared.Wrapped

/-! # The topic broadcasts of the gossip registry

`internal/cluster/registry/gossip_broadcast.go` and the delegate of `gossip.go`. -/

namespace CyodaGo.Gossip

open Wrapped (wrap)

abbrev Bytes := List UInt8

/-- The run-time panics of Go that the code can meet. -/
inductive Panic where
  | indexOutOfRange
  | sliceBoundsOutOfRange
  deriving DecidableEq, Repr

/-- The slice `bs[lo:hi]`. -/
def slice (bs : Bytes) (lo hi : ℤ) : Except Panic Bytes :=
  if 0 ≤ lo ∧ lo ≤ hi ∧ hi ≤ bs.length then .ok ((bs.take hi.toNat).drop lo.toNat)
  else .error .sliceBoundsOutOfRange

def maxTopicMsgSize : ℕ := 64 <<< 20

/-- `binary.MaxVarintLen32`, the size of the buffer for the length of the topic. -/
def maxVarintLen32 : ℕ := 5

/-- A message that is too large is dropped. -/
def encodeTopicMsg (topic payload : Bytes) : Except Panic (Option Bytes) :=
  let lenBuf := Uvarint.put (BitVec.ofNat 64 topic.length)
  if maxVarintLen32 < lenBuf.length then .error .indexOutOfRange
  else if maxTopicMsgSize < lenBuf.length + topic.length + payload.length then .ok none
  else .ok (some (lenBuf ++ topic ++ payload))

/-- The topic and the payload, or nothing when the message is malformed. -/
def decodeTopicMsg (msg : Bytes) : Except Panic (Option (Bytes × Bytes)) := do
  let (topicLen, n) := Uvarint.read msg
  if n ≤ 0 then return none
  let stop := wrap (n + wrap topicLen.toNat)
  if stop > msg.length then return none
  let topic ← slice msg n stop
  let payload ← slice msg stop msg.length
  return some (topic, payload)

/-! ## The delegate -/

/-- `H` is the type of the handlers. -/
structure Delegate (H : Type) where
  queue : List Bytes
  subs : GoMap Bytes (List H)

namespace Delegate

variable {H : Type}

def subscribe (d : Delegate H) (topic : Bytes) (handler : H) : Delegate H :=
  { d with subs := d.subs.set topic (d.subs.getD topic [] ++ [handler]) }

def broadcast (d : Delegate H) (topic payload : Bytes) : Except Panic (Delegate H) := do
  match ← encodeTopicMsg topic payload with
  | none => return d
  | some msg => return { d with queue := d.queue ++ [msg] }

/-- The handlers that are called, each with what it is given. -/
def notifyMsg (d : Delegate H) (msg : Bytes) : Except Panic (List (H × Bytes)) := do
  match ← decodeTopicMsg msg with
  | none => return []
  | some (topic, payload) => return (d.subs.getD topic []).map fun h => (h, payload)

end Delegate

end CyodaGo.Gossip
