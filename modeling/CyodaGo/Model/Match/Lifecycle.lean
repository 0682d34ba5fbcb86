import Mathlib.Tactic.Common

/-! # Conditions on lifecycle fields

The leaves of `internal/match` that read an entity's meta data. A text is written into a
document with the `%q` verb of `fmt`, modelled on bytes, and read back by `gjson`, which is a
parameter. -/

namespace CyodaGo.Match

abbrev Bytes := List UInt8

def utf8 (s : List Char) : Bytes := s.flatMap String.utf8EncodeChar

def quoteMark : UInt8 := 34

def backslash : UInt8 := 92

/-! ## Writing -/

/-- `strconv.IsPrint`; `table` is its table for characters above Latin-1. -/
def isPrint (table : Char → Bool) (c : Char) : Bool :=
  if c.toNat ≤ 0xFF then
    (0x20 ≤ c.toNat && c.toNat < 0x7F) || (0xA1 ≤ c.toNat && c.toNat ≠ 0xAD)
  else table c

def lowerhex (n : Nat) : UInt8 := if n < 10 then 48 + n.toUInt8 else 87 + n.toUInt8

def hexDigits : Nat → Nat → Bytes
  | 0, _ => []
  | count + 1, n => hexDigits count (n / 16) ++ [lowerhex (n % 16)]

/-- The letter of `\a`, `\b`, `\t`, `\n`, `\v`, `\f` and `\r`. -/
def letterOf : Nat → Option UInt8
  | 7 => some 97
  | 8 => some 98
  | 9 => some 116
  | 10 => some 110
  | 11 => some 118
  | 12 => some 102
  | 13 => some 114
  | _ => none

/-- `\x`, `\u` and `\U`. -/
def numericEscape (n : Nat) : Bytes :=
  if n < 0x20 ∨ n = 0x7F then backslash :: 120 :: hexDigits 2 n
  else if n < 0x10000 then backslash :: 117 :: hexDigits 4 n
  else backslash :: 85 :: hexDigits 8 n

def appendEscapedRune (table : Char → Bool) (c : Char) : Bytes :=
  if c.toNat = 34 ∨ c.toNat = 92 then [backslash, c.toNat.toUInt8]
  else if isPrint table c then String.utf8EncodeChar c
  else
    match letterOf c.toNat with
    | some letter => [backslash, letter]
    | none => numericEscape c.toNat

/-- `%q` of a valid UTF-8 text. -/
def quote (table : Char → Bool) (s : String) : Bytes :=
  quoteMark :: s.toList.flatMap (appendEscapedRune table) ++ [quoteMark]

/-! ## Reading -/

inductive Result where
  | absent
  | string (text : Bytes)
  deriving DecidableEq

/-- `{"v":`, in bytes. -/
def opening : Bytes := [123, 34, 118, 34, 58]

/-! ## The leaves -/

structure EntityMeta where
  state : String
  transitionForLatestSave : String
  transactionID : String
  id : String

/-- The value that `metaStringResult` selects. -/
def EntityMeta.text (m : EntityMeta) (field : String) : String :=
  match field with
  | "state" => m.state
  | "transitionForLatestSave" => m.transitionForLatestSave
  | "transactionId" => m.transactionID
  | "id" => m.id
  | _ => ""

/-- `get json` stands for `gjson.Get(json, "v")`. -/
def metaStringResult (get : Bytes → Result) (table : Char → Bool) (field : String)
    (m : EntityMeta) : Result :=
  get (opening ++ quote table (m.text field) ++ [125])

/-- What the leaves use of the SPI: the expansion of an operand against a declared type, and
its evaluation on a value. -/
structure LeafSpi (Op Value Exp : Type) where
  isTemporalOperator : Op → Bool
  leafNode : Op → Value → (temporal : Bool) → Except String Exp
  evalLeaf : Exp → Result → Bool
  metaTemporalResult : String → EntityMeta → Result

structure LifecycleCondition (Op Value : Type) where
  field : String
  operatorType : Op
  value : Value

inductive PrepNode (Exp : Type) where
  | never
  | metaString (metaField : String) (exp : Exp)
  | metaTemporal (metaField : String) (exp : Exp)

section Leaves

variable {Op Value Exp : Type} (spi : LeafSpi Op Value Exp)

def prepareLifecycle (c : LifecycleCondition Op Value) : Except String (PrepNode Exp) :=
  let field := if c.field = "previousTransition" then "transitionForLatestSave" else c.field
  if field ∈ ["creationDate", "lastUpdateTime"] then
    if spi.isTemporalOperator c.operatorType then
      (spi.leafNode c.operatorType c.value true).map (.metaTemporal field)
    else .ok .never
  else if field ∈ ["state", "transitionForLatestSave", "transactionId", "id"] then
    (spi.leafNode c.operatorType c.value false).map (.metaString field)
  else .error ("unknown lifecycle field: " ++ c.field)

def PrepNode.eval (get : Bytes → Result) (table : Char → Bool) (m : EntityMeta) :
    PrepNode Exp → Bool
  | .never => false
  | .metaString field exp => spi.evalLeaf exp (metaStringResult get table field m)
  | .metaTemporal field exp => spi.evalLeaf exp (spi.metaTemporalResult field m)

end Leaves

end CyodaGo.Match
