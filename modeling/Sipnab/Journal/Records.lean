import Sipnab.Lib.OrderedMap

/-!
# Journal records

A record is an envelope and a body. Its values, and how they are written and read, are the JSON
library's.
-/

namespace Sipnab.Operations

abbrev Text := List Char

abbrev Bytes := List UInt8

/-- The JSON library: its values, what they are read as, and their text. -/
structure Serde where
  Value : Type
  null : Value
  number : ℕ → Value
  string : Text → Value
  object : OrderedMap Text Value → Value
  asU64 : Value → Option ℕ
  asStr : Value → Option Text
  asObject : Value → Option (OrderedMap Text Value)
  toBytes : Value → Bytes
  /-- The value of a text, if it is one. -/
  fromBytes : Bytes → Option Value

namespace Serde

variable (js : Serde)

/-- What the library promises: a value is read as what it was made of, and an object that was
written, on a line of its own, is read back. -/
structure Lawful : Prop where
  asU64_number : ∀ n, js.asU64 (js.number n) = some n
  asStr_string : ∀ s, js.asStr (js.string s) = some s
  asObject_object : ∀ m, js.asObject (js.object m) = some m
  fromBytes_toBytes : ∀ m, js.fromBytes (js.toBytes (js.object m)) = some (js.object m)
  newline_notMem : ∀ v, (10 : UInt8) ∉ js.toBytes v

variable {js}

def index (v : js.Value) (key : Text) : js.Value :=
  ((js.asObject v).bind (fun m => m.get? key)).getD js.null

theorem Lawful.index_object (h : js.Lawful) (m : OrderedMap Text js.Value) (key : Text) :
    index (js.object m) key = (m.get? key).getD js.null := by
  rw [index, h.asObject_object, Option.bind_some]

end Serde

structure Record (js : Serde) where
  seq : ℕ
  ts : Text
  run : Text
  kind : Text
  body : js.Value

def tornTailKind : Text := "torn_tail_discarded".toList

def checkpointKind : Text := "checkpoint".toList

end Sipnab.Operations
