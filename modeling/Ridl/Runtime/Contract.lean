import Mathlib.Data.UInt

/-!
# The Contract Types

The types every part of the runtime shares: the numbers an interaction is
addressed by, the interaction kinds with their default ceilings, the errors a
call reports, and the envelope a frame or an occurrence carries.

Numbers keep the width of the source: an interface number and an ordinal are
32 bits, a stream number 8 bits, a sequence number 64 bits and a stamp a
signed 64-bit count of microseconds. A payload is a list of bytes.

`Rule` is open in the source, so a variant a newer runtime adds is a value
here too (`unlisted`): it is the one rule that has no wire code.

## Main definitions

* `Kind`: The five interaction kinds.
* `defaultCeiling`: The payload limit of a member that has none of its own.
-/

namespace Ridl

abbrev Bytes := List UInt8

abbrev InterfaceNo := UInt32

abbrev Ordinal := UInt32

abbrev StreamNo := UInt8

/-- The number of a call's reply stream; stream parameters count from 1. -/
def REPLY_STREAM : StreamNo := 0

/-- Microseconds, as the sender's clock gives them. -/
abbrev Timestamp := Int64

/-- One interaction, addressed the way every port method addresses one. -/
abbrev Key := InterfaceNo × Ordinal

instance : Ord Key := lexOrd

inductive Kind
  | signal
  | event
  | command
  | query
  | fixed
deriving DecidableEq, Repr

def SIGNAL_EVENT_CEILING : Nat := 3840

def CALL_CEILING : Nat := 16128

def FIXED_CEILING : Nat := 65280

def defaultCeiling : Kind → Nat
  | .signal | .event => SIGNAL_EVENT_CEILING
  | .command | .query => CALL_CEILING
  | .fixed => FIXED_CEILING

/-- The kind of typl constraint a violation breaks. -/
inductive Rule
  | range
  | step
  | length
  | pattern
  | variant
  | unique
  | utf8
  /-- A variant of a newer runtime, which no frame version carries. -/
  | unlisted
deriving DecidableEq, Repr

structure Violation where
  typeName : Option String
  rule : Rule
deriving DecidableEq, Repr

/-- A contract error, derived from the contract and never declared. -/
inductive Contract
  | invalidValue (violation : Violation)
  | preconditionFailed
  | contractBroken
  | unknownInteraction
deriving DecidableEq, Repr

/-- An infrastructure failure that the runtime detected. -/
inductive Transport
  | timeout
  | undelivered
  | down
  | corrupt
  | busy
  | interrupted
deriving DecidableEq, Repr

/-- The outcome of a call that did not succeed. -/
inductive CallError
  | contract (c : Contract)
  | transport (t : Transport)
deriving DecidableEq, Repr

/-- The sender's stamp and the sequence number it gave. -/
structure Envelope where
  stamp : Timestamp
  seq : UInt64
deriving DecidableEq, Repr

/-- The 32 bytes that identify a catalog. -/
structure CatalogHash where
  bytes : Bytes
  size : bytes.length = 32
deriving DecidableEq

def CatalogHash.zero : CatalogHash := ⟨List.replicate 32 0, List.length_replicate⟩

/-- The interaction a frame is about. -/
structure Target where
  kind : Kind
  iface : InterfaceNo
  ord : Ordinal
deriving DecidableEq, Repr

end Ridl
