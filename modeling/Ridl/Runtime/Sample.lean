import Ridl.Runtime.Contract

/-!
# Samples and Watermarks

What a signal's reader is told: where a value comes from, how old it is, and
which signals changed since a watermark.

## Main definitions

* `Provenance`: Where a signal's value comes from.
-/

namespace Ridl

/-- What a consumer's binding detected in a payload. -/
inductive Detection
  | invalidValue (violation : Violation)
  | corrupt
deriving DecidableEq, Repr

inductive Cause
  | declared
  | detected (d : Detection)
deriving DecidableEq, Repr

inductive Provenance
  | init
  | live
  | invalid (cause : Cause)
deriving DecidableEq, Repr

inductive Freshness
  | fresh
  | stale (past : Int64)
  | unbounded
deriving DecidableEq, Repr

/-- A signal's value without its bytes: they are `len` bytes of the buffer. -/
structure RawSample where
  provenance : Provenance
  freshness : Freshness
  envelope : Envelope
  len : Nat
deriving DecidableEq, Repr

/-- How far a consumer has scanned one interface. -/
structure Watermark where
  iface : InterfaceNo
  generation : Nat
deriving DecidableEq, Repr

/-- A signal that changed since a watermark. -/
structure Changed where
  iface : InterfaceNo
  ord : Ordinal
  seq : UInt64
deriving DecidableEq, Repr

inductive WriteError
  | tooLarge (cap : Nat)
deriving DecidableEq, Repr

/-- A member's check of a payload. -/
abbrev Check := Bytes → Except Detection Unit

end Ridl
