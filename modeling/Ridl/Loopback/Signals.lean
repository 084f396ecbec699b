import Ridl.Library.Map
import Ridl.Library.Run
import Ridl.Runtime.Sample

/-!
# The Signals of the Loopback Store

The half of the store that holds signals: what each channel last published,
the generation of each interface, and the checks and the limits of its
members. No operation on a call reads it, and none of these reads a call.

A writer stages its changes on its own handle and applies them in one commit.
A commit advances the generation of each interface it touches by one and
stamps every channel it publishes with that generation, so a channel says when
it last changed. A scan compares a reader's marks with the generations, and
writes the channels that changed since.

A counter that reaches the end of its 64 bits stops the program, which is what
an overflow does where it is checked.

## Main definitions

* `Signals.commit`: One writer's staged changes are applied.
* `Signals.scan`: The changes since each mark, as far as they fit.
-/

namespace Ridl

namespace Loopback

open Library

/-- A signal channel's published state. -/
structure SignalEntry where
  bytes : Bytes
  envelope : Envelope
  provenance : Provenance
  /-- The generation of its interface that this entry last changed at. -/
  changedAt : Nat

/-- A staged change, held on the writer handle until its commit. -/
inductive Staged
  | set (bytes : Bytes)
  | invalidate
  | touch
deriving DecidableEq

structure Signals where
  now : Timestamp
  signals : OrdMap Key SignalEntry
  checks : OrdMap Key Check
  generations : OrdMap InterfaceNo Nat
  limits : OrdMap Key Nat

/-- One more, unless the counter is at the end of its 64 bits. -/
def checkedSucc (n : Nat) : Option Nat := if n + 1 < 2 ^ 64 then some (n + 1) else none

namespace Signals

def new : Signals := { now := 0, signals := ∅, checks := ∅, generations := ∅, limits := ∅ }

def setLimit (s : Signals) (key : Key) (limit : Nat) : Signals :=
  { s with limits := s.limits.insert key limit }

def limit (s : Signals) (key : Key) (kind : Kind) : Nat :=
  (s.limits[key]?).getD (defaultCeiling kind)

def admitPayload (s : Signals) (key : Key) (kind : Kind) (len : Nat) : Except Nat Unit :=
  let cap := s.limit key kind
  if len > cap then .error cap else .ok ()

/-- The clock advances forward, and stays at the end of its range. -/
def advance (s : Signals) (duration : Int64) : Option Signals :=
  if 0 ≤ duration.toInt then
    some { s with now := Int64.ofInt (min (s.now.toInt + duration.toInt) Int64.maxValue.toInt) }
  else none

/-- Installs a member's check, and invalidates a live value it refuses. -/
def checkWith (s : Signals) (key : Key) (check : Check) : Signals :=
  let s := { s with checks := s.checks.insert key check }
  match s.signals[key]? with
  | none => s
  | some entry =>
      if entry.provenance = .live then
        match check entry.bytes with
        | .ok () => s
        | .error detection =>
            { s with
              signals := s.signals.insert key
                { entry with bytes := [], provenance := .invalid (.detected detection) } }
      else s

def generation (s : Signals) (iface : InterfaceNo) : Nat := (s.generations[iface]?).getD 0

/-- The staged changes but for the touches of channels with no publication. -/
def retained (s : Signals) (staged : OrdMap Key Staged) : OrdMap Key Staged :=
  staged.filter (fun key op => op ≠ .touch || s.signals.contains key)

/-- Advances the generation of the key's interface, unless it was advanced
    already. -/
def bump (acc : List InterfaceNo × OrdMap InterfaceNo Nat) (key : Key) :
    Option (List InterfaceNo × OrdMap InterfaceNo Nat) :=
  if acc.1.contains key.1 then some acc
  else do
    let next ← checkedSucc ((acc.2[key.1]?).getD 0)
    some (key.1 :: acc.1, acc.2.insert key.1 next)

/-- What a staged change publishes, over what its channel last published. -/
def published (check : Option Check) (previous : Option SignalEntry) :
    Staged → Option (Bytes × Provenance)
  | .set bytes =>
      match (check.map (fun check => check bytes)).getD (.ok ()) with
      | .ok () => some (bytes, .live)
      | .error detection =>
          some ((previous.map SignalEntry.bytes).getD [], .invalid (.detected detection))
  | .invalidate => some ((previous.map SignalEntry.bytes).getD [], .invalid .declared)
  | .touch => previous.map (fun entry => (entry.bytes, entry.provenance))

/-- Publishes one staged change under the writer's next sequence number. -/
def publish (s : Signals) (seqs : OrdMap Key Nat) (key : Key) (op : Staged) :
    Option (Signals × OrdMap Key Nat) := do
  let seq ← checkedSucc ((seqs[key]?).getD 0)
  let (bytes, provenance) ← published s.checks[key]? s.signals[key]? op
  let entry :=
    { bytes := bytes
      envelope := { stamp := s.now, seq := UInt64.ofNat seq }
      provenance := provenance
      changedAt := s.generation key.1 }
  some ({ s with signals := s.signals.insert key entry }, seqs.insert key seq)

/-- Applies one writer's staged changes: one generation for each interface
    touched, and one sequence number for each channel published. -/
def commit (s : Signals) (staged : OrdMap Key Staged) (seqs : OrdMap Key Nat) :
    Option (Signals × OrdMap Key Nat) := do
  let staged := s.retained staged
  let (_, generations) ← staged.keys.foldlM bump ([], s.generations)
  staged.toList.foldlM (fun acc change => acc.1.publish acc.2 change.1 change.2)
    ({ s with generations := generations }, seqs)

/-- The changes of a mark's interface since the mark. -/
def changes (s : Signals) (mark : Watermark) : List Changed :=
  (s.signals.toList.filter
    (fun signal => signal.1.1 = mark.iface && decide (signal.2.changedAt > mark.generation))).map
    (fun signal =>
      { iface := signal.1.1, ord := signal.1.2, seq := signal.2.envelope.seq })

/-- Writes each interface's changes since its mark, and updates the marks it
    wrote. The scan stops at the first interface whose changes do not fit in
    the room left. -/
def scan (s : Signals) : List Watermark → Nat → List Watermark × List Changed
  | [], _ => ([], [])
  | mark :: marks, room =>
      let current := s.generation mark.iface
      if mark.generation ≥ current then
        let (marks, written) := s.scan marks room
        (mark :: marks, written)
      else
        let changes := s.changes mark
        if changes.length > room then (mark :: marks, [])
        else
          let (marks, written) := s.scan marks (room - changes.length)
          ({ mark with generation := current } :: marks, changes ++ written)

end Signals

/-- A writer handle: the changes it staged, and its sequence counters. -/
structure WriterHandle where
  staged : OrdMap Key Staged
  seqs : OrdMap Key Nat

namespace WriterHandle

def new : WriterHandle := { staged := ∅, seqs := ∅ }

def stage (w : WriterHandle) (key : Key) (op : Staged) : WriterHandle :=
  { w with staged := w.staged.insert key op }

/-- A touch is staged only when nothing else is. -/
def touch (w : WriterHandle) (key : Key) : WriterHandle :=
  if w.staged.contains key then w else w.stage key .touch

end WriterHandle

/-- The signals with the writers that publish them and the marks of the readers
    that scan them. -/
structure Board where
  store : Signals
  writers : OrdMap Nat WriterHandle
  nextWriterId : Nat
  marks : OrdMap Nat (List Watermark)

inductive BoardOp
  | openWriter
  | set (writer : Nat) (key : Key) (bytes : Bytes)
  | invalidate (writer : Nat) (key : Key)
  | touch (writer : Nat) (key : Key)
  | commit (writer : Nat)
  | checkWith (key : Key) (check : Check)
  | setLimit (key : Key) (limit : Nat)
  | advance (duration : Int64)
  /-- A reader takes up marks of its own making. -/
  | watch (reader : Nat) (marks : List Watermark)
  | scan (reader : Nat) (room : Nat)

inductive BoardAnswer
  | done
  | opened (writer : Nat)
  | staged (result : Except WriteError Unit)
  | scanned (written : List Changed)

namespace Board

def new : Board := { store := .new, writers := ∅, nextWriterId := 0, marks := ∅ }

def step (s : Board) : BoardOp → Option (Board × BoardAnswer)
  | .openWriter =>
      some ({ s with
        writers := s.writers.insert s.nextWriterId .new
        nextWriterId := s.nextWriterId + 1 }, .opened s.nextWriterId)
  | .set writer key bytes => do
      let w ← s.writers[writer]?
      match s.store.admitPayload key .signal bytes.length with
      | .error cap => some (s, .staged (.error (.tooLarge cap)))
      | .ok () =>
          some ({ s with writers := s.writers.insert writer (w.stage key (.set bytes)) },
            .staged (.ok ()))
  | .invalidate writer key => do
      let w ← s.writers[writer]?
      some ({ s with writers := s.writers.insert writer (w.stage key .invalidate) },
        .staged (.ok ()))
  | .touch writer key => do
      let w ← s.writers[writer]?
      some ({ s with writers := s.writers.insert writer (w.touch key) }, .staged (.ok ()))
  | .commit writer => do
      let w ← s.writers[writer]?
      let (store, seqs) ← s.store.commit w.staged w.seqs
      some ({ s with
        store := store
        writers := s.writers.insert writer { staged := ∅, seqs := seqs } }, .done)
  | .checkWith key check => some ({ s with store := s.store.checkWith key check }, .done)
  | .setLimit key limit => some ({ s with store := s.store.setLimit key limit }, .done)
  | .advance duration => do
      let store ← s.store.advance duration
      some ({ s with store := store }, .done)
  | .watch reader marks => some ({ s with marks := s.marks.insert reader marks }, .done)
  | .scan reader room => do
      let marks ← s.marks[reader]?
      let (marks, written) := s.store.scan marks room
      some ({ s with marks := s.marks.insert reader marks }, .scanned written)

end Board

/-- The store's signals in use: commits of any writers and scans of any marks,
    in any order. -/
def board : Machine Board BoardOp BoardAnswer := { init := Board.new, step := Board.step }

/-- One step of a run. -/
abbrev BoardStep := Machine.Item Board BoardOp BoardAnswer

end Loopback

end Ridl
