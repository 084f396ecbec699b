import Ridl.Frame.Types
import Ridl.Library.Map
import Ridl.Runtime.Port
import Ridl.Runtime.Sample

/-!
# The Backend of a Session

The ports a session is served from, as one call of the session sees them.
Another thread may change what they hold at any time, so a port method is a
function of how many times the call has used it before: `look k` is what the
backend holds when it is read for the `k`-th time.

A read copies a value into a buffer, or says how long the buffer must be.
`fetch` is the loop that grows the buffer up to a cap. It ends because each
turn that does not end it leaves a longer buffer, never longer than the cap.

## Theorems

* `fetch_ends`: The buffer grows a bounded number of times.
* `fetch_last`: What the read that ended the loop held is what was fetched.
-/

namespace Ridl

namespace Server

open Library

/-- A length of time, in nanoseconds. -/
abbrev Duration := Nat

/-- One member: its kind, its bound, its payload limit, and whether its reply
    is a stream. -/
structure MemberTable.Entry where
  kind : Kind
  max : Option Duration
  limit : Option UInt32
  replyStream : Bool
deriving DecidableEq, Repr

/-- The members of one catalog, and the hashes it is compatible with. -/
structure MemberTable where
  name : String
  hash : CatalogHash
  members : OrdMap Key MemberTable.Entry
  compatible : List CatalogHash

namespace MemberTable

def limit (t : MemberTable) (iface : InterfaceNo) (ord : Ordinal) : Option UInt32 :=
  t.members[(iface, ord)]?.bind Entry.limit

/-- The member's limit, or the default ceiling of the target's kind. -/
def payloadLimit (t : MemberTable) (target : Target) : Nat :=
  ((t.limit target.iface target.ord).map UInt32.toNat).getD (defaultCeiling target.kind)

def accepts (t : MemberTable) (hash : CatalogHash) : Bool :=
  hash = t.hash || t.compatible.contains hash

def member (t : MemberTable) (iface : InterfaceNo) (ord : Ordinal) :
    Option (Kind × Option Duration) :=
  t.members[(iface, ord)]?.map (fun entry => (entry.kind, entry.max))

def hasReplyStream (t : MemberTable) (iface : InterfaceNo) (ord : Ordinal) : Bool :=
  (t.members[(iface, ord)]?.map Entry.replyStream).getD false

/-- Every member, in interface and ordinal order. -/
def targets (t : MemberTable) : List Target :=
  t.members.toList.map (fun e => ⟨e.2.kind, e.1.1, e.1.2⟩)

end MemberTable

/-- The smallest and the largest message limit a provider may configure. -/
def MIN_MESSAGE_LIMIT : Nat := 294

def MAX_MESSAGE_LIMIT : Nat := 16164

/-- What a session is served with: the catalog and the encoding of its ports,
    the member table, the message limit, and the frame version selected. -/
structure Serving where
  name : String
  hash : CatalogHash
  encoding : Option UInt8
  members : Option MemberTable
  messageLimit : Nat
  frameVersion : UInt32
  limited : MIN_MESSAGE_LIMIT ≤ messageLimit ∧ messageLimit ≤ MAX_MESSAGE_LIMIT

namespace Serving

/-- The largest payload one `publish` may carry. -/
def payloadCap (cfg : Serving) : Nat := cfg.messageLimit - PUBLISH_LEN

def limit (cfg : Serving) (target : Target) : Nat :=
  (cfg.members.map (fun t => t.payloadLimit target)).getD (defaultCeiling target.kind)

/-- Whether the identity is in the member table under its kind. -/
def known (cfg : Serving) (target : Target) : Bool :=
  (cfg.members.map (fun t =>
    decide ((t.member target.iface target.ord).map Prod.fst = some target.kind))).getD true

/-- The bytes of a signal's value that the session sends. -/
def signalCap (cfg : Serving) (key : Key) : Nat :=
  min cfg.payloadCap (cfg.limit (signalTarget key))

end Serving

/-- Something an operator of the server is told. -/
inductive Note
  | violation (v : ProtocolViolation)
  | messageBeforeAttach
  | secondAttach
  | unexpectedDirection
  | unknownInteraction (target : Target)
  | kindNotAdmitted (target : Target)
  | valueTooLarge (target : Target) (needed : Nat)
  | ruleNotCarried (target : Target)
  | unknownCorrelation (target : Target) (correlation : UInt64)
  | portRefused (target : Target)
  | discarded (d : Discarded)
deriving DecidableEq

/-- What a session does besides changing its state. -/
inductive Effect
  | send (frame : Frame)
  | note (note : Note)
deriving DecidableEq

/-- The publication an effect sends on the signal channel, if it does. -/
def Effect.signal (key : Key) : Effect → Option (Envelope × PublishState)
  | .send frame => frame.signal key
  | .note _ => none

/-- What the caller does after a message or a tick. -/
inductive Step
  | cont
  | close (code : Nat)
deriving DecidableEq, Repr

/-- The close codes a session gives. -/
def NORMAL : Nat := 1000

def GOING_AWAY : Nat := 1001

def PROTOCOL : Nat := 1002

/-- A signal's sample without its bytes. -/
structure Resolved where
  provenance : Provenance
  freshness : Freshness
  envelope : Envelope
deriving DecidableEq, Repr

/-- What a backend holds for one interaction: a value and what is said of it,
    an error of the contract, or nothing because its runtime is gone. -/
inductive Reading (α : Type)
  | value (info : α) (bytes : Bytes)
  | contract (c : Contract)
  | gone
deriving DecidableEq

/-- A read into a buffer of `room` bytes. -/
def Reading.read {α : Type} : Reading α → Nat → Except ReadError (α × Bytes)
  | .value info bytes, room =>
      if bytes.length ≤ room then .ok (info, bytes) else .error (.short bytes.length)
  | .contract c, _ => .error (.contract c)
  | .gone, _ => .error .detached

/-- What a read with a cap gave. -/
inductive Fetch (α : Type)
  | sample (info : α) (bytes : Bytes)
  | tooLarge (needed : Nat)
  | contract (c : Contract)
  | gone
deriving DecidableEq

/-- Reads until the buffer is long enough or would be longer than the cap. -/
def fetchLoop {α : Type} (look : Nat → Reading α) (cap : Nat) :
    Nat → Nat → Nat → Option (Fetch α × Nat)
  | 0, _, _ => none
  | fuel + 1, k, buf =>
      match (look k).read (min buf cap) with
      | .ok (info, bytes) => some (.sample info bytes, buf)
      | .error (.short needed) =>
          if needed > cap then some (.tooLarge needed, buf)
          else fetchLoop look cap fuel (k + 1) needed
      | .error (.contract c) => some (.contract c, buf)
      | .error _ => some (.gone, buf)

/-- A read into a buffer of `buf` bytes, which grows up to the cap; with the
    buffer's length after it. -/
def fetch {α : Type} (look : Nat → Reading α) (cap buf : Nat) : Option (Fetch α × Nat) :=
  fetchLoop look cap (cap + 1) 0 buf

/-- The signal store as one call sees it: its `k`-th scan, and the generations
    it reads after that scan. -/
structure ScanView where
  scan : Nat → List Watermark → Nat → List Watermark × List Changed
  generation : Nat → Nat → InterfaceNo → Nat

/-- A mark is still behind the generation read for it. -/
def ScanView.behind (view : ScanView) (k : Nat) (marks : List Watermark) : Bool :=
  marks.zipIdx.any (fun m => decide (m.1.generation < view.generation k m.2 m.1.iface))

/-- Scans until something was written or no mark is behind, with twice the
    buffer each time. -/
def growLoop (view : ScanView) : Nat → Nat → List Watermark → Nat →
    Option (List Watermark × List Changed × Nat)
  | 0, _, _, _ => none
  | fuel + 1, k, marks, len =>
      let (marks, written) := view.scan k marks len
      if written.length > 0 then some (marks, written, len)
      else if view.behind k marks then growLoop view fuel (k + 1) marks (len * 2)
      else some (marks, [], len)

/-- `Key`'s order. -/
def keyLe (a b : Key) : Bool := (compare a b).isLE

/-- The subscribed signals that changed, in order and each once, with the
    marks and the buffer's length after the scan. -/
def scanChanges (view : ScanView) (fuel : Nat) (subscribed : Key → Bool) (marks : List Watermark)
    (len : Nat) : Option (List Key × List Watermark × Nat) :=
  if marks.isEmpty then some ([], marks, len)
  else do
    let (marks, written, len) ← growLoop view fuel 0 marks len
    let keys := (written.map (fun c => ((c.iface, c.ord) : Key))).filter subscribed
    some ((keys.mergeSort keyLe).eraseReps, marks, len)

section Fetching

variable {α : Type} (look : Nat → Reading α) (cap : Nat)

theorem fetchLoop_ends (fuel k buf : Nat) (h : cap + 1 ≤ fuel + min buf cap) :
    (fetchLoop look cap fuel k buf).isSome = true := by
  induction fuel generalizing k buf with
  | zero =>
      have hle := Nat.min_le_right buf cap
      omega
  | succ fuel ih =>
      unfold fetchLoop
      cases hread : look k with
      | value info bytes =>
          simp only [Reading.read]
          by_cases hroom : bytes.length ≤ min buf cap
          · rw [if_pos hroom]
            rfl
          · rw [if_neg hroom]
            by_cases hcap : bytes.length > cap
            · simp only [if_pos hcap, Option.isSome_some]
            · simp only [if_neg hcap]
              exact ih (k + 1) bytes.length (by omega)
      | contract c => rfl
      | gone => rfl

theorem fetch_ends (buf : Nat) : (fetch look cap buf).isSome = true :=
  fetchLoop_ends look cap (cap + 1) 0 buf (Nat.le_add_right _ _)

/-- The loop ends at its `j`-th read: each one before it held a value that fits
    the cap and not the buffer, and a value it held itself, when it fits, is
    what was fetched. -/
theorem fetchLoop_last (fuel k buf : Nat) (r : Fetch α) (buf' : Nat)
    (h : fetchLoop look cap fuel k buf = some (r, buf')) :
    ∃ j, (∀ i, k ≤ i → i < j → ∃ info bytes, look i = .value info bytes ∧ bytes.length ≤ cap) ∧
      ∀ info bytes, look j = .value info bytes → bytes.length ≤ cap → r = .sample info bytes := by
  induction fuel generalizing k buf with
  | zero => exact absurd h (by simp only [fetchLoop, reduceCtorEq, not_false_eq_true])
  | succ fuel ih =>
      have hfirst : ∀ i, k ≤ i → i < k →
          ∃ info bytes, look i = .value info bytes ∧ bytes.length ≤ cap :=
        fun i hle hlt => absurd hlt (Nat.not_lt.mpr hle)
      unfold fetchLoop at h
      cases hread : look k with
      | value info' bytes' =>
          simp only [hread, Reading.read] at h
          by_cases hroom : bytes'.length ≤ min buf cap
          · rw [if_pos hroom] at h
            simp only [Option.some.injEq, Prod.mk.injEq] at h
            refine ⟨k, hfirst, fun info bytes heq _ => ?_⟩
            rw [hread, Reading.value.injEq] at heq
            rw [← h.1, heq.1, heq.2]
          · rw [if_neg hroom] at h
            by_cases hcap : bytes'.length > cap
            · refine ⟨k, hfirst, fun info bytes heq hfit => ?_⟩
              rw [hread, Reading.value.injEq] at heq
              rw [← heq.2] at hfit
              exact absurd hfit (Nat.not_le.mpr hcap)
            · simp only [if_neg hcap] at h
              rcases ih (k + 1) bytes'.length h with ⟨j, hbefore, hlast⟩
              refine ⟨j, fun i hle hlt => ?_, hlast⟩
              by_cases hi : i = k
              · exact ⟨info', bytes', hi ▸ hread, Nat.le_of_not_lt hcap⟩
              · exact hbefore i (by omega) hlt
      | contract c =>
          exact ⟨k, hfirst, fun info bytes heq => absurd (hread.symm.trans heq) (by simp)⟩
      | gone =>
          exact ⟨k, hfirst, fun info bytes heq => absurd (hread.symm.trans heq) (by simp)⟩

theorem fetch_last (buf : Nat) (r : Fetch α) (buf' : Nat)
    (h : fetch look cap buf = some (r, buf')) :
    ∃ j, (∀ i < j, ∃ info bytes, look i = .value info bytes ∧ bytes.length ≤ cap) ∧
      ∀ info bytes, look j = .value info bytes → bytes.length ≤ cap → r = .sample info bytes := by
  rcases fetchLoop_last look cap (cap + 1) 0 buf r buf' h with ⟨j, hbefore, hlast⟩
  exact ⟨j, fun i hlt => hbefore i (Nat.zero_le i) hlt, hlast⟩

end Fetching

end Server

end Ridl
