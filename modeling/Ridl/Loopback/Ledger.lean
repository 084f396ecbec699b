import Mathlib.Data.List.Nodup
import Ridl.Loopback.Store

/-!
# The Ledger of the Calls

An abstract model of the store, with what the accounting of the slots is
about and nothing else. A line is a call in a slot: its correlation, its place
in send order, its claim id, and whether it is in flight. The ledger has the
lines by slot, the waiting calls, the claims, and the next numbers to give.

`Balanced` is the joint invariant of a ledger: a waiting call and a held claim
name lines in flight, a line in flight that does not wait is held, the waiting
calls are in send order, and no two lines share a place or a claim id. Six
transitions keep it. What the streams, the wakers and the table do otherwise
does not show here.

## Main definitions

* `Ledger.Balanced`: They agree.
* `Ledger.send`, `Ledger.present`, `Ledger.record`, `Ledger.giveBack`,
  `Ledger.unoffer`, `Ledger.drop`: The transitions.

## Theorems

* `Ledger.Balanced.nodup`: A waiting call waits once.
-/

namespace Ridl

namespace Loopback

open Library Correlate

/-- A call in its slot. -/
@[ext] structure Line where
  correlation : Correlation
  /-- The call's place in send order. -/
  sent : Nat
  claim : Option Nat
  /-- `true` until the call is settled. -/
  flying : Bool

/-- The calls by slot, the waiting calls in order, and the claims. -/
@[ext] structure Ledger where
  lines : Nat → Option Line
  pending : List Correlation
  claims : Nat → Option ClaimOwner
  nextSent : Nat
  nextClaimId : Nat

namespace Ledger

/-- The waiting calls `c` and `d` are in send order. -/
def Before (L : Ledger) (c d : Correlation) : Prop :=
  ∀ l m, L.lines (Table.slot c) = some l → L.lines (Table.slot d) = some m → l.sent < m.sent

/-- The lines, the waiting calls and the claims agree. -/
structure Balanced (L : Ledger) : Prop where
  slot : ∀ i l, L.lines i = some l → Table.slot l.correlation = i
  waiting : ∀ c ∈ L.pending, ∃ l, L.lines (Table.slot c) = some l ∧ l.correlation = c ∧
    l.flying = true
  sorted : L.pending.Pairwise L.Before
  sentLt : ∀ i l, L.lines i = some l → l.sent < L.nextSent
  sentInj : ∀ i j l m, L.lines i = some l → L.lines j = some m → l.sent = m.sent → i = j
  claim : ∀ id o, L.claims id = some o → ∃ l, L.lines (Table.slot o.call) = some l ∧
    l.correlation = o.call ∧ l.claim = some id ∧ l.flying = true
  taken : ∀ id o, L.claims id = some o → (o.taken = true ↔ o.call ∉ L.pending)
  claimLt : ∀ i l id, L.lines i = some l → l.claim = some id → id < L.nextClaimId
  claimInj : ∀ i j l m id, L.lines i = some l → L.lines j = some m → l.claim = some id →
    m.claim = some id → i = j
  held : ∀ i l, L.lines i = some l → l.flying = true → l.correlation ∉ L.pending →
    ∃ id o, l.claim = some id ∧ L.claims id = some o

/-- A new call in slot `i` waits last. -/
def send (L : Ledger) (i : Nat) (l : Line) : Ledger :=
  { L with
    lines := Function.update L.lines i (some l)
    pending := L.pending ++ [l.correlation]
    nextSent := L.nextSent + 1 }

/-- The waiting call in slot `i` is presented to a handler under `id`. -/
def present (L : Ledger) (i : Nat) (l : Line) (id handler : Nat) (taken : Bool) : Ledger :=
  { L with
    lines := Function.update L.lines i (some { l with claim := some id })
    pending := if taken then L.pending.erase l.correlation else L.pending
    claims := Function.update L.claims id
      (some { call := l.correlation, handler := handler, taken := taken })
    nextClaimId := if l.claim = none then L.nextClaimId + 1 else L.nextClaimId }

/-- The held call in slot `i` is settled. -/
def record (L : Ledger) (i : Nat) (l : Line) (id : Nat) : Ledger :=
  { L with
    lines := Function.update L.lines i (some { l with flying := false })
    pending := L.pending.erase l.correlation
    claims := Function.update L.claims id none }

/-- An offered claim goes back. -/
def unoffer (L : Ledger) (id : Nat) : Ledger :=
  { L with claims := Function.update L.claims id none }

/-- A taken claim goes back, and its call waits again. -/
def giveBack (L : Ledger) (id : Nat) (pending : List Correlation) : Ledger :=
  { L with claims := Function.update L.claims id none, pending := pending }

/-- The call in slot `i` goes. -/
def drop (L : Ledger) (i : Nat) (l : Line) : Ledger :=
  { L with
    lines := Function.update L.lines i none
    pending := L.pending.erase l.correlation
    claims := fun id => if l.claim = some id then none else L.claims id }

namespace Balanced

variable {L : Ledger}

theorem nodup (h : L.Balanced) : L.pending.Nodup := by
  refine h.sorted.imp_of_mem ?_
  intro c d hc _ hbefore hcd
  obtain ⟨l, hl, _⟩ := h.waiting c hc
  have := hbefore l l hl (hcd ▸ hl)
  omega

theorem mem_erase (h : L.Balanced) (c d : Correlation) :
    c ∈ L.pending.erase d ↔ c ≠ d ∧ c ∈ L.pending :=
  h.nodup.mem_erase_iff

theorem eq_slot (h : L.Balanced) {i j : Nat} {l m : Line} (hl : L.lines i = some l)
    (hm : L.lines j = some m) (heq : l.correlation = m.correlation) : i = j := by
  rw [← h.slot i l hl, ← h.slot j m hm, heq]

theorem send (h : L.Balanced) (i : Nat) (l : Line) (hfree : L.lines i = none)
    (hslot : Table.slot l.correlation = i) (hsent : l.sent = L.nextSent)
    (hclaim : l.claim = none) (hflying : l.flying = true) : (L.send i l).Balanced := by
  have hnot : l.correlation ∉ L.pending := by
    intro hmem
    obtain ⟨m, hm, _⟩ := h.waiting _ hmem
    rw [hslot, hfree] at hm
    cases hm
  have hlines : ∀ j, (L.send i l).lines j = if j = i then some l else L.lines j := by
    intro j
    simp only [Ledger.send, Function.update_apply]
  have hmem : ∀ c, c ∈ (L.send i l).pending ↔ c ∈ L.pending ∨ c = l.correlation := by
    intro c
    simp only [Ledger.send, List.mem_append, List.mem_singleton]
  have hclaims : (L.send i l).claims = L.claims := rfl
  have hnext : (L.send i l).nextSent = L.nextSent + 1 := rfl
  have hnextClaim : (L.send i l).nextClaimId = L.nextClaimId := rfl
  have hsentLt := h.sentLt
  constructor
  · grind [h.slot]
  · have := h.waiting
    grind
  · -- Every waiting call was sent before the new one.
    refine List.pairwise_append.mpr ⟨?_, List.pairwise_singleton _ _, ?_⟩
    · refine h.sorted.imp_of_mem ?_
      intro c d hc hd hbefore m n hm hn
      obtain ⟨m', hm', hm'c, _⟩ := h.waiting c hc
      obtain ⟨n', hn', hn'd, _⟩ := h.waiting d hd
      grind [Ledger.Before]
    · intro c hc d hd m n hm hn
      obtain ⟨m', hm', _⟩ := h.waiting c hc
      grind
  · grind
  · have := h.sentInj
    grind
  · intro id o ho
    obtain ⟨m, hm, hcorr, hid, hfly⟩ := h.claim id o (hclaims ▸ ho)
    exact ⟨m, by grind, hcorr, hid, hfly⟩
  · intro id o ho
    obtain ⟨m, hm, hcorr, _⟩ := h.claim id o (hclaims ▸ ho)
    have := h.taken id o (hclaims ▸ ho)
    grind
  · have := h.claimLt
    grind
  · have := h.claimInj
    grind
  · have := h.held
    grind

theorem present (h : L.Balanced) (i : Nat) (l : Line) (id handler : Nat) (taken : Bool)
    (hl : L.lines i = some l) (hwait : l.correlation ∈ L.pending)
    (hid : l.claim = some id ∨ l.claim = none ∧ id = L.nextClaimId) :
    (L.present i l id handler taken).Balanced := by
  have hslot := h.slot i l hl
  have hflying : l.flying = true := by
    obtain ⟨m, hm, _, hfly⟩ := h.waiting _ hwait
    rw [hslot, hl, Option.some.injEq] at hm
    rw [hm, hfly]
  have hlines : ∀ j, (L.present i l id handler taken).lines j =
      if j = i then some { l with claim := some id } else L.lines j := by
    intro j
    simp only [Ledger.present, Function.update_apply]
  have hclaims : ∀ id', (L.present i l id handler taken).claims id' =
      if id' = id then some { call := l.correlation, handler := handler, taken := taken }
      else L.claims id' := by
    intro id'
    simp only [Ledger.present, Function.update_apply]
  have hpending : (L.present i l id handler taken).pending =
      if taken then L.pending.erase l.correlation else L.pending := rfl
  have hmem := h.mem_erase
  have hnextClaim : (L.present i l id handler taken).nextClaimId =
      if l.claim = none then L.nextClaimId + 1 else L.nextClaimId := rfl
  have hnext : (L.present i l id handler taken).nextSent = L.nextSent := rfl
  have hclaimLt := h.claimLt
  have hclaimInj := h.claimInj
  have hslots := h.slot
  constructor
  · grind
  · intro c hc
    have hc' : c ∈ L.pending := by grind
    obtain ⟨m, hm, hcorr, hfly⟩ := h.waiting c hc'
    by_cases hi : Table.slot c = i
    · refine ⟨{ l with claim := some id }, by rw [hlines, if_pos hi], ?_, hflying⟩
      grind
    · exact ⟨m, by rw [hlines, if_neg hi, hm], hcorr, hfly⟩
  · have hsorted : (L.present i l id handler taken).pending.Pairwise L.Before := by
      rw [hpending]
      split
      · exact h.sorted.sublist List.erase_sublist
      · exact h.sorted
    refine hsorted.imp ?_
    intro c d hbefore m n hm hn
    grind [Ledger.Before]
  · have := h.sentLt
    grind
  · have := h.sentInj
    grind
  · intro id' o ho
    rw [hclaims] at ho
    by_cases hid' : id' = id
    · rw [if_pos hid', Option.some.injEq] at ho
      refine ⟨{ l with claim := some id }, ?_, ?_, ?_, hflying⟩
      · rw [hlines, if_pos (by rw [← ho]; exact hslot)]
      · rw [← ho]
      · rw [hid']
    · rw [if_neg hid'] at ho
      obtain ⟨m, hm, hcorr, hmid, hfly⟩ := h.claim id' o ho
      refine ⟨m, ?_, hcorr, hmid, hfly⟩
      rw [hlines, if_neg ?_, hm]
      -- The line in slot `i` has no claim, or the claim `id`.
      intro hi
      grind
  · intro id' o ho
    have := h.taken id' o
    have := h.claim id' o
    grind
  · grind
  · intro a b m n id' hm hn
    grind
  · intro j m hm hfly hnot
    by_cases hij : j = i
    · rw [hlines, if_pos hij, Option.some.injEq] at hm
      exact ⟨id, _, by rw [← hm], by rw [hclaims, if_pos rfl]⟩
    · rw [hlines, if_neg hij] at hm
      have hne : m.correlation ≠ l.correlation := fun heq => hij (h.eq_slot hm hl heq)
      obtain ⟨id', o, hid', ho⟩ := h.held j m hm hfly (by grind)
      refine ⟨id', o, hid', ?_⟩
      rw [hclaims, if_neg ?_, ho]
      intro heq
      grind

theorem record (h : L.Balanced) (i : Nat) (l : Line) (id : Nat) (hl : L.lines i = some l)
    (hid : l.claim = some id) : (L.record i l id).Balanced := by
  have hlines : ∀ j, (L.record i l id).lines j =
      if j = i then some { l with flying := false } else L.lines j := by
    intro j
    simp only [Ledger.record, Function.update_apply]
  have hclaims : ∀ id', (L.record i l id).claims id' = if id' = id then none else L.claims id' := by
    intro id'
    simp only [Ledger.record, Function.update_apply]
  have hpending : (L.record i l id).pending = L.pending.erase l.correlation := rfl
  have hmem := h.mem_erase
  have hnext : (L.record i l id).nextSent = L.nextSent := rfl
  have hnextClaim : (L.record i l id).nextClaimId = L.nextClaimId := rfl
  have hslots := h.slot
  have hclaimInj := h.claimInj
  constructor
  · grind
  · intro c hc
    obtain ⟨m, hm, hcorr, hfly⟩ := h.waiting c (by grind)
    exact ⟨m, by grind, hcorr, hfly⟩
  · rw [hpending]
    refine (h.sorted.sublist List.erase_sublist).imp ?_
    intro c d hbefore m n hm hn
    grind [Ledger.Before]
  · have := h.sentLt
    grind
  · have := h.sentInj
    grind
  · intro id' o ho
    obtain ⟨m, hm, hcorr, hmid, hfly⟩ := h.claim id' o (by grind)
    exact ⟨m, by grind, hcorr, hmid, hfly⟩
  · intro id' o ho
    have := h.taken id' o
    have := h.claim id' o
    grind
  · have := h.claimLt
    grind
  · grind
  · intro j m hm hfly hnot
    have := h.held j m
    have heq := fun hm' => h.eq_slot (i := j) (l := m) hm' hl
    grind

theorem unoffer (h : L.Balanced) (id : Nat) (o : ClaimOwner) (ho : L.claims id = some o)
    (hoffered : o.taken = false) : (L.unoffer id).Balanced := by
  have hclaims : ∀ id', (L.unoffer id).claims id' = if id' = id then none else L.claims id' := by
    intro id'
    simp only [Ledger.unoffer, Function.update_apply]
  have hwait : o.call ∈ L.pending := by
    have := h.taken id o ho
    grind
  exact {
    slot := h.slot
    waiting := h.waiting
    sorted := h.sorted
    sentLt := h.sentLt
    sentInj := h.sentInj
    claim := fun id' p hp => h.claim id' p (by grind)
    taken := fun id' p hp => h.taken id' p (by grind)
    claimLt := h.claimLt
    claimInj := h.claimInj
    held := fun i l hl hfly hnot => by
      obtain ⟨id', p, hid', hp⟩ := h.held i l hl hfly hnot
      refine ⟨id', p, hid', ?_⟩
      rw [hclaims, if_neg ?_, hp]
      intro heq
      obtain ⟨m, hm, hcorr, hmid, _⟩ := h.claim id o ho
      have hi := h.claimInj i _ l m id hl hm (heq ▸ hid') hmid
      have hlm : l = m := by
        rw [← hi, show L.lines i = some l from hl, Option.some.injEq] at hm
        exact hm
      exact hnot (by rw [hlm, hcorr]; exact hwait) }

theorem giveBack (h : L.Balanced) (i : Nat) (l : Line) (id : Nat) (o : ClaimOwner)
    (pending : List Correlation) (hl : L.lines i = some l) (hid : l.claim = some id)
    (ho : L.claims id = some o) (hmem : ∀ c, c ∈ pending ↔ c = l.correlation ∨ c ∈ L.pending)
    (hsorted : pending.Pairwise L.Before) : (L.giveBack id pending).Balanced := by
  have hclaims : ∀ id', (L.giveBack id pending).claims id' =
      if id' = id then none else L.claims id' := by
    intro id'
    simp only [Ledger.giveBack, Function.update_apply]
  have hflying : l.flying = true := by
    obtain ⟨m, hm, _, hmid, hfly⟩ := h.claim id o ho
    have := h.claimInj i _ l m id hl hm hid hmid
    grind
  exact {
    slot := h.slot
    waiting := fun c hc => by
      rcases (hmem c).mp hc with heq | hold
      · exact ⟨l, by rw [heq, h.slot i l hl]; exact hl, heq.symm, hflying⟩
      · exact h.waiting c hold
    sorted := hsorted
    sentLt := h.sentLt
    sentInj := h.sentInj
    claim := fun id' p hp => h.claim id' p (by grind)
    taken := fun id' p hp => by
      have hp' : L.claims id' = some p := by grind
      have hne : id' ≠ id := by grind
      have hcall : p.call ≠ l.correlation := by
        intro heq
        obtain ⟨m, hm, hcorr, hmid, _⟩ := h.claim id' p hp'
        have hi := h.eq_slot hl hm (by rw [hcorr, heq])
        rw [← hi, hl, Option.some.injEq] at hm
        rw [← hm, hid, Option.some.injEq] at hmid
        exact hne hmid.symm
      have := h.taken id' p hp'
      have := hmem p.call
      have hpend : (L.giveBack id pending).pending = pending := rfl
      grind
    claimLt := h.claimLt
    claimInj := h.claimInj
    held := fun j m hm hfly hnot => by
      have hpend : (L.giveBack id pending).pending = pending := rfl
      obtain ⟨id', p, hid', hp⟩ := h.held j m hm hfly (by grind)
      refine ⟨id', p, hid', ?_⟩
      rw [hclaims, if_neg ?_, hp]
      intro heq
      have hi := h.claimInj i j l m id hl hm hid (heq ▸ hid')
      have hlm : l = m := by
        rw [hi, show L.lines j = some m from hm, Option.some.injEq] at hl
        exact hl.symm
      exact hnot ((hmem _).mpr (Or.inl (by rw [hlm]))) }

theorem drop (h : L.Balanced) (i : Nat) (l : Line) (hl : L.lines i = some l) :
    (L.drop i l).Balanced := by
  have hlines : ∀ j, (L.drop i l).lines j = if j = i then none else L.lines j := by
    intro j
    simp only [Ledger.drop, Function.update_apply]
  have hclaims : ∀ id, (L.drop i l).claims id =
      if l.claim = some id then none else L.claims id := fun id => rfl
  have hpending : (L.drop i l).pending = L.pending.erase l.correlation := rfl
  have hmem := h.mem_erase
  have hnext : (L.drop i l).nextSent = L.nextSent := rfl
  have hnextClaim : (L.drop i l).nextClaimId = L.nextClaimId := rfl
  have hslots := h.slot
  have hclaimInj := h.claimInj
  constructor
  · grind
  · intro c hc
    obtain ⟨m, hm, hcorr, hfly⟩ := h.waiting c (by grind)
    exact ⟨m, by grind, hcorr, hfly⟩
  · rw [hpending]
    refine (h.sorted.sublist List.erase_sublist).imp ?_
    intro c d hbefore m n hm hn
    grind [Ledger.Before]
  · have := h.sentLt
    grind
  · have := h.sentInj
    grind
  · intro id' o ho
    obtain ⟨m, hm, hcorr, hmid, hfly⟩ := h.claim id' o (by grind)
    exact ⟨m, by grind, hcorr, hmid, hfly⟩
  · intro id' o ho
    have := h.taken id' o
    have := h.claim id' o
    grind
  · have := h.claimLt
    grind
  · grind
  · intro j m hm hfly hnot
    have := h.held j m
    have heq := fun hm' => h.eq_slot (i := j) (l := m) hm' hl
    grind

end Balanced

end Ledger

end Loopback

end Ridl
