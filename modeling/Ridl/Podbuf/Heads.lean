import Ridl.Podbuf.Layout
import Mathlib.Data.List.Nodup
import Mathlib.Order.Interval.Finset.Nat

/-!
# The Law of a Head

What a head laid out for a struct, a tuple or a union is: every member of the
declaration at an aligned place of its own, every byte of the head in one field
or one pad, and the presence of every optional member in a bit of its own.

The pads are found on one pass over the fields in the order of their offsets,
so what the pass has covered is everything before its cursor.

## Main definitions

* `Placement.span`, `Head.ranges`: The bytes a field or a pad takes.
* `Members.Counted`: The flags of collected members follow the optional ones.

## Theorems

* `countP_padsFrom`: Every byte is in one field or one pad.
* `Members.Counted.push`: A collected member keeps the flags.
* `head_layout`: The place of every item, and the law of every head.
-/

namespace Ridl

namespace Podbuf

open Library Diff

/-- The range holds a byte. -/
def covers (b : Nat) (s : Span) : Bool := s.1 ≤ b && b < s.2

theorem covers_iff (b : Nat) (s : Span) : covers b s = true ↔ s.1 ≤ b ∧ b < s.2 := by
  rw [covers, Bool.and_eq_true, decide_eq_true_eq, decide_eq_true_eq]

def Placement.span (p : Placement) : Span := (p.offset, p.offset + p.size)

def Pad.span (p : Pad) : Span := (p.offset, p.offset + p.size)

/-- The bytes that the fields, the flags bytes and the pads take. -/
def Head.ranges (h : Head) : List Span := h.fields.map Placement.span ++ h.pads.map Pad.span

/-- Neither of two ranges begins inside the other. -/
def Apart (s t : Span) : Prop := ¬ (t.1 < s.2 ∧ s.1 < t.2)

/-! ### Pads -/

theorem countP_padBefore (cursor offset b : Nat) :
    ((padBefore cursor offset).map Pad.span).countP (covers b) =
      if cursor ≤ b ∧ b < offset then 1 else 0 := by
  unfold padBefore
  by_cases h : cursor < offset
  · rw [if_pos h, List.map_singleton, List.countP_singleton]
    refine if_congr ?_ rfl rfl
    rw [covers_iff, Pad.span]
    show cursor ≤ b ∧ b < cursor + (offset - cursor) ↔ _
    omega
  · rw [if_neg h, List.map_nil, List.countP_nil, if_neg (by omega)]

theorem countP_padsFrom (size b : Nat) (fields : List Placement) (cursor : Nat)
    (hsorted : fields.Pairwise (fun p q => p.offset ≤ q.offset))
    (hapart : fields.Pairwise (fun p q => Apart p.span q.span))
    (hstart : ∀ p ∈ fields, p.size = 0 ∨ cursor ≤ p.offset)
    (hend : ∀ p ∈ fields, p.offset + p.size ≤ size) (hcursor : cursor ≤ size) :
    (fields.map Placement.span).countP (covers b) +
        ((padsFrom size cursor fields).map Pad.span).countP (covers b) =
      if cursor ≤ b ∧ b < size then 1 else 0 := by
  induction fields generalizing cursor with
  | nil => rw [List.map_nil, List.countP_nil, Nat.zero_add, padsFrom, countP_padBefore]
  | cons p rest ih =>
      rcases List.pairwise_cons.mp hsorted with ⟨hfirst, hsorted⟩
      rcases List.pairwise_cons.mp hapart with ⟨hclear, hapart⟩
      have hp := hstart p List.mem_cons_self
      have hpend := hend p List.mem_cons_self
      have hrest := ih (max cursor (p.offset + p.size)) hsorted hapart
        (by
          intro q hq
          have hle := hfirst q hq
          have hno : ¬ (q.offset < p.offset + p.size ∧ p.offset < q.offset + q.size) := hclear q hq
          have hq' := hstart q (List.mem_cons_of_mem p hq)
          omega)
        (fun q hq => hend q (List.mem_cons_of_mem p hq)) (Nat.max_le.mpr ⟨hcursor, hpend⟩)
      have hfield : (if covers b p.span then 1 else 0) =
          if p.offset ≤ b ∧ b < p.offset + p.size then 1 else 0 :=
        if_congr (covers_iff b p.span) rfl rfl
      rw [List.map_cons, List.countP_cons, hfield, padsFrom, List.map_append, List.countP_append,
        countP_padBefore]
      -- the byte is before the field, in it, or after it
      split_ifs at hrest ⊢ <;> omega

theorem padsFrom_inside (size : Nat) (fields : List Placement) (cursor : Nat)
    (hend : ∀ p ∈ fields, p.offset + p.size ≤ size) :
    ∀ pad ∈ padsFrom size cursor fields, pad.offset + pad.size ≤ size := by
  have hbefore : ∀ c o, o ≤ size → ∀ pad ∈ padBefore c o, pad.offset + pad.size ≤ size := by
    intro c o ho pad hpad
    unfold padBefore at hpad
    split at hpad
    · rw [List.mem_singleton.mp hpad]
      show c + (o - c) ≤ size
      omega
    · exact absurd hpad List.not_mem_nil
  induction fields generalizing cursor with
  | nil => exact hbefore cursor size (Nat.le_refl size)
  | cons p rest ih =>
      intro pad hpad
      have hp := hend p List.mem_cons_self
      rcases List.mem_append.mp hpad with hpad | hpad
      · exact hbefore cursor p.offset (by omega) pad hpad
      · exact ih _ (fun q hq => hend q (List.mem_cons_of_mem p hq)) pad hpad

/-! ### Placed items -/

/-- What was placed, with no place. -/
def Placement.item (p : Placement) : Item :=
  { source := p.source, form := p.form, optional := p.optional }

theorem map_item_zipWith (items : List Item) (offs : List Nat)
    (hlen : offs.length = items.length) :
    (items.zipWith Item.placed offs).map Placement.item = items := by
  induction items generalizing offs with
  | nil => rfl
  | cons item items ih =>
      cases offs with
      | nil => exact absurd hlen (by simp)
      | cons off offs =>
          rw [List.zipWith_cons_cons, List.map_cons, ih offs (Nat.succ.inj hlen)]
          rfl

theorem map_span_zipWith (items : List Item) (offs : List Nat) :
    (items.zipWith Item.placed offs).map Placement.span = spans (items.map Item.extent) offs := by
  rw [spans, List.map_zipWith, List.zipWith_map_left]
  rfl

variable {items : List Item} {h : Head} {listed : List (Source × Bool)} {m : Members}
  {visiting : List String} {packages : Packages} {fuel : Nat} {home : Package}

theorem forall_mem_placements {offs : List Nat} {P : Placement → Prop}
    (h : ∀ (i : Nat) (item : Item) (off : Nat), items[i]? = some item → offs[i]? = some off →
      P (item.placed off)) :
    ∀ p ∈ placements items offs, P p := by
  intro p hp
  rw [placements, List.mem_insertionSort] at hp
  rcases List.mem_iff_getElem?.mp hp with ⟨i, hi⟩
  rw [List.getElem?_zipWith_eq_some] at hi
  rcases hi with ⟨item, off, hitem, hoff, rfl⟩
  exact h i item off hitem hoff

theorem ends_le_iff (ss : List Span) (first n : Nat) :
    ss.foldl (fun m s => max m s.2) first ≤ n ↔ first ≤ n ∧ ∀ s ∈ ss, s.2 ≤ n := by
  induction ss generalizing first with
  | nil => simp
  | cons s ss ih =>
      rw [List.foldl_cons, ih, Nat.max_le, List.forall_mem_cons, and_assoc]

theorem headSize_le_iff (items : List Item) (offs : List Nat) (n : Nat) (hn : HEAD_ALIGN ∣ n) :
    headSize items offs ≤ n ↔ ∀ s ∈ spans (items.map Item.extent) offs, s.2 ≤ n := by
  have halign : 0 < HEAD_ALIGN := by decide
  have hends := ends_le_iff (spans (items.map Item.extent) offs) 0 n
  refine Iff.trans ⟨fun h => ?_, fun h => ?_⟩ (hends.trans (and_iff_right (Nat.zero_le n)))
  · exact Nat.le_trans (le_alignUp _ halign) h
  · exact alignUp_le halign hn h

/-- What the laying out makes of collected members. -/
structure Laid (items : List Item) (h : Head) : Prop where
  perm : (h.fields.map Placement.item).Perm items
  extent : ∀ p ∈ h.fields, p.size = elemSize p.form ∧ p.align = alignOf p.form
  aligned : ∀ p ∈ h.fields, p.align ∣ p.offset
  size_dvd : HEAD_ALIGN ∣ h.size
  size_le_iff : ∀ n, HEAD_ALIGN ∣ n → (h.size ≤ n ↔ ∀ p ∈ h.fields, p.offset + p.size ≤ n)
  addressable : h.size ≤ U32_MAX
  pads_inside : ∀ pad ∈ h.pads, pad.offset + pad.size ≤ h.size
  cover : ∀ b, h.ranges.countP (covers b) = if b < h.size then 1 else 0

/-- The head of placed items, when its size is one an offset addresses. -/
theorem layOut_run (items : List Item) : ∃ offs,
    place (items.map Item.extent) = some offs ∧
    ((headSize items offs > U32_MAX ∧ ∃ e, (layOut items).run = some (.error e)) ∨
      (headSize items offs ≤ U32_MAX ∧ (layOut items).run =
        some (.ok (.mk (headSize items offs) (placements items offs)
          (padsFrom (headSize items offs) 0 (placements items offs)))))) := by
  have halign : ∀ extent ∈ items.map Item.extent, 0 < extent.2 := by
    intro extent hextent
    rcases List.mem_map.mp hextent with ⟨item, _, rfl⟩
    exact alignOf_pos item.form
  rcases place_spec (items.map Item.extent) halign with ⟨offs, hplace, _⟩
  refine ⟨offs, hplace, ?_⟩
  by_cases hsize : headSize items offs > U32_MAX
  · refine Or.inl ⟨hsize, ?_⟩
    simp only [layOut, hplace, if_pos hsize]
    exact ⟨_, rfl⟩
  · refine Or.inr ⟨Nat.le_of_not_lt hsize, ?_⟩
    simp only [layOut, hplace, if_neg hsize]
    rfl

theorem layOut_laid (hok : (layOut items).run = some (.ok h)) :
    Laid items h := by
  have halign : ∀ extent ∈ items.map Item.extent, 0 < extent.2 := by
    intro extent hextent
    rcases List.mem_map.mp hextent with ⟨item, _, rfl⟩
    exact alignOf_pos item.form
  rcases layOut_run items with ⟨offs, hplace, ⟨_, e, herr⟩ | ⟨hsize, hrun⟩⟩
  · rw [herr] at hok
    exact absurd hok (by simp)
  rw [hrun, Option.some.injEq, Except.ok.injEq] at hok
  subst hok
  rcases place_spec (items.map Item.extent) halign with ⟨offs', hplace', hlen, hat⟩
  rw [hplace, Option.some.injEq] at hplace'
  subst hplace'
  rw [List.length_map] at hlen
  have hperm : (placements items offs).Perm (items.zipWith Item.placed offs) :=
    List.perm_insertionSort _ _
  have hspans : ((placements items offs).map Placement.span).Perm
      (spans (items.map Item.extent) offs) := by
    rw [← map_span_zipWith]
    exact hperm.map _
  have hends : ∀ n, (∀ s ∈ spans (items.map Item.extent) offs, s.2 ≤ n) ↔
      ∀ p ∈ placements items offs, p.offset + p.size ≤ n := by
    intro n
    refine ⟨fun h p hp => h p.span (hspans.mem_iff.mp (List.mem_map_of_mem hp)), fun h s hs => ?_⟩
    rcases List.mem_map.mp (hspans.mem_iff.mpr hs) with ⟨p, hp, rfl⟩
    exact h p hp
  have hdvd : HEAD_ALIGN ∣ headSize items offs := dvd_alignUp _ _
  have hinside : ∀ p ∈ placements items offs, p.offset + p.size ≤ headSize items offs :=
    (hends _).mp ((headSize_le_iff items offs _ hdvd).mp (Nat.le_refl _))
  refine ⟨?_, ?_, ?_, hdvd, fun n hn => (headSize_le_iff items offs n hn).trans (hends n), hsize,
    padsFrom_inside _ _ 0 hinside, fun b => ?_⟩
  · have hitems := hperm.map Placement.item
    rwa [map_item_zipWith items offs hlen] at hitems
  · exact forall_mem_placements (fun i item off _ _ => ⟨rfl, rfl⟩)
  · refine forall_mem_placements (fun i item off hitem hoff => ?_)
    exact (hat i (elemSize item.form) (alignOf item.form) off
      (by rw [List.getElem?_map, hitem]; rfl) hoff).1
  · have hsorted : (placements items offs).Pairwise (fun p q => p.offset ≤ q.offset) :=
      List.pairwise_insertionSort _ _
    have hapart : (placements items offs).Pairwise (fun p q => Apart p.span q.span) := by
      rw [← List.pairwise_map]
      refine (hspans.pairwise_iff (fun {s t} hst hts => hst ⟨hts.2, hts.1⟩)).mpr ?_
      exact place_disjoint _ offs halign hplace
    have hcount := countP_padsFrom (headSize items offs) b (placements items offs) 0 hsorted hapart
      (fun p _ => Or.inr (Nat.zero_le _)) hinside (Nat.zero_le _)
    simp only [Nat.zero_le, true_and] at hcount
    rw [Head.ranges, List.countP_append]
    exact hcount

/-- Appended items move no placement. -/
theorem layOut_append {more : List Item} {h' : Head}
    (hok : (layOut items).run = some (.ok h)) (hok' : (layOut (items ++ more)).run = some (.ok h')) :
    ∀ p ∈ h.fields, p ∈ h'.fields := by
  rcases layOut_run items with ⟨offs, hplace, ⟨_, e, herr⟩ | ⟨_, hrun⟩⟩
  · rw [herr] at hok
    exact absurd hok (by simp)
  rcases layOut_run (items ++ more) with ⟨offs', hplace', ⟨_, e, herr⟩ | ⟨_, hrun'⟩⟩
  · rw [herr] at hok'
    exact absurd hok' (by simp)
  rw [hrun, Option.some.injEq, Except.ok.injEq] at hok
  rw [hrun', Option.some.injEq, Except.ok.injEq] at hok'
  subst hok hok'
  rcases place_append (items.map Item.extent) (more.map Item.extent) offs (by
    intro extent hextent
    rcases List.mem_map.mp hextent with ⟨item, _, rfl⟩
    exact alignOf_pos item.form) hplace with ⟨offs'', happend⟩
  rw [← List.map_append, hplace', Option.some.injEq] at happend
  subst happend
  refine forall_mem_placements (fun i item off hitem hoff => ?_)
  show item.placed off ∈ placements (items ++ more) (offs ++ offs'')
  rw [placements, List.mem_insertionSort, List.mem_iff_getElem?]
  refine ⟨i, List.getElem?_zipWith_eq_some.mpr ⟨item, off, ?_, ?_, rfl⟩⟩
  · exact (List.getElem?_append_left (List.getElem?_eq_some_iff.mp hitem).1).trans hitem
  · exact (List.getElem?_append_left (List.getElem?_eq_some_iff.mp hoff).1).trans hoff

/-! ### Collected members -/

/-- The flags byte a source stands for, if it does. -/
def Source.flagsIndex : Source → Option Nat
  | .flags index => some index
  | _ => none

def Item.flagsIndex (item : Item) : Option Nat := item.source.flagsIndex

/-- The member an item holds, and whether it is optional; nothing for a flags
    byte. -/
def Item.member (item : Item) : Option (Source × Bool) :=
  match item.source with
  | .flags _ => none
  | source => some (source, item.optional.isSome)

/-- The bit of the optional member of a number. -/
def flagBit (n : Nat) : FlagBit := ⟨n / 8, n % 8⟩

theorem flagBit_injective : Function.Injective flagBit := by
  intro n n' h
  have hdiv : n / 8 = n' / 8 := congrArg FlagBit.flags h
  have hmod : n % 8 = n' % 8 := congrArg FlagBit.bit h
  omega

namespace Members

/-- The members are those listed, with a bit for each optional one and a flags
    byte for each eight of them. -/
structure Counted (listed : List (Source × Bool)) (m : Members) : Prop where
  members : m.items.filterMap Item.member = listed
  optionals : m.items.filterMap Item.optional = (List.range m.optionals).map flagBit
  flags : m.items.filterMap Item.flagsIndex = List.range ((m.optionals + 7) / 8)
  bytes : ∀ item ∈ m.items, ∀ k, item.source = .flags k → item.form = .int .u8 false
  count : m.optionals = listed.countP Prod.snd

theorem counted_empty : Counted [] empty := by
  refine ⟨rfl, rfl, rfl, fun item hitem => absurd hitem List.not_mem_nil, rfl⟩

theorem Counted.push {listed : List (Source × Bool)} {m : Members} (hm : Counted listed m)
    {source : Source} (hsource : source.flagsIndex = none) (form : Form) (isOptional : Bool) :
    Counted (listed ++ [(source, isOptional)]) (m.push source form isOptional) := by
  have hmember : ∀ optional : Option FlagBit,
      Item.member { source := source, form := form, optional := optional } =
        some (source, optional.isSome) := by
    intro optional
    cases source with
    | flags index => exact absurd hsource (by simp [Source.flagsIndex])
    | _ => rfl
  have hnone : ∀ optional : Option FlagBit, Item.flagsIndex ⟨source, form, optional⟩ = none :=
    fun _ => hsource
  have hbytes : ∀ (optional : Option FlagBit) (k : Nat),
      (Item.mk source form optional).source ≠ .flags k := by
    intro optional k hk
    rw [show source = .flags k from hk] at hsource
    exact absurd hsource (by simp [Source.flagsIndex])
  cases isOptional with
  | false =>
      refine ⟨?_, ?_, ?_, ?_, ?_⟩
      · show (m.items ++ [_]).filterMap Item.member = _
        rw [List.filterMap_append, hm.members, List.filterMap_cons_some (hmember none)]
        rfl
      · show (m.items ++ [_]).filterMap Item.optional = _
        rw [List.filterMap_append, hm.optionals]
        exact List.append_nil _
      · show (m.items ++ [_]).filterMap _ = _
        rw [List.filterMap_append, hm.flags, List.filterMap_cons_none (hnone none)]
        exact List.append_nil _
      · intro item hitem k hk
        rcases List.mem_append.mp hitem with hitem | hitem
        · exact hm.bytes item hitem k hk
        · rw [List.mem_singleton.mp hitem] at hk
          exact absurd hk (hbytes none k)
      · rw [List.countP_append]
        exact hm.count
  | true =>
      have hitems : (m.push source form true).items =
          (if m.optionals % 8 = 0 then m.items ++ [Members.flags (m.optionals / 8)] else m.items) ++
            [{ source := source, form := form, optional := some (flagBit m.optionals) }] := rfl
      have hcount : (m.push source form true).optionals = m.optionals + 1 := rfl
      refine ⟨?_, ?_, ?_, ?_, ?_⟩
      · rw [hitems, List.filterMap_append, List.filterMap_cons_some (hmember _)]
        refine congrArg (fun l => l ++ [(source, true)]) ?_
        split
        · rw [List.filterMap_append, hm.members]
          exact List.append_nil _
        · exact hm.members
      · rw [hitems, hcount, List.range_succ, List.map_append, List.filterMap_append]
        refine congrArg (fun l => l ++ [flagBit m.optionals]) ?_
        split
        · rw [List.filterMap_append, hm.optionals]
          exact List.append_nil _
        · exact hm.optionals
      · rw [hitems, hcount, List.filterMap_append, List.filterMap_cons_none (hnone _),
          List.filterMap_nil, List.append_nil]
        -- the first of eight begins a flags byte, and the others are in the last one
        by_cases hfirst : m.optionals % 8 = 0
        · rw [if_pos hfirst, List.filterMap_append, hm.flags,
            show (m.optionals + 1 + 7) / 8 = m.optionals / 8 + 1 by omega,
            show (m.optionals + 7) / 8 = m.optionals / 8 by omega, List.range_succ]
          rfl
        · rw [if_neg hfirst, hm.flags,
            show (m.optionals + 1 + 7) / 8 = (m.optionals + 7) / 8 by omega]
      · intro item hitem k hk
        rw [hitems] at hitem
        rcases List.mem_append.mp hitem with hitem | hitem
        · split at hitem
          · rcases List.mem_append.mp hitem with hitem | hitem
            · exact hm.bytes item hitem k hk
            · rw [List.mem_singleton.mp hitem]
              rfl
          · exact hm.bytes item hitem k hk
        · rw [List.mem_singleton.mp hitem] at hk
          exact absurd hk (hbytes _ k)
      · rw [hcount, List.countP_append, hm.count]
        rfl

end Members

/-! ### The law of a head -/

/-- A head that holds the listed members, each of them optional or not. -/
structure Lawful (listed : List (Source × Bool)) (h : Head) : Prop where
  members : (h.fields.filterMap (fun p => p.item.member)).Perm listed
  extent : ∀ p ∈ h.fields, p.size = elemSize p.form ∧ p.align = alignOf p.form
  aligned : ∀ p ∈ h.fields, p.align ∣ p.offset
  size_dvd : HEAD_ALIGN ∣ h.size
  size_le_iff : ∀ n, HEAD_ALIGN ∣ n → (h.size ≤ n ↔ ∀ p ∈ h.fields, p.offset + p.size ≤ n)
  cover : ∀ b, h.ranges.countP (covers b) = if b < h.size then 1 else 0
  flag_placed : ∀ p ∈ h.fields, ∀ flag, p.optional = some flag →
    flag.bit < 8 ∧ ∃ q ∈ h.fields, q.source = .flags flag.flags ∧ q.size = 1
  flag_own : (h.fields.filterMap Placement.optional).Nodup
  flag_count : (h.fields.filterMap Placement.optional).length = listed.countP Prod.snd
  flags_own : (h.fields.filterMap (fun p => p.source.flagsIndex)).Nodup
  addressable : h.size < 2 ^ 32
  inside : ∀ s ∈ h.ranges, s.2 ≤ h.size

theorem Members.Counted.lawful (hm : m.Counted listed) (hok : (layOut m.items).run = some (.ok h)) :
    Lawful listed h := by
  have hlaid := layOut_laid hok
  have hmap : ∀ {β : Type} (f : Item → Option β),
      (h.fields.filterMap (fun p => f p.item)).Perm (m.items.filterMap f) := by
    intro β f
    have hperm := hlaid.perm.filterMap f
    rwa [List.filterMap_map] at hperm
  have hinside : ∀ p ∈ h.fields, p.offset + p.size ≤ h.size :=
    (hlaid.size_le_iff h.size hlaid.size_dvd).mp (Nat.le_refl _)
  have hoptional : (h.fields.filterMap Placement.optional).Perm
      ((List.range m.optionals).map flagBit) := by
    rw [← hm.optionals]
    exact hmap Item.optional
  have hflags : (h.fields.filterMap (fun p => p.source.flagsIndex)).Perm
      (List.range ((m.optionals + 7) / 8)) := by
    rw [← hm.flags]
    exact hmap Item.flagsIndex
  refine ⟨?_, hlaid.extent, hlaid.aligned, hlaid.size_dvd, hlaid.size_le_iff, hlaid.cover,
    fun p hp flag hflag => ?_, ?_, ?_, ?_, Nat.lt_succ_of_le hlaid.addressable, fun s hs => ?_⟩
  · rw [← hm.members]
    exact hmap Item.member
  · have hmem := hoptional.mem_iff.mp (List.mem_filterMap.mpr ⟨p, hp, hflag⟩)
    rcases List.mem_map.mp hmem with ⟨n, hn, rfl⟩
    have hlt := List.mem_range.mp hn
    refine ⟨Nat.mod_lt n (by decide), ?_⟩
    have hindex : n / 8 ∈ List.range ((m.optionals + 7) / 8) := List.mem_range.mpr (by omega)
    rcases List.mem_filterMap.mp (hflags.mem_iff.mpr hindex) with ⟨q, hq, hsource⟩
    have hsource : q.source = .flags (n / 8) := by
      cases hq : q.source with
      | flags index =>
          rw [hq] at hsource
          exact congrArg Source.flags (Option.some.inj hsource)
      | _ =>
          rw [hq] at hsource
          cases hsource
    refine ⟨q, hq, hsource, ?_⟩
    have hform : q.form = .int .u8 false :=
      hm.bytes q.item (hlaid.perm.mem_iff.mp (List.mem_map_of_mem hq)) _ hsource
    rw [(hlaid.extent q hq).1, hform]
    rfl
  · exact hoptional.nodup_iff.mpr (List.Nodup.map flagBit_injective List.nodup_range)
  · rw [hoptional.length_eq, List.length_map, List.length_range]
    exact hm.count
  · exact hflags.nodup_iff.mpr List.nodup_range
  · rcases List.mem_append.mp hs with hs | hs
    · rcases List.mem_map.mp hs with ⟨p, hp, rfl⟩
      exact hinside p hp
    · rcases List.mem_map.mp hs with ⟨pad, hpad, rfl⟩
      exact hlaid.pads_inside pad hpad

/-! ### Structs, tuples and unions -/

theorem run_bind_eq_ok {α β : Type} {x : LayoutM α} {f : α → LayoutM β} {b : β}
    (h : (x >>= f).run = some (.ok b)) :
    ∃ a, x.run = some (.ok a) ∧ (f a).run = some (.ok b) := by
  rw [ExceptT.run_bind] at h
  rcases hx : x.run with _ | (e | a)
  · rw [hx] at h
    cases h
  · rw [hx] at h
    cases h
  · rw [hx] at h
    exact ⟨a, rfl, h⟩

theorem guarded_eq_ok {key : String} {body : List String → LayoutM Head}
    (hok : (guarded visiting key body).run = some (.ok h)) :
    (body (key :: visiting)).run = some (.ok h) := by
  unfold guarded at hok
  split at hok
  · cases hok
  · exact hok

theorem run_throw_ne_ok {α : Type} {e : String} {a : α} :
    (throw e : LayoutM α).run ≠ some (.ok a) := by
  intro h
  cases h

/-- What a struct's member is placed as, and whether it is optional; nothing for
    a tombstone. -/
def structSource : Option StructMember → Option (Source × Bool)
  | some (.field field) =>
      some (.field field.name field.ordinal, (field.type.map FieldType.isOptional).getD false)
  | _ => none

theorem structMembers_counted (form : FieldType → LayoutM Form) (owner : String)
    (list : List (Option StructMember)) {m' : Members}
    (hm : m.Counted listed) (hok : (structMembers form owner list m).run = some (.ok m')) :
    m'.Counted (listed ++ list.filterMap structSource) := by
  induction list generalizing m listed with
  | nil =>
      cases hok
      rwa [List.filterMap_nil, List.append_nil]
  | cons member rest ih =>
      rcases member with _ | (field | reserved)
      · exact ih hm hok
      · rw [structMembers] at hok
        rcases htype : field.type with _ | type
        · rw [htype] at hok
          exact absurd hok run_throw_ne_ok
        · rw [htype] at hok
          rcases run_bind_eq_ok hok with ⟨form', _, hrest⟩
          have hnext := ih (hm.push rfl form' type.isOptional) hrest
          rw [List.append_assoc] at hnext
          have hsource : structSource (some (.field field)) =
              some (.field field.name field.ordinal, type.isOptional) := by
            rw [structSource, htype]
            rfl
          rwa [List.filterMap_cons_some hsource]
      · exact ih hm hok

/-- What a tuple's fields are placed as, from a position on. -/
def tupleSources : Nat → List TupleField → List (Source × Bool)
  | _, [] => []
  | position, .mk name type :: rest =>
      (.position position name, (type.map FieldType.isOptional).getD false) ::
        tupleSources (position + 1) rest

theorem length_tupleSources (position : Nat) (fields : List TupleField) :
    (tupleSources position fields).length = fields.length := by
  induction fields generalizing position with
  | nil => rfl
  | cons field rest ih =>
      rcases field with ⟨name, type⟩
      rw [tupleSources, List.length_cons, List.length_cons, ih]

theorem tupleMembers_counted (form : FieldType → LayoutM Form) (name : String) (position : Nat)
    (fields : List TupleField) {m' : Members}
    (hm : m.Counted listed) (hok : (tupleMembers form name position fields m).run = some (.ok m')) :
    m'.Counted (listed ++ tupleSources position fields) ∧
      (fields = [] ∨ position + fields.length ≤ 2 ^ 32) := by
  induction fields generalizing m listed position with
  | nil =>
      cases hok
      exact ⟨by rwa [tupleSources, List.append_nil], Or.inl rfl⟩
  | cons field rest ih =>
      rcases field with ⟨field, type⟩
      unfold tupleMembers at hok
      by_cases hposition : position > U32_MAX
      · rw [if_pos hposition] at hok
        exact absurd hok run_throw_ne_ok
      · rw [if_neg hposition] at hok
        cases type with
        | none => exact absurd hok run_throw_ne_ok
        | some type =>
            rcases run_bind_eq_ok hok with ⟨form', _, hrest⟩
            rcases ih (position + 1) (hm.push rfl form' type.isOptional) hrest with
              ⟨hnext, hlen⟩
            rw [List.append_assoc] at hnext
            refine ⟨hnext, Or.inr ?_⟩
            rw [List.length_cons]
            unfold U32_MAX at hposition
            rcases hlen with rfl | hlen
            · rw [List.length_nil]
              omega
            · omega

theorem structHead_lawful {owner : String} {d : StructDef}
    (hok : (structHead packages fuel visiting home owner d).run = some (.ok h)) :
    Lawful (d.members.filterMap structSource) h := by
  cases fuel with
  | zero =>
      rw [structHead] at hok
      cases hok
  | succ fuel =>
      rw [structHead] at hok
      rcases run_bind_eq_ok (guarded_eq_ok hok) with ⟨members, hmembers, hok⟩
      exact (structMembers_counted _ owner d.members Members.counted_empty hmembers).lawful hok

theorem tupleHead_lawful {name : String} {fields : List TupleField}
    (hok : (tupleHead packages fuel visiting home name fields).run = some (.ok h)) :
    Lawful (tupleSources 1 fields) h ∧ fields.length < 2 ^ 32 := by
  cases fuel with
  | zero =>
      rw [tupleHead] at hok
      cases hok
  | succ fuel =>
      rw [tupleHead] at hok
      rcases run_bind_eq_ok hok with ⟨members, hmembers, hok⟩
      rcases tupleMembers_counted _ name 1 fields Members.counted_empty hmembers with
        ⟨hcounted, hlen⟩
      refine ⟨hcounted.lawful hok, ?_⟩
      rcases hlen with rfl | hlen
      · decide
      · omega

theorem unionItems_counted (d : UnionDef) (arms : List ArmHead) :
    Members.Counted [(.tag, false), (.arm, false)] ⟨unionItems d arms, 0⟩ := by
  refine ⟨rfl, rfl, by simp [unionItems, Item.flagsIndex, Source.flagsIndex],
    fun item hitem k hk => ?_, rfl⟩
  rcases List.mem_cons.mp hitem with rfl | hitem
  · cases hk
  · rw [List.mem_singleton.mp hitem] at hk
    cases hk

theorem unionHead_lawful {owner : String} {d : UnionDef}
    (hok : (unionHead packages fuel visiting home owner d).run = some (.ok h)) :
    Lawful [(.tag, false), (.arm, false)] h := by
  cases fuel with
  | zero =>
      rw [unionHead] at hok
      cases hok
  | succ fuel =>
      rw [unionHead] at hok
      rcases run_bind_eq_ok (guarded_eq_ok hok) with ⟨arms, _, hok⟩
      exact (unionItems_counted d arms).lawful hok

theorem length_lt_of_nodup {list : List Nat} {bound : Nat} (hbound : 0 < bound)
    (hnodup : list.Nodup) (hrange : ∀ n ∈ list, 0 < n ∧ n < bound) : list.length < bound := by
  have hsub : list.toFinset ⊆ Finset.Ico 1 bound := by
    intro n hn
    exact Finset.mem_Ico.mpr (hrange n (List.mem_toFinset.mp hn))
  have hcard := Finset.card_le_card hsub
  rw [List.toFinset_card_of_nodup hnodup, Nat.card_Ico] at hcard
  omega

def sourceOrdinal : Source × Bool → Nat
  | (.field _ ordinal, _) => ordinal
  | _ => 0

/-- **Placement ends, puts every item at the lowest aligned offset that is free
    among the items before it, and moves no item for one appended after it.
    Every head laid out for a struct, a tuple or a union has the least size,
    every byte of it in one field or one pad, and a bit of a placed flags byte
    for each optional member; and no sum of its offsets, sizes and counts passes
    a `u32`.** -/
theorem head_layout :
    (∀ items : List (Nat × Nat), (∀ item ∈ items, ∃ k, item.2 = 2 ^ k) →
      ∃ offs, place items = some offs ∧ offs.length = items.length ∧
        (∀ i size align off, items[i]? = some (size, align) → offs[i]? = some off →
          align ∣ off ∧ Fits (spans (items.take i) (offs.take i)) off size ∧
            ∀ o, align ∣ o → Fits (spans (items.take i) (offs.take i)) o size → off ≤ o) ∧
        (spans items offs).Pairwise Apart ∧
        (∀ s ∈ spans items offs, s.2 ≤ (items.map (fun item => item.1 + item.2)).sum) ∧
        ∀ more, (∀ item ∈ more, ∃ k, item.2 = 2 ^ k) →
          ∃ offs', place (items ++ more) = some (offs ++ offs')) ∧
    (∀ items more h h', (layOut items).run = some (.ok h) →
      (layOut (items ++ more)).run = some (.ok h') → ∀ p ∈ h.fields, p ∈ h'.fields) ∧
    (∀ packages fuel visiting home owner d h,
      (structHead packages fuel visiting home owner d).run = some (.ok h) →
        Lawful (d.members.filterMap structSource) h ∧
        (((d.members.filterMap structSource).map sourceOrdinal).Nodup →
          (∀ o ∈ (d.members.filterMap structSource).map sourceOrdinal, 0 < o ∧ o < 2 ^ 32) →
          (h.fields.filterMap Placement.optional).length < 2 ^ 32)) ∧
    (∀ packages fuel visiting home name fields h,
      (tupleHead packages fuel visiting home name fields).run = some (.ok h) →
        Lawful (tupleSources 1 fields) h ∧ fields.length < 2 ^ 32 ∧
          (h.fields.filterMap Placement.optional).length < 2 ^ 32) ∧
    (∀ packages fuel visiting home owner d h,
      (unionHead packages fuel visiting home owner d).run = some (.ok h) →
        Lawful [(.tag, false), (.arm, false)] h) := by
  have hpos : ∀ items : List (Nat × Nat), (∀ item ∈ items, ∃ k, item.2 = 2 ^ k) →
      ∀ item ∈ items, 0 < item.2 := by
    intro items hpow item hitem
    rcases hpow item hitem with ⟨k, hk⟩
    rw [hk]
    exact Nat.pow_pos (by decide)
  refine ⟨fun items hpow => ?_, fun items more h h' hok hok' => layOut_append hok hok',
    fun packages fuel visiting home owner d h hok => ?_,
    fun packages fuel visiting home name fields h hok => ?_,
    fun packages fuel visiting home owner d h hok => unionHead_lawful hok⟩
  · have halign := hpos items hpow
    rcases place_spec items halign with ⟨offs, hplace, hlen, hat⟩
    exact ⟨offs, hplace, hlen, hat, place_disjoint items offs halign hplace,
      place_end_le items offs halign hplace,
      fun more hmore => place_append items more offs (hpos more hmore) hplace⟩
  · have hlawful := structHead_lawful hok
    refine ⟨hlawful, fun hnodup hrange => ?_⟩
    have hlen := length_lt_of_nodup (by decide) hnodup hrange
    rw [List.length_map] at hlen
    rw [hlawful.flag_count]
    exact Nat.lt_of_le_of_lt List.countP_le_length hlen
  · rcases tupleHead_lawful hok with ⟨hlawful, hlen⟩
    refine ⟨hlawful, hlen, ?_⟩
    rw [hlawful.flag_count]
    refine Nat.lt_of_le_of_lt List.countP_le_length ?_
    rwa [length_tupleSources]

def twoOptional : StructDef where
  members := [
    some (.field ⟨"a", 1, some (.mk true (some (.primitive PRIMITIVE_INTEGER))), none, none,
      ⟨"", [], none, [], [], []⟩⟩),
    some (.field ⟨"b", 2, some (.mk true (some (.primitive PRIMITIVE_BOOLEAN))), none, none,
      ⟨"", [], none, [], [], []⟩⟩)]
  fixedLayout := false

theorem head_layout_struct : ∃ h,
    (structHead ⟨⟨"p", [], [], [], [], ""⟩, []⟩ 2 [] ⟨"p", [], [], [], [], ""⟩ "S" twoOptional).run =
      some (.ok h) ∧
      h.fields.map Placement.offset = [0, 1, 8] ∧ h.size = 16 ∧
      (h.fields.filterMap Placement.optional).length < 2 ^ 32 := by
  refine ⟨_, rfl, rfl, rfl, ?_⟩
  exact (head_layout.2.2.1 ⟨⟨"p", [], [], [], [], ""⟩, []⟩ 2 [] ⟨"p", [], [], [], [], ""⟩ "S"
    twoOptional _ rfl).2 (by decide) (by decide)

end Podbuf

end Ridl
