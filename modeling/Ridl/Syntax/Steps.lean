import Mathlib.Data.List.Forall2
import Mathlib.Data.Option.Basic
import Ridl.Syntax.Grammar

/-!
# What a Step of the Parser Keeps

The discipline of the parser. Between any two states of it, the tokens that were
consumed are attached to the tree that is being built, each once and in order,
and the nodes that were open are open again. In any state the errors so far are
in the order of their positions, none of them past the next significant token.

A node can be started at a checkpoint only if nothing that was built before the
checkpoint has been put into a node since. The discipline has a floor, which is
the last checkpoint that has to stay usable: no step leaves fewer children than
that.

## Main definitions

* `Parser.Valid`: The cursor, the offsets and the errors are in order.
* `Parser.Step`: One state leads to another.

## Theorems

* `node_parses`, `nodeAt_parses`: A node around a production.
* `bump_parses`: A significant token is consumed.
* `errorAtCurrent_parses`: An error is reported in its place.
-/

namespace Ridl

namespace Syntax

open Library.Descent

section Text

@[simp]
theorem byteLen_nil : byteLen [] = 0 := rfl

@[simp]
theorem byteLen_append (xs ys : List Char) : byteLen (xs ++ ys) = byteLen xs + byteLen ys := by
  simp [byteLen]

@[simp]
theorem textOf_append (xs ys : List Token) : textOf (xs ++ ys) = textOf xs ++ textOf ys := by
  simp [textOf]

/-- How many bytes there are before a token. -/
def bytesBefore (tokens : List Token) (i : Nat) : Nat := byteLen (textOf (tokens.take i))

theorem bytesBefore_mono (tokens : List Token) {i j : Nat} (h : i ≤ j) :
    bytesBefore tokens i ≤ bytesBefore tokens j := by
  have hsplit : tokens.take j = tokens.take i ++ (tokens.drop i).take (j - i) := by
    rw [← List.take_add, Nat.add_sub_cancel' h]
  simp [bytesBefore, hsplit]

theorem bytesBefore_le (tokens : List Token) (i : Nat) :
    bytesBefore tokens i ≤ byteLen (textOf tokens) := by
  have hsplit := congrArg (fun tokens => byteLen (textOf tokens)) (List.take_append_drop i tokens)
  simp only [textOf_append, byteLen_append] at hsplit
  rw [bytesBefore]
  omega

theorem bytesBefore_succ {tokens : List Token} {i : Nat} {token : Token}
    (h : tokens[i]? = some token) :
    bytesBefore tokens (i + 1) = bytesBefore tokens i + byteLen token.text := by
  simp [bytesBefore, List.take_add_one, h]

theorem getElem?_offsetsFrom (tokens : List Token) (acc i : Nat) (h : i ≤ tokens.length) :
    (offsetsFrom acc tokens)[i]? = some (acc + bytesBefore tokens i) := by
  induction tokens generalizing acc i with
  | nil =>
      rw [Nat.le_zero.1 h]
      rfl
  | cons token tokens ih =>
      cases i with
      | zero => rfl
      | succ i =>
          rw [offsetsFrom, List.getElem?_cons_succ, ih _ _ (Nat.le_of_succ_le_succ h)]
          simp [bytesBefore, Nat.add_assoc]

end Text

section Lists

variable {τ : Type} (p : τ → Bool)

theorem getElem?_takeWhile_length (list : List τ) :
    list[(list.takeWhile p).length]? = (list.filter (!p ·)).head? := by
  induction list with
  | nil => rfl
  | cons x list ih =>
      by_cases hx : p x
      · simpa [hx] using ih
      · simp [hx]

theorem takeWhile_append_length_le (front back : List τ) :
    ((front ++ back).takeWhile p).length ≤ front.length + (back.takeWhile p).length := by
  rw [List.takeWhile_append]
  split
  · simp
  · have := (List.takeWhile_sublist (l := front) p).length_le
    omega

theorem drop_takeWhile_length (list : List τ) :
    list.drop (list.takeWhile p).length = list.dropWhile p := by
  induction list with
  | nil => rfl
  | cons x list ih =>
      by_cases hx : p x
      · simpa [hx] using ih
      · simp [hx]

theorem filter_dropWhile_not (list : List τ) :
    (list.dropWhile p).filter (!p ·) = list.filter (!p ·) := by
  induction list with
  | nil => rfl
  | cons x list ih =>
      by_cases hx : p x
      · simpa [hx] using ih
      · simp [hx]

end Lists

/-- How a token stands in the tree: as it is, or a contextual word as the keyword that it is read
    as. -/
def Attached (leaf token : Token) : Prop :=
  leaf.text = token.text ∧
    (leaf.kind = token.kind ∨ token.kind = .ident ∧ leaf.kind = .openKw ∨
      token.kind = .reservedWord ∧ (leaf.kind = .requireKw ∨ leaf.kind = .ensureKw))

theorem Attached.refl (token : Token) : Attached token token := ⟨rfl, Or.inl rfl⟩

/-- The kind of the `n`-th token of a list. -/
def kindAt (list : List Token) (n : Nat) : Option SyntaxKind := (list[n]?).map (·.kind)

variable {σ : Type}

namespace Parser

/-- Where the next significant token starts, or where the text ends. -/
def here (parser : Parser σ) : Nat := bytesBefore parser.tokens parser.significantPos

theorem rest_length (parser : Parser σ) :
    parser.rest.length = parser.tokens.length - parser.pos := by
  simp [rest]

theorem getElem?_significantPos (parser : Parser σ) :
    parser.tokens[parser.significantPos]? = parser.ahead.head? := by
  rw [significantPos, ← List.getElem?_drop]
  exact getElem?_takeWhile_length _ parser.rest

/-- The cursor, the offsets and the errors are in order. -/
structure Valid (parser : Parser σ) : Prop where
  placed : parser.pos ≤ parser.tokens.length
  offsets : parser.offsets = offsetsFrom 0 parser.tokens
  short : byteLen (textOf parser.tokens) < TEXT_SIZE
  sorted : parser.errors.Pairwise fun a b => a.start ≤ b.start
  passed : ∀ error ∈ parser.errors, error.start ≤ parser.here
  /-- Errors of the profile boundary apart, there is one at a place. -/
  single : (parser.errors.filter (·.code ≠ "TYPL-302")).Pairwise fun a b => a.start < b.start

theorem Valid.significantPos_le {parser : Parser σ} (h : parser.Valid) :
    parser.significantPos ≤ parser.tokens.length := by
  have hlength := (List.takeWhile_sublist (l := parser.rest) (·.kind.isTrivia)).length_le
  have hplaced := h.placed
  rw [rest_length] at hlength
  rw [significantPos]
  omega

/-- The state with another builder. -/
def building (parser : Parser σ) (builder : σ) : Parser σ := { parser with builder := builder }

theorem Valid.building {parser : Parser σ} (h : parser.Valid) (builder : σ) :
    (parser.building builder).Valid :=
  ⟨h.placed, h.offsets, h.short, h.sorted, h.passed, h.single⟩

theorem Valid.here_lt {parser : Parser σ} (h : parser.Valid) : parser.here < TEXT_SIZE :=
  Nat.lt_of_le_of_lt (bytesBefore_le _ _) h.short

/-- Where the next significant token ends, or the text. -/
def stopHere (parser : Parser σ) : Nat :=
  ((parser.tokens[parser.significantPos]?).map fun token =>
    parser.here + byteLen token.text).getD parser.here

theorem Valid.stopHere_lt {parser : Parser σ} (h : parser.Valid) : parser.stopHere < TEXT_SIZE := by
  rw [stopHere]
  cases htoken : parser.tokens[parser.significantPos]? with
  | none => exact h.here_lt
  | some token =>
      have hle := bytesBefore_le parser.tokens (parser.significantPos + 1)
      rw [bytesBefore_succ htoken] at hle
      exact Nat.lt_of_le_of_lt hle h.short

/-- The error is not reported where the last one already is. -/
def Reported (parser : Parser σ) (code : String) : Prop :=
  code ≠ "TYPL-302" ∧ (parser.errors.getLast?).map (·.start) = some parser.here

instance (parser : Parser σ) (code : String) : Decidable (parser.Reported code) :=
  inferInstanceAs (Decidable (_ ∧ _))

/-- The state with one more error. -/
def report (parser : Parser σ) (error : SyntaxError) : Parser σ :=
  { parser with errors := parser.errors ++ [error] }

/-- If the last error is before the next significant token, all of them are. -/
theorem Valid.start_lt {parser : Parser σ} (h : parser.Valid)
    (hlast : (parser.errors.getLast?).map (·.start) ≠ some parser.here) :
    ∀ error ∈ parser.errors, error.start < parser.here := by
  intro error herror
  cases hget : parser.errors.getLast? with
  | none =>
      rw [List.getLast?_eq_none_iff.1 hget] at herror
      cases herror
  | some last =>
      rcases List.getLast?_eq_some_iff.1 hget with ⟨front, herrors⟩
      have hlast_le := h.passed last (by simp [herrors])
      have hlast_ne : last.start ≠ parser.here := fun h => hlast (by rw [hget, ← h]; rfl)
      rw [herrors] at herror
      have hle : error.start ≤ last.start := by
        rcases List.mem_append.1 herror with hfront | hsingle
        · have hsorted := h.sorted
          rw [herrors] at hsorted
          exact (List.pairwise_append.1 hsorted).2.2 error hfront last (List.mem_singleton_self _)
        · have hsame := congrArg SyntaxError.start (List.mem_singleton.1 hsingle)
          omega
      omega

/-- An error that is not reported yet becomes the last one. -/
theorem Valid.report {parser : Parser σ} {error : SyntaxError} (h : parser.Valid)
    (hstart : error.start = parser.here) (hreported : ¬ parser.Reported error.code) :
    (parser.report error).Valid where
  placed := h.placed
  offsets := h.offsets
  short := h.short
  sorted := by
    refine List.pairwise_append.2 ⟨h.sorted, List.pairwise_singleton _ _, fun a ha b hb => ?_⟩
    rw [List.mem_singleton.1 hb, hstart]
    exact h.passed a ha
  passed other hother := by
    rcases List.mem_append.1 hother with hother | hother
    · exact h.passed other hother
    · rw [List.mem_singleton.1 hother]
      exact Nat.le_of_eq hstart
  single := by
    simp only [Parser.report, List.filter_append]
    refine List.pairwise_append.2 ⟨h.single, List.Pairwise.filter _ (List.pairwise_singleton _ _),
      fun a ha b hb => ?_⟩
    rcases List.mem_filter.1 hb with ⟨hb, hcode⟩
    rw [List.mem_singleton.1 hb] at hcode ⊢
    rw [hstart]
    exact h.start_lt (fun hlast => hreported ⟨of_decide_eq_true hcode, hlast⟩) a
      (List.mem_of_mem_filter ha)

variable [GreenNodeBuilder σ]

/-- The tokens that are in the tree so far. -/
def leaves (parser : Parser σ) : List Token := (GreenNodeBuilder.children parser.builder).flatten

/-- One state leads to another: the tokens between are attached, and the open nodes are the
    same. -/
structure Step (parser next : Parser σ) : Prop where
  tokens : next.tokens = parser.tokens
  offsets : next.offsets = parser.offsets
  profile : next.profile = parser.profile
  depth : next.depth = parser.depth
  parents : GreenNodeBuilder.parents next.builder = GreenNodeBuilder.parents parser.builder
  attached : ∃ consumed new, parser.rest = consumed ++ next.rest ∧
    next.pos = parser.pos + consumed.length ∧ next.leaves = parser.leaves ++ new ∧
    List.Forall₂ Attached new consumed

theorem Step.refl (parser : Parser σ) : Step parser parser :=
  ⟨rfl, rfl, rfl, rfl, rfl, [], [], by simp⟩

theorem Step.trans {a b c : Parser σ} (hab : Step a b) (hbc : Step b c) : Step a c := by
  rcases hab.attached with ⟨consumed, new, hrest, hpos, hleaves, hnew⟩
  rcases hbc.attached with ⟨consumed', new', hrest', hpos', hleaves', hnew'⟩
  refine ⟨hbc.tokens.trans hab.tokens, hbc.offsets.trans hab.offsets,
    hbc.profile.trans hab.profile, hbc.depth.trans hab.depth, hbc.parents.trans hab.parents,
    consumed ++ consumed', new ++ new', ?_, ?_, ?_, List.rel_append hnew hnew'⟩
  · rw [hrest, hrest', List.append_assoc]
  · rw [hpos', hpos, List.length_append, Nat.add_assoc]
  · rw [hleaves', hleaves, List.append_assoc]

theorem Step.suffix {parser next : Parser σ} (h : Step parser next) :
    next.ahead <:+ parser.ahead := by
  rcases h.attached with ⟨consumed, new, hrest, -, -, -⟩
  rw [ahead, ahead, hrest, List.filter_append]
  exact List.suffix_append _ _

theorem Step.here_le {parser next : Parser σ} (h : Step parser next) : parser.here ≤ next.here := by
  rcases h.attached with ⟨consumed, new, hrest, hpos, -, -⟩
  rw [here, here, h.tokens]
  apply bytesBefore_mono
  have hlength := takeWhile_append_length_le (·.kind.isTrivia) consumed next.rest
  rw [significantPos, significantPos, hrest, hpos]
  omega

theorem Step.pos_le {parser next : Parser σ} (h : Step parser next)
    (hplaced : parser.pos ≤ parser.tokens.length) : next.pos ≤ next.tokens.length := by
  rcases h.attached with ⟨consumed, new, hrest, hpos, -, -⟩
  have hlength := congrArg List.length hrest
  rw [List.length_append, rest_length, rest_length, h.tokens] at hlength
  rw [h.tokens, hpos]
  rcases consumed with _ | ⟨token, consumed⟩
  · simpa using hplaced
  · simp only [List.length_cons] at hlength ⊢
    omega

theorem Valid.step {parser next : Parser σ} (h : parser.Valid) (hstep : Step parser next)
    (herrors : next.errors = parser.errors) : next.Valid where
  placed := hstep.pos_le h.placed
  offsets := by rw [hstep.offsets, hstep.tokens, h.offsets]
  short := by rw [hstep.tokens]; exact h.short
  sorted := by rw [herrors]; exact h.sorted
  passed error herror := by
    rw [herrors] at herror
    exact Nat.le_trans (h.passed error herror) hstep.here_le
  single := by rw [herrors]; exact h.single

/-- The builder can be told to finish a node, or to start one at the floor. -/
def Founded (floor : Nat) (parser : Parser σ) : Prop :=
  floor ≤ (GreenNodeBuilder.children parser.builder).length ∧
    ∀ first ∈ (GreenNodeBuilder.parents parser.builder).head?, first ≤ floor

end Parser

theorem current_eq (parser : Parser σ) : current parser = some (kindAt parser.ahead 0, parser) := by
  have h : current parser
      = some ((parser.tokens[parser.significantPos]?).map (·.kind), parser) := rfl
  rw [h, Parser.getElem?_significantPos, kindAt, List.head?_eq_getElem?]

variable {α β : Type}

theorem lift_bind (o : Option α) (f : α → ParseM σ β) (parser : Parser σ) :
    ((liftM o : ParseM σ α) >>= f) parser = o.bind fun a => f a parser := by
  cases o <;> rfl

variable [GreenNodeBuilder σ]

/-- What every production keeps, with checkpoints up to a floor usable. -/
def discipline (σ : Type) [GreenNodeBuilder σ] (floor : Nat) : Discipline (Parser σ) Token where
  inv parser := parser.Valid ∧ parser.Founded floor
  step := Parser.Step
  ahead := Parser.ahead
  refl := Parser.Step.refl
  trans := Parser.Step.trans
  suffix := Parser.Step.suffix

/-- The states at a depth that satisfies `room`. -/
def level (room : Nat → Prop) {floor : Nat} : Library.Descent.Frame (discipline σ floor) where
  holds parser := room parser.depth
  stable hstep h := by rwa [hstep.depth]

/-- From every valid state at a depth with `room`, the production returns. -/
abbrev Parses (room : Nat → Prop) (floor : Nat) (look : List Token → Prop)
    (eats : α → List Token → Prop) (m : ParseM σ α) : Prop :=
  Runs (level room : Library.Descent.Frame (discipline σ floor)) look eats m

variable {room : Nat → Prop} {floor : Nat} {look : List Token → Prop}
  {eats : α → List Token → Prop}

/-- The production consumes a token, so one is ahead. -/
abbrev Ahead : List Token → Prop := fun list => list ≠ []

section Reading

theorem current_bind {f : Option SyntaxKind → ParseM σ α}
    (hf : ∀ list, look list → Parses room floor (· = list) eats (f (kindAt list 0))) :
    Parses room floor look eats (current >>= f) :=
  Runs.read (fun list => kindAt list 0) (fun parser _ => current_eq parser) hf

theorem atKind_bind (kind : SyntaxKind) {f : Bool → ParseM σ α}
    (hf : ∀ list, look list → Parses room floor (· = list) eats (f (kindAt list 0 = some kind))) :
    Parses room floor look eats (atKind kind >>= f) := by
  refine Runs.read (fun list => decide (kindAt list 0 = some kind)) (fun parser _ => ?_) hf
  have h : atKind kind parser
      = some (decide ((parser.tokens[parser.significantPos]?).map (·.kind) = some kind), parser) :=
    rfl
  rw [h, Parser.getElem?_significantPos, ← List.head?_eq_getElem?.symm]
  rfl

theorem currentToken_bind {f : Token → ParseM σ α} (hlook : ∀ list, look list → list ≠ [])
    (hf : ∀ token, Parses room floor look eats (f token)) :
    Parses room floor look eats (currentToken >>= f) := by
  intro parser hinv hF hahead
  cases hlist : parser.ahead with
  | nil => exact absurd hlist (hlook _ hahead)
  | cons token list =>
      rcases hf token parser hinv hF hahead with ⟨a, next, hrun, h⟩
      refine ⟨a, next, ?_, h⟩
      have htoken : currentToken parser = some (token, parser) := by
        have h : currentToken parser
            = (parser.tokens[parser.significantPos]?).bind fun token => some (token, parser) := by
          change (Option.bind _ _) = _
          rfl
        rw [h, Parser.getElem?_significantPos, hlist]
        rfl
      change (currentToken parser).bind _ = _
      rw [htoken]
      exact hrun

end Reading

section Consume

theorem children_foldl (tokens : List Token) (builder : σ) :
    GreenNodeBuilder.children
        (tokens.foldl (fun builder token => GreenNodeBuilder.token builder token.kind token.text)
          builder)
      = GreenNodeBuilder.children builder ++ tokens.map ([·]) := by
  induction tokens generalizing builder with
  | nil => simp
  | cons token tokens ih => simp [ih, GreenNodeBuilder.children_token]

theorem parents_foldl (tokens : List Token) (builder : σ) :
    GreenNodeBuilder.parents
        (tokens.foldl (fun builder token => GreenNodeBuilder.token builder token.kind token.text)
          builder)
      = GreenNodeBuilder.parents builder := by
  induction tokens generalizing builder with
  | nil => rfl
  | cons token tokens ih => simp [ih, GreenNodeBuilder.parents_token]

namespace Parser

/-- The state with the trivia at the cursor attached. -/
def eaten (parser : Parser σ) : Parser σ :=
  { parser with
    builder :=
      (parser.rest.takeWhile (·.kind.isTrivia)).foldl
        (fun builder token => GreenNodeBuilder.token builder token.kind token.text) parser.builder
    pos := parser.significantPos }

theorem rest_eaten (parser : Parser σ) :
    parser.eaten.rest = parser.rest.dropWhile (·.kind.isTrivia) := by
  rw [← drop_takeWhile_length, rest, rest, List.drop_drop]
  rfl

theorem ahead_eaten (parser : Parser σ) : parser.eaten.ahead = parser.ahead := by
  rw [ahead, rest_eaten, ahead]
  exact filter_dropWhile_not (fun token : Token => token.kind.isTrivia) parser.rest

theorem step_eaten (parser : Parser σ) : Step parser parser.eaten where
  tokens := rfl
  offsets := rfl
  profile := rfl
  depth := rfl
  parents := parents_foldl _ _
  attached := by
    refine ⟨parser.rest.takeWhile (·.kind.isTrivia), parser.rest.takeWhile (·.kind.isTrivia), ?_,
      rfl, ?_, List.forall₂_same.2 fun token _ => Attached.refl token⟩
    · rw [rest_eaten, List.takeWhile_append_dropWhile]
    · simp [leaves, eaten, children_foldl, ← List.flatMap_def]

theorem getElem?_eaten (parser : Parser σ) :
    parser.eaten.tokens[parser.eaten.pos]? = parser.ahead.head? :=
  parser.getElem?_significantPos

/-- The state with the token at the cursor attached, as one of some kind. -/
def push (parser : Parser σ) (kind : SyntaxKind) (token : Token) : Parser σ :=
  { parser with
    builder := GreenNodeBuilder.token parser.builder kind token.text
    pos := parser.pos + 1 }

theorem rest_push {parser : Parser σ} {token : Token} (kind : SyntaxKind)
    (h : parser.tokens[parser.pos]? = some token) :
    parser.rest = token :: (parser.push kind token).rest := by
  rcases List.getElem?_eq_some_iff.1 h with ⟨hlt, htoken⟩
  rw [rest, List.drop_eq_getElem_cons hlt, htoken]
  rfl

theorem step_push {parser : Parser σ} {token : Token} {kind : SyntaxKind}
    (h : parser.tokens[parser.pos]? = some token)
    (hattached : Attached { kind := kind, text := token.text } token) :
    Step parser (parser.push kind token) where
  tokens := rfl
  offsets := rfl
  profile := rfl
  depth := rfl
  parents := GreenNodeBuilder.parents_token _ _ _
  attached := by
    refine ⟨[token], [{ kind := kind, text := token.text }], rest_push kind h, rfl, ?_,
      List.Forall₂.cons hattached List.Forall₂.nil⟩
    simp [leaves, push, GreenNodeBuilder.children_token]

theorem Founded.longer {parser next : Parser σ} (h : parser.Founded floor)
    (hparents : GreenNodeBuilder.parents next.builder = GreenNodeBuilder.parents parser.builder)
    (hlength : (GreenNodeBuilder.children parser.builder).length
      ≤ (GreenNodeBuilder.children next.builder).length) : next.Founded floor :=
  ⟨Nat.le_trans h.1 hlength, by rw [hparents]; exact h.2⟩

theorem Founded.eaten {parser : Parser σ} (h : parser.Founded floor) :
    parser.eaten.Founded floor :=
  h.longer (parents_foldl _ _) (by simp [Parser.eaten, children_foldl])

theorem Founded.push {parser : Parser σ} (h : parser.Founded floor) (kind : SyntaxKind)
    (token : Token) : (parser.push kind token).Founded floor :=
  h.longer (GreenNodeBuilder.parents_token _ _ _)
    (by simp [Parser.push, GreenNodeBuilder.children_token])

/-- The next significant token, attached after the trivia before it. -/
theorem bumped {parser : Parser σ} {token : Token} {list : List Token} {kind : SyntaxKind}
    (hvalid : parser.Valid) (hfounded : parser.Founded floor) (hahead : parser.ahead = token :: list)
    (hattached : Attached { kind := kind, text := token.text } token) :
    (parser.eaten.push kind token).Valid ∧ (parser.eaten.push kind token).Founded floor ∧
      Step parser (parser.eaten.push kind token) ∧
      (parser.eaten.push kind token).ahead.length < parser.ahead.length := by
  have htoken : parser.eaten.tokens[parser.eaten.pos]? = some token := by
    rw [getElem?_eaten, hahead]
    rfl
  have hstep := (step_eaten parser).trans (step_push htoken hattached)
  refine ⟨hvalid.step hstep rfl, hfounded.eaten.push kind token, hstep, ?_⟩
  have hsignificant : token.kind.isTrivia = false := by
    have hmem : token ∈ parser.ahead := by simp [hahead]
    simpa using (List.mem_filter.1 hmem).2
  rw [← ahead_eaten parser]
  have hahead' : parser.eaten.ahead = token :: (parser.eaten.push kind token).ahead := by
    rw [ahead, rest_push kind htoken, List.filter_cons_of_pos (by simp [hsignificant])]
    rfl
  rw [hahead']
  exact Nat.lt_succ_self _

end Parser

theorem eatTrivia_parses : Parses room floor look Plain (eatTrivia : ParseM σ Unit) := by
  intro parser hinv _ _
  exact ⟨(), parser.eaten, rfl, ⟨hinv.1.step parser.step_eaten rfl, hinv.2.eaten⟩,
    parser.step_eaten, False.elim⟩

theorem bump_run (parser : Parser σ) :
    bump parser = some ((), match parser.eaten.tokens[parser.eaten.pos]? with
      | some token => parser.eaten.push token.kind token
      | none => parser.eaten) := rfl

theorem bump_eq (parser : Parser σ) :
    bump parser
      = some ((), ((parser.ahead.head?).map fun token => parser.eaten.push token.kind token).getD
        parser.eaten) := by
  rw [bump_run, Parser.getElem?_eaten]
  cases parser.ahead.head? <;> rfl

theorem bump_parses : Parses room floor look IfAny (bump : ParseM σ Unit) := by
  intro parser hinv _ _
  cases hahead : parser.ahead with
  | nil =>
      refine ⟨(), parser.eaten, ?_, ⟨hinv.1.step parser.step_eaten rfl, hinv.2.eaten⟩,
        parser.step_eaten, fun h => absurd hahead h⟩
      rw [bump_eq, hahead]
      rfl
  | cons token list =>
      have hfounded : parser.Founded floor := hinv.2
      rcases Parser.bumped hinv.1 hfounded hahead (Attached.refl token) with
        ⟨hvalid, hfounded, hstep, hlt⟩
      refine ⟨(), parser.eaten.push token.kind token, ?_, ⟨hvalid, hfounded⟩, hstep, fun _ => hlt⟩
      rw [bump_eq, hahead]
      rfl

theorem bumpAs_parses (kind : SyntaxKind)
    (hlook : ∀ list, look list → ∃ token tokens, list = token :: tokens ∧
      Attached { kind := kind, text := token.text } token) :
    Parses room floor look IfAny (bumpAs kind : ParseM σ Unit) := by
  intro parser hinv _ hahead
  rcases hlook _ hahead with ⟨token, list, hlist, hattached⟩
  have hfounded : parser.Founded floor := hinv.2
  rcases Parser.bumped hinv.1 hfounded hlist hattached with
    ⟨hvalid, hfounded, hstep, hlt⟩
  refine ⟨(), parser.eaten.push kind token, ?_, ⟨hvalid, hfounded⟩, hstep, fun _ => hlt⟩
  have hunfold : bumpAs kind parser
      = ((liftM parser.eaten.tokens[parser.eaten.pos]? : ParseM σ Token) >>= fun token =>
          set (parser.eaten.push kind token)) parser.eaten := rfl
  have hahead' : parser.ahead = token :: list := hlist
  rw [hunfold, lift_bind, Parser.getElem?_eaten, hahead']
  rfl

end Consume

section Nodes

theorem finishNode_eq {parser : Parser σ} {first : Nat} {rest : List Nat}
    (hparents : GreenNodeBuilder.parents parser.builder = first :: rest)
    (hfirst : first ≤ (GreenNodeBuilder.children parser.builder).length) :
    ∃ builder, GreenNodeBuilder.finishNode parser.builder = some builder ∧
      finishNode parser = some ((), parser.building builder) ∧
      GreenNodeBuilder.children builder
        = (GreenNodeBuilder.children parser.builder).take first ++
            [((GreenNodeBuilder.children parser.builder).drop first).flatten] ∧
      GreenNodeBuilder.parents builder = rest := by
  rcases GreenNodeBuilder.finishNode_eq _ _ _ hparents hfirst with ⟨builder, hfinish, h⟩
  refine ⟨builder, hfinish, ?_, h⟩
  have hunfold : finishNode parser
      = ((liftM (GreenNodeBuilder.finishNode parser.builder) : ParseM σ σ) >>= fun builder =>
          set (parser.building builder)) parser := rfl
  rw [hunfold, lift_bind, hfinish]
  rfl

/-- A production between the start of a node, at `first`, and its end. -/
theorem finishing {parser : Parser σ} {builder : σ} {first : Nat} {body : ParseM σ α}
    (hbody : Parses room first look eats body) (hvalid : parser.Valid)
    (hchildren : GreenNodeBuilder.children builder = GreenNodeBuilder.children parser.builder)
    (hparents : GreenNodeBuilder.parents builder
      = first :: GreenNodeBuilder.parents parser.builder)
    (hfirst : first ≤ (GreenNodeBuilder.children parser.builder).length)
    (hroom : room parser.depth) (hlook : look parser.ahead) :
    ∃ a next,
      (body >>= fun a => finishNode >>= fun _ => pure a) (parser.building builder)
        = some (a, next) ∧
      next.Valid ∧ Parser.Step parser next ∧
      first < (GreenNodeBuilder.children next.builder).length ∧
      (eats a parser.ahead → next.ahead.length < parser.ahead.length) := by
  have hfounded : (parser.building builder).Founded first := by
    refine ⟨by rw [← hchildren] at hfirst; exact hfirst, fun other hother => ?_⟩
    have hhead : (GreenNodeBuilder.parents builder).head? = some other := hother
    rw [hparents] at hhead
    exact Nat.le_of_eq (Option.some.inj hhead).symm
  rcases hbody _ ⟨hvalid.building builder, hfounded⟩ hroom hlook with
    ⟨a, closed, hrun, hclosed, hstep, hconsumed⟩
  rcases finishNode_eq (hstep.parents.trans hparents) hclosed.2.1 with
    ⟨finished, -, hfinish, hchildren', hparents'⟩
  refine ⟨a, closed.building finished, ?_, hclosed.1.building finished, ?_, ?_, hconsumed⟩
  · change (body _).bind _ = _
    rw [hrun]
    change (finishNode closed).bind _ = _
    rw [hfinish]
    rfl
  · rcases hstep.attached with ⟨consumed, new, hrest, hpos, hleaves, hnew⟩
    refine ⟨hstep.tokens, hstep.offsets, hstep.profile, hstep.depth, hparents', consumed, new,
      hrest, hpos, ?_, hnew⟩
    -- Putting children into a node leaves their tokens in order.
    have hflat : (closed.building finished).leaves = closed.leaves := by
      simp only [Parser.leaves, Parser.building, hchildren', List.flatten_append,
        List.flatten_singleton]
      rw [← List.flatten_append, List.take_append_drop]
    have hopened : (parser.building builder).leaves = parser.leaves := by
      simp only [Parser.leaves, Parser.building, hchildren]
    rw [hflat, hleaves, hopened]
  · have hlength := hclosed.2.1
    simp only [Parser.building, hchildren', List.length_append, List.length_take,
      List.length_singleton]
    omega

theorem node_parses (kind : SyntaxKind) {body : ParseM σ α}
    (hbody : ∀ first, Parses room first look eats body) :
    Parses room floor look eats (node kind body) := by
  intro parser hinv hroom hlook
  have hlook' : look parser.eaten.ahead := by rwa [Parser.ahead_eaten]
  rcases finishing (hbody _) (hinv.1.step parser.step_eaten rfl)
    (GreenNodeBuilder.children_startNode parser.eaten.builder kind)
    (GreenNodeBuilder.parents_startNode parser.eaten.builder kind) (Nat.le_refl _) hroom hlook'
    with ⟨a, next, hrun, hnext, hstep, hlength, hconsumed⟩
  have hfounded := hinv.2.eaten
  refine ⟨a, next, hrun, ⟨hnext, hfounded.longer hstep.parents (Nat.le_of_lt hlength)⟩,
    parser.step_eaten.trans hstep, fun h => ?_⟩
  rw [Parser.ahead_eaten] at hconsumed
  exact hconsumed h

theorem nodeAt_parses (kind : SyntaxKind) {body : ParseM σ α}
    (hbody : Parses room floor look eats body) :
    Parses room floor look eats (nodeAt floor kind body) := by
  intro parser hinv hroom hlook
  rcases GreenNodeBuilder.startNodeAt_eq parser.builder floor kind hinv.2.1 hinv.2.2 with
    ⟨builder, hbuilder, hchildren, hparents⟩
  rcases finishing hbody hinv.1 hchildren hparents hinv.2.1 hroom hlook with
    ⟨a, next, hrun, hnext, hstep, hlength, hconsumed⟩
  refine ⟨a, next, ?_, ⟨hnext, Nat.le_of_lt hlength, ?_⟩, hstep, hconsumed⟩
  · have hunfold : nodeAt floor kind body parser
        = ((liftM (GreenNodeBuilder.startNodeAt parser.builder floor kind) : ParseM σ σ) >>=
            fun builder => set (parser.building builder) >>= fun _ =>
              body >>= fun a => finishNode >>= fun _ => pure a) parser := rfl
    rw [hunfold, lift_bind, hbuilder]
    exact hrun
  · rw [hstep.parents]
    exact hinv.2.2

theorem checkpoint_bind {f : Nat → ParseM σ α}
    (hf : ∀ checkpoint, Parses room checkpoint look eats (f checkpoint)) :
    Parses room floor look eats (checkpoint >>= f) := by
  intro parser hinv hroom hlook
  have hcheckpoint : floor ≤ GreenNodeBuilder.checkpoint parser.builder := by
    rw [GreenNodeBuilder.checkpoint_eq]
    exact hinv.2.1
  rcases hf (GreenNodeBuilder.checkpoint parser.builder) parser
    ⟨hinv.1, Nat.le_of_eq (GreenNodeBuilder.checkpoint_eq _), fun first hfirst =>
      Nat.le_trans (hinv.2.2 first hfirst) hcheckpoint⟩ hroom hlook with
    ⟨a, next, hrun, hnext, hstep, hconsumed⟩
  refine ⟨a, next, hrun, ⟨hnext.1, Nat.le_trans hcheckpoint hnext.2.1, ?_⟩, hstep, hconsumed⟩
  rw [hstep.parents]
  exact hinv.2.2

/-- One level deeper for a production that has room there. -/
theorem deeper_parses {room' : Nat → Prop} {body : ParseM σ α}
    (hroom : ∀ depth, room depth → room' (depth + 1))
    (hbody : Parses room' floor look eats body) : Parses room floor look eats (deeper body) := by
  intro parser hinv hdepth hlook
  have hdeeper : ({ parser with depth := parser.depth + 1 } : Parser σ).Valid :=
    ⟨hinv.1.placed, hinv.1.offsets, hinv.1.short, hinv.1.sorted, hinv.1.passed, hinv.1.single⟩
  rcases hbody _ ⟨hdeeper, hinv.2⟩ (hroom _ hdepth) hlook with
    ⟨a, next, hrun, hnext, hstep, hconsumed⟩
  refine ⟨a, { next with depth := next.depth - 1 }, ?_, ⟨?_, hnext.2⟩, ?_, hconsumed⟩
  · change (body { parser with depth := parser.depth + 1 }).bind _ = _
    rw [hrun]
    rfl
  · have h := hnext.1
    exact ⟨h.placed, h.offsets, h.short, h.sorted, h.passed, h.single⟩
  · refine ⟨hstep.tokens, hstep.offsets, hstep.profile, ?_, hstep.parents, hstep.attached⟩
    change next.depth - 1 = parser.depth
    rw [hstep.depth]
    rfl

theorem loop_parses {b : β} {body : β → ParseM σ (ForInStep β)}
    (h : ∀ b, Parses room floor Any IfYield (body b)) :
    Parses room floor look Plain (loop b body) := by
  intro parser hinv hroom _
  rcases Runs.iterate h (parser.ahead.length + 1) b parser hinv hroom (Nat.lt_succ_self _) with
    ⟨b', next, hrun, hnext, hstep⟩
  exact ⟨b', next, hrun, hnext, hstep, False.elim⟩

end Nodes

section Report

omit [GreenNodeBuilder σ] in
theorem errorAtCurrent_eq {parser : Parser σ} (h : parser.Valid) (code message : String) :
    errorAtCurrent code message parser
      = some ((), if parser.Reported code then parser else
          parser.report
            { message := message, code := code, start := parser.here, stop := parser.stopHere }) := by
  have hoffset : parser.offsets[parser.significantPos]? = some parser.here := by
    rw [h.offsets, getElem?_offsetsFrom _ _ _ h.significantPos_le, Nat.zero_add]
    rfl
  have hstop : ((parser.tokens[parser.significantPos]?).map fun token =>
      parser.here + byteLen token.text).getD parser.here < TEXT_SIZE := h.stopHere_lt
  simp only [errorAtCurrent, bind, StateT.bind, get, getThe, MonadStateOf.get, StateT.get, liftM,
    monadLift, MonadLift.monadLift, StateT.lift, hoffset, pure, Option.bind,
    Nat.mod_eq_of_lt h.here_lt]
  by_cases hreported : code ≠ "TYPL-302" ∧ (parser.errors.getLast?).map (·.start) = some parser.here
  · rw [if_pos hreported, if_pos (show parser.Reported code from hreported)]
    rfl
  · rw [if_neg hreported, if_neg (show ¬ parser.Reported code from hreported)]
    simp only [guard, hstop, if_true]
    rfl

theorem errorAtCurrent_parses (code message : String) :
    Parses room floor look Plain (errorAtCurrent code message : ParseM σ Unit) := by
  intro parser hinv _ _
  refine ⟨(), _, errorAtCurrent_eq hinv.1 code message, ?_, ?_, False.elim⟩
  · split
    · exact hinv
    · exact ⟨hinv.1.report rfl ‹_›, hinv.2⟩
  · split
    · exact Parser.Step.refl parser
    · exact ⟨rfl, rfl, rfl, rfl, rfl, [], [], rfl, rfl, (List.append_nil _).symm,
        List.Forall₂.nil⟩

theorem expect_parses (kind : SyntaxKind) :
    Parses room floor look Plain (expect kind : ParseM σ Unit) :=
  Runs.inspect _ (fun _ => rfl) fun _ =>
    Runs.ite (fun _ => bump_parses.plain) fun _ => errorAtCurrent_parses _ _

theorem bumpWhile_parses (more : SyntaxKind → Bool) :
    Parses room floor look Plain (bumpWhile more : ParseM σ Unit) := by
  refine loop_parses fun _ => current_bind fun list _ => ?_
  rcases list with _ | ⟨token, list⟩
  · exact Runs.done
  · exact Runs.ite (fun _ => bump_parses.yield fun _ _ h => by rw [h]; exact List.cons_ne_nil _ _)
      fun _ => Runs.done

theorem recover_parses (isSync : SyntaxKind → Bool) :
    Parses room floor look IfAny (recover isSync : ParseM σ Unit) :=
  node_parses _ fun _ => bump_parses.first (fun _ => bumpWhile_parses _) fun _ _ _ _ => id

theorem unexpectedTokenDiag_parses (context : String) :
    Parses room floor look Plain (unexpectedTokenDiag context : ParseM σ (String × String)) := by
  refine Runs.inspect _ (fun _ => rfl) fun _ => Runs.ite (fun _ => ?_) fun _ => ?_
  · refine Runs.inspect _ (fun _ => rfl) fun kind => ?_
    split
    · exact Runs.pure fun _ _ => id
    · exact Runs.pure fun _ _ => id
    · exact Runs.pure fun _ _ => id
  · exact Runs.pure fun _ _ => id

theorem errAndRecover_parses (context : String) (isSync : SyntaxKind → Bool) :
    Parses room floor look IfAny (errAndRecover context isSync : ParseM σ Unit) :=
  (unexpectedTokenDiag_parses context).bind fun _ =>
    (errorAtCurrent_parses _ _).bind fun _ => recover_parses isSync

end Report

end Syntax

end Ridl
