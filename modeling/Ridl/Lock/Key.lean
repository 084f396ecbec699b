import Ridl.Library.Lines

/-!
# Lock Keys

What a lock file numbers: the interfaces of a unit, and the instances of the
components of a system.

A key has a text form, and a file holds the text. A text that is read as a key is
the text of that key, and a token: it holds neither white space nor anything
that would make a line a comment (`LawfulKey`). The claims about lock files rest on
no more than this, so they hold for both kinds of file.
-/

namespace Ridl

namespace Lock

open Library

/-- What a line table needs from its key. -/
class TableKey (K : Type) where
  /-- The first line of every written file. -/
  HEADER : Text
  /-- The highest number the file may hold. -/
  MAX_NUMBER : Nat
  display : K → Text
  fromStr : Text → Except Text K

open TableKey (display fromStr HEADER MAX_NUMBER)

/-- The lexer's identifier: a letter, then letters, digits or `_`. -/
def isIdent : Text → Bool
  | [] => false
  | first :: rest => first.isAlpha && rest.all fun c => c.isAlphanum || c = '_'

/-- Identifiers joined by points. -/
def isDotted (text : Text) : Bool := (text.splitOn '.').all isIdent

/-- `str::strip_prefix`. -/
def stripPrefix (front text : Text) : Option Text :=
  if front.isPrefixOf text then some (text.drop front.length) else none

/-! ### Tokens -/

/-- What the text of a key is made of. -/
def isTokenChar (c : Char) : Bool :=
  c.isAlphanum || c = '_' || c = '.' || c = ':' || c = '/'

/-- A text that can stand at the head of a line as one field. -/
def IsToken (text : Text) : Prop := text ≠ [] ∧ ∀ c ∈ text, isTokenChar c = true

variable {c : Char} {text front back : Text}

theorem isTokenChar_toNat (h : isTokenChar c = true) : 45 < c.toNat ∧ c.toNat < 123 := by
  simp only [isTokenChar, Bool.or_eq_true, decide_eq_true_eq] at h
  rcases h with ((((h | rfl) | rfl) | rfl) | rfl)
  · have hrange := toNat_of_isAlphanum h
    omega
  all_goals decide

theorem isWhitespace_of_token (h : isTokenChar c = true) : isWhitespace c = false := by
  have hrange := isTokenChar_toNat h
  rw [Bool.eq_false_iff]
  intro hspace
  simp only [isWhitespace, Bool.or_eq_true, Bool.and_eq_true, decide_eq_true_eq] at hspace
  omega

theorem ne_of_isTokenChar (h : isTokenChar c = true) {d : Char} (hd : d.toNat ≤ 45) :
    c ≠ d := by
  rintro rfl
  have hrange := isTokenChar_toNat h
  omega

theorem isTokenChar_of_isIdent (h : isIdent text = true) :
    ∀ c ∈ text, isTokenChar c = true := by
  cases text with
  | nil => nofun
  | cons first rest =>
      rcases Bool.and_eq_true_iff.1 h with ⟨hfirst, hrest⟩
      refine List.forall_mem_cons.2 ⟨?_, fun c hc => ?_⟩
      · simp only [isTokenChar, Char.isAlphanum, hfirst, Bool.true_or]
      · have hchar := List.all_eq_true.1 hrest c hc
        simp only [isTokenChar, hchar, Bool.true_or]

theorem ne_nil_of_isIdent (h : isIdent text = true) : text ≠ [] := by
  rintro rfl
  cases h

theorem mem_intercalate {sep : Char} {parts : List Text}
    (h : c ∈ [sep].intercalate parts) : c = sep ∨ ∃ part ∈ parts, c ∈ part := by
  induction parts with
  | nil => cases h
  | cons part parts ih =>
      cases parts with
      | nil =>
          rw [List.intercalate_singleton] at h
          exact .inr ⟨part, List.mem_cons_self, h⟩
      | cons next parts =>
          rw [List.intercalate_cons_cons] at h
          rcases List.mem_append.1 h with hfront | hrest
          · rcases List.mem_append.1 hfront with hpart | hsep
            · exact .inr ⟨part, List.mem_cons_self, hpart⟩
            · exact .inl (List.mem_singleton.1 hsep)
          · rcases ih hrest with heq | ⟨other, hother, hmem⟩
            · exact .inl heq
            · exact .inr ⟨other, List.mem_cons_of_mem part hother, hmem⟩

theorem isToken_of_isDotted (h : isDotted text = true) : IsToken text := by
  have hparts := List.all_eq_true.1 h
  refine ⟨?_, fun c hc => ?_⟩
  · rintro rfl
    cases h
  · have htext : ['.'].intercalate (text.splitOn '.') = text := List.intercalate_splitOn '.'
    rw [← htext] at hc
    rcases mem_intercalate hc with rfl | ⟨part, hpart, hmem⟩
    · decide
    · exact isTokenChar_of_isIdent (hparts part hpart) c hmem

/-! ### The keys of interfaces -/

/-- Which interface body an entry of `interfaces.lock` numbers. -/
inductive LockKey
  /-- A declared interface, by its name. -/
  | interface (name : Text)
  /-- The inline shape of a service, by the dotted name of the service. -/
  | service (name : Text)
deriving DecidableEq

/-- An interface comes before a service, and names are in their own order. -/
def LockKey.rank : LockKey → Nat × Text
  | .interface name => (0, name)
  | .service name => (1, name)

instance : Ord LockKey where
  compare := compareLex (compareOn fun key => key.rank.1) (compareOn fun key => key.rank.2)

def SERVICE : Text := "service:".toList

namespace LockKey

def display : LockKey → Text
  | .interface name => name
  | .service name => SERVICE ++ name

def fromStr (text : Text) : Except Text LockKey :=
  match stripPrefix SERVICE text with
  | some name =>
      if name ≠ [] ∧ isDotted name then .ok (.service name)
      else
        .error ("`".toList ++ text ++
          "` is not a lock key: a service key is `service:` followed by a dotted name".toList)
  | none =>
      if isDotted text then .ok (.interface text)
      else
        .error ("`".toList ++ text ++
          "` is not a lock key: an interface key is a dotted name of identifiers".toList)

instance : TableKey LockKey where
  HEADER := "# interfaces.lock — written by ridl lock; do not edit by hand.".toList
  MAX_NUMBER := NUMBER_MAX - 1
  display := display
  fromStr := fromStr

end LockKey

/-! ### The keys of instances -/

/-- Which instance of which component an entry of `instances.lock` numbers. -/
@[ext]
structure InstanceKey where
  /-- The dotted name of the component. -/
  component : Text
  /-- `Unit`, or an identifier that starts with a lowercase letter. -/
  instanceName : Text
deriving DecidableEq

instance : Ord InstanceKey where
  compare := compareLex (compareOn InstanceKey.component) (compareOn InstanceKey.instanceName)

/-- `str::split_once`, at the first occurrence. -/
def splitOnce (text : Text) (c : Char) : Option (Text × Text) :=
  match text.dropWhile (· ≠ c) with
  | [] => none
  | _ :: back => some (text.takeWhile (· ≠ c), back)

namespace InstanceKey

def display (key : InstanceKey) : Text := key.component ++ '/' :: key.instanceName

def isInstance (name : Text) : Bool :=
  name = "Unit".toList || (isIdent name && name.head?.any Char.isLower)

def fromStr (text : Text) : Except Text InstanceKey :=
  match splitOnce text '/' with
  | some (component, name) =>
      if isDotted component ∧ isInstance name then .ok ⟨component, name⟩ else .error (invalid text)
  | none => .error (invalid text)
where
  invalid (text : Text) : Text :=
    "`".toList ++ text ++
      "` is not an instance key: expected `component/instance`, a dotted ".toList ++
      "component name, a `/`, and `Unit` or a name that starts with a lowercase letter".toList

instance : TableKey InstanceKey where
  HEADER := "# instances.lock — written by ridl lock; do not edit by hand.".toList
  MAX_NUMBER := 2147483647
  display := display
  fromStr := fromStr

end InstanceKey

/-! ### Laws -/

/-- What the line table relies on of its key. -/
class LawfulKey (K : Type) [TableKey K] : Prop where
  display_fromStr {text : Text} {key : K} (h : fromStr text = .ok key) : display key = text
  isToken_fromStr {text : Text} {key : K} (h : fromStr text = .ok key) : IsToken text
  header : ∃ rest, HEADER K = '#' :: rest ∧ '\n' ∉ rest
  max : 1 ≤ MAX_NUMBER K ∧ MAX_NUMBER K < NUMBER_MAX

/-- A key that its text is read as. -/
def IsKey {K : Type} [TableKey K] (key : K) : Prop := fromStr (display key) = .ok key

theorem isKey_of_fromStr {K : Type} [TableKey K] [LawfulKey K] {key : K}
    (h : fromStr text = .ok key) : IsKey key := by
  rw [IsKey, LawfulKey.display_fromStr h]
  exact h

theorem IsKey.isToken {K : Type} [TableKey K] [LawfulKey K] {key : K} (h : IsKey key) :
    IsToken (display key) := LawfulKey.isToken_fromStr h

theorem append_of_stripPrefix (h : stripPrefix front text = some back) :
    front ++ back = text := by
  rcases Option.ite_none_right_eq_some.1 h with ⟨hfront, heq⟩
  cases heq
  have hback := List.isPrefixOf_iff_prefix.1 hfront
  exact List.prefix_iff_eq_append.1 hback

theorem append_of_splitOnce
    (h : splitOnce text c = some (front, back)) : front ++ c :: back = text := by
  unfold splitOnce at h
  cases hdrop : text.dropWhile (· ≠ c) with
  | nil => simp only [hdrop, reduceCtorEq] at h
  | cons d rest =>
      simp only [hdrop, Option.some.injEq, Prod.mk.injEq] at h
      rcases h with ⟨rfl, rfl⟩
      have hd := List.head?_dropWhile_not (fun x => decide (x ≠ c)) text
      rw [hdrop] at hd
      have heq : d = c := by simpa using hd
      have happend := List.takeWhile_append_dropWhile (p := fun x => decide (x ≠ c)) (l := text)
      rw [hdrop, heq] at happend
      exact happend

theorem IsToken.append {text' : Text} (h : IsToken text) (h' : IsToken text') :
    IsToken (text ++ text') := by
  refine ⟨fun hnil => h.1 (List.append_eq_nil_iff.1 hnil).1, fun c hc => ?_⟩
  exact (List.mem_append.1 hc).elim (h.2 c) (h'.2 c)

theorem isToken_of_isInstance {name : Text} (h : InstanceKey.isInstance name = true) :
    IsToken name := by
  rcases Bool.or_eq_true_iff.1 h with hunit | hident
  · rw [of_decide_eq_true hunit]
    exact ⟨by decide, List.all_eq_true.1 (by decide)⟩
  · have hname := (Bool.and_eq_true_iff.1 hident).1
    exact ⟨ne_nil_of_isIdent hname, isTokenChar_of_isIdent hname⟩

instance : LawfulKey LockKey where
  display_fromStr := by
    intro text key h
    change LockKey.fromStr text = .ok key at h
    unfold LockKey.fromStr at h
    cases hstrip : stripPrefix SERVICE text with
    | none =>
        simp only [hstrip] at h
        split_ifs at h
        cases h
        rfl
    | some name =>
        simp only [hstrip] at h
        split_ifs at h
        cases h
        exact append_of_stripPrefix hstrip
  isToken_fromStr := by
    intro text key h
    change LockKey.fromStr text = .ok key at h
    unfold LockKey.fromStr at h
    cases hstrip : stripPrefix SERVICE text with
    | none =>
        simp only [hstrip] at h
        split_ifs at h with hdotted
        exact isToken_of_isDotted hdotted
    | some name =>
        simp only [hstrip] at h
        split_ifs at h with hdotted
        rw [← append_of_stripPrefix hstrip]
        have hservice : IsToken SERVICE := ⟨by decide, List.all_eq_true.1 (by decide)⟩
        exact hservice.append (isToken_of_isDotted hdotted.2)
  header := ⟨_, rfl, by decide +kernel⟩
  max := by decide

instance : LawfulKey InstanceKey where
  display_fromStr := by
    intro text key h
    change InstanceKey.fromStr text = .ok key at h
    unfold InstanceKey.fromStr at h
    cases hsplit : splitOnce text '/' with
    | none => simp only [hsplit, reduceCtorEq] at h
    | some parts =>
        simp only [hsplit] at h
        split_ifs at h
        cases h
        exact append_of_splitOnce hsplit
  isToken_fromStr := by
    intro text key h
    change InstanceKey.fromStr text = .ok key at h
    unfold InstanceKey.fromStr at h
    cases hsplit : splitOnce text '/' with
    | none => simp only [hsplit, reduceCtorEq] at h
    | some parts =>
        simp only [hsplit] at h
        split_ifs at h with hparts
        rw [← append_of_splitOnce hsplit]
        have hslash : IsToken ['/'] := ⟨by decide, List.all_eq_true.1 (by decide)⟩
        exact (isToken_of_isDotted hparts.1).append
          (hslash.append (isToken_of_isInstance hparts.2))
  header := ⟨_, rfl, by decide +kernel⟩
  max := by decide

instance : Std.TransOrd LockKey := inferInstanceAs (Std.TransCmp (compareLex _ _))

instance : Std.LawfulEqOrd LockKey where
  eq_of_compare {a b} h := by
    rcases compareLex_eq_eq.1 h with ⟨hkind, hname⟩
    have hkind : a.rank.1 = b.rank.1 := Std.LawfulEqOrd.eq_of_compare hkind
    have hname : a.rank.2 = b.rank.2 := Std.LawfulEqOrd.eq_of_compare hname
    cases a with
    | interface name =>
        cases b with
        | interface name' => exact congrArg LockKey.interface hname
        | service name' => cases hkind
    | service name =>
        cases b with
        | interface name' => cases hkind
        | service name' => exact congrArg LockKey.service hname

instance : Std.TransOrd InstanceKey := inferInstanceAs (Std.TransCmp (compareLex _ _))

instance : Std.LawfulEqOrd InstanceKey where
  eq_of_compare {a b} h := by
    rcases compareLex_eq_eq.1 h with ⟨hcomponent, hinstance⟩
    exact InstanceKey.ext (Std.LawfulEqOrd.eq_of_compare hcomponent)
      (Std.LawfulEqOrd.eq_of_compare hinstance)

/-! ### Keys of instances -/

theorem slash_not_mem_of_isIdent (h : isIdent text = true) : '/' ∉ text := by
  cases text with
  | nil => nofun
  | cons first rest =>
      rcases Bool.and_eq_true_iff.1 h with ⟨hfirst, hrest⟩
      refine fun hmem => (List.mem_cons.1 hmem).elim (fun heq => ?_) fun hin => ?_
      · rw [← heq] at hfirst
        revert hfirst
        decide
      · have hslash := List.all_eq_true.1 hrest '/' hin
        revert hslash
        decide

theorem slash_not_mem_of_isDotted (h : isDotted text = true) : '/' ∉ text := by
  intro hmem
  have htext : ['.'].intercalate (text.splitOn '.') = text := List.intercalate_splitOn '.'
  rw [← htext] at hmem
  rcases mem_intercalate hmem with heq | ⟨part, hpart, hin⟩
  · revert heq
    decide
  · exact slash_not_mem_of_isIdent (List.all_eq_true.1 h part hpart) hin

theorem splitOnce_append (h : c ∉ front) :
    splitOnce (front ++ c :: back) c = some (front, back) := by
  have hfront : ∀ x ∈ front, decide (x ≠ c) = true :=
    fun x hx => decide_eq_true fun heq => h (heq ▸ hx)
  unfold splitOnce
  rw [List.dropWhile_append_of_pos hfront, List.takeWhile_append_of_pos hfront,
    List.dropWhile_cons_of_neg (by simp), List.takeWhile_cons_of_neg (by simp), List.append_nil]

theorem isKey_instance_iff {key : InstanceKey} :
    IsKey key ↔ isDotted key.component = true ∧ InstanceKey.isInstance key.instanceName = true := by
  constructor
  · intro h
    change InstanceKey.fromStr key.display = .ok key at h
    unfold InstanceKey.fromStr at h
    cases hsplit : splitOnce key.display '/' with
    | none => simp only [hsplit, reduceCtorEq] at h
    | some parts =>
        simp only [hsplit] at h
        split_ifs at h with hparts
        rw [← Except.ok.inj h]
        exact hparts
  · intro h
    change InstanceKey.fromStr (key.component ++ '/' :: key.instanceName) = .ok key
    unfold InstanceKey.fromStr
    rw [splitOnce_append (slash_not_mem_of_isDotted h.1)]
    exact if_pos h

end Lock

end Ridl
