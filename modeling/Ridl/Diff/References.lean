import Ridl.Diff.Walk

/-!
# References

The names that a declaration mentions. A type reference is a field of its own,
and the catalog rewrites it to the canonical name of what it means
(`mapRefs`). An expression is text: the names in it are followed and never
rewritten (`exprNames`).

The doc fields of a body have no part in either, so a body and the same body
without them mention the same names.

## Main definitions

* `exprs`, `exprNames`: The expression texts of a body, and the names in one.

## Theorems

* `mapRefs_congr`: A rewriting is known by what it does to the references.
* `mapRefs_withoutMemberDocs`: The doc fields are not rewritten.
-/

namespace Ridl

namespace Diff

/-! ### Type references -/

/-- The named pattern of a scalar. -/
def TypeDef.refs (d : TypeDef) : List String :=
  (d.constraint.bind Constraint.patternConst).toList

def TypeDef.mapRefs (f : String → String) (d : TypeDef) : TypeDef :=
  { d with
    constraint := d.constraint.map (fun c => { c with patternConst := c.patternConst.map f }) }

def streamRefs : Option StreamElement → List String
  | some (.named name) => [name]
  | _ => []

def mapStreamRefs (f : String → String) : Option StreamElement → Option StreamElement
  | some (.named name) => some (.named (f name))
  | element => element

mutual

def FieldType.refs : FieldType → List String
  | .mk _ kind => FieldKind.refsOption kind
termination_by structural a => a

def FieldType.refsOption : Option FieldType → List String
  | none => []
  | some type => FieldType.refs type
termination_by structural a => a

def FieldKind.refsOption : Option FieldKind → List String
  | none => []
  | some kind => FieldKind.refs kind
termination_by structural a => a

def FieldKind.refs : FieldKind → List String
  | .named name => [name]
  | .primitive _ => []
  | .inlineScalar d => d.refs
  | .tuple fields => TupleField.refsList fields
  | .array element _ _ => FieldType.refsOption element
  | .map key value _ _ => FieldType.refsOption key ++ FieldType.refsOption value
  | .stream element => streamRefs element
termination_by structural a => a

def TupleField.refs : TupleField → List String
  | .mk _ type => FieldType.refsOption type
termination_by structural a => a

def TupleField.refsList : List TupleField → List String
  | [] => []
  | field :: fields => TupleField.refs field ++ TupleField.refsList fields
termination_by structural a => a

end

mutual

def FieldType.mapRefs (f : String → String) : FieldType → FieldType
  | .mk isOptional kind => .mk isOptional (FieldKind.mapRefsOption f kind)
termination_by structural a => a

def FieldType.mapRefsOption (f : String → String) : Option FieldType → Option FieldType
  | none => none
  | some type => some (FieldType.mapRefs f type)
termination_by structural a => a

def FieldKind.mapRefsOption (f : String → String) : Option FieldKind → Option FieldKind
  | none => none
  | some kind => some (FieldKind.mapRefs f kind)
termination_by structural a => a

def FieldKind.mapRefs (f : String → String) : FieldKind → FieldKind
  | .named name => .named (f name)
  | .primitive primitive => .primitive primitive
  | .inlineScalar d => .inlineScalar (d.mapRefs f)
  | .tuple fields => .tuple (TupleField.mapRefsList f fields)
  | .array element min max => .array (FieldType.mapRefsOption f element) min max
  | .map key value min max =>
      .map (FieldType.mapRefsOption f key) (FieldType.mapRefsOption f value) min max
  | .stream element => .stream (mapStreamRefs f element)
termination_by structural a => a

def TupleField.mapRefs (f : String → String) : TupleField → TupleField
  | .mk name type => .mk name (FieldType.mapRefsOption f type)
termination_by structural a => a

def TupleField.mapRefsList (f : String → String) : List TupleField → List TupleField
  | [] => []
  | field :: fields => TupleField.mapRefs f field :: TupleField.mapRefsList f fields
termination_by structural a => a

end

def memberRefs : Option StructMember → List String
  | some (.field field) => FieldType.refsOption field.type
  | _ => []

def mapMemberRefs (f : String → String) : Option StructMember → Option StructMember
  | some (.field field) => some (.field { field with type := FieldType.mapRefsOption f field.type })
  | member => member

def paramRefs (params : List Param) : List String :=
  params.flatMap (fun param => FieldType.refsOption param.type)

def mapParamRefs (f : String → String) (params : List Param) : List Param :=
  params.map (fun param => { param with type := FieldType.mapRefsOption f param.type })

def returnRefs : Option (Option ReturnType) → List String
  | some (some (.value type)) => type.refs
  | some (some (.fallible ok err)) => [ok, err]
  | _ => []

def mapReturnRefs (f : String → String) : Option (Option ReturnType) → Option (Option ReturnType)
  | some (some (.value type)) => some (some (.value (type.mapRefs f)))
  | some (some (.fallible ok err)) => some (some (.fallible (f ok) (f err)))
  | kind => kind

/-- Every type reference of a body, in the order of the visit. -/
def refs : Option Kind → List String
  | some (.typeDef d) => d.refs
  | some (.constDef d) => d.typeRef.toList
  | some (.structDef d) => d.members.flatMap memberRefs
  | some (.enumDef _) | some (.reservedSlot _) | none => []
  | some (.enumSetDef d) => d.backingEnum.toList
  | some (.unionDef d) => d.arms.map UnionArm.typeRef
  | some (.signalDef d) => [d.payload]
  | some (.eventDef d) => [d.payload]
  | some (.commandDef d) => paramRefs d.params
  | some (.queryDef d) => paramRefs d.params ++ returnRefs d.returnType
  | some (.fixedDef d) => FieldType.refsOption d.payload

/-- The body with every type reference rewritten. -/
def mapRefs (f : String → String) : Option Kind → Option Kind
  | some (.typeDef d) => some (.typeDef (d.mapRefs f))
  | some (.constDef d) => some (.constDef { d with typeRef := d.typeRef.map f })
  | some (.structDef d) => some (.structDef { d with members := d.members.map (mapMemberRefs f) })
  | some (.enumDef d) => some (.enumDef d)
  | some (.reservedSlot reserved) => some (.reservedSlot reserved)
  | none => none
  | some (.enumSetDef d) => some (.enumSetDef { d with backingEnum := d.backingEnum.map f })
  | some (.unionDef d) =>
      some (.unionDef { d with
        arms := d.arms.map (fun arm => { arm with typeRef := f arm.typeRef }) })
  | some (.signalDef d) => some (.signalDef { d with payload := f d.payload })
  | some (.eventDef d) => some (.eventDef { d with payload := f d.payload })
  | some (.commandDef d) => some (.commandDef { d with params := mapParamRefs f d.params })
  | some (.queryDef d) =>
      some (.queryDef { d with
        params := mapParamRefs f d.params
        returnType := mapReturnRefs f d.returnType })
  | some (.fixedDef d) => some (.fixedDef { d with payload := FieldType.mapRefsOption f d.payload })

/-! ### Names in expressions -/

/-- The expression texts of a body that can name a constant or an enum. -/
def exprs : Option Kind → List String
  | some (.constDef d) => [d.value]
  | some (.commandDef d) => d.contracts.map Contract.source
  | some (.queryDef d) => d.contracts.map Contract.source
  | _ => []

def isNameStart (c : Char) : Bool := c.isAlpha || c == '_'

def isNamePart (c : Char) : Bool := c.isAlphanum || c == '_'

/-- Where the scan of an expression stands: outside, in a string literal, behind
    a backslash in one, in a number, or in a chain of names. A chain holds what
    was read of it, the last character first. -/
inductive Scan
  | text
  | literal
  | escaped
  | number
  | chain (read : List Char)

/-- The double quote and the backslash. -/
def QUOTE : Char := Char.ofNat 34

def BACKSLASH : Char := Char.ofNat 92

/-- What a character outside begins. -/
def enter (c : Char) : Scan :=
  if c = QUOTE then .literal
  else if c.isDigit then .number
  else if isNameStart c then .chain [c]
  else .text

/-- Every chain of names, and every prefix of one that ends with a name. -/
def scan : Scan → List Char → List String
  | .chain read, [] => [String.ofList read.reverse]
  | .text, [] | .literal, [] | .escaped, [] | .number, [] => []
  | .text, c :: rest => scan (enter c) rest
  | .literal, c :: rest =>
      if c = QUOTE then scan .text rest
      else if c = BACKSLASH then scan .escaped rest
      else scan .literal rest
  | .escaped, _ :: rest => scan .literal rest
  | .number, c :: rest =>
      -- A point is part of a number where a digit follows.
      if isNamePart c || (c == '.' && rest.head?.any Char.isDigit) then scan .number rest
      else scan (enter c) rest
  | .chain read, c :: rest =>
      if isNamePart c then scan (.chain (c :: read)) rest
      else if c == '.' && rest.head?.any isNameStart then
        String.ofList read.reverse :: scan (.chain (c :: read)) rest
      else String.ofList read.reverse :: scan (enter c) rest

def exprNames (source : String) : List String := scan .text source.toList

example : exprNames "a.b.MAX > 1e3 and mode == Mode.off" =
    ["a", "a.b", "a.b.MAX", "and", "mode", "Mode", "Mode.off"] := by decide +kernel

/-! ### Rewriting what is mentioned -/

section Congr

variable {f g : String → String}

theorem option_map_congr {name : Option String} (h : ∀ n ∈ name.toList, f n = g n) :
    name.map f = name.map g := by
  cases name with
  | none => rfl
  | some n => rw [Option.map_some, Option.map_some, h n (List.mem_singleton.mpr rfl)]

theorem TypeDef.mapRefs_congr {d : TypeDef} (h : ∀ n ∈ d.refs, f n = g n) :
    d.mapRefs f = d.mapRefs g := by
  unfold TypeDef.mapRefs
  unfold TypeDef.refs at h
  rcases hc : d.constraint with _ | c
  · rfl
  · rw [hc] at h
    rw [Option.bind_some] at h
    rw [Option.map_some, Option.map_some, option_map_congr h]

theorem mapStreamRefs_congr {element : Option StreamElement}
    (h : ∀ n ∈ streamRefs element, f n = g n) : mapStreamRefs f element = mapStreamRefs g element := by
  rcases element with _ | name | primitive
  · rfl
  · rw [mapStreamRefs, mapStreamRefs, h name (List.mem_singleton.mpr rfl)]
  · rfl

-- The recursion is that of the types.
mutual

theorem FieldType.mapRefs_congr : ∀ t : FieldType, (∀ n ∈ t.refs, f n = g n) →
    t.mapRefs f = t.mapRefs g
  | .mk _ kind, h => by
      rw [FieldType.mapRefs, FieldType.mapRefs, FieldKind.mapRefsOption_congr kind h]
termination_by structural t => t

theorem FieldType.mapRefsOption_congr : ∀ t : Option FieldType,
    (∀ n ∈ FieldType.refsOption t, f n = g n) →
    FieldType.mapRefsOption f t = FieldType.mapRefsOption g t
  | none, _ => rfl
  | some type, h => by
      rw [FieldType.mapRefsOption, FieldType.mapRefsOption, FieldType.mapRefs_congr type h]
termination_by structural t => t

theorem FieldKind.mapRefsOption_congr : ∀ k : Option FieldKind,
    (∀ n ∈ FieldKind.refsOption k, f n = g n) →
    FieldKind.mapRefsOption f k = FieldKind.mapRefsOption g k
  | none, _ => rfl
  | some kind, h => by
      rw [FieldKind.mapRefsOption, FieldKind.mapRefsOption, FieldKind.mapRefs_congr kind h]
termination_by structural k => k

theorem FieldKind.mapRefs_congr : ∀ k : FieldKind, (∀ n ∈ k.refs, f n = g n) →
    k.mapRefs f = k.mapRefs g
  | .named name, h => by
      rw [FieldKind.mapRefs, FieldKind.mapRefs, h name (List.mem_singleton.mpr rfl)]
  | .primitive _, _ => rfl
  | .inlineScalar d, h => by
      rw [FieldKind.mapRefs, FieldKind.mapRefs, TypeDef.mapRefs_congr h]
  | .tuple fields, h => by
      rw [FieldKind.mapRefs, FieldKind.mapRefs, TupleField.mapRefsList_congr fields h]
  | .array element _ _, h => by
      rw [FieldKind.mapRefs, FieldKind.mapRefs, FieldType.mapRefsOption_congr element h]
  | .map key value _ _, h => by
      rw [FieldKind.mapRefs, FieldKind.mapRefs,
        FieldType.mapRefsOption_congr key (fun n hn => h n (List.mem_append_left _ hn)),
        FieldType.mapRefsOption_congr value (fun n hn => h n (List.mem_append_right _ hn))]
  | .stream element, h => by
      rw [FieldKind.mapRefs, FieldKind.mapRefs, mapStreamRefs_congr h]
termination_by structural k => k

theorem TupleField.mapRefs_congr : ∀ t : TupleField, (∀ n ∈ t.refs, f n = g n) →
    t.mapRefs f = t.mapRefs g
  | .mk _ type, h => by
      rw [TupleField.mapRefs, TupleField.mapRefs, FieldType.mapRefsOption_congr type h]
termination_by structural t => t

theorem TupleField.mapRefsList_congr : ∀ l : List TupleField,
    (∀ n ∈ TupleField.refsList l, f n = g n) →
    TupleField.mapRefsList f l = TupleField.mapRefsList g l
  | [], _ => rfl
  | field :: fields, h => by
      rw [TupleField.mapRefsList, TupleField.mapRefsList,
        TupleField.mapRefs_congr field (fun n hn => h n (List.mem_append_left _ hn)),
        TupleField.mapRefsList_congr fields (fun n hn => h n (List.mem_append_right _ hn))]
termination_by structural l => l

end

theorem mapMemberRefs_congr {member : Option StructMember}
    (h : ∀ n ∈ memberRefs member, f n = g n) : mapMemberRefs f member = mapMemberRefs g member := by
  rcases member with _ | field | reserved
  · rfl
  · rw [mapMemberRefs, mapMemberRefs, FieldType.mapRefsOption_congr field.type h]
  · rfl

theorem mapParamRefs_congr {params : List Param} (h : ∀ n ∈ paramRefs params, f n = g n) :
    mapParamRefs f params = mapParamRefs g params :=
  List.map_congr_left (fun param hmem => by
    rw [FieldType.mapRefsOption_congr param.type
      (fun n hn => h n (List.mem_flatMap.mpr ⟨param, hmem, hn⟩))])

theorem mapReturnRefs_congr {kind : Option (Option ReturnType)}
    (h : ∀ n ∈ returnRefs kind, f n = g n) : mapReturnRefs f kind = mapReturnRefs g kind := by
  rcases kind with _ | _ | type | ⟨ok, err⟩
  · rfl
  · rfl
  · rw [mapReturnRefs, mapReturnRefs, FieldType.mapRefs_congr type h]
  · rw [mapReturnRefs, mapReturnRefs, h ok List.mem_cons_self,
      h err (List.mem_cons_of_mem _ List.mem_cons_self)]

theorem mapRefs_congr {kind : Option Kind} (h : ∀ n ∈ refs kind, f n = g n) :
    mapRefs f kind = mapRefs g kind := by
  rcases kind with _ | d | d | d | d | d | d | d | d | d | d | d | reserved
  · rfl
  · rw [mapRefs, mapRefs, TypeDef.mapRefs_congr h]
  · rw [mapRefs, mapRefs, option_map_congr h]
  · have hmembers : d.members.map (mapMemberRefs f) = d.members.map (mapMemberRefs g) :=
      List.map_congr_left (fun member hmem =>
        mapMemberRefs_congr (fun n hn => h n (List.mem_flatMap.mpr ⟨member, hmem, hn⟩)))
    rw [mapRefs, mapRefs, hmembers]
  · rfl
  · rw [mapRefs, mapRefs, option_map_congr h]
  · have harms : d.arms.map (fun arm => { arm with typeRef := f arm.typeRef }) =
        d.arms.map (fun arm => { arm with typeRef := g arm.typeRef }) :=
      List.map_congr_left (fun arm hmem => by rw [h _ (List.mem_map.mpr ⟨arm, hmem, rfl⟩)])
    rw [mapRefs, mapRefs, harms]
  · rw [mapRefs, mapRefs, h _ (List.mem_singleton.mpr rfl)]
  · rw [mapRefs, mapRefs, h _ (List.mem_singleton.mpr rfl)]
  · rw [mapRefs, mapRefs, mapParamRefs_congr h]
  · rw [mapRefs, mapRefs, mapParamRefs_congr (fun n hn => h n (List.mem_append_left _ hn)),
      mapReturnRefs_congr (fun n hn => h n (List.mem_append_right _ hn))]
  · rw [mapRefs, mapRefs, FieldType.mapRefsOption_congr d.payload h]
  · rfl

end Congr

/-! ### Bodies without doc fields -/

theorem mapRefs_withoutMemberDocs (f : String → String) (kind : Option Kind) :
    withoutMemberDocs (mapRefs f kind) = mapRefs f (withoutMemberDocs kind) := by
  rcases kind with _ | d | d | d | d | d | d | d | d | d | d | d | reserved
  · rfl
  · rfl
  · rfl
  · simp only [mapRefs, withoutMemberDocs, List.map_map]
    congr 3
    refine List.map_congr_left (fun member _ => ?_)
    rcases member with _ | field | reserved <;> rfl
  · rfl
  · rfl
  · simp only [mapRefs, withoutMemberDocs, List.map_map, Function.comp_def]
  · rfl
  · rfl
  · simp only [mapRefs, withoutMemberDocs, mapParamRefs, List.map_map, Function.comp_def]
  · simp only [mapRefs, withoutMemberDocs, mapParamRefs, List.map_map, Function.comp_def]
  · rfl
  · rfl

theorem refs_withoutMemberDocs (kind : Option Kind) : refs (withoutMemberDocs kind) = refs kind := by
  rcases kind with _ | d | d | d | d | d | d | d | d | d | d | d | reserved
  · rfl
  · rfl
  · rfl
  · simp only [refs, withoutMemberDocs, List.flatMap_map]
    congr 1
    funext member
    rcases member with _ | field | reserved <;> rfl
  · rfl
  · rfl
  · simp only [refs, withoutMemberDocs, List.map_map, Function.comp_def]
  · rfl
  · rfl
  · simp only [refs, withoutMemberDocs, paramRefs, List.flatMap_map]
  · simp only [refs, withoutMemberDocs, paramRefs, List.flatMap_map]
  · rfl
  · rfl

theorem exprs_withoutMemberDocs (kind : Option Kind) :
    exprs (withoutMemberDocs kind) = exprs kind := by
  rcases kind with _ | d | d | d | d | d | d | d | d | d | d | d | reserved <;> rfl

end Diff

end Ridl
