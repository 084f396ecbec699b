/-!
# Syntax Kinds

The kinds of the tokens and nodes of the grammar family, the profiles, and the
reserved words each profile uses as keywords.

## Main definitions

* `SyntaxKind`: The kinds, those of tokens first.
-/

namespace Ridl

namespace Syntax

inductive SyntaxKind
  -- Keywords that the typl profile uses.
  | packageKw | importKw | asKw | internalKw | typeKw | constKw | structKw | enumKw | enumsetKw
  | unionKw | booleanKw | integerKw | floatKw | stringKw | bytesKw | trueKw | falseKw | stepKw
  | matchKw | reservedKw | errorKw
  -- Lexed as an identifier, and a keyword before `enum` and `enumset`.
  | openKw
  -- Keywords of the ridl profile.
  | interfaceKw | serviceKw | signalKw | eventKw | commandKw | queryKw | fixedKw | requireKw
  | ensureKw
  -- Keywords of the rsdl profile.
  | systemKw | componentKw | distributionKw | deploymentKw | machineKw | offersKw | requiresKw
  | forKw
  | reservedWord
  | ident | intNumber | floatNumber | string | regex | duration
  | colon | eq | lBracket | rBracket | lBrace | rBrace | lParen | rParen | dotDot | dot | slash
  | comma | question | semicolon | atSign | pipe | percent | minus
  | lt | le | gt | ge | eqEq | neq | ampAmp | pipePipe | bang | plus | star
  | whitespace | lineComment | blockComment | docComment | error
  -- Nodes.
  | sourceFile | packageDecl | importLine | typeDef | constDef | structDef | fieldDef
  | reservedEntry | enumDef | enumValue | enumSetDef | enumSetBit | unionDef | unionArm
  | tupleType | tupleField | arrayType | mapType | optionalType | pathType | primitiveType
  | unitExpr | constraint | bound | name | qualifiedName | literal | initValue
  | interfaceDef | signalDef | eventDef | commandDef | queryDef | fixedDef | param | paramList
  | returnType | streamType | fallibleType | timing | timingRange | attrBlock
  | attribute | attrValue | binaryExpr | prefixExpr | memberExpr | pathExpr | parenExpr
  | literalExpr
  | serviceDef | dottedName
  | systemDef | componentDef | componentLine | distributionDef | deploymentDef | machineDef
  | memberLine | reference
  | errorNode
deriving DecidableEq, Repr

/-- Tokens that carry no meaning for the grammar. -/
def SyntaxKind.isTrivia : SyntaxKind → Bool
  | .whitespace | .lineComment | .blockComment | .docComment => true
  | _ => false

/-- How a message writes a kind. -/
def SyntaxKind.debug : SyntaxKind → String
  | .packageKw => "PackageKw" | .importKw => "ImportKw" | .asKw => "AsKw"
  | .internalKw => "InternalKw" | .typeKw => "TypeKw" | .constKw => "ConstKw"
  | .structKw => "StructKw" | .enumKw => "EnumKw" | .enumsetKw => "EnumsetKw"
  | .unionKw => "UnionKw" | .booleanKw => "BooleanKw" | .integerKw => "IntegerKw"
  | .floatKw => "FloatKw" | .stringKw => "StringKw" | .bytesKw => "BytesKw" | .trueKw => "TrueKw"
  | .falseKw => "FalseKw" | .stepKw => "StepKw" | .matchKw => "MatchKw"
  | .reservedKw => "ReservedKw" | .errorKw => "ErrorKw" | .openKw => "OpenKw"
  | .interfaceKw => "InterfaceKw" | .serviceKw => "ServiceKw" | .signalKw => "SignalKw"
  | .eventKw => "EventKw" | .commandKw => "CommandKw" | .queryKw => "QueryKw"
  | .fixedKw => "FixedKw" | .requireKw => "RequireKw" | .ensureKw => "EnsureKw"
  | .systemKw => "SystemKw" | .componentKw => "ComponentKw" | .distributionKw => "DistributionKw"
  | .deploymentKw => "DeploymentKw" | .machineKw => "MachineKw" | .offersKw => "OffersKw"
  | .requiresKw => "RequiresKw" | .forKw => "ForKw" | .reservedWord => "ReservedWord"
  | .ident => "Ident" | .intNumber => "IntNumber" | .floatNumber => "FloatNumber"
  | .string => "String" | .regex => "Regex" | .duration => "Duration" | .colon => "Colon"
  | .eq => "Eq" | .lBracket => "LBracket" | .rBracket => "RBracket" | .lBrace => "LBrace"
  | .rBrace => "RBrace" | .lParen => "LParen" | .rParen => "RParen" | .dotDot => "DotDot"
  | .dot => "Dot" | .slash => "Slash" | .comma => "Comma" | .question => "Question"
  | .semicolon => "Semicolon" | .atSign => "At" | .pipe => "Pipe" | .percent => "Percent"
  | .minus => "Minus" | .lt => "Lt" | .le => "Le" | .gt => "Gt" | .ge => "Ge" | .eqEq => "EqEq"
  | .neq => "Neq" | .ampAmp => "AmpAmp" | .pipePipe => "PipePipe" | .bang => "Bang"
  | .plus => "Plus" | .star => "Star" | .whitespace => "Whitespace" | .lineComment => "LineComment"
  | .blockComment => "BlockComment" | .docComment => "DocComment" | .error => "Error"
  | .sourceFile => "SourceFile" | .packageDecl => "PackageDecl" | .importLine => "Import"
  | .typeDef => "TypeDef" | .constDef => "ConstDef" | .structDef => "StructDef"
  | .fieldDef => "FieldDef" | .reservedEntry => "ReservedEntry" | .enumDef => "EnumDef"
  | .enumValue => "EnumValue" | .enumSetDef => "EnumSetDef" | .enumSetBit => "EnumSetBit"
  | .unionDef => "UnionDef" | .unionArm => "UnionArm" | .tupleType => "TupleType"
  | .tupleField => "TupleField" | .arrayType => "ArrayType" | .mapType => "MapType"
  | .optionalType => "OptionalType" | .pathType => "PathType" | .primitiveType => "PrimitiveType"
  | .unitExpr => "UnitExpr" | .constraint => "Constraint" | .bound => "Bound" | .name => "Name"
  | .qualifiedName => "QualifiedName" | .literal => "Literal" | .initValue => "InitValue"
  | .interfaceDef => "InterfaceDef" | .signalDef => "SignalDef" | .eventDef => "EventDef"
  | .commandDef => "CommandDef" | .queryDef => "QueryDef" | .fixedDef => "FixedDef"
  | .param => "Param" | .paramList => "ParamList" | .returnType => "ReturnType"
  | .streamType => "StreamType" | .fallibleType => "FallibleType" | .timing => "Timing"
  | .timingRange => "TimingRange" | .attrBlock => "AttrBlock" | .attribute => "Attribute"
  | .attrValue => "AttrValue" | .binaryExpr => "BinaryExpr" | .prefixExpr => "PrefixExpr"
  | .memberExpr => "MemberExpr" | .pathExpr => "PathExpr" | .parenExpr => "ParenExpr"
  | .literalExpr => "LiteralExpr" | .serviceDef => "ServiceDef" | .dottedName => "DottedName"
  | .systemDef => "SystemDef" | .componentDef => "ComponentDef" | .componentLine => "ComponentLine"
  | .distributionDef => "DistributionDef" | .deploymentDef => "DeploymentDef"
  | .machineDef => "MachineDef" | .memberLine => "MemberLine" | .reference => "Reference"
  | .errorNode => "ErrorNode"

/-- Which member of the family a file is written in. -/
inductive Profile
  | typl
  | ridl
  | rsdl
deriving DecidableEq, Repr

def TYPL_KEYWORDS : List (String × SyntaxKind) :=
  [("package", .packageKw), ("import", .importKw), ("as", .asKw), ("internal", .internalKw),
    ("type", .typeKw), ("const", .constKw), ("struct", .structKw), ("enum", .enumKw),
    ("enumset", .enumsetKw), ("union", .unionKw), ("boolean", .booleanKw),
    ("integer", .integerKw), ("float", .floatKw), ("string", .stringKw), ("bytes", .bytesKw),
    ("true", .trueKw), ("false", .falseKw), ("step", .stepKw), ("match", .matchKw),
    ("reserved", .reservedKw), ("error", .errorKw)]

def RIDL_KEYWORDS : List (String × SyntaxKind) :=
  [("interface", .interfaceKw), ("service", .serviceKw), ("signal", .signalKw),
    ("event", .eventKw), ("command", .commandKw), ("query", .queryKw), ("fixed", .fixedKw),
    ("require", .requireKw), ("ensure", .ensureKw)]

def RSDL_KEYWORDS : List (String × SyntaxKind) :=
  [("system", .systemKw), ("component", .componentKw), ("distribution", .distributionKw),
    ("deployment", .deploymentKw), ("machine", .machineKw), ("offers", .offersKw),
    ("requires", .requiresKw), ("for", .forKw)]

/-- Every word that is reserved in every profile, used there or not. -/
def FAMILY_RESERVED : List String :=
  ["package", "import", "as", "internal", "type", "const", "struct", "enum", "enumset", "union",
    "boolean", "integer", "float", "string", "bytes", "true", "false", "step", "match",
    "reserved", "error", "interface", "service", "signal", "event", "command", "query", "fixed",
    "states", "during", "require", "ensure", "model", "function", "let", "init", "last", "case",
    "if", "then", "else", "when", "emit", "merge", "current", "state", "transition", "automaton",
    "system", "component", "distribution", "deployment", "machine", "offers", "requires", "for"]

/-- The entry of a table of words. -/
def keyword (table : List (String × SyntaxKind)) (text : String) : Option SyntaxKind :=
  (table.find? (·.1 = text)).map (·.2)

def typlKeyword (text : String) : Option SyntaxKind := keyword TYPL_KEYWORDS text

def ridlKeyword (text : String) : Option SyntaxKind := keyword RIDL_KEYWORDS text

def rsdlKeyword (text : String) : Option SyntaxKind := keyword RSDL_KEYWORDS text

/-- The keyword that a word is under a profile. -/
def keywordIn (profile : Profile) (text : String) : Option SyntaxKind :=
  match profile with
  | .typl => typlKeyword text
  | .ridl => (typlKeyword text).or (ridlKeyword text)
  | .rsdl => (typlKeyword text).or (rsdlKeyword text)

def isReserved (text : String) : Bool := FAMILY_RESERVED.contains text

end Syntax

end Ridl
