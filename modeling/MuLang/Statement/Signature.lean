import MuLang.Session

/-!
# Function signatures

The head of a function: `fn NAME`, `fn NAME ~ (PARAMS)` or `fn NAME :: TYPE (PARAMS)`, where each
parameter is written `MODIFIERS TYPE NAME`.
-/
namespace MuLang

/-- What the head of a function says. -/
structure Signature where
  identifier : Token
  returnType : Token
  parameters : List Parameter
  deriving DecidableEq, Inhabited

/-- The token of a return type that is not written. -/
def voidToken : Token := .synthetic (.typeName .void) "void"

/-- One parameter. Where it has too many tokens the error stands at the first of those, and where
it has too few at what follows its modifiers or else at its last modifier; `last`, the last token of
the whole list, is the place of an error in an empty segment. -/
def Parameter.ofTokens (last : Token) (segment : List Token) : Except Error Parameter :=
  let modifiers := Token.leadingModifiers segment
  let rest := Token.afterModifiers segment
  match Token.firstModifier? Modifier.restrictsAccess modifiers with
  | some invalid => .error (.atToken (.invalidModifier "parameter" invalid.text) invalid)
  | none =>
    match rest with
    | [datatype, identifier] =>
      if !datatype.kind.isTypeName || datatype.kind = .typeName .void then
        .error (.atToken (.expectedToken "a parameter datatype" datatype.text) datatype)
      else if identifier.kind ≠ .identifier ∨ isDotted identifier.text then
        .error (.atToken (.expectedToken "a parameter name" identifier.text) identifier)
      else .ok ⟨modifiers, datatype, identifier⟩
    | _ =>
      let place := (rest[2]? <|> rest.head? <|> segment.getLast?).getD last
      .error (.atToken (.unexpectedTokenDetailed place.text
        "expected `MODIFIERS TYPE NAME` as function parameter") place)

/-- The parameters between the parentheses of a function, separated by commas. -/
def Parameter.listOfTokens (tokens : List Token) : Except Error (List Parameter) :=
  match tokens.getLast? with
  | none => .ok []
  | some last => (fields (·.kind = .comma) tokens).mapM (Parameter.ofTokens last)

namespace Signature

/-- What stands between the parentheses that open at an index of a head and close at its end. -/
def parenthesized (header : List Token) (start : Nat) : Except Error (List Token) := do
  let _ ← Token.expectAt header start (· = .openParen) "`(`"
  let last ← Token.tokenAt header (header.length - 1)
  if header.length - 1 = start ∨ last.kind ≠ .closeParen then
    throw (.atToken (.expectedToken "`)`" last.text) last)
  return (header.drop (start + 1)).dropLast

/-- The signature that a head spells. Where `allowBare` is set, the head may end after the name. -/
def ofTokens (header : List Token) (allowBare : Bool) : Except Error Signature := do
  let _ ← Token.expectAt header 0 (· = .keyword .fnWord) "`fn`"
  let identifier ← Token.expectName header 1 "a function name"
  if allowBare && header.length = 2 then
    return ⟨identifier, voidToken, []⟩
  let mark ← Token.expectAt header 2 (fun kind => kind = .tilde || kind = .doubleColon)
    "`~` or `::`"
  if mark.kind = .tilde then
    let parameters ← Parameter.listOfTokens (← parenthesized header 3)
    return ⟨identifier, voidToken, parameters⟩
  else
    let returnType ← Token.expectAt header 3 (·.isTypeName) "a return type"
    let parameters ← Parameter.listOfTokens (← parenthesized header 4)
    return ⟨identifier, returnType, parameters⟩

/-- What a declaration with this head says. -/
def header (signature : Signature) (modifiers : List Token) : FunctionHeader :=
  ⟨modifiers, signature.identifier, signature.returnType, signature.parameters⟩

end Signature

/-- A parameter as it is registered, if its type name names a type. -/
def Parameter.registered? (parameter : Parameter) : Option FunctionParameter :=
  (parameter.datatype.datatype? (Token.areNullable parameter.modifiers)).map fun type =>
    ⟨parameter.identifier.text, type, Token.modifiers parameter.modifiers⟩

/-- The function that a header declares. A `nullable` modifier belongs to the return type, and
`void` never admits `null`. -/
def FunctionHeader.definition (header : FunctionHeader) (body : FunctionBody) :
    Except Error FunctionDefinition :=
  match header.returnType.datatype? (Token.areNullable header.modifiers) with
  | none =>
    .error (.atToken (.expectedToken "a datatype" header.returnType.text) header.returnType)
  | some type =>
    .ok {
      name := header.identifier.text
      returnType := if type.kind = .void then .void else type
      parameters := header.parameters.filterMap Parameter.registered?
      modifiers := Token.modifiers header.modifiers
      body }

end MuLang
