import BuildPlan.Xml.Lexeme

/-! # Well-formed fragments

A fragment is what may stand between the tags of one element: text, elements, comments, processing
instructions and character data. It is well formed if the tags are balanced, every name is, every
reference resolves, every qualifier is bound to a namespace, and no tag has the same attribute
twice. Declarations of document types are not admitted. -/

namespace BuildPlan.Xml

/-- The namespace that the qualifier `xml` stands for. -/
def xmlNamespace : List Char := "http://www.w3.org/XML/1998/namespace".toList

/-- The namespace of namespace declarations. -/
def declarationNamespace : List Char := "http://www.w3.org/2000/xmlns/".toList

def xmlQualifier : List Char := ['x', 'm', 'l']

def declarationName : List Char := ['x', 'm', 'l', 'n', 's']

/-- An element whose end tag has not been read, with the namespaces in scope, the nearest
declaration first. -/
structure OpenElement where
  name : QualifiedName
  namespaces : List (List Char × List Char)

/-- An attribute as it is written, with its value resolved. -/
structure Attribute where
  name : QualifiedName
  value : List Char

/-- An attribute: a name, an equals sign and a quoted value without the mark of a tag. -/
def Attribute.read : Reader Attribute := do
  let name ← qualifiedName
  skipSpaces
  expect '='
  skipSpaces
  let quote ← match ← get with
    | '"' :: rest => do set rest; pure '"'
    | '\'' :: rest => do set rest; pure '\''
    | _ => failure
  let written ← takeRun fun c => c != quote && c != '<'
  expect quote
  if written.all isXmlChar then
    let value ← (attributeValue written : Option (List Char))
    return ⟨name, value⟩
  else failure

/-- The attributes of a start tag and its end, which is `true` for an element without content. The
bound is the text itself. Spaces stand before every attribute. -/
def attributesUpTo : List Char → Reader (List Attribute × Bool)
  | [] => failure
  | _ :: bound => do
    let before ← get
    skipSpaces
    match ← get with
    | '/' :: rest => do
      set rest
      expect '>'
      return ([], true)
    | '>' :: rest => do
      set rest
      return ([], false)
    | _ =>
      if before.head?.any isSpace then
        let a ← Attribute.read
        let (as, closed) ← attributesUpTo bound
        return (a :: as, closed)
      else failure

/-- Adds the namespace that an attribute declares to those declared by the same tag. An attribute
that declares none changes nothing. The two namespaces of the markup itself are not for use, except
that `xml` may be declared as what it is. -/
def declare (declared : List (List Char × List Char)) (a : Attribute) :
    Option (List (List Char × List Char)) :=
  if a.name.qualifier = declarationName then
    let prescribed := a.name.localName = xmlQualifier
    if a.value = declarationNamespace then none
    else if prescribed != (a.value = xmlNamespace) then none
    else if declared.any (·.1 = a.name.localName) then none
    else if prescribed then some declared
    else some (declared ++ [(a.name.localName, a.value)])
  else if a.name.localName = declarationName then
    if a.value = xmlNamespace || a.value = declarationNamespace then none
    else some (declared ++ [([], a.value)])
  else some declared

def Attribute.isDeclaration (a : Attribute) : Bool :=
  a.name.qualifier = declarationName || a.name.localName = declarationName

/-- The namespace of an attribute. An attribute without a qualifier has none. -/
def Attribute.namespace? (namespaces : List (List Char × List Char)) (a : Attribute) :
    Option (Option (List Char)) :=
  if a.name.qualifier = xmlQualifier then some (some xmlNamespace)
  else if a.name.qualifier.isEmpty then some none
  else (namespaces.lookup a.name.qualifier).map some

/-- Holds if every attribute is bound and no two have the same namespace and name. -/
def distinctAttributes (namespaces : List (List Char × List Char)) (as : List Attribute) : Bool :=
  match as.mapM fun a => (a.namespace? namespaces).map fun space => (space, a.name.localName) with
  | none => false
  | some names => names.eraseDups.length = names.length

/-- The start of an element, behind its opening mark: the element and whether it ends here. -/
def startTag (outer : List (List Char × List Char)) : Reader (OpenElement × Bool) := do
  let name ← qualifiedName
  if name.qualifier = declarationName then failure
  let (as, closed) ← attributesUpTo (← get)
  let declared ← (as.foldlM declare [] : Option _)
  let namespaces := declared ++ outer
  let plain := as.filter (!·.isDeclaration)
  let bound := name.qualifier.isEmpty || (namespaces.lookup name.qualifier).isSome
  if bound && distinctAttributes namespaces plain then return (⟨name, namespaces⟩, closed)
  else failure

/-- Holds if two hyphens stand in a row, or one at the end. -/
def hasDoubleHyphen : List Char → Bool
  | [] => false
  | ['-'] => true
  | '-' :: '-' :: _ => true
  | _ :: s => hasDoubleHyphen s

/-- A comment, behind its opening mark. -/
def comment : Reader Unit := do
  let text ← upToMark ['-', '-', '>']
  if hasDoubleHyphen text then failure

/-- A processing instruction, behind its opening mark. The declaration that may open a document is
none. -/
def instruction : Reader Unit := do
  if (stripMark ['x', 'm', 'l', ' '] (← get)).isSome then failure
  discard name
  skipSpaces
  discard (upToMark ['?', '>'])

/-- Text between tags, in which the end of a character data section must not stand. -/
def characters : Reader Unit := do
  let text ← takeRun (· != '<')
  if text.all isXmlChar && (upToMark [']', ']', '>'] text).isNone && (resolveText text).isSome then
    return ()
  else failure

/-- One item of content, and the elements open behind it. -/
def item (opened : List OpenElement) : Reader (List OpenElement) := do
  match ← get with
  | [] => failure
  | '<' :: '!' :: '-' :: '-' :: rest => do
    set rest
    comment
    return opened
  | '<' :: '!' :: rest => do
    set (← (stripMark "[CDATA[".toList rest : Option (List Char)))
    discard (upToMark [']', ']', '>'])
    return opened
  | '<' :: '?' :: rest => do
    set rest
    instruction
    return opened
  | '<' :: '/' :: rest => do
    set rest
    let name ← qualifiedName
    skipSpaces
    expect '>'
    match opened with
    | [] => failure
    | e :: outer => if e.name = name then return outer else failure
  | '<' :: rest => do
    set rest
    let (e, closed) ← startTag ((opened.head?.map (·.namespaces)).getD [])
    return if closed then opened else e :: opened
  | _ => do
    characters
    return opened

/-- Reads items until no element is open, which must be the end of the text. The bound is the text
itself, since every item takes a character. -/
def closesUpTo : List Char → List OpenElement → List Char → Bool
  | _, [], s => s.isEmpty
  | [], _ :: _, _ => false
  | _ :: bound, opened, s =>
    match item opened s with
    | none => false
    | some (opened, rest) => closesUpTo bound opened rest

/-- Holds if the text is well formed between the tags of an element. -/
def isWellFormed (s : List Char) : Bool :=
  let tag : QualifiedName := ⟨[], "fragment".toList⟩
  let s := s ++ "</fragment>".toList
  closesUpTo s [⟨tag, []⟩] s

end BuildPlan.Xml
