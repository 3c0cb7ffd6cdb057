import BuildPlan.Text.Age
import BuildPlan.Text.Break

/-! # Named classes

The classes of characters that have names in patterns: those of ASCII in brackets, those of one
letter behind a backslash, and the properties of the character standard. Case, blanks, hyphens and
underscores make no difference in the name of a property, nor does what is not ASCII, nor an "is" at
its very start. -/

namespace BuildPlan.Regex

open BuildPlan.Text

/-! ### Classes of ASCII -/

/-- The named classes of ASCII. -/
def asciiClasses : List (String × CharSet) :=
  [("alnum", .read ["30-39 41-5A 61-7A"]), ("alpha", .read ["41-5A 61-7A"]),
    ("ascii", .read ["0-7F"]), ("blank", .read ["9 20"]), ("cntrl", .read ["0-1F 7F"]),
    ("digit", .read ["30-39"]), ("graph", .read ["21-7E"]), ("lower", .read ["61-7A"]),
    ("print", .read ["20-7E"]), ("punct", .read ["21-2F 3A-40 5B-60 7B-7E"]),
    ("space", .read ["9-D 20"]), ("upper", .read ["41-5A"]),
    ("word", .read ["30-39 41-5A 5F 61-7A"]), ("xdigit", .read ["30-39 41-46 61-66"])]

/-- The class of ASCII characters with the given name. -/
def asciiNamed? (name : List Char) : Option CharSet := asciiClasses.lookup (String.ofList name)

/-- The decimal digits of all scripts. -/
def digits : CharSet := Category.members [.decimal]

/-- The digits, the blanks or the word characters, of ASCII alone or of all characters. -/
def letterClass (unicode : Bool) : Char → CharSet
  | 'd' => if unicode then digits else .read ["30-39"]
  | 's' => if unicode then Property.whiteSpace else .read ["9-D 20"]
  | _ => if unicode then Property.word else .read ["30-39 41-5A 5F 61-7A"]

/-! ### Names of properties -/

/-- What makes a difference in a name. -/
def nameLetters (name : List Char) : List Char :=
  (name.filter fun c => c != ' ' && c != '_' && c != '-' && c.toNat < 0x80).map Char.toLower

/-- A name without what makes no difference. -/
def plainName (name : List Char) : String :=
  match name with
  | i :: s :: more =>
    if i.toLower = 'i' && s.toLower = 's' then
      let kept := nameLetters more
      if kept = ['c'] then "isc" else String.ofList kept
    else String.ofList (nameLetters name)
  | _ => String.ofList (nameLetters name)

/-- The names of the general categories and of their groups. The surrogates have names in the
standard, but are no characters. -/
def categoryNames : List (List String × List Category) :=
  [(["lu", "uppercaseletter"], [.upper]), (["ll", "lowercaseletter"], [.lower]),
    (["lt", "titlecaseletter"], [.title]), (["lm", "modifierletter"], [.modifierLetter]),
    (["lo", "otherletter"], [.otherLetter]), (["lc", "casedletter"], Category.casedLetters),
    (["l", "letter"], Category.letters), (["mn", "nonspacingmark"], [.nonspacingMark]),
    (["mc", "spacingmark"], [.spacingMark]), (["me", "enclosingmark"], [.enclosingMark]),
    (["m", "mark", "combiningmark"], Category.marks),
    (["nd", "decimalnumber", "digit"], [.decimal]), (["nl", "letternumber"], [.letterNumber]),
    (["no", "othernumber"], [.otherNumber]), (["n", "number"], Category.numbers),
    (["pc", "connectorpunctuation"], [.connector]), (["pd", "dashpunctuation"], [.dash]),
    (["ps", "openpunctuation"], [.openMark]), (["pe", "closepunctuation"], [.closeMark]),
    (["pi", "initialpunctuation"], [.initialQuote]), (["pf", "finalpunctuation"], [.finalQuote]),
    (["po", "otherpunctuation"], [.otherPunctuation]),
    (["p", "punctuation", "punct"], Category.punctuation), (["sm", "mathsymbol"], [.mathSymbol]),
    (["sc", "currencysymbol"], [.currency]), (["sk", "modifiersymbol"], [.modifierSymbol]),
    (["so", "othersymbol"], [.otherSymbol]), (["s", "symbol"], Category.symbols),
    (["zs", "spaceseparator"], [.space]), (["zl", "lineseparator"], [.lineSeparator]),
    (["zp", "paragraphseparator"], [.paragraphSeparator]),
    (["z", "separator"], Category.separators), (["cc", "control", "cntrl"], [.control]),
    (["cf", "format"], [.format]), (["co", "privateuse"], [.privateUse]),
    (["cn", "unassigned"], [.unassigned]), (["c", "other"], Category.others)]

open Property in
/-- The properties that a character has or has not, with their names. -/
def propertyNames : List (List String × CharSet) :=
  [(["asciihexdigit", "ahex"], asciiHexDigit), (["hexdigit", "hex"], hexDigit),
    (["whitespace", "wspace", "space"], whiteSpace),
    (["patternwhitespace", "patws"], patternWhiteSpace),
    (["patternsyntax", "patsyn"], patternSyntax), (["bidicontrol", "bidic"], bidiControl),
    (["joincontrol", "joinc"], joinControl),
    (["prependedconcatenationmark", "pcm"], prependedConcatenationMark),
    (["regionalindicator", "ri"], regionalIndicator),
    (["variationselector", "vs"], variationSelector),
    (["noncharactercodepoint", "nchar"], noncharacter), (["deprecated", "dep"], deprecated),
    (["logicalorderexception", "loe"], logicalOrderException), (["softdotted", "sd"], softDotted),
    (["dash"], dash), (["hyphen"], hyphen), (["quotationmark", "qmark"], quotationMark),
    (["sentenceterminal", "sterm"], sentenceTerminal),
    (["terminalpunctuation", "term"], terminalPunctuation), (["diacritic", "dia"], diacritic),
    (["extender", "ext"], extender), (["modifiercombiningmark", "mcm"], modifierCombiningMark),
    (["graphemelink", "grlink"], graphemeLink), (["ideographic", "ideo"], ideographic),
    (["unifiedideograph", "uideo"], unifiedIdeograph), (["radical"], radical),
    (["idsunaryoperator", "idsu"], idsUnaryOperator),
    (["idsbinaryoperator", "idsb"], idsBinaryOperator),
    (["idstrinaryoperator", "idst"], idsTrinaryOperator), (["emoji"], emoji),
    (["emojicomponent", "ecomp"], emojiComponent), (["emojimodifier", "emod"], emojiModifier),
    (["emojimodifierbase", "ebase"], emojiModifierBase),
    (["emojipresentation", "epres"], emojiPresentation),
    (["extendedpictographic", "extpict"], extendedPictographic),
    (["idcompatmathstart"], idCompatMathStart), (["idcompatmathcontinue"], idCompatMathContinue),
    (["otheridstart", "oids"], otherIdStart), (["otheridcontinue", "oidc"], otherIdContinue),
    (["otherdefaultignorablecodepoint", "odi"], otherDefaultIgnorable),
    (["othergraphemeextend", "ogrext"], otherGraphemeExtend),
    (["otherlowercase", "olower"], otherLowercase), (["otheruppercase", "oupper"], otherUppercase),
    (["otheralphabetic", "oalpha"], otherAlphabetic), (["othermath", "omath"], otherMath),
    (["lowercase", "lower"], lowercase), (["uppercase", "upper"], uppercase), (["cased"], cased),
    (["changeswhenlowercased", "cwl"], changesWhenLowercased),
    (["changeswhenuppercased", "cwu"], changesWhenUppercased),
    (["changeswhentitlecased", "cwt"], changesWhenTitlecased),
    (["changeswhencasefolded", "cwcf"], changesWhenCasefolded),
    (["changeswhencasemapped", "cwcm"], changesWhenCasemapped),
    (["caseignorable", "ci"], caseIgnorable), (["alphabetic", "alpha"], alphabetic),
    (["idstart", "ids"], idStart), (["idcontinue", "idc"], idContinue),
    (["xidstart", "xids"], xidStart), (["xidcontinue", "xidc"], xidContinue), (["math"], math),
    (["defaultignorablecodepoint", "di"], defaultIgnorable),
    (["graphemeextend", "grext"], graphemeExtend), (["graphemebase", "grbase"], graphemeBase)]

/-- The entry of a table whose names hold the given one. -/
def findNamed {α : Type} (table : List (List String × α)) (name : String) : Option α :=
  (table.find? fun entry => entry.1.contains name).map Prod.snd

/-- The characters of a category or group of categories. -/
def categoryClass? : String → Option CharSet
  | "any" => some .all
  | "ascii" => some (.read ["0-7F"])
  | "assigned" => some (Category.members [.unassigned]).complement
  | name => (findNamed categoryNames name).map Category.members

/-- The characters of an age or an earlier one. An age is named by its version, with or without its
point. -/
def ageClass? (name : String) : Option CharSet :=
  ((Age.versions.map Prod.fst).find? fun version =>
    name = version || name = "v" ++ String.ofList (version.toList.filter (· != '.'))).bind
      Age.upTo?

/-- The class of a name that stands alone: a property, a category or a script. -/
def namedClass? (name : List Char) : Option CharSet :=
  let name := plainName name
  findNamed propertyNames name <|> categoryClass? name <|> (Script.named? name).map Script.members

/-- The class of a value of a property with values. -/
def valuedClass? (property value : List Char) : Option CharSet :=
  let value := plainName value
  match plainName property with
  | "gc" | "generalcategory" => categoryClass? value
  | "sc" | "script" => (Script.named? value).map Script.members
  | "scx" | "scriptextensions" => (Script.named? value).map Script.extended
  | "age" => ageClass? value
  | "gcb" | "graphemeclusterbreak" => Break.grapheme? value
  | "wb" | "wordbreak" => Break.word? value
  | "sb" | "sentencebreak" => Break.sentence? value
  | _ => none

end BuildPlan.Regex
