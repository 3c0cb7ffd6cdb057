import BuildPlan.Text.Category
import BuildPlan.Text.Folding
import BuildPlan.Text.Property.Listed

/-! # Derived properties

The properties of characters that the character standard derives from the general categories, the
folding of case and the listed properties. -/

namespace BuildPlan.Text.Property

open Category CharSet

/-! ### Case -/

def lowercase : CharSet := union (members [lower]) otherLowercase

def uppercase : CharSet := union (members [upper]) otherUppercase

/-- The letters that have a case, and the symbols like them. -/
def cased : CharSet := unions [lowercase, uppercase, members [title]]

/-- The letters whose decomposition has a form in the other case of several letters only. -/
def severalLettersWide : CharSet := .read
  ["149 1F0 587 1E96-1E9A 1F50 1F52 1F54 1F56 1FB2 1FB4 1FB6-1FB7 1FC2 1FC4 1FC6-1FC7 1FD2",
   "1FD6-1FD7 1FE2 1FE4 1FE6-1FE7 1FF2 1FF4 1FF6-1FF7 FB00-FB04 FB13-FB17"]

/-- What becomes something else in lower case. The capitals of Cherokee fold to themselves. -/
def changesWhenLowercased : CharSet :=
  union (minus foldable (members [lower, nonspacingMark])) (.read ["130 13A0-13F5"])

/-- What becomes something else in upper case. -/
def changesWhenUppercased : CharSet :=
  unions [minus CharSet.cased uppercase, severalLettersWide, .read ["131"]]

/-- What becomes something else at the start of a title. The letters of Georgian do not. -/
def changesWhenTitlecased : CharSet :=
  unions [minus (minus CharSet.cased (union uppercase (members [title]))) (.read ["10D0-10FF"]),
    severalLettersWide, .read ["131 1C4 1C7 1CA 1F1"]]

/-- What folds to something else, to several letters too. -/
def changesWhenCasefolded : CharSet :=
  union (minus foldable (.read ["1FBE 1FD3 1FE3"])) (.read
    ["DF 130 149 587 1E9A 1F80-1F87 1F90-1F97 1FA0-1FA7 1FB2-1FB4 1FB7 1FC2-1FC4 1FC7 1FF2-1FF4",
     "1FF7 FB00-FB04 FB06 FB13-FB17"])

def changesWhenCasemapped : CharSet :=
  unions [changesWhenLowercased, changesWhenUppercased, changesWhenTitlecased]

/-- Characters within words that do not count when case is judged by neighbours. -/
def caseIgnorable : CharSet :=
  union (members [nonspacingMark, enclosingMark, format, modifierLetter, modifierSymbol])
    (.read ["27 2E 3A B7 387 55F 5F4 2018-2019 2024 2027 FE13 FE52 FE55 FF07 FF0E FF1A"])

/-! ### Words and identifiers -/

/-- Letters and what else makes words. -/
def alphabetic : CharSet :=
  unions [members (letters ++ [letterNumber]), lowercase, uppercase, otherAlphabetic]

/-- The characters of words: alphabetic ones, marks, decimal digits, connectors, and the two controls
of joining. -/
def word : CharSet := unions [alphabetic, members (marks ++ [decimal, connector]), joinControl]

def idStart : CharSet :=
  minus (union (members (letters ++ [letterNumber])) otherIdStart)
    (union patternSyntax patternWhiteSpace)

def idContinue : CharSet :=
  minus (unions [idStart, members [nonspacingMark, spacingMark, decimal, connector],
    otherIdContinue]) (union patternSyntax patternWhiteSpace)

/-- What starts or goes on with an identifier, but decomposes to what does not. -/
def decomposedOutside : CharSet := .read
  ["37A 309B-309C FC5E-FC63 FDFA-FDFB FE70 FE72 FE74 FE76 FE78 FE7A FE7C FE7E"]

/-- What starts identifiers and still does when it is decomposed. -/
def xidStart : CharSet :=
  minus idStart (union decomposedOutside (.read ["E33 EB3 FF9E-FF9F"]))

/-- What goes on with identifiers and still does when it is decomposed. -/
def xidContinue : CharSet := minus idContinue decomposedOutside

def idCompatMathContinue : CharSet := union idCompatMathStart idCompatMathDigit

/-! ### Display -/

def math : CharSet := union (members [mathSymbol]) otherMath

/-- What is not shown where it is not supported. -/
def defaultIgnorable : CharSet :=
  minus (unions [otherDefaultIgnorable, members [format], variationSelector])
    (unions [whiteSpace, .read ["FFF9-FFFB 13430-13440"], prependedConcatenationMark])

/-- What extends the character before it. -/
def graphemeExtend : CharSet := union (members [nonspacingMark, enclosingMark]) otherGraphemeExtend

/-- What others extend. -/
def graphemeBase : CharSet :=
  minus (complement (members (others ++ [lineSeparator, paragraphSeparator]))) graphemeExtend

end BuildPlan.Text.Property
