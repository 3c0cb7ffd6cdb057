import BuildPlan.Text.Property.Derived
import BuildPlan.Text.Script

/-! # Breaks

Every character has a class by which a text is broken into the units that are seen as one character,
one by which it is broken into words, and one by which it is broken into sentences. The classes are
found by their names in lower case and without underscores. -/

namespace BuildPlan.Text.Break

open Category CharSet Property

/-- The members of the script with a name. -/
def scriptMembers (name : String) : CharSet := ((Script.named? name).map Script.members).getD .empty

def carriageReturn : CharSet := .one '\r'

def lineFeed : CharSet := .one '\n'

def zeroWidthJoiner : CharSet := .one '\u200d'

/-- Quotation marks that close as well as open. -/
def quotes : CharSet :=
  union (members [initialQuote, finalQuote])
    (.read ["22 27 275B-2760 2E00-2E01 2E06-2E08 2E0B 1F676-1F678"])

/-- Digits, and the marks of format that stand before them. -/
def numeric : CharSet :=
  union (members [decimal]) (.read ["66B-66C 600-605 6DD 890-891 8E2 19DA 110BD 110CD"])

/-! ### Characters as they are seen -/

def extend : CharSet := union graphemeExtend emojiModifier

/-- What belongs to the character behind it. -/
def prepend : CharSet :=
  union prependedConcatenationMark
    (.read ["D4E 111C2-111C3 113D1 1193F 11941 11A3A 11A84-11A89 11D46 11F02"])

/-- The marks that take up space, but for those that are broken off. -/
def spacing : CharSet :=
  minus (union (minus (members [spacingMark]) extend) (.read ["E33 EB3"])) (.read
    ["102B 102C 1038 1062-1064 1067-106D 1083 1087-108C 108F 109A-109C 1A61 1A63 1A64 AA7B AA7D",
     "11720 11721"])

def controls : CharSet :=
  minus
    (union (members [lineSeparator, paragraphSeparator, control, format])
      (inter (members [unassigned]) defaultIgnorable))
    (unions [.read ["A D 200C-200D"], prependedConcatenationMark, extend])

/-- The syllables of Hangul without a final consonant. -/
def openSyllables : CharSet :=
  .ofRanges ((List.range 399).map fun i => (0xAC00 + 28 * i, 0xAC00 + 28 * i))

/-- The class of seen characters with a name. -/
def grapheme? : String → Option CharSet
  | "cr" => some carriageReturn
  | "lf" => some lineFeed
  | "control" | "cn" => some controls
  | "extend" | "ex" => some extend
  | "prepend" | "pp" => some prepend
  | "spacingmark" | "sm" => some spacing
  | "regionalindicator" | "ri" => some regionalIndicator
  | "zwj" => some zeroWidthJoiner
  | "l" => some (.read ["1100-115F A960-A97C"])
  | "v" => some (.read ["1160-11A7 D7B0-D7C6 16D63 16D67-16D6A"])
  | "t" => some (.read ["11A8-11FF D7CB-D7FB"])
  | "lv" => some openSyllables
  | "lvt" => some (minus (.read ["AC00-D7A3"]) openSyllables)
  | _ => none

/-! ### Words -/

def wordExtend : CharSet := minus (union extend (members [spacingMark])) zeroWidthJoiner

def katakana : CharSet :=
  union (scriptMembers "katakana") (.read ["3031-3035 309B-309C 30A0 30FC FF70"])

def hebrewLetter : CharSet := inter (scriptMembers "hebrew") (members [otherLetter])

/-- The characters of scripts that are written without blanks between words. -/
def withoutBlanks : CharSet := .read
  ["E01-E3A E40-E4E E81-E82 E84 E86-E8A E8C-EA3 EA5 EA7-EBD EC0-EC4 EC6 EC8-ECE EDC-EDF 1000-103F",
   "1050-108F 109A-109F 1780-17D3 17D7 17DC-17DD 1950-196D 1970-1974 1980-19AB 19B0-19C9 19DA",
   "19DE-19DF 1A20-1A5E 1A60-1A7C 1AA0-1AAD A9E0-A9EF A9FA-A9FE AA60-AAC2 AADB-AADF 11700-1171A",
   "1171D-1172B 1173A-1173B 1173F-11746"]

/-- The letters of words that are separated by blanks. -/
def wordLetter : CharSet :=
  minus
    (union alphabetic (.read
      ["2C2-2C5 2D2-2D7 2DE-2DF 2E5-2EB 2ED 2EF-2FF 55A-55C 55E 58A 5F3 70F A708-A716 A720-A721",
       "A789-A78A AB5B"]))
    (unions [ideographic, katakana, withoutBlanks, scriptMembers "hiragana", wordExtend,
      hebrewLetter])

def wordNumeric : CharSet := minus numeric (.read ["66C"])

/-- The marks of format within words. -/
def wordFormat : CharSet :=
  minus (members [format])
    (unions [.read ["70F 200B-200D"], wordExtend, wordNumeric])

/-- The class of words with a name. -/
def word? : String → Option CharSet
  | "cr" => some carriageReturn
  | "lf" => some lineFeed
  | "newline" | "nl" => some (.read ["B-C 85 2028-2029"])
  | "zwj" => some zeroWidthJoiner
  | "extend" => some wordExtend
  | "format" | "fo" => some wordFormat
  | "regionalindicator" | "ri" => some regionalIndicator
  | "katakana" | "ka" => some katakana
  | "hebrewletter" | "hl" => some hebrewLetter
  | "aletter" | "le" => some wordLetter
  | "singlequote" | "sq" => some (.one '\x27')
  | "doublequote" | "dq" => some (.one '"')
  | "midnumlet" | "mb" => some (.read ["2E 2018-2019 2024 FE52 FF07 FF0E"])
  | "midletter" | "ml" => some (.read ["3A B7 387 55F 5F4 2027 FE13 FE55 FF1A"])
  | "midnum" | "mn" =>
    some (.read ["2C 3B 37E 589 60C-60D 66C 7F8 2044 FE10 FE14 FE50 FE54 FF0C FF1B"])
  | "numeric" | "nu" => some wordNumeric
  | "extendnumlet" | "ex" => some (union (members [connector]) (.read ["202F"]))
  | "wsegspace" => some (.read ["20 1680 2000-2006 2008-200A 205F 3000"])
  | _ => none

/-! ### Sentences -/

def sentenceExtend : CharSet := unions [graphemeExtend, members [spacingMark], zeroWidthJoiner]

/-- Lower case, without the letters of Georgian, which has one case in sentences. -/
def sentenceLower : CharSet := minus lowercase (union graphemeExtend (.read ["10D0-10FA 10FD-10FF"]))

/-- Upper case and titles, without the letters of Georgian. -/
def sentenceUpper : CharSet :=
  minus (union uppercase (members [title])) (.read ["1C90-1CBA 1CBD-1CBF"])

/-- Full stops, which may stand within numbers and abbreviations too. -/
def fullStop : CharSet := .read ["2E 2024 FE52 FF0E"]

/-- Marks that end a sentence for certain. -/
def sentenceEnd : CharSet := minus sentenceTerminal fullStop

/-- The class of sentences with a name. -/
def sentence? : String → Option CharSet
  | "cr" => some carriageReturn
  | "lf" => some lineFeed
  | "sep" | "se" => some (.read ["85 2028-2029"])
  | "extend" | "ex" => some sentenceExtend
  | "format" | "fo" =>
    some (minus (members [format]) (unions [sentenceExtend, numeric, .read ["200C-200D"]]))
  | "sp" => some (minus whiteSpace (.read ["A D 85 2028-2029"]))
  | "lower" | "lo" => some sentenceLower
  | "upper" | "up" => some sentenceUpper
  | "oletter" | "le" =>
    some (minus (union alphabetic (.read ["5F3"]))
      (unions [sentenceLower, sentenceUpper, sentenceExtend]))
  | "numeric" | "nu" => some numeric
  | "aterm" | "at" => some fullStop
  | "sterm" | "st" => some sentenceEnd
  | "scontinue" | "sc" =>
    some (.read
      ["2C-2D 3A-3B 37E 55D 60C-60D 7F8 1802 1808 2013-2014 3001 FE10-FE11 FE13-FE14 FE31-FE32",
       "FE50-FE51 FE54-FE55 FE58 FE63 FF0C-FF0D FF1A-FF1B FF64"])
  | "close" | "cl" =>
    some (minus (union (members [openMark, closeMark]) quotes) (unions [fullStop, sentenceEnd]))
  | _ => none

end BuildPlan.Text.Break
