/-!
# Character properties beyond ASCII

Identifiers, case tests and trimming follow the Unicode character database, not only its first
128 code points.  A property is given here by two parts: a rule for the ASCII characters, which is
what nearly every character of a script meets and what proofs unfold, and a table of ranges for
the rest.

## The properties

* `isUppercase`, `isLowercase`: the derived properties of those names, so `Ⅷ` and `Ⓑ` are
  uppercase while a titlecase letter such as `ǅ` is neither;
* `isCased`: uppercase, lowercase or titlecase;
* `isCaseIgnorable`: characters that a word may hold between its cased letters;
* `isAlphanumeric`: alphabetic, or of one of the three number categories;
* `isBlank`: the white space property.
-/

namespace SqlDialect.Text

/-- Code points `first`, `first + step`, … up to `last`. Alphabets that interleave the two cases of
a letter are rows of step two. -/
structure Stride where
  first : Nat
  last : Nat
  step : Nat

/-- Strides from `start` on, each as the code points left out before it, those after its first and
its step. -/
def strides : Nat → List Nat → List Stride
  | start, gap :: more :: step :: rest =>
    ⟨start + gap, start + gap + more * step, step⟩ :: strides (start + gap + more * step + 1) rest
  | _, _ => []

/-- Whether a code point lies on the stride. -/
def Stride.contains (s : Stride) (n : Nat) : Bool :=
  s.first ≤ n && n ≤ s.last && (n - s.first) % s.step == 0

/-- Whether a code point lies in one of the closed ranges of a table. -/
def inRanges (table : List (Nat × Nat)) (n : Nat) : Bool :=
  table.any fun range => range.1 ≤ n && n ≤ range.2

/-- The closed ranges of a property whose code points from `start` on are counted: so many lack
it, so many have it, and so on in turn. -/
def runs : Nat → List Nat → List (Nat × Nat)
  | start, lack :: hold :: rest =>
    (start + lack, start + lack + hold - 1) :: runs (start + lack + hold) rest
  | _, _ => []

/-- The code points below which the ASCII rule of a property decides. -/
def isAscii (c : Char) : Bool :=
  c.toNat < 128

/-! ## Case -/

/-- Uppercase code points beyond ASCII. -/
def uppercaseTable : List Stride :=
  strides 128
    [64,22,1,1,6,1,33,27,2,2,7,2,2,23,2,0,2,2,3,1,1,1,0,1,1,1,1,1,2,1,2,3,1,1,1,1,1,2,1,3,1,1,1,1,
     1,1,2,2,0,0,1,1,0,1,2,0,1,1,1,1,1,2,1,1,0,1,1,1,1,3,0,1,7,0,1,2,0,1,2,0,1,2,7,2,2,8,2,2,0,1,
     2,0,1,1,2,1,1,28,2,7,1,1,1,1,1,2,0,1,1,3,1,1,3,2,289,0,1,1,0,1,3,0,1,8,0,1,6,0,1,1,2,1,1,0,1,
     1,1,1,1,16,1,1,8,1,35,0,1,2,2,1,3,11,2,5,0,1,2,0,1,1,1,1,2,50,1,48,16,2,9,27,2,0,6,2,2,47,2,
     2,37,1,2889,37,1,1,0,1,5,0,1,722,85,1,2195,0,1,6,42,1,2,2,1,320,74,2,9,48,2,9,7,1,8,5,1,10,7,
     1,8,7,1,8,5,1,11,3,2,8,7,1,72,3,1,12,3,1,12,3,1,12,4,1,11,3,1,262,0,1,4,0,1,3,2,1,2,2,1,2,0,
     1,3,4,1,6,3,2,0,2,1,2,3,1,10,1,1,5,0,1,26,15,1,19,0,1,818,25,1,1840,47,1,48,0,1,1,2,1,2,3,2,
     0,2,1,1,0,1,2,0,1,8,2,1,1,48,2,8,0,1,1,0,1,4,0,1,31053,22,2,19,13,2,135,6,2,3,30,2,10,2,2,0,
     4,2,4,0,1,1,0,1,2,0,1,1,0,1,3,10,2,0,3,1,1,4,1,1,7,2,0,2,1,1,0,1,1,1,1,1,7,2,24,0,1,22315,25,
     1,1221,39,1,136,35,1,156,10,1,1,14,1,1,6,1,1,1,1,1770,50,1,157,21,1,2874,31,1,21888,31,1,64,
     24,1,25927,25,1,26,25,1,26,25,1,26,0,1,1,1,1,2,0,1,2,1,1,2,3,1,1,7,1,26,25,1,26,1,1,1,3,1,2,
     7,1,1,6,1,27,1,1,1,3,1,1,4,1,1,0,1,3,6,1,27,25,1,26,25,1,26,25,1,26,25,1,26,25,1,26,25,1,30,
     24,1,33,24,1,33,24,1,33,24,1,33,24,1,33,0,1,4405,33,1,2062,25,1,6,25,1,6,25,1]

/-- The uppercase property. -/
def isUppercase (c : Char) : Bool :=
  if isAscii c then c.isUpper else uppercaseTable.any (·.contains c.toNat)

/-- Lowercase code points beyond ASCII. -/
def lowercaseTable : List Stride :=
  strides 128
    [42,0,1,10,0,1,4,0,1,36,23,1,1,7,1,1,27,2,0,8,2,0,23,2,2,2,2,0,1,1,2,0,1,1,0,1,2,0,1,3,1,1,4,
     0,1,2,0,1,3,2,1,2,0,1,2,2,2,2,0,1,1,1,1,1,0,1,2,0,1,3,0,1,1,0,1,2,1,1,2,2,1,6,0,1,2,0,1,2,8,
     2,0,9,2,0,0,1,2,0,1,1,0,1,3,29,2,0,5,1,2,0,1,2,1,1,1,0,1,4,4,2,0,67,1,2,34,1,7,1,1,30,4,1,96,
     0,1,43,0,1,1,0,1,3,0,1,2,3,1,18,0,1,27,34,1,1,1,1,3,2,1,1,11,2,0,3,1,1,0,1,2,0,1,2,1,1,51,47,
     1,1,16,2,9,26,2,2,6,2,0,48,2,48,40,1,2887,42,1,1,3,1,760,5,1,2178,8,1,1,0,1,117,191,1,65,74,
     2,0,7,1,1,48,2,0,7,1,8,5,1,10,7,1,8,7,1,8,5,1,10,7,1,8,7,1,8,13,1,2,7,1,8,7,1,8,7,1,8,4,1,1,
     1,1,6,0,1,3,2,1,1,1,1,8,3,1,2,1,1,8,7,1,10,2,1,1,1,1,121,0,1,13,0,1,16,12,1,109,0,1,3,1,1,3,
     0,1,27,0,1,4,0,1,4,0,1,2,1,1,8,3,1,4,0,1,33,15,1,4,0,1,843,25,1,1862,47,1,1,0,1,3,1,1,1,2,2,
     4,0,1,1,1,1,1,7,1,3,49,2,0,0,1,7,0,1,1,0,1,4,0,1,12,37,1,1,0,1,5,0,1,30995,22,2,19,13,2,0,1,
     1,133,6,2,0,1,1,1,30,2,0,8,1,1,0,1,1,0,1,2,4,2,4,0,1,1,0,1,2,0,1,1,2,1,1,9,2,5,0,1,5,7,2,4,0,
     1,1,0,1,2,7,2,21,3,1,1,0,1,1,2,1,821,42,1,1,13,1,6,79,1,20288,6,1,12,4,1,1065,25,1,1229,39,1,
     136,35,1,155,10,1,1,14,1,1,6,1,1,1,1,451,0,1,2,2,1,1,41,1,1,8,1,1285,50,1,125,21,1,2874,31,1,
     21888,31,1,59,24,1,25926,25,1,26,6,1,1,17,1,26,25,1,26,3,1,1,0,1,1,6,1,1,10,1,26,25,1,26,25,
     1,26,25,1,26,25,1,26,25,1,26,25,1,26,25,1,26,25,1,26,27,1,28,24,1,1,5,1,26,24,1,1,5,1,26,24,
     1,1,5,1,26,24,1,1,5,1,26,24,1,1,5,1,1,0,1,1844,9,1,1,19,1,6,5,1,261,61,1,2228,33,1]

/-- The lowercase property. -/
def isLowercase (c : Char) : Bool :=
  if isAscii c then c.isLower else lowercaseTable.any (·.contains c.toNat)

/-- Titlecase letters: digraphs written with only their first half in upper case. -/
def titlecaseTable : List (Nat × Nat) :=
  [(0x01C5, 0x01C5), (0x01C8, 0x01C8), (0x01CB, 0x01CB), (0x01F2, 0x01F2), (0x1F88, 0x1F8F),
    (0x1F98, 0x1F9F), (0x1FA8, 0x1FAF), (0x1FBC, 0x1FBC), (0x1FCC, 0x1FCC), (0x1FFC, 0x1FFC)]

/-- The cased property: a letter that takes part in case distinctions. -/
def isCased (c : Char) : Bool :=
  isUppercase c || isLowercase c || inRanges titlecaseTable c.toNat

/-- Code points beyond ASCII that are ignored when looking for the cased letters around a place. -/
def caseIgnorableTable : List (Nat × Nat) :=
  runs 128
    [40,1,4,1,1,1,4,1,2,2,503,192,4,2,4,1,9,2,1,1,251,7,207,1,5,1,49,45,1,1,1,2,1,2,1,1,44,1,11,6,
     10,11,1,1,35,1,10,21,16,1,101,8,1,10,1,4,33,1,1,1,30,27,91,11,58,11,4,1,2,1,24,24,43,3,44,1,
     7,2,5,9,41,58,55,1,1,1,4,8,4,1,3,7,10,2,13,1,15,1,58,1,4,4,8,1,20,2,26,1,2,2,57,1,4,2,4,2,2,
     3,3,1,30,2,3,1,11,2,57,1,4,5,1,2,4,1,20,2,22,6,1,1,58,1,2,1,1,4,8,1,7,2,11,2,30,1,61,1,12,1,
     50,1,3,1,55,1,1,3,5,3,1,4,7,2,11,2,29,1,58,1,2,1,6,1,5,2,20,2,28,2,57,2,4,4,8,1,20,2,29,1,72,
     1,7,3,1,1,90,1,2,7,11,9,98,1,2,9,9,1,1,7,73,2,27,1,1,1,1,1,55,14,1,5,1,2,5,11,1,36,9,1,102,4,
     1,6,1,2,2,2,25,2,4,3,16,4,13,1,2,2,6,1,15,1,94,1,608,3,946,3,29,2,30,2,30,2,64,2,1,7,8,1,2,
     11,3,1,5,1,45,5,51,1,65,2,34,1,118,3,4,2,9,1,6,3,219,2,2,1,58,1,1,7,1,1,1,1,2,8,6,10,2,1,39,
     1,8,46,2,12,20,4,48,1,1,5,1,1,5,1,40,9,12,2,32,4,2,2,1,3,56,1,1,2,3,1,1,3,58,8,2,2,64,6,82,3,
     1,13,1,7,4,1,6,1,3,2,50,63,13,1,34,101,445,1,1,3,11,3,13,3,13,3,13,2,12,5,8,2,10,1,2,1,2,5,
     49,5,1,10,1,1,13,1,16,13,51,33,2955,2,113,3,125,1,15,1,96,32,47,1,469,1,36,4,3,5,5,1,93,6,93,
     3,28438,1,1250,6,270,1,98,4,1,10,1,1,28,4,80,2,14,34,78,1,23,3,102,4,3,2,8,1,3,1,4,1,25,2,5,
     1,151,2,26,18,13,1,38,8,25,11,46,3,48,1,2,4,2,2,17,1,21,2,66,6,2,2,2,2,12,1,8,1,35,1,11,1,51,
     1,1,3,2,2,5,2,1,1,27,1,14,2,5,2,1,1,100,5,9,3,121,1,2,1,4,1,20272,1,147,17,573,16,3,1,12,16,
     34,1,2,1,169,1,7,1,6,1,11,1,35,1,1,1,47,1,45,2,67,1,21,3,513,1,226,1,149,5,1029,6,1,42,1,9,
     582,3,1,2,5,4,40,3,4,1,165,2,573,4,38,1,26,5,1,1,315,2,24,1,52,6,70,11,49,4,123,1,54,15,41,1,
     2,2,10,3,49,4,2,2,2,1,4,1,10,1,50,3,36,5,1,8,62,1,12,2,52,9,10,4,2,1,95,3,2,1,1,2,6,1,2,1,
     157,1,3,8,21,2,57,2,3,1,37,7,3,5,70,6,13,1,1,1,1,1,14,2,85,8,2,3,1,1,23,1,84,6,1,1,4,2,1,2,
     238,4,6,2,1,2,27,2,85,8,2,1,1,2,106,1,1,1,2,6,1,1,101,1,1,1,2,4,1,5,259,9,1,2,256,2,1,1,4,1,
     144,4,2,2,4,1,32,10,40,6,2,4,8,1,9,6,2,3,46,13,1,2,198,1,1,3,1,1,201,7,1,6,1,1,82,22,2,7,1,2,
     1,2,122,6,3,1,1,2,1,7,1,1,72,2,3,1,1,1,65,1,281,2,11,2,52,5,5,1,1,1,23,1,5333,17,6,15,11464,
     12,3,3,2496,5,59,7,9,4,508,3,40,2,482,1,63,17,64,2,1,2,13,2,16380,4,1,7,1,2,3230,2,1,4,4700,
     46,2,23,544,3,9,16,2,7,30,4,148,3,1979,55,4,50,8,1,14,1,22,5,1,15,1360,7,1,17,2,7,1,2,1,5,5,
     62,33,1,160,14,368,1,61,4,507,5,254,2,243,1,2,1,7,2,5,1,9,1,464,7,109,8,2735,5,789505,1,30,
     96,128,240]

/-- The case-ignorable property. Among the ASCII characters it holds of the apostrophe, the full
stop, the colon, the circumflex and the grave accent. -/
def isCaseIgnorable (c : Char) : Bool :=
  if isAscii c then c.toNat ∈ [0x27, 0x2E, 0x3A, 0x5E, 0x60]
  else inRanges caseIgnorableTable c.toNat

/-! ## Letters, numbers and blanks -/

/-- Alphabetic and numeric code points beyond ASCII. -/
def alphanumericTable : List (Nat × Nat) :=
  runs 128
    [42,1,7,2,1,1,3,2,1,3,1,23,1,31,1,458,4,12,14,5,7,1,1,1,86,1,29,18,1,2,2,4,1,1,6,1,1,3,1,1,1,
     20,1,83,1,139,8,166,1,38,2,1,6,41,39,14,1,1,1,2,1,2,1,1,8,27,4,4,29,11,5,56,1,17,4,102,1,8,4,
     8,4,16,2,1,16,48,13,101,14,43,9,2,4,1,5,24,2,19,19,25,7,11,5,24,1,7,7,1,8,42,10,12,3,7,6,76,
     1,16,1,3,4,15,2,10,1,19,1,8,2,2,2,22,1,7,1,1,3,4,3,8,2,2,2,2,1,1,8,1,4,2,1,5,2,12,2,6,2,1,4,
     3,1,6,4,2,2,22,1,7,1,2,1,2,1,2,4,5,4,2,2,2,4,1,7,4,1,1,7,16,11,3,1,9,1,3,1,22,1,7,1,2,1,5,3,
     9,1,3,1,2,3,1,15,4,2,10,9,4,4,3,1,8,2,2,2,22,1,7,1,2,1,5,3,8,2,2,2,2,9,2,4,2,1,5,2,10,1,7,10,
     2,1,6,3,3,1,4,3,2,1,1,1,2,3,2,3,3,3,12,4,5,3,3,1,3,3,1,6,1,14,13,13,13,1,3,1,23,1,16,3,8,1,3,
     1,3,8,2,1,3,1,2,2,4,2,10,8,7,1,4,1,8,1,3,1,23,1,10,1,5,3,8,1,3,1,3,8,2,5,3,1,4,2,10,1,3,12,
     13,1,3,1,41,2,8,1,3,1,3,1,1,5,16,2,19,1,6,1,3,1,18,3,24,1,9,1,1,2,7,8,6,1,1,1,8,6,10,2,2,13,
     58,5,7,6,1,2,10,39,2,1,1,1,5,1,24,1,1,1,19,1,3,2,5,1,1,6,1,2,10,2,4,32,1,31,20,12,8,1,36,4,
     19,4,16,1,36,67,55,1,1,2,15,6,78,2,38,1,1,5,1,2,43,1,333,1,4,2,7,1,1,1,4,2,41,1,4,2,33,1,4,2,
     7,1,1,1,4,2,15,1,57,1,4,2,67,14,20,3,16,16,86,2,6,3,620,2,17,1,26,5,75,3,11,7,20,11,21,12,20,
     12,13,1,3,1,2,12,52,2,19,14,1,4,1,3,10,6,10,22,10,6,89,7,43,5,70,10,31,1,12,4,9,13,40,2,5,11,
     44,4,26,6,11,37,28,4,63,2,20,11,10,6,10,13,1,23,2,11,3,49,52,1,15,1,8,3,10,38,42,2,58,1,11,
     14,55,9,10,3,49,2,11,5,43,2,3,41,4,1,6,1,2,3,1,5,192,19,34,11,278,2,6,2,38,2,6,2,8,1,1,1,1,1,
     1,1,31,2,53,1,7,1,1,3,3,1,7,3,4,2,6,4,13,5,3,1,7,115,2,2,6,5,11,6,13,101,1,4,1,2,10,1,1,3,5,
     6,1,1,1,1,1,1,4,1,11,2,4,5,5,4,1,1,58,726,60,26,74,630,30,1132,229,6,4,3,2,9,1,2,38,1,1,5,1,
     2,56,7,1,16,23,9,7,1,7,1,7,1,7,1,7,1,7,1,7,1,7,1,32,47,1,469,3,25,9,7,5,2,5,4,86,6,3,1,90,1,
     4,5,43,1,94,3,4,10,32,48,16,32,10,30,8,1,15,32,10,39,15,320,6592,64,22157,67,46,2,269,3,28,
     20,47,5,8,3,113,39,9,2,103,2,82,20,21,1,33,8,6,10,52,12,68,1,1,10,10,24,6,3,1,1,46,5,35,13,
     29,3,51,1,12,15,11,6,31,1,55,9,14,2,10,6,23,3,69,1,1,1,1,24,3,2,16,2,4,11,6,2,6,2,6,9,7,1,7,
     1,43,1,14,6,123,5,10,6,11172,12,23,4,49,8452,366,2,106,38,7,12,5,5,12,1,13,1,5,1,1,1,2,1,2,1,
     108,33,363,18,64,2,54,40,12,116,5,1,135,19,10,7,26,6,26,11,89,3,6,2,6,2,6,2,3,35,12,1,26,1,
     19,1,2,1,15,2,14,34,123,12,45,12,57,17,2,244,29,3,49,16,27,4,36,9,30,5,43,5,30,2,36,4,8,1,5,
     42,158,2,10,6,36,4,36,4,40,8,52,12,11,1,15,1,7,1,2,1,11,1,15,1,7,1,2,3,52,12,311,9,22,10,8,
     24,6,1,42,1,9,69,6,2,1,1,44,1,2,3,1,2,23,2,31,2,38,8,9,48,19,1,2,5,33,4,26,6,26,38,56,4,20,2,
     50,1,2,5,8,1,3,1,29,10,9,23,31,1,32,32,8,1,28,6,5,16,54,10,22,2,27,5,26,23,7,80,73,55,51,13,
     51,7,46,8,10,6,38,3,1,5,23,218,31,1,42,1,2,3,2,16,6,50,3,3,40,8,22,11,4,27,18,46,28,20,23,9,
     70,12,30,1,5,10,57,9,1,13,25,7,10,6,51,3,10,4,4,8,35,3,1,9,64,1,4,9,13,1,1,4,20,11,18,1,34,2,
     1,6,4,62,7,1,1,1,4,1,15,1,10,7,57,7,10,6,4,1,8,2,2,2,22,1,7,1,2,1,5,3,8,2,2,2,2,3,1,6,1,5,7,
     28,10,1,1,2,1,1,38,1,10,1,1,2,1,1,4,1,2,3,1,1,1,44,66,1,3,1,4,5,10,5,3,30,66,2,2,1,1,8,10,
     166,54,2,7,25,6,34,63,1,1,3,1,11,10,38,54,2,1,7,10,6,20,28,27,2,14,5,12,4,7,185,57,103,83,12,
     8,2,1,2,8,1,2,1,30,1,2,2,2,2,4,13,10,70,8,2,46,2,6,1,1,1,2,27,51,2,10,17,72,5,1,18,73,103,8,
     88,33,15,10,6,9,1,45,1,7,1,1,15,29,5,30,2,22,1,14,73,7,1,2,1,44,3,1,1,2,1,3,1,1,2,2,8,10,6,6,
     1,2,1,37,1,2,1,4,1,1,7,10,6,44,4,10,246,23,9,17,1,41,3,3,15,10,86,1,15,21,43,922,102,111,17,
     196,2636,97,15,1072,17,6,25,3995,5,583,6841,47,1,10,1734,569,7,31,1,10,6,79,1,10,6,30,18,48,
     16,4,12,10,1,7,1,21,5,19,432,45,3,10,198,87,9,25,2,25,44,75,4,57,7,17,64,2,1,1,12,7,9,7382,
     41,32,97,115,8701,4,1,7,1,2,1,291,15,1,29,3,2,1,14,4,8,396,2308,107,5,13,3,9,7,10,4,1,4177,
     10,1478,20,12,20,108,25,135,85,1,71,1,2,2,1,2,2,2,4,1,12,1,1,1,7,1,65,1,4,2,8,1,7,1,28,1,4,1,
     5,1,1,3,7,1,340,2,25,1,25,1,31,1,25,1,31,1,25,1,31,1,25,1,31,1,25,1,8,2,50,1792,31,6,6,213,7,
     1,17,2,7,1,2,1,5,5,62,33,1,112,45,10,7,2,10,4,1,321,30,18,44,4,10,470,28,4,10,214,30,2,11,
     197,31,1,22,8,2,224,7,1,4,1,2,1,15,1,197,2,9,48,68,3,1,3,1,4,10,791,59,1,3,1,4,76,45,1,15,
     194,4,1,27,1,2,1,1,2,1,1,10,1,4,1,1,1,1,6,1,4,1,1,1,1,1,1,3,1,2,1,1,2,1,1,1,1,1,1,1,1,1,1,2,
     1,1,2,4,1,7,1,4,1,4,1,1,1,10,1,17,5,3,1,5,1,17,580,13,35,26,6,26,6,26,2662,10,1030,42720,32,
     4382,2,5774,2,7473,15,622,2466,542,1506,4939,5,8490]

/-- Alphabetic, or a decimal digit, a letter number or another number. -/
def isAlphanumeric (c : Char) : Bool :=
  if isAscii c then c.isAlphanum else inRanges alphanumericTable c.toNat

/-- White space code points beyond ASCII. -/
def blankTable : List (Nat × Nat) :=
  [(0x0085, 0x0085), (0x00A0, 0x00A0), (0x1680, 0x1680), (0x2000, 0x200A), (0x2028, 0x2029),
    (0x202F, 0x202F), (0x205F, 0x205F), (0x3000, 0x3000)]

/-- The white space property. Among the ASCII characters it holds of the space and of the five
controls from the tabulator to the carriage return. -/
def isBlank (c : Char) : Bool :=
  if isAscii c then c == ' ' || (9 ≤ c.toNat && c.toNat ≤ 13) else inRanges blankTable c.toNat

/-- The text without the blanks at its two ends. -/
def trim (cs : List Char) : List Char :=
  ((cs.dropWhile isBlank).reverse.dropWhile isBlank).reverse

/-- Whether the text holds nothing but blanks. -/
def isBlankText (text : String) : Bool :=
  text.toList.all isBlank

/-- Whether the first character of the text is the given one. -/
def startsWith (text : String) (c : Char) : Bool :=
  text.toList.head? == some c

end SqlDialect.Text
