import SqlDialect.Text.Property

/-!
# Lower case

Two ways of writing a text in lower case are needed, and they differ.  `lowerChar` maps a character
on its own; it is what identifiers are folded with.  `lowercase` maps a whole text and looks at the
surroundings of a capital sigma, which is written `ς` at the end of a word and `σ` elsewhere; it is
what names are compared and derived with.

Comparison of keywords uses neither: `sameWord` ignores the case of ASCII letters only.
-/

namespace SqlDialect.Text

/-- Whether two words are equal up to the case of their ASCII letters. -/
def sameWord (a b : String) : Bool :=
  a.toLower == b.toLower

/-- Rows of letters beyond ASCII with a lower case form, each with the form of its first letter;
the forms of the others follow at the same distances. -/
def lowerTable : List (Stride × Nat) :=
  (strides 128
    [64,22,1,1,6,1,33,23,2,3,2,2,2,7,2,2,22,2,1,0,1,0,2,2,3,0,1,0,1,2,1,0,1,0,0,1,1,1,1,0,0,1,2,0,
     1,0,0,1,0,0,1,0,0,1,1,0,1,0,0,1,1,0,1,0,0,1,0,0,1,3,0,1,0,0,1,1,0,1,0,2,2,1,0,1,0,0,1,1,0,1,
     2,0,1,1,0,1,0,0,1,1,1,1,0,1,2,1,0,1,0,0,1,3,0,1,7,0,1,0,0,1,1,0,1,0,0,1,1,0,1,0,8,2,2,8,2,2,
     0,1,0,1,2,1,0,1,0,0,1,0,19,2,1,0,1,1,8,2,7,0,1,0,0,1,1,0,1,0,0,1,2,0,1,1,0,1,0,0,1,0,0,1,0,4,
     2,289,1,2,3,0,1,8,0,1,6,0,1,1,2,1,1,0,1,1,1,1,1,16,1,1,8,1,35,0,1,8,11,2,5,0,1,2,0,1,1,0,1,0,
     0,1,2,2,1,0,15,1,0,31,1,48,16,2,9,26,2,1,0,1,0,6,2,2,47,2,2,37,1,2889,37,1,1,0,1,5,0,1,722,
     79,1,0,5,1,2195,0,1,6,42,1,2,2,1,320,74,2,9,0,1,1,47,2,9,7,1,8,5,1,10,7,1,8,7,1,8,5,1,11,3,2,
     8,7,1,24,7,1,8,7,1,8,7,1,8,1,1,0,1,1,0,0,1,11,3,1,0,0,1,11,1,1,0,1,1,12,1,1,0,1,1,0,0,1,11,1,
     1,0,1,1,0,0,1,297,0,1,3,0,1,0,0,1,6,0,1,45,15,1,19,0,1,818,25,1,1840,47,1,48,0,1,1,0,1,0,0,1,
     0,0,1,2,2,2,1,0,1,0,0,1,0,0,1,0,0,1,1,0,1,2,0,1,8,1,1,0,49,2,8,1,2,4,0,1,31053,22,2,19,13,2,
     135,6,2,3,30,2,10,1,2,1,0,1,0,4,2,4,0,1,1,0,1,2,1,2,3,9,2,1,0,1,0,0,1,0,0,1,0,0,1,0,0,1,1,0,
     1,0,0,1,0,0,1,0,0,1,0,7,2,1,0,1,0,0,1,0,0,1,0,1,2,1,0,1,0,7,2,1,0,1,24,0,1,22315,25,1,1221,
     39,1,136,35,1,156,10,1,1,14,1,1,6,1,1,1,1,1770,50,1,157,21,1,2874,31,1,21888,31,1,64,24,1,
     31303,33,1]).zip
    [224,248,257,307,314,331,255,378,595,387,596,392,598,396,477,601,603,402,608,611,617,616,409,
     623,626,629,417,640,424,643,429,648,432,650,436,658,441,445,454,454,457,457,460,460,479,499,
     499,405,447,505,414,547,11365,572,410,11366,578,384,649,652,583,881,887,1011,940,941,972,973,
     945,963,983,985,952,1016,1010,1019,891,1104,1072,1121,1163,1231,1218,1233,1377,11520,11559,
     11565,43888,5112,7306,4304,4349,7681,223,7841,7936,7952,7968,7984,8000,8017,8032,8064,8080,
     8096,8112,8048,8115,8050,8131,8144,8054,8160,8058,8165,8056,8060,8179,969,107,229,8526,8560,
     8580,9424,11312,11361,619,7549,637,11368,593,625,592,594,11379,11382,575,11393,11500,11507,
     42561,42625,42787,42803,42874,7545,42879,42892,613,42897,42903,614,604,609,620,618,670,647,
     669,43859,42933,42900,642,7566,42952,612,42957,411,42998,65345,66600,66776,66967,66979,66995,
     67003,68800,68976,71872,93792,93883,125218]

/-- The lower case forms of a character. Only the capital I with a dot above has more than one
character: it keeps its dot as a combining mark. -/
def lowerChar (c : Char) : List Char :=
  if isAscii c then [c.toLower]
  else if c.toNat == 0x0130 then ['i', Char.ofNat 0x0307]
  else match lowerTable.find? (·.1.contains c.toNat) with
    | some (row, target) => [Char.ofNat (target + (c.toNat - row.first))]
    | none => [c]

/-- The first character that is not case-ignorable is a cased letter. -/
def meetsCased (cs : List Char) : Bool :=
  match cs.dropWhile isCaseIgnorable with
  | c :: _ => isCased c
  | [] => false

/-- The capital letter sigma. -/
def capitalSigma : Char := 'Σ'

/-- The lower case sigma between the given surroundings, the preceding ones nearest first: final
when a cased letter comes before and none after. -/
def lowerSigma (before after : List Char) : Char :=
  if meetsCased before && !meetsCased after then 'ς' else 'σ'

/-- Lower case of a text whose preceding characters, nearest first, are `before`. -/
def lowerFrom (before : List Char) : List Char → List Char
  | [] => []
  | c :: after =>
    (if c == capitalSigma then [lowerSigma before after] else lowerChar c)
      ++ lowerFrom (c :: before) after

/-- The text in lower case. -/
def lowercase (text : String) : String :=
  String.ofList (lowerFrom [] text.toList)

end SqlDialect.Text
