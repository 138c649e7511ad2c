/-
  ShellQuery.Text.Grapheme.Class

  What the characters do at the borders of grapheme clusters, the groups of characters that are
  seen as one. The tables are those of edition 17.0 of the Unicode standard.
-/
import ShellQuery.Text.Mark
import ShellQuery.Text.Printable

namespace ShellQuery.Text.Grapheme

/-! ## Tables -/

/-- Code points of controls, of line and paragraph ends, and of formats without a shape. -/
def controlRanges : List (Nat × Nat) := [
  (0, 31), (127, 159), (173, 173), (1564, 1564), (6158, 6158), (8203, 8203), (8206, 8207),
  (8232, 8238), (8288, 8303), (65279, 65279), (65520, 65531), (78896, 78911), (113824, 113827),
  (119155, 119162), (917504, 917535), (917632, 917759), (918000, 921599)]

/-- Code points that extend a cluster and are no marks: halfwidth sound marks, skin tones, tags. -/
def extendingSymbolRanges : List (Nat × Nat) := [
  (65438, 65439), (127995, 127999), (917536, 917631)]

/-- Code points that tie two consonants into one. -/
def linkerRanges : List (Nat × Nat) := [
  (2381, 2381), (2509, 2509), (2765, 2765), (2893, 2893), (3149, 3149), (3405, 3405), (4153, 4153),
  (6098, 6098), (6752, 6752), (6980, 6980), (7083, 7083), (43456, 43456), (43766, 43766),
  (68159, 68159), (69939, 69939), (70608, 70608), (71998, 71998), (72263, 72263), (72345, 72345),
  (73538, 73538)]

/-- Spacing marks that are clusters of their own. -/
def letterSpacingRanges : List (Nat × Nat) := [
  (4139, 4140), (4152, 4152), (4194, 4196), (4199, 4205), (4227, 4227), (4231, 4236), (4239, 4239),
  (4250, 4252), (6753, 6753), (6755, 6756), (43643, 43643), (43645, 43645), (71456, 71457)]

/-- Code points that stand before what they belong to. -/
def prependedRanges : List (Nat × Nat) := [
  (1536, 1541), (1757, 1757), (1807, 1807), (2192, 2193), (2274, 2274), (3406, 3406),
  (69821, 69821), (69837, 69837), (70082, 70083), (70609, 70609), (71999, 71999), (72001, 72001),
  (72324, 72329), (73030, 73030), (73474, 73474)]

/-- Code points of consonants that can be tied together. -/
def consonantRanges : List (Nat × Nat) := [
  (2325, 2361), (2392, 2399), (2424, 2431), (2453, 2472), (2474, 2480), (2482, 2482), (2486, 2489),
  (2524, 2525), (2527, 2527), (2544, 2545), (2709, 2728), (2730, 2736), (2738, 2739), (2741, 2745),
  (2809, 2809), (2837, 2856), (2858, 2864), (2866, 2867), (2869, 2873), (2908, 2909), (2911, 2911),
  (2929, 2929), (3093, 3112), (3114, 3129), (3160, 3162), (3349, 3386), (4096, 4138), (4159, 4159),
  (4176, 4181), (4186, 4189), (4193, 4193), (4197, 4198), (4206, 4208), (4213, 4225), (4238, 4238),
  (6016, 6067), (6688, 6740), (6923, 6924), (6931, 6963), (6981, 6988), (7043, 7072), (7086, 7087),
  (7099, 7101), (43401, 43403), (43407, 43442), (43488, 43492), (43495, 43503), (43514, 43518),
  (43616, 43631), (43633, 43635), (43642, 43642), (43646, 43647), (43744, 43754), (43968, 43994),
  (68096, 68096), (68112, 68115), (68117, 68119), (68121, 68149), (69891, 69926), (69956, 69956),
  (69959, 69959), (70528, 70537), (70539, 70539), (70542, 70542), (70544, 70581), (71936, 71942),
  (71945, 71945), (71948, 71955), (71957, 71958), (71960, 71983), (72192, 72192), (72203, 72242),
  (72272, 72272), (72284, 72323), (73476, 73488), (73490, 73523)]

/-- Code points with the property `Extended_Pictographic`. -/
def pictureRanges : List (Nat × Nat) := [
  (169, 169), (174, 174), (8252, 8252), (8265, 8265), (8482, 8482), (8505, 8505), (8596, 8601),
  (8617, 8618), (8986, 8987), (9000, 9000), (9167, 9167), (9193, 9203), (9208, 9210), (9410, 9410),
  (9642, 9643), (9654, 9654), (9664, 9664), (9723, 9726), (9728, 9732), (9742, 9742), (9745, 9745),
  (9748, 9749), (9752, 9752), (9757, 9757), (9760, 9760), (9762, 9763), (9766, 9766), (9770, 9770),
  (9774, 9775), (9784, 9786), (9792, 9792), (9794, 9794), (9800, 9811), (9823, 9824), (9827, 9827),
  (9829, 9830), (9832, 9832), (9851, 9851), (9854, 9855), (9874, 9879), (9881, 9881), (9883, 9884),
  (9888, 9889), (9895, 9895), (9898, 9899), (9904, 9905), (9917, 9918), (9924, 9925), (9928, 9928),
  (9934, 9935), (9937, 9937), (9939, 9940), (9961, 9962), (9968, 9973), (9975, 9978), (9981, 9981),
  (9986, 9986), (9989, 9989), (9992, 9997), (9999, 9999), (10002, 10002), (10004, 10004),
  (10006, 10006), (10013, 10013), (10017, 10017), (10024, 10024), (10035, 10036), (10052, 10052),
  (10055, 10055), (10060, 10060), (10062, 10062), (10067, 10069), (10071, 10071), (10083, 10084),
  (10133, 10135), (10145, 10145), (10160, 10160), (10175, 10175), (10548, 10549), (11013, 11015),
  (11035, 11036), (11088, 11088), (11093, 11093), (12336, 12336), (12349, 12349), (12951, 12951),
  (12953, 12953), (126980, 126980), (127020, 127023), (127124, 127135), (127151, 127152),
  (127168, 127168), (127183, 127184), (127222, 127231), (127344, 127345), (127358, 127359),
  (127374, 127374), (127377, 127386), (127406, 127461), (127489, 127503), (127514, 127514),
  (127535, 127535), (127538, 127546), (127548, 127551), (127561, 127583), (127590, 127777),
  (127780, 127891), (127894, 127895), (127897, 127899), (127902, 127984), (127987, 127989),
  (127991, 127994), (128000, 128253), (128255, 128317), (128329, 128334), (128336, 128359),
  (128367, 128368), (128371, 128378), (128391, 128391), (128394, 128397), (128400, 128400),
  (128405, 128406), (128420, 128421), (128424, 128424), (128433, 128434), (128444, 128444),
  (128450, 128452), (128465, 128467), (128476, 128478), (128481, 128481), (128483, 128483),
  (128488, 128488), (128495, 128495), (128499, 128499), (128506, 128591), (128640, 128709),
  (128715, 128722), (128725, 128741), (128745, 128745), (128747, 128752), (128755, 128767),
  (128986, 129023), (129036, 129039), (129096, 129103), (129114, 129119), (129160, 129167),
  (129198, 129199), (129212, 129215), (129218, 129231), (129241, 129279), (129292, 129338),
  (129340, 129349), (129351, 129535), (129624, 129631), (129646, 129791), (130048, 131069)]

/-! ## Classes -/

/-- What a character does at the border of a cluster. -/
inductive Class where
  | carriageReturn
  | lineFeed
  | control
  /-- It extends the cluster before it. -/
  | extending
  /-- A character that extends the cluster before it, and parts it from the consonants after it. -/
  | nonJoiner
  /-- A mark that extends the cluster before it, and ties consonants together. -/
  | linker
  /-- It extends the cluster before it, and ties pictures together. -/
  | joiner
  /-- A mark with a width, which belongs to the cluster before it. -/
  | spacing
  /-- It belongs to the cluster after it. -/
  | prepended
  /-- One half of a flag. -/
  | regional
  | leadingJamo
  | vowelJamo
  | trailingJamo
  /-- A Hangul syllable that ends with its vowel. -/
  | openSyllable
  /-- A Hangul syllable that ends with a consonant. -/
  | closedSyllable
  | consonant
  | picture
  | other
deriving DecidableEq, Repr

namespace Class

/-- The class of the Hangul letters and syllables, if a code point is one. -/
def ofHangul? (n : Nat) : Option Class :=
  if inRanges [(0x1100, 0x115F), (0xA960, 0xA97C)] n then some leadingJamo
  else if inRanges [(0x1160, 0x11A7), (0xD7B0, 0xD7C6), (0x16D63, 0x16D63), (0x16D67, 0x16D6A)] n
    then some vowelJamo
  else if inRanges [(0x11A8, 0x11FF), (0xD7CB, 0xD7FB)] n then some trailingJamo
  else if inRanges [(0xAC00, 0xD7A3)] n then
    -- the syllables come in rows of 28, one without a final consonant before those with one
    some (if (n - 0xAC00) % 28 = 0 then openSyllable else closedSyllable)
  else none

/-- The class of a code point that is no Hangul letter or syllable. -/
def ofCodePoint (n : Nat) : Class :=
  if n = 0x0D then carriageReturn
  else if n = 0x0A then lineFeed
  else if inRanges controlRanges n then control
  else if n = 0x200C then nonJoiner
  else if n = 0x200D then joiner
  else if inRanges linkerRanges n then linker
  else if inRanges extendingMarkRanges n || inRanges extendingSymbolRanges n then extending
  else if inRanges markRanges n then
    if inRanges letterSpacingRanges n then other else spacing
  else if n = 0x0E33 || n = 0x0EB3 then spacing
  else if inRanges prependedRanges n then prepended
  else if inRanges [(0x1F1E6, 0x1F1FF)] n then regional
  else if inRanges consonantRanges n then consonant
  else if inRanges pictureRanges n then picture
  else other

/-- The class of a character. -/
def ofChar (c : Char) : Class :=
  (ofHangul? c.toNat).getD (ofCodePoint c.toNat)

end Class

end ShellQuery.Text.Grapheme
