import Dossier.Character.Mark
import Dossier.Character.Number

namespace Dossier.Character

def connectorPunctuation : List Range :=
  [(0x5F, 0x5F), (0x203F, 0x2040), (0x2054, 0x2054), (0xFE33, 0xFE34), (0xFE4D, 0xFE4F),
   (0xFF3F, 0xFF3F)]

/-- The characters of age 17.0. -/
def newest : List Range :=
  [(0x88F, 0x88F), (0xC5C, 0xC5C), (0xCDC, 0xCDC), (0x1ACF, 0x1ADD), (0x1AE0, 0x1AEB),
   (0x20C1, 0x20C1), (0x2B96, 0x2B96), (0xA7CE, 0xA7CF), (0xA7D2, 0xA7D2), (0xA7D4, 0xA7D4),
   (0xA7F1, 0xA7F1), (0xFBC3, 0xFBD2), (0xFD90, 0xFD91), (0xFDC8, 0xFDCE), (0x10940, 0x10959),
   (0x10EC5, 0x10EC7), (0x10ED0, 0x10ED8), (0x10EFA, 0x10EFB), (0x11B60, 0x11B67),
   (0x11DB0, 0x11DDB), (0x11DE0, 0x11DE9), (0x16EA0, 0x16EB8), (0x16EBB, 0x16ED3),
   (0x16FF2, 0x16FF6), (0x187F8, 0x187FF), (0x18D09, 0x18D1E), (0x18D80, 0x18DF2),
   (0x1CCFA, 0x1CCFC), (0x1CEBA, 0x1CED0), (0x1CEE0, 0x1CEF0), (0x1E6C0, 0x1E6DE),
   (0x1E6E0, 0x1E6F5), (0x1E6FE, 0x1E6FF), (0x1F6D8, 0x1F6D8), (0x1F777, 0x1F77A),
   (0x1F8D0, 0x1F8D8), (0x1FA54, 0x1FA57), (0x1FA8A, 0x1FA8A), (0x1FA8E, 0x1FA8E),
   (0x1FAC8, 0x1FAC8), (0x1FACD, 0x1FACD), (0x1FAEA, 0x1FAEA), (0x1FAEF, 0x1FAEF),
   (0x1FBFA, 0x1FBFA), (0x2B73A, 0x2B73F), (0x2CEA2, 0x2CEAD), (0x323B0, 0x33479)]

/-- The zero-width joiner and non-joiner. -/
def joinControl : List Range := [(0x200C, 0x200D)]

/-- The characters of a Unicode word, as of version 16.0: what version 17.0 added is unassigned
there and in no class. -/
def isWord (c : Char) : Bool :=
  (within alphabetic c.toNat || within mark c.toNat || within decimalNumber c.toNat ||
    within connectorPunctuation c.toNat || within joinControl c.toNat) &&
  !within newest c.toNat

def isAlphanumeric (c : Char) : Bool :=
  within alphabetic c.toNat || within decimalNumber c.toNat || within otherNumber c.toNat

/-- A character that glues what follows it to the word before, as of version 17.0. -/
def joins (c : Char) : Bool :=
  isAlphanumeric c || c == '_' || c == '-' || c == '\x27'

/-- The characters of a word that glue nothing to it: marks that spell no letter, connectors other
than the underscore, and the two joiners. -/
def isLoose (c : Char) : Bool :=
  (within mark c.toNat || within connectorPunctuation c.toNat || within joinControl c.toNat) &&
    !within alphabetic c.toNat && c != '_' && !within newest c.toNat

/-- The letters, digits and underscore that a reference may be spelled with. -/
def isAsciiWord (c : Char) : Bool := c.isAlphanum || c == '_'

end Dossier.Character
