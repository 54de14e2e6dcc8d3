/-!
# Letter case

Case of ASCII letters, and the folding under which answers are compared.
-/
namespace Colloquy.Text

def lower (s : String) : String := s.map Char.toLower

/-- Same text up to the case of ASCII letters. -/
def sameLetters (a b : String) : Bool := lower a == lower b

/-- Lower case as far as it can make a text of ASCII letters: the letters
themselves and the Kelvin sign, the one other character whose lower case is ASCII. -/
def foldChar (c : Char) : Char := if c = '\u212a' then 'k' else c.toLower

def fold (s : String) : String := s.map foldChar

end Colloquy.Text
