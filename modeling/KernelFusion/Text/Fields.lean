import KernelFusion.Text.Blank

/-!
Cutting a text into parts: at every separator, at the first separator, into trimmed entries, into
lines. All of them work on the characters of the text, left to right.
-/

namespace KernelFusion.Text

/-- The parts between the separators; a text without one is its own only part. -/
def splitChars (sep : Char) : List Char → List (List Char)
  | [] => [[]]
  | c :: cs =>
    if c = sep then [] :: splitChars sep cs
    else match splitChars sep cs with
      | [] => [[c]]
      | part :: parts => (c :: part) :: parts

/-- What stands before and after the first separator, if there is one. -/
def splitFirst (sep : Char) : List Char → Option (List Char × List Char)
  | [] => none
  | c :: cs =>
    if c = sep then some ([], cs)
    else (splitFirst sep cs).map fun p => (c :: p.1, p.2)

/-- The parts of a text, trimmed, without the empty ones. -/
def entries (sep : Char) (s : String) : List String :=
  (((splitChars sep s.toList).map trimChars).filter fun part => !part.isEmpty).map String.ofList

/-- A line as it is kept: a carriage return right before the line feed belongs to the line end. The
line is given last character first. -/
def closeLine : List Char → List Char
  | '\r' :: line => line.reverse
  | line => line.reverse

/-- Lines of a text from the characters of the line so far, last one first. A line ends with a line
feed; what follows the last line feed is a line unless it is empty. -/
def linesFrom : List Char → List Char → List (List Char)
  | [], [] => []
  | line, [] => [line.reverse]
  | line, c :: cs => if c = '\n' then closeLine line :: linesFrom [] cs else linesFrom (c :: line) cs

def lines (s : String) : List String := (linesFrom [] s.toList).map String.ofList

/-- Whether `word` stands somewhere in the text. -/
def hasInfix (word : List Char) : List Char → Bool
  | [] => word.isEmpty
  | c :: cs => word.isPrefixOf (c :: cs) || hasInfix word cs

def mentions (s word : String) : Bool := hasInfix word.toList s.toList

end KernelFusion.Text
