/-!
# Blank characters

The characters with the Unicode property `White_Space`, and the removal of such
characters from both ends of a text. The five blanks that separate the fields of
a kernel file are a smaller set: they leave out the vertical tab and everything
outside ASCII.
-/
namespace Threading.Text

/-- The Unicode property `White_Space`. -/
def isBlank (c : Char) : Bool :=
  ('\t' ≤ c && c ≤ '\r') || c = ' ' || c = '\u0085' || c = '\u00a0' || c = '\u1680' ||
    ('\u2000' ≤ c && c ≤ '\u200a') || c = '\u2028' || c = '\u2029' || c = '\u202f' ||
    c = '\u205f' || c = '\u3000'

/-- The blanks of ASCII text: space, tab, line feed, form feed, carriage return. -/
def isAsciiBlank (c : Char) : Bool :=
  c = ' ' || c = '\t' || c = '\n' || c = '\x0c' || c = '\r'

/-- Removes the longest tail whose characters all satisfy `p`. -/
def dropEndWhile (p : Char → Bool) (cs : List Char) : List Char :=
  (cs.reverse.dropWhile p).reverse

/-- Removes the blanks at both ends. -/
def trimBlank (cs : List Char) : List Char :=
  dropEndWhile isBlank (cs.dropWhile isBlank)

/-- The fields of a text: the longest runs of characters that are no ASCII blank. -/
def fields (cs : List Char) : List (List Char) :=
  go cs []
where
  /-- `run` holds the characters of the current field, last one first. -/
  go : List Char → List Char → List (List Char)
    | [], run => if run.isEmpty then [] else [run.reverse]
    | c :: rest, run =>
      if isAsciiBlank c then
        if run.isEmpty then go rest [] else run.reverse :: go rest []
      else go rest (c :: run)

end Threading.Text
