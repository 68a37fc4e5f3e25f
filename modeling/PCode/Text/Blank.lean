namespace PCode
namespace Text

/-!
White space and the words it divides.

White space is the set of the character database: the five controls from tab to
carriage return, the next line control, the space, the no-break space and the
spaces and separators beyond.
-/

def isBlank (char : Char) : Bool :=
  let code := char.toNat
  (9 <= code && code <= 13) || code == 0x20 || code == 0x85 || code == 0xa0 || code == 0x1680
    || (0x2000 <= code && code <= 0x200a) || code == 0x2028 || code == 0x2029 || code == 0x202f
    || code == 0x205f || code == 0x3000

/-- The words of a text, given the characters of the word that is under way. -/
def wordsFrom (current : List Char) : List Char -> List (List Char)
  | [] => if current.isEmpty then [] else [current.reverse]
  | char :: chars =>
    if isBlank char then
      if current.isEmpty then wordsFrom [] chars else current.reverse :: wordsFrom [] chars
    else wordsFrom (char :: current) chars

/-- The longest runs of characters that are not white space, in order. -/
def words (text : String) : List String := (wordsFrom [] text.toList).map String.ofList

end Text
end PCode
