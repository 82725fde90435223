import ObjectSystem.Text.CaseMapping
import ObjectSystem.Text.WordCharacter

/-!
# Title case

`titleCase` renders a name as words for people: underscores and hyphens become blanks, and each
word gets a capital and small letters behind it. A word starts at a word character and reaches to
the next white space, whatever stands between.
-/

namespace ObjectSystem.Text

/-- Capitalises the words of a text; `inWord` tells whether the text goes on inside a word. -/
def capitalizeWords (inWord : Bool) : List Char → List Char
  | [] => []
  | c :: rest =>
    if inWord then
      if isSpace c then c :: capitalizeWords false rest
      else lower c ++ capitalizeWords true rest
    else if isWordCharacter c then upper c ++ capitalizeWords true rest
    else c :: capitalizeWords false rest

/-- Underscores and hyphens separate words, as blanks do. -/
def separatorToBlank (c : Char) : Char :=
  if c = '_' ∨ c = '-' then ' ' else c

/-- A name as blank-separated, capitalised words. -/
def titleCase (name : String) : String :=
  String.ofList (capitalizeWords false (name.toList.map separatorToBlank))

end ObjectSystem.Text
