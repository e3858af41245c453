/-!
# Texts in parentheses
-/

namespace Walkthrough.Text

/-- Texts with a comma between each two. -/
def commaSeparated (parts : List String) : String := ", ".intercalate parts

/-- A tuple of texts. A tuple of one has a comma after its part. -/
def tuple : List String → String
  | [part] => "(" ++ part ++ ",)"
  | parts => "(" ++ commaSeparated parts ++ ")"

end Walkthrough.Text
