/-!
# Places in a source text

Lines and columns count from one; a column counts characters.
-/

namespace Walkthrough

/-- A place in a source text. -/
structure Location where
  /-- Line, counted from one. -/
  line : Nat
  /-- Character of the line, counted from one. -/
  column : Nat
  deriving DecidableEq, Repr

namespace Location

/-- The place of the first character. -/
def origin : Location := ⟨1, 1⟩

instance : Inhabited Location := ⟨origin⟩

/-- The place after a character that stands here. -/
def after (place : Location) (c : Char) : Location :=
  if c = '\n' then ⟨place.line + 1, 1⟩ else ⟨place.line, place.column + 1⟩

/-- The place after a stretch of text that starts here. -/
def afterAll (place : Location) (text : List Char) : Location :=
  text.foldl after place

/-- A place as error messages name it. -/
def text (place : Location) : String :=
  s!"line {place.line}, column {place.column}"

@[simp] theorem afterAll_nil (place : Location) : place.afterAll [] = place := rfl

@[simp] theorem afterAll_cons (place : Location) (c : Char) (cs : List Char) :
    place.afterAll (c :: cs) = (place.after c).afterAll cs := rfl

theorem afterAll_append (place : Location) (s t : List Char) :
    place.afterAll (s ++ t) = (place.afterAll s).afterAll t := by
  simp [afterAll, List.foldl_append]

end Location

end Walkthrough
