import Walkthrough.Screen

/-!
# Displays

A display shows the screens that are drawn on it one after another. Of each screen
only the cells that differ from the screen before it are sent, and the cell after the
first one of a wide glyph, which the glyph covers, is never sent. So the display goes
on holding there what was last sent to it. As long as no glyph is wide, a display
shows the screen that was drawn last.
-/

namespace Walkthrough

/-- The state of a display. -/
structure Display where
  /-- The screen that was drawn last. -/
  drawn : Screen
  /-- What the cells of the display hold. -/
  shown : Screen

namespace Display

/-- A display on which nothing has been drawn. -/
def blank (width height : Nat) : Display :=
  let screen := List.replicate height (Row.blanks .plain width)
  ⟨screen, screen⟩

/-- What the cells of a row hold after the row was drawn, from what was drawn before and
what they held. The first of the cells may be covered by a glyph, and so many of them
may lie within a glyph of the one row or the other. Those are sent in any case. -/
def redrawRow (covered : Bool) (within : Nat) : Row → Row → Row → Row
  | cell :: row, last :: before, held :: shown =>
    let sent := !covered && (cell != last || 0 < within)
    (if sent then cell else held) ::
      redrawRow (1 < cell.width) (max (max cell.width last.width) within - 1) row before shown
  | _, _, _ => []

/-- The display after a screen was drawn on it. -/
def draw (screen : Screen) (d : Display) : Display where
  drawn := screen
  shown := List.zipWith (fun row (before, shown) => redrawRow false 0 row before shown) screen
    (d.drawn.zip d.shown)

end Display

end Walkthrough
