/-!
# Palettes

The escape codes that set the parts of a printed grammar apart on a terminal. A palette is either
on, with the standard sixteen-colour codes, or off, with empty codes.
-/

namespace VisiblyPushdown

/-- The codes in front of call terminals, return terminals, rule names and dim parts, and the code
that ends a coloured part. -/
structure Palette where
  call : String
  ret : String
  rule : String
  dim : String
  reset : String
deriving DecidableEq, Repr

namespace Palette

/-- Green calls, magenta returns, blue rule names and dim structure. -/
def on : Palette where
  call := "\x1b[32m"
  ret := "\x1b[35m"
  rule := "\x1b[34m"
  dim := "\x1b[2m"
  reset := "\x1b[0m"

/-- No codes at all. -/
def off : Palette where
  call := ""
  ret := ""
  rule := ""
  dim := ""
  reset := ""

instance : Inhabited Palette :=
  ⟨off⟩

/-- The palette for coloured or plain output. -/
def select (coloured : Bool) : Palette :=
  if coloured then on else off

/-- Whether the palette colours anything. -/
def isOn (palette : Palette) : Bool :=
  !palette.reset.isEmpty

@[simp]
theorem isOn_select (coloured : Bool) : (select coloured).isOn = coloured := by
  cases coloured <;> decide

end Palette

end VisiblyPushdown
