import ColorMarkup.Source
/-!
# The vocabulary of tags

Named colors, attributes, mode changes and literals. An entry holds a
representation for each color depth it is defined at, or the mode it switches
to, or a fixed text. Names and aliases are matched whole, in any ASCII letter
case.

Results:
* `find?_name`: an entry is found by each of its names.
* `names_short`: no name is longer than `longestName`.
* `literals_ascii`: the fixed texts of the vocabulary are ASCII.
-/
namespace ColorMarkup

/-- What a name stands for. Codes apply to the foreground, or to both directions if there is no
background code. Mirrors `ColorDefinition`. -/
structure Entry where
  name : Text
  code : Option Int
  backgroundCode : Option Int
  paletteIndex : Option Int
  rgb : Option Int
  forcesDepth : Option Depth
  forcesDirection : Option Direction
  literal : Option Text
  isDisplayable : Bool
  aliases : List Text
  deriving DecidableEq, Repr

namespace Entry

/-- An entry that defines nothing yet. -/
def blank (name : Text) : Entry := ⟨name, none, none, none, none, none, none, none, true, []⟩

def changesMode (e : Entry) : Bool := e.forcesDepth.isSome || e.forcesDirection.isSome

def codeFor (e : Entry) : Direction → Option Int
  | .foreground => e.code
  | .background => e.backgroundCode <|> e.code

def names (e : Entry) : List Bytes := (e.name :: e.aliases).filterMap Utf8.encode

end Entry

namespace Vocabulary

/-- A color at every depth. Mirrors `_color`. -/
def color (name : String) (code background palette rgb : Int) (aliases : List String) : Entry :=
  { Entry.blank (Text.ofString name) with
    code := some code
    backgroundCode := some background
    paletteIndex := some palette
    rgb := some rgb
    aliases := aliases.map Text.ofString }

/-- A style, which only a code stands for. Mirrors `_attr`. -/
def style (name : String) (code : Int) (isDisplayable : Bool) (aliases : List String) : Entry :=
  { Entry.blank (Text.ofString name) with
    code := some code
    isDisplayable := isDisplayable
    aliases := aliases.map Text.ofString }

/-- A color of the palette that no code stands for. Mirrors `_extended`. -/
def ofPalette (name : String) (palette rgb : Int) : Entry :=
  { Entry.blank (Text.ofString name) with paletteIndex := some palette, rgb := some rgb }

def depthChange (name : String) (d : Depth) : Entry :=
  { Entry.blank (Text.ofString name) with forcesDepth := some d, isDisplayable := false }

def directionChange (name : String) (d : Direction) (aliases : List String) : Entry :=
  { Entry.blank (Text.ofString name) with
    forcesDirection := some d
    isDisplayable := false
    aliases := aliases.map Text.ofString }

/-- A name for a fixed text. -/
def fixed (name : String) (t : Text) : Entry :=
  { Entry.blank (Text.ofString name) with literal := some t, isDisplayable := false }

/-- Every entry, in the order of listings. -/
def entries : List Entry :=
  [color "black" 30 40 0 0x000000 [],
   color "red" 31 41 1 0xBB0000 [],
   color "green" 32 42 2 0x00BB00 [],
   color "yellow" 33 43 3 0xBBBB00 [],
   color "blue" 34 44 4 0x0000BB [],
   color "magenta" 35 45 5 0xBB00BB ["purple"],
   color "cyan" 36 46 6 0x00BBBB [],
   color "white" 37 47 7 0xBBBBBB [],
   color "bblack" 90 100 8 0x7F7F7F ["gray", "grey"],
   color "bred" 91 101 9 0xFF0000 [],
   color "bgreen" 92 102 10 0x00FF00 [],
   color "byellow" 93 103 11 0xFFFF00 [],
   color "bblue" 94 104 12 0x0000FF [],
   color "bmagenta" 95 105 13 0xFF00FF ["bpurple"],
   color "bcyan" 96 106 14 0x00FFFF [],
   color "bwhite" 97 107 15 0xFFFFFF [],
   style "normal" 0 true [],
   style "bold" 1 true ["bright"],
   style "faint" 2 true [],
   style "under" 4 true ["underline"],
   style "blink" 5 true [],
   style "inverse" 7 true ["reverse"],
   style "nobold" 22 false
     ["nobright", "nofaint", "unbold", "unbright", "unfaint"],
   style "nounder" 24 false [],
   style "noblink" 25 false ["unblink"],
   style "noinv" 27 false [],
   depthChange "4-bit" .four,
   depthChange "8-bit" .eight,
   depthChange "24-bit" .twentyFour,
   directionChange "fg" .foreground ["nobg"],
   directionChange "bg" .background [],
   ofPalette "azure" 25 0x0066BB,
   ofPalette "jade" 35 0x00BB66,
   ofPalette "violet" 55 0x6600BB,
   ofPalette "lime" 70 0x66BB00,
   ofPalette "tan" 94 0x886600,
   ofPalette "silver" 102 0x888888,
   ofPalette "pink" 125 0xBB0066,
   ofPalette "orange" 130 0xBB6600,
   ofPalette "bazure" 33 0x0088FF,
   ofPalette "bjade" 48 0x00FF88,
   ofPalette "bviolet" 93 0x8800FF,
   ofPalette "blime" 118 0x88FF00,
   ofPalette "btan" 178 0xDDBB00,
   ofPalette "bsilver" 188 0xDDDDDD,
   ofPalette "bpink" 198 0xFF0088,
   ofPalette "borange" 208 0xFF8800,
   fixed "esc" [0x1B]]

def table : List (Bytes × Entry) := entries.flatMap fun e => e.names.map fun n => (n, e)

def longestName : Nat := (table.map fun p => p.1.length).foldl max 0

/-- The entry of a name in any ASCII letter case. Mirrors `lookup`. -/
def find? (name : Bytes) : Option Entry :=
  if longestName < name.length then none
  else (table.find? fun p => p.1 == name.lower).map (·.2)

def ofValue? (v : Value) : Except Error (Option Entry) := (v.key? "name").map (·.bind find?)

/-- The entries, or only those that show. Mirrors `iter_colors`. -/
def list (displayableOnly : Bool) : List Entry :=
  entries.filter fun e => e.isDisplayable || !displayableOnly

theorem names_short : ∀ p ∈ table, p.1.length ≤ longestName := by decide +kernel

theorem find?_name : ∀ e ∈ entries, ∀ n ∈ e.names, find? n = some e := by decide +kernel

theorem literals_ascii : ∀ e ∈ entries, ∀ t ∈ e.literal, Text.isAscii t = true := by
  decide +kernel

end Vocabulary
end ColorMarkup
