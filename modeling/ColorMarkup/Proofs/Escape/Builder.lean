import ColorMarkup.Escape.Builder
import ColorMarkup.Proofs.Numeral.Printed
/-!
# Escapes of numbers

A color can be asked for by its channels, by its number, or by the name of a tag that is printed
from its channels, with any marks between them and as a text or as bytes. All three are written
alike, and the channels can be read from what is written. So can a code and an entry of the
palette, by number and by name.

Results:
* `badChannel?_eq_none_iff`: a color is valid if none of its channels is out of range.
* `ofName_eq`: a name is written as what it means.
* `numbers_agree`: escapes of numbers are those of the numbers' names.
-/
namespace ColorMarkup

/-- A text, or bytes in any holder, with this content. -/
def Value.Spells (v : Value) (body : Bytes) : Prop :=
  v = .text body.toText ∨ ∃ holder, v = .bytes holder body

theorem Value.Spells.key? {v : Value} {body : Bytes} (h : v.Spells body) (hascii : body.isAscii = true)
    (argument : String) : v.key? argument = .ok (some body) := by
  obtain rfl | ⟨holder, rfl⟩ := h
  · have henc := Utf8.encode_toText hascii
    exact Value.key?_of_isAscii ((Utf8.isAscii_iff_of_encode henc).2 hascii) henc argument
  · rfl

theorem Meaning.ofValue?_spells {v : Value} {body : Bytes} (h : v.Spells body)
    (hascii : body.isAscii = true) : ofValue? v = .ok (ofBody? body) := by
  rw [ofValue?, h.key? hascii, Except.map, Option.bind_some]

namespace Builder

/-- The first channel out of range, under the name of its argument. -/
def badChannel? (c : Color) : Option (String × Int) :=
  [("red", c.red), ("green", c.green), ("blue", c.blue)].find? fun p => !Color.isByte p.2

theorem badChannel?_eq_none_iff (c : Color) : badChannel? c = none ↔ c.Valid := by
  simp [badChannel?, Color.Valid, Color.isByte_iff]

theorem byte_int (argument : String) (n : Int) :
    byte argument (.int n) =
      if Color.isByte n then .ok n else .error (.outOfRange (Text.ofString argument) n) := rfl

/-- Channels are refused by the first one out of range. -/
theorem color_channels (c : Color) :
    color (.int c.red) (.int c.green) (.int c.blue) = match badChannel? c with
      | some (argument, n) => .error (.outOfRange (Text.ofString argument) n)
      | none => .ok c := by
  simp only [color, byte_int, badChannel?]
  cases hr : Color.isByte c.red <;> cases hg : Color.isByte c.green <;>
    cases hb : Color.isByte c.blue <;> simp [bind, Except.bind, pure, Except.pure, hr, hg, hb]

theorem color_number (p : Int) :
    color (.int p) .none .none =
      if Color.isColorNumber p then .ok (Color.ofLowBits p)
      else .error (.packedOutOfRange (Text.ofString "red") p) := rfl

variable {direction depth : Value} {d : Option Direction} {asked : Option Depth}

theorem ofColor_of_color {red green blue : Value} (hd : direction? direction = .ok d) (m : Mode) :
    ofColor red green blue direction m =
      (color red green blue).map (Escape.ofColor (d.getD m.direction)) := by
  unfold ofColor ofColorIn
  rw [directionIn_shared, hd]
  cases color red green blue <;> rfl

/-- Once the overrides are accepted, a name is written as what it means. -/
theorem ofName_eq (name : Value) (hd : direction? direction = .ok d) (hdepth : depth? depth = .ok asked)
    (m : Mode) :
    ofName name direction depth m = match Meaning.ofValue? name with
      | .error e => .ofResult (.error e) m
      | .ok none => .ofResult (.ok none) m
      | .ok (some meaning) => meaning.perform m asked d := by
  rw [ofName_eq_match]
  unfold request
  rw [hd, hdepth]
  cases Meaning.ofValue? name with
  | error e => rfl
  | ok meaning => cases meaning <;> rfl

/-- Every spelling of the body is written as this escape, at this depth however that is asked
for, and the mode stays. -/
def NamedAs (body : Bytes) (direction : Value) (depth : Depth) (m : Mode) (e : Escape) : Prop :=
  ∀ name v asked, name.Spells body → depth? v = .ok asked → asked.getD m.depth = depth →
    ofName name direction v m = .ofResult (.ok (some e)) m

/-- A numeral is written as its number. -/
theorem namedAs_of_parse? {body : Bytes} {tag : NumberTag} (h : NumberTag.parse? body = some tag)
    (hd : direction? direction = .ok d) {m : Mode} {depth : Depth} {e : Escape}
    (he : tag.escape? depth (d.getD m.direction) = .ok (some e)) : NamedAs body direction depth m e := by
  intro name v asked hname hv hdepth
  have hmeaning : Meaning.ofValue? name = .ok (some (.numeric tag)) := by
    rw [Meaning.ofValue?_spells hname (NumberTag.bytes_isAscii_of_parse? h),
      Meaning.ofBody?_of_parse? h]
  rw [ofName_eq name hd hv, hmeaning]
  simp only [Meaning.perform, Meaning.modeChange?, Meaning.build, hdepth, he]

/-- The channels are the last three parameters of a color. -/
theorem ofColor_text (d : Direction) (c : Color) :
    (Escape.ofColor d c).text =
      (Escape.introducer ++ Escape.joinParams [Escape.selector d, 2] ++ [0x3B]).toText
        ++ (c.printed 0x3B 0x3B).toText ++ [0x6D] := by
  simp only [Escape.ofColor, Escape.text, Escape.sequenceBytes, Escape.joinParams, Color.printed,
    Bytes.toText, List.append_assoc, List.map_append, List.map_cons, List.map_nil, List.cons_append,
    List.nil_append]
  rfl

/-! ## Refusals -/

theorem ofColor_channels_error_iff (hd : direction? direction = .ok d) (m : Mode) (c : Color)
    (e : Error) :
    ofColor (.int c.red) (.int c.green) (.int c.blue) direction m = .error e ↔
      ∃ argument n, badChannel? c = some (argument, n) ∧
        e = .outOfRange (Text.ofString argument) n := by
  rw [ofColor_of_color hd, color_channels]
  cases badChannel? c with
  | none => simp [Except.map]
  | some p =>
    obtain ⟨argument, n⟩ := p
    simp [Except.map, eq_comm]

theorem ofColor_number_error_iff (hd : direction? direction = .ok d) (m : Mode) (p : Int) (e : Error) :
    ofColor (.int p) .none .none direction m = .error e ↔
      ¬ (0 ≤ p ∧ p ≤ 0xFFFFFF) ∧ e = .packedOutOfRange (Text.ofString "red") p := by
  rw [ofColor_of_color hd, color_number, ← Color.isColorNumber_iff]
  cases Color.isColorNumber p <;> simp [Except.map, eq_comm]

/-! ## Agreement -/

/-- The channels of a valid color, its number and its name are written alike, and the channels
that are written are read as that color. -/
theorem ofColor_agrees (hd : direction? direction = .ok d) (m : Mode) {c : Color} (h : c.Valid) :
    ∃ e, ofColor (.int c.red) (.int c.green) (.int c.blue) direction m = .ok e ∧
      Color.ofChannels c.red c.green c.blue = .ok c ∧
      ofColor (.int c.toNumber) .none .none direction m = .ok e ∧
      (∀ s s', NumberTag.isSeparator s = true → NumberTag.isSeparator s' = true →
        NamedAs (c.printed s s') direction .twentyFour m e) ∧
      e.text = (Escape.introducer ++ Escape.joinParams [Escape.selector (d.getD m.direction), 2]
        ++ [0x3B]).toText ++ (c.printed 0x3B 0x3B).toText ++ [0x6D] ∧
      NumberTag.ofValue? (.text (c.printed 0x3B 0x3B).toText) = .ok (some ⟨c.toNumber, some c⟩) := by
  have hchannels : color (.int c.red) (.int c.green) (.int c.blue) = .ok c := by
    rw [color_channels, (badChannel?_eq_none_iff c).2 h]
  have hnumber : color (.int c.toNumber) .none .none = .ok c := by
    have hrange := (Color.exists_ofNumber_iff c.toNumber).1 ⟨c, Color.ofNumber_toNumber c h⟩
    rw [color_number, if_pos ((Color.isColorNumber_iff _).2 hrange), Color.ofLowBits_toNumber c h]
  have hparse : NumberTag.parse? (c.printed 0x3B 0x3B) = some ⟨c.toNumber, some c⟩ :=
    NumberTag.parse?_printed h (by decide) (by decide)
  refine ⟨Escape.ofColor (d.getD m.direction) c, ?_, (Color.ofChannels_eq_ok_iff ..).2 ⟨rfl, h⟩, ?_,
    ?_, ofColor_text _ c, ?_⟩
  · rw [ofColor_of_color hd, hchannels]
    rfl
  · rw [ofColor_of_color hd, hnumber]
    rfl
  · exact fun s s' hs hs' => namedAs_of_parse? (NumberTag.parse?_printed h hs hs') hd rfl
  · rw [NumberTag.ofValue?_toText (NumberTag.bytes_isAscii_of_parse? hparse), hparse]

/-- A byte is written as an entry of the palette like its name at 8 bits, and as a code like its
name at 4 bits. -/
theorem ofIndex_ofCode_agree (hd : direction? direction = .ok d) (m : Mode) {i : Int}
    (h : 0 ≤ i ∧ i ≤ 255) :
    (∃ e, ofIndex (.int i) direction m = .ok e ∧ NamedAs (Decimal.ofInt i) direction .eight m e) ∧
      ∃ e, ofCode (.int i) = .ok e ∧ NamedAs (Decimal.ofInt i) direction .four m e := by
  have hbyte : ∀ argument, byte argument (.int i) = .ok i := by
    intro argument
    rw [byte_int, if_pos ((Color.isByte_iff i).2 h)]
  have hparse := NumberTag.parse?_ofInt h
  refine ⟨⟨Escape.ofIndex (d.getD m.direction) i, ?_, namedAs_of_parse? hparse hd rfl⟩,
    ⟨Escape.ofCode i, ?_, namedAs_of_parse? hparse hd rfl⟩⟩
  · rw [ofIndex, ofIndexIn, hbyte, directionIn_shared, hd]
    rfl
  · rw [ofCode, hbyte]
    rfl

/-- In every direction and mode: channels are refused exactly if they are no valid color, by the
first one out of range, and a number is refused exactly if it is no color's. The channels of a
valid color, its number and its name at 24 bits, with any marks, are written alike, and the
channels that are written are read as that color. A color and its number determine each other.
A byte is written as an entry of the palette, and as a code, like its name at 8 and 4 bits. -/
theorem numbers_agree (hd : direction? direction = .ok d) (m : Mode) :
    (∀ c : Color, ((∃ e, ofColor (.int c.red) (.int c.green) (.int c.blue) direction m = .error e) ↔
        ¬ c.Valid) ∧
      ∀ e, ofColor (.int c.red) (.int c.green) (.int c.blue) direction m = .error e ↔
        ∃ argument n, badChannel? c = some (argument, n) ∧
          e = .outOfRange (Text.ofString argument) n) ∧
    (∀ p e, ofColor (.int p) .none .none direction m = .error e ↔
      ¬ (0 ≤ p ∧ p ≤ 0xFFFFFF) ∧ e = .packedOutOfRange (Text.ofString "red") p) ∧
    (∀ c : Color, c.Valid → ∃ e,
      ofColor (.int c.red) (.int c.green) (.int c.blue) direction m = .ok e ∧
      Color.ofChannels c.red c.green c.blue = .ok c ∧
      ofColor (.int c.toNumber) .none .none direction m = .ok e ∧
      (∀ s s', NumberTag.isSeparator s = true → NumberTag.isSeparator s' = true →
        NamedAs (c.printed s s') direction .twentyFour m e) ∧
      e.text = (Escape.introducer ++ Escape.joinParams [Escape.selector (d.getD m.direction), 2]
        ++ [0x3B]).toText ++ (c.printed 0x3B 0x3B).toText ++ [0x6D] ∧
      NumberTag.ofValue? (.text (c.printed 0x3B 0x3B).toText) = .ok (some ⟨c.toNumber, some c⟩)) ∧
    (∀ p, (∃ c, Color.ofNumber p = .ok c) ↔ 0 ≤ p ∧ p ≤ 0xFFFFFF) ∧
    (∀ p c, Color.ofNumber p = .ok c ↔ c.Valid ∧ c.toNumber = p) ∧
    (∀ i : Int, 0 ≤ i ∧ i ≤ 255 →
      (∃ e, ofIndex (.int i) direction m = .ok e ∧ NamedAs (Decimal.ofInt i) direction .eight m e) ∧
      ∃ e, ofCode (.int i) = .ok e ∧ NamedAs (Decimal.ofInt i) direction .four m e) := by
  refine ⟨fun c => ⟨?_, ofColor_channels_error_iff hd m c⟩, ofColor_number_error_iff hd m,
    fun c h => ofColor_agrees hd m h, Color.exists_ofNumber_iff, Color.ofNumber_eq_ok_iff,
    fun i h => ofIndex_ofCode_agree hd m h⟩
  rw [← badChannel?_eq_none_iff]
  constructor
  · rintro ⟨e, he⟩
    obtain ⟨argument, n, hbad, -⟩ := (ofColor_channels_error_iff hd m c e).1 he
    simp [hbad]
  · intro hbad
    obtain ⟨⟨argument, n⟩, hsome⟩ := Option.ne_none_iff_exists'.1 hbad
    exact ⟨_, (ofColor_channels_error_iff hd m c _).2 ⟨argument, n, hsome, rfl⟩⟩

/-- For the background, the green channel of 255, 300, 400 is refused, and 1, 2, 3 is written like
its number 66051 and like the text `1.2,3` at the mode's depth of 24 bits. -/
theorem numbers_agree_background :
    let direction : Value := .text (Text.ofString "BG")
    let m : Mode := ⟨.twentyFour, .foreground⟩
    let name : Value := .text (Bytes.toText [0x31, 0x2E, 0x32, 0x2C, 0x33])
    ofColor (.int 255) (.int 300) (.int 400) direction m =
      .error (.outOfRange (Text.ofString "green") 300) ∧
    ∃ e, ofColor (.int 1) (.int 2) (.int 3) direction m = .ok e ∧
      ofColor (.int 66051) .none .none direction m = .ok e ∧
      ofName name direction .none m = .ofResult (.ok (some e)) m := by
  intro direction m name
  have hcode : Direction.ofValue? direction = some .background := by decide +kernel
  have hspelled : name.Spells (Color.printed ⟨1, 2, 3⟩ 0x2E 0x2C) :=
    .inl (congrArg Value.text (by decide +kernel))
  have hd : direction? direction = .ok (some .background) := by simp [direction?, direction, hcode]
  obtain ⟨hchannels, -, hagree, -⟩ := numbers_agree hd m
  obtain ⟨e, hcolor, -, hnumber, hname, -⟩ := hagree ⟨1, 2, 3⟩ (by decide)
  exact ⟨((hchannels ⟨255, 300, 400⟩).2 _).2 ⟨"green", 300, rfl, rfl⟩, e, hcolor, hnumber,
    hname 0x2E 0x2C (by decide) (by decide) name .none none hspelled rfl rfl⟩

end Builder
end ColorMarkup
