import ColorMarkup.Text.Basic
/-!
# UTF-8 with escaped bytes

`encode` writes a text as UTF-8, except that a code point `U+DC80` to `U+DCFF`
is written as the single byte it stands for; any other surrogate cannot be
written. `decode` reads well-formed sequences (shortest form, no surrogate, at
most `U+10FFFF`) as characters and every byte that starts none as its escape.
So every byte string is the encoding of the text it decodes to.

Results:
* `encode_append`: encoding goes piece by piece.
* `encode_isSome_iff`: exactly the surrogates that stand for no byte are
  refused.
-/
namespace ColorMarkup.Utf8

def encodePoint (c : CodePoint) : Option Bytes :=
  let n := c.val
  if n < 0x80 then some [UInt8.ofNat n]
  else if n < 0x800 then some [UInt8.ofNat (0xC0 + n / 64), UInt8.ofNat (0x80 + n % 64)]
  else if c.isSurrogate then
    if c.isEscapedByte then some [UInt8.ofNat (n - 0xDC00)] else none
  else if n < 0x10000 then
    some [UInt8.ofNat (0xE0 + n / 4096), UInt8.ofNat (0x80 + n / 64 % 64),
      UInt8.ofNat (0x80 + n % 64)]
  else
    some [UInt8.ofNat (0xF0 + n / 262144), UInt8.ofNat (0x80 + n / 4096 % 64),
      UInt8.ofNat (0x80 + n / 64 % 64), UInt8.ofNat (0x80 + n % 64)]

/-- The bytes of a text, unless it holds a surrogate that stands for no byte. -/
def encode : Text → Option Bytes
  | [] => some []
  | c :: t => (encodePoint c).bind fun b => (encode t).map (b ++ ·)

/-- A byte `10xxxxxx`. -/
def isTail (b : UInt8) : Bool := 0x80 ≤ b && b ≤ 0xBF

def payload (b : UInt8) : Nat := b.toNat - 0x80

/-- A character's code point, if `n` is in `[least, 0x10FFFF]` and no surrogate. -/
def character? (least n : Nat) : Option CodePoint :=
  (CodePoint.ofNat? n).filter fun c => least ≤ n && !c.isSurrogate

/-- The well-formed sequence at the head: its character and how many bytes follow
the first. -/
def sequence? : Bytes → Option (CodePoint × Nat)
  | [] => none
  | a :: t =>
    let n := a.toNat
    if n < 0x80 then some (CodePoint.ofByte a, 0)
    else if n < 0xC0 then none
    else if n < 0xE0 then
      match t with
      | b :: _ =>
        if isTail b then (character? 0x80 ((n - 0xC0) * 64 + payload b)).map (·, 1) else none
      | _ => none
    else if n < 0xF0 then
      match t with
      | b :: c :: _ =>
        if isTail b && isTail c then
          (character? 0x800 ((n - 0xE0) * 4096 + payload b * 64 + payload c)).map (·, 2)
        else none
      | _ => none
    else
      match t with
      | b :: c :: d :: _ =>
        if isTail b && isTail c && isTail d then
          (character? 0x10000
            ((n - 0xF0) * 262144 + payload b * 4096 + payload c * 64 + payload d)).map (·, 3)
        else none
      | _ => none

/-- The surrogate that stands for a byte of no character. -/
def escapeByte (b : UInt8) : CodePoint := ⟨0xDC00 + b.toNat, by have := b.toNat_lt; omega⟩

/-- Decodes after `skip` bytes that belong to a character already read. -/
def decodeFrom : Nat → Bytes → Text
  | _, [] => []
  | skip + 1, _ :: t => decodeFrom skip t
  | 0, a :: t =>
    match sequence? (a :: t) with
    | some (c, more) => c :: decodeFrom more t
    | none => escapeByte a :: decodeFrom 0 t

/-- The text of any byte string. -/
def decode (b : Bytes) : Text := decodeFrom 0 b

/-- The text of a well-formed byte string only. -/
def decodeStrict? (b : Bytes) : Option Text :=
  let t := decode b
  if t.hasSurrogate then none else some t

theorem encode_append (s t : Text) :
    encode (s ++ t) = (encode s).bind fun a => (encode t).map (a ++ ·) := by
  induction s with
  | nil => cases h : encode t <;> simp [encode, h]
  | cons c s ih =>
    simp only [List.cons_append, encode, ih]
    cases encodePoint c <;> cases encode s <;> cases encode t <;> simp

theorem encodePoint_isSome_iff (c : CodePoint) :
    (encodePoint c).isSome ↔ (c.isSurrogate → c.isEscapedByte) := by
  have hs : c.isSurrogate = true → 0xD800 ≤ c.val := by simp [CodePoint.isSurrogate]; omega
  unfold encodePoint
  dsimp only
  split
  · simp; intro h; have := hs h; omega
  split
  · simp; intro h; have := hs h; omega
  split
  · split <;> simp_all
  split <;> simp_all

theorem encode_isSome_iff (t : Text) :
    (encode t).isSome ↔ ∀ c ∈ t, c.isSurrogate → c.isEscapedByte := by
  induction t with
  | nil => simp [encode]
  | cons c t ih =>
    rw [List.forall_mem_cons, ← ih, ← encodePoint_isSome_iff, encode]
    cases encodePoint c <;> cases encode t <;> simp

end ColorMarkup.Utf8
