/-!
# Text

Script text is a sequence of code points. A lone surrogate is a code point like any other, so a text can
hold what a `String` cannot, and lengths and positions count code points throughout.

## Main definitions

* `Text`: a list of code points, with `Text.ofString` for literals.
* `Text.indexOf?`, `Text.lastIndexOf?`: the first and last occurrence of a text in another.
* `Text.splitOn`, `Text.replaceAll`, `Text.joinWith`: cutting at a separator and putting together again.
* `Text.ofNat`, `Text.ofInt`, `Text.ofNatHex`: numerals.
-/

namespace ScriptEngine

/-- A Unicode code point, surrogates included. -/
abbrev CodePoint := Nat

/-- A sequence of code points. -/
abbrev Text := List CodePoint

namespace Text

/-- The code points of a literal. -/
def ofString (s : String) : Text := s.toList.map Char.toNat

instance : Coe String Text := ⟨ofString⟩

/-- The text as a `String`, when it holds no surrogate. -/
def toString? (t : Text) : Option String :=
  if t.all (fun c => c < 0xD800 || 0xDFFF < c) then some (String.ofList (t.map Char.ofNat)) else none

/-- Whether `t` starts with `start`. -/
def startsWith (t start : Text) : Bool := start.isPrefixOf t

/-- The part of `t` from position `from_` up to, not including, position `to`. -/
def slice (t : Text) (start stop : Nat) : Text := (t.take stop).drop start

/-! ## Searching -/

/-- The position of the first occurrence of `needle` in `t`. -/
def indexOf? (needle : Text) : Text → Option Nat
  | [] => if needle.isEmpty then some 0 else none
  | c :: rest =>
    if needle.isPrefixOf (c :: rest) then some 0 else (indexOf? needle rest).map (· + 1)

/-- The first occurrence of `needle` at or after position `start`. -/
def indexOfFrom? (needle t : Text) (start : Nat) : Option Nat :=
  if t.length < start then none else (indexOf? needle (t.drop start)).map (· + start)

/-- The last position at most `start` where `needle` occurs, searching backwards. -/
def lastIndexOf? (needle t : Text) : Nat → Option Nat
  | 0 => if needle.isPrefixOf t then some 0 else none
  | i + 1 => if needle.isPrefixOf (t.drop (i + 1)) then some (i + 1) else lastIndexOf? needle t i

/-! ## Cutting and joining -/

/-- Cuts `t` at the leftmost occurrences of a non-empty separator; `skip` code points of the separator are
still to be dropped, and `piece` is the current piece backwards. -/
def splitLoop (sep : Text) (skip : Nat) (piece : Text) : Text → List Text
  | [] => [piece.reverse]
  | c :: rest =>
    match skip with
    | n + 1 => splitLoop sep n piece rest
    | 0 =>
      if sep.isPrefixOf (c :: rest) then piece.reverse :: splitLoop sep (sep.length - 1) [] rest
      else splitLoop sep 0 (c :: piece) rest

/-- The pieces of `t` between the leftmost non-overlapping occurrences of the non-empty text `sep`. -/
def splitOn (t sep : Text) : List Text := splitLoop sep 0 [] t

/-- The texts in order with `sep` between each two. -/
def joinWith (sep : Text) : List Text → Text
  | [] => []
  | [t] => t
  | t :: rest => t ++ sep ++ joinWith sep rest

/-- Each leftmost occurrence of the non-empty text `old` replaced by `new`. -/
def replaceAll (t old new : Text) : Text := joinWith new (splitOn t old)

/-- `t` without the code points at its front that satisfy `p`. -/
def trimStart (p : CodePoint → Bool) (t : Text) : Text := t.dropWhile p

/-- `t` without the code points at its end that satisfy `p`. -/
def trimEnd (p : CodePoint → Bool) (t : Text) : Text := (t.reverse.dropWhile p).reverse

/-- `t` without the code points at both ends that satisfy `p`. -/
def trim (p : CodePoint → Bool) (t : Text) : Text := trimEnd p (trimStart p t)

/-! ## Order -/

/-- The order of texts by code point; a proper beginning comes first. -/
def compare : Text → Text → Ordering
  | [], [] => .eq
  | [], _ :: _ => .lt
  | _ :: _, [] => .gt
  | a :: s, b :: t => if a < b then .lt else if b < a then .gt else compare s t

/-! ## Numerals -/

/-- The digit character of a value below 36. -/
def digitPoint (d : Nat) : CodePoint := if d < 10 then 48 + d else 87 + d

/-- The digits of `n` in the given base, most significant first, before `rest`; `fuel` bounds their number. -/
def digitsLoop (base : Nat) : Nat → Nat → Text → Text
  | 0, _, rest => rest
  | fuel + 1, n, rest =>
    let rest := digitPoint (n % base) :: rest
    if n / base = 0 then rest else digitsLoop base fuel (n / base) rest

/-- The numeral of `n` in a base from 2 to 36, in lower case and without leading zeros. -/
def ofNatBase (base n : Nat) : Text := digitsLoop base (n.log2 + 1) n []

/-- The decimal numeral of `n`. -/
def ofNat (n : Nat) : Text := ofNatBase 10 n

/-- The decimal numeral of `i`, with a minus sign when it is negative. -/
def ofInt (i : Int) : Text := if i < 0 then 45 :: ofNat i.natAbs else ofNat i.natAbs

/-- A run of the digit zero. -/
def zeros (n : Nat) : Text := List.replicate n 48

/-- `t` with zeros in front up to the given width. -/
def padZero (width : Nat) (t : Text) : Text := zeros (width - t.length) ++ t

/-- The hexadecimal numeral of `n` in lower case, at least `width` digits long. -/
def ofNatHex (width n : Nat) : Text := padZero width (ofNatBase 16 n)

/-- The value of an ASCII digit or letter as a digit; letters of either case count from ten. -/
def digitValue? (c : CodePoint) : Option Nat :=
  if 48 ≤ c && c ≤ 57 then some (c - 48)
  else if 97 ≤ c && c ≤ 122 then some (c - 87)
  else if 65 ≤ c && c ≤ 90 then some (c - 55)
  else none

/-- Whether `c` is an ASCII hexadecimal digit. -/
def isHexDigit (c : CodePoint) : Bool :=
  (48 ≤ c && c ≤ 57) || (97 ≤ c && c ≤ 102) || (65 ≤ c && c ≤ 70)

/-- Whether `c` is an ASCII decimal digit. -/
def isAsciiDigit (c : CodePoint) : Bool := 48 ≤ c && c ≤ 57

/-- The number whose digits in the given base are the code points of `t`; other code points count as zero. -/
def toNatBase (base : Nat) (t : Text) : Nat :=
  t.foldl (fun n c => base * n + (digitValue? c).getD 0) 0

end Text

end ScriptEngine
