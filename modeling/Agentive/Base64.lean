import Mathlib.Data.Nat.Notation

/-! The base64 encoding with its standard alphabet and padding: three bytes are four characters, and
what is left over is filled up. -/

namespace Base64

def symbol (n : Nat) : Char :=
  if n < 26 then Char.ofNat (n + 65)
  else if n < 52 then Char.ofNat (n + 71)
  else if n < 62 then Char.ofNat (n - 4)
  else if n = 62 then '+'
  else '/'

def sextet (c : Char) : Option Nat :=
  (List.range 64).find? fun n => symbol n = c

theorem sextet_symbol {n : Nat} (h : n < 64) : sextet (symbol n) = some n := by
  have hall : ∀ m : Fin 64, sextet (symbol m) = some m.val := by decide
  exact hall ⟨n, h⟩

theorem symbol_ne_pad {n : Nat} (h : n < 64) : symbol n ≠ '=' := by
  have hall : ∀ m : Fin 64, symbol m ≠ '=' := by decide
  exact hall ⟨n, h⟩

def encodeChars : List UInt8 → List Char
  | [] => []
  | [a] => [symbol (a.toNat / 4), symbol (a.toNat % 4 * 16), '=', '=']
  | [a, b] =>
    [symbol (a.toNat / 4), symbol (a.toNat % 4 * 16 + b.toNat / 16), symbol (b.toNat % 16 * 4), '=']
  | a :: b :: c :: rest =>
    symbol (a.toNat / 4) :: symbol (a.toNat % 4 * 16 + b.toNat / 16) ::
      symbol (b.toNat % 16 * 4 + c.toNat / 64) :: symbol (c.toNat % 64) :: encodeChars rest

/-- The bytes of four characters; the bits that padding leaves over are zero. -/
def decodeGroup (x y z t : Char) : Option (List UInt8) := do
  let p ← sextet x
  let q ← sextet y
  if z = '=' then
    if t = '=' ∧ q % 16 = 0 then some [UInt8.ofNat (p * 4 + q / 16)] else none
  else
    let r ← sextet z
    if t = '=' then
      if r % 4 = 0 then
        some [UInt8.ofNat (p * 4 + q / 16), UInt8.ofNat (q % 16 * 16 + r / 4)]
      else none
    else
      let s ← sextet t
      some [UInt8.ofNat (p * 4 + q / 16), UInt8.ofNat (q % 16 * 16 + r / 4),
        UInt8.ofNat (r % 4 * 64 + s)]

/-- Only the last four characters may be padded. -/
def decodeChars : List Char → Option (List UInt8)
  | [] => some []
  | x :: y :: z :: t :: rest =>
    if t = '=' ∧ rest ≠ [] then none
    else do
      let bytes ← decodeGroup x y z t
      let more ← decodeChars rest
      some (bytes ++ more)
  | _ => none

def encode (bytes : List UInt8) : String := String.ofList (encodeChars bytes)

def decode (text : String) : Option (List UInt8) := decodeChars text.toList

theorem ofNat_eq {a : UInt8} {n : Nat} (h : n = a.toNat) : UInt8.ofNat n = a := by
  rw [h, UInt8.ofNat_toNat]

theorem decodeGroup_one (a : UInt8) :
    decodeGroup (symbol (a.toNat / 4)) (symbol (a.toNat % 4 * 16)) '=' '=' = some [a] := by
  have ha := a.toNat_lt
  have hp : sextet (symbol (a.toNat / 4)) = some (a.toNat / 4) := sextet_symbol (by omega)
  have hq : sextet (symbol (a.toNat % 4 * 16)) = some (a.toNat % 4 * 16) :=
    sextet_symbol (by omega)
  have hbyte : UInt8.ofNat (a.toNat / 4 * 4 + a.toNat % 4 * 16 / 16) = a := ofNat_eq (by omega)
  simp only [decodeGroup, hp, hq, Option.bind_eq_bind, Option.bind_some]
  rw [if_pos trivial, if_pos ⟨trivial, by omega⟩, hbyte]

theorem decodeGroup_two (a b : UInt8) :
    decodeGroup (symbol (a.toNat / 4)) (symbol (a.toNat % 4 * 16 + b.toNat / 16))
      (symbol (b.toNat % 16 * 4)) '=' = some [a, b] := by
  have ha := a.toNat_lt
  have hb := b.toNat_lt
  have hp : sextet (symbol (a.toNat / 4)) = some (a.toNat / 4) := sextet_symbol (by omega)
  have hq : sextet (symbol (a.toNat % 4 * 16 + b.toNat / 16)) =
      some (a.toNat % 4 * 16 + b.toNat / 16) := sextet_symbol (by omega)
  have hr : sextet (symbol (b.toNat % 16 * 4)) = some (b.toNat % 16 * 4) :=
    sextet_symbol (by omega)
  have hfirst : UInt8.ofNat (a.toNat / 4 * 4 + (a.toNat % 4 * 16 + b.toNat / 16) / 16) = a :=
    ofNat_eq (by omega)
  have hsecond : UInt8.ofNat ((a.toNat % 4 * 16 + b.toNat / 16) % 16 * 16 +
      b.toNat % 16 * 4 / 4) = b := ofNat_eq (by omega)
  simp only [decodeGroup, hp, hq, hr, Option.bind_eq_bind, Option.bind_some]
  rw [if_neg (symbol_ne_pad (by omega)), if_pos trivial, if_pos (by omega), hfirst, hsecond]

theorem decodeGroup_three (a b c : UInt8) :
    decodeGroup (symbol (a.toNat / 4)) (symbol (a.toNat % 4 * 16 + b.toNat / 16))
      (symbol (b.toNat % 16 * 4 + c.toNat / 64)) (symbol (c.toNat % 64)) = some [a, b, c] := by
  have ha := a.toNat_lt
  have hb := b.toNat_lt
  have hc := c.toNat_lt
  have hp : sextet (symbol (a.toNat / 4)) = some (a.toNat / 4) := sextet_symbol (by omega)
  have hq : sextet (symbol (a.toNat % 4 * 16 + b.toNat / 16)) =
      some (a.toNat % 4 * 16 + b.toNat / 16) := sextet_symbol (by omega)
  have hr : sextet (symbol (b.toNat % 16 * 4 + c.toNat / 64)) =
      some (b.toNat % 16 * 4 + c.toNat / 64) := sextet_symbol (by omega)
  have hs : sextet (symbol (c.toNat % 64)) = some (c.toNat % 64) := sextet_symbol (by omega)
  have hfirst : UInt8.ofNat (a.toNat / 4 * 4 + (a.toNat % 4 * 16 + b.toNat / 16) / 16) = a :=
    ofNat_eq (by omega)
  have hsecond : UInt8.ofNat ((a.toNat % 4 * 16 + b.toNat / 16) % 16 * 16 +
      (b.toNat % 16 * 4 + c.toNat / 64) / 4) = b := ofNat_eq (by omega)
  have hthird : UInt8.ofNat ((b.toNat % 16 * 4 + c.toNat / 64) % 4 * 64 + c.toNat % 64) = c :=
    ofNat_eq (by omega)
  simp only [decodeGroup, hp, hq, hr, hs, Option.bind_eq_bind, Option.bind_some]
  rw [if_neg (symbol_ne_pad (by omega)), if_neg (symbol_ne_pad (by omega)), hfirst, hsecond,
    hthird]

theorem decodeChars_encodeChars (bytes : List UInt8) :
    decodeChars (encodeChars bytes) = some bytes := by
  induction bytes using encodeChars.induct with
  | case1 => rfl
  | case2 a => simp [encodeChars, decodeChars, decodeGroup_one]
  | case3 a b => simp [encodeChars, decodeChars, decodeGroup_two]
  | case4 a b c rest ih =>
    have hpad : symbol (c.toNat % 64) ≠ '=' := symbol_ne_pad (by omega)
    simp [encodeChars, decodeChars, decodeGroup_three, hpad, ih]

theorem decode_encode (bytes : List UInt8) : decode (encode bytes) = some bytes := by
  rw [decode, encode, String.toList_ofList, decodeChars_encodeChars]

theorem length_encodeChars (bytes : List UInt8) :
    (encodeChars bytes).length = 4 * ((bytes.length + 2) / 3) := by
  induction bytes using encodeChars.induct with
  | case1 => rfl
  | case2 a => simp [encodeChars]
  | case3 a b => simp [encodeChars]
  | case4 a b c rest ih =>
    simp only [encodeChars, List.length_cons, ih]
    omega

end Base64
