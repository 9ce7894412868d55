import Mathlib.Tactic

/-!
# Base64

The encoding of RFC 4648 over an alphabet: three bytes are 24 bits, which are four groups of six.
At the end of the bytes the last group is filled up with zero bits, and the padding stands for the
groups that are missing. The decoder is strict: it takes padding at the end only, and no bits that
the encoding does not use.
-/

namespace Liblw.Lib

/-- 64 symbols, and one for the padding. -/
structure Base64Alphabet where
  symbols : List Char
  padding : Char
  length_symbols : symbols.length = 64
  nodup_symbols : symbols.Nodup
  padding_notMem : padding ∉ symbols

namespace Base64Alphabet

variable (alphabet : Base64Alphabet)

/-- The symbol for six bits. -/
def symbol (bits : Fin 64) : Char :=
  alphabet.symbols.get (bits.cast alphabet.length_symbols.symm)

def valueOf (c : Char) : Option Nat :=
  if c ∈ alphabet.symbols then some (alphabet.symbols.idxOf c) else none

/-- The group of six bits that stands `shift` bits from the right. -/
def sextet (bits shift : Nat) : Fin 64 := Fin.ofNat 64 (bits / 2 ^ shift)

def encode : List UInt8 → List Char
  | first :: second :: third :: rest =>
      let bits := first.toNat * 2 ^ 16 + second.toNat * 2 ^ 8 + third.toNat
      alphabet.symbol (sextet bits 18) :: alphabet.symbol (sextet bits 12) ::
        alphabet.symbol (sextet bits 6) :: alphabet.symbol (sextet bits 0) :: encode rest
  | [first, second] =>
      let bits := first.toNat * 2 ^ 16 + second.toNat * 2 ^ 8
      [alphabet.symbol (sextet bits 18), alphabet.symbol (sextet bits 12),
        alphabet.symbol (sextet bits 6), alphabet.padding]
  | [first] =>
      let bits := first.toNat * 2 ^ 16
      [alphabet.symbol (sextet bits 18), alphabet.symbol (sextet bits 12), alphabet.padding,
        alphabet.padding]
  | [] => []

/-- The byte that stands `shift` bits from the right. -/
def octet (bits shift : Nat) : UInt8 := UInt8.ofNat (bits / 2 ^ shift)

/-- The bytes of one group, which is the last one if it has padding. -/
def decodeGroup (w x y z : Char) (last : Bool) : Option (List UInt8) := do
  let w ← alphabet.valueOf w
  let x ← alphabet.valueOf x
  if y = alphabet.padding then
    let bits := w * 2 ^ 18 + x * 2 ^ 12
    if z = alphabet.padding ∧ last ∧ bits % 2 ^ 16 = 0 then some [octet bits 16] else none
  else
    let y ← alphabet.valueOf y
    if z = alphabet.padding then
      let bits := w * 2 ^ 18 + x * 2 ^ 12 + y * 2 ^ 6
      if last ∧ bits % 2 ^ 8 = 0 then some [octet bits 16, octet bits 8] else none
    else
      let z ← alphabet.valueOf z
      let bits := w * 2 ^ 18 + x * 2 ^ 12 + y * 2 ^ 6 + z
      some [octet bits 16, octet bits 8, octet bits 0]

theorem symbol_mem (bits : Fin 64) : alphabet.symbol bits ∈ alphabet.symbols := by
  apply List.get_mem

theorem symbol_ne_padding (bits : Fin 64) : alphabet.symbol bits ≠ alphabet.padding := by
  intro hequal
  exact alphabet.padding_notMem (hequal ▸ alphabet.symbol_mem bits)

@[simp] theorem valueOf_symbol (bits : Fin 64) :
    alphabet.valueOf (alphabet.symbol bits) = some bits.val := by
  rw [valueOf, if_pos (alphabet.symbol_mem bits)]
  congr 1
  exact alphabet.nodup_symbols.idxOf_getElem bits.val _

theorem val_sextet (bits shift : Nat) : (sextet bits shift).val = bits / 2 ^ shift % 64 := by
  simp [sextet]

theorem octet_eq {bits shift : Nat} {byte : UInt8}
    (hbyte : bits / 2 ^ shift % 256 = byte.toNat) : octet bits shift = byte := by
  apply UInt8.toNat_inj.1
  rw [octet, UInt8.toNat_ofNat']
  exact hbyte

def decode : List Char → Option (List UInt8)
  | [] => some []
  | w :: x :: y :: z :: rest => do
      let first ← alphabet.decodeGroup w x y z rest.isEmpty
      let later ← decode rest
      some (first ++ later)
  | _ => none

/-! ## What the decoder makes of the encoding -/

section Group

variable {bits : Nat}

theorem decodeGroup_three (hbits : bits < 2 ^ 24) (last : Bool) :
    alphabet.decodeGroup (alphabet.symbol (sextet bits 18)) (alphabet.symbol (sextet bits 12))
      (alphabet.symbol (sextet bits 6)) (alphabet.symbol (sextet bits 0)) last
      = some [octet bits 16, octet bits 8, octet bits 0] := by
  have hsum : (sextet bits 18).val * 2 ^ 18 + (sextet bits 12).val * 2 ^ 12
      + (sextet bits 6).val * 2 ^ 6 + (sextet bits 0).val = bits := by
    simp only [val_sextet]
    omega
  simp only [decodeGroup, valueOf_symbol, Option.bind_eq_bind, Option.bind_some,
    symbol_ne_padding, if_false, hsum]

theorem decodeGroup_two (hbits : bits < 2 ^ 24) (hunused : bits % 2 ^ 8 = 0) :
    alphabet.decodeGroup (alphabet.symbol (sextet bits 18)) (alphabet.symbol (sextet bits 12))
      (alphabet.symbol (sextet bits 6)) alphabet.padding true
      = some [octet bits 16, octet bits 8] := by
  have hsum : (sextet bits 18).val * 2 ^ 18 + (sextet bits 12).val * 2 ^ 12
      + (sextet bits 6).val * 2 ^ 6 = bits := by
    simp only [val_sextet]
    omega
  rw [decodeGroup, valueOf_symbol, valueOf_symbol, valueOf_symbol, Option.bind_eq_bind,
    Option.bind_some, Option.bind_some, if_neg (alphabet.symbol_ne_padding _), Option.bind_some,
    if_pos rfl, hsum]
  exact if_pos ⟨rfl, hunused⟩

theorem decodeGroup_one (hbits : bits < 2 ^ 24) (hunused : bits % 2 ^ 16 = 0) :
    alphabet.decodeGroup (alphabet.symbol (sextet bits 18)) (alphabet.symbol (sextet bits 12))
      alphabet.padding alphabet.padding true = some [octet bits 16] := by
  have hsum : (sextet bits 18).val * 2 ^ 18 + (sextet bits 12).val * 2 ^ 12 = bits := by
    simp only [val_sextet]
    omega
  rw [decodeGroup, valueOf_symbol, valueOf_symbol, Option.bind_eq_bind, Option.bind_some,
    Option.bind_some, if_pos rfl, hsum]
  exact if_pos ⟨rfl, rfl, hunused⟩

end Group

/-- **The round trip.** The decoder recovers the bytes from their encoding. -/
theorem decode_encode (bytes : List UInt8) :
    alphabet.decode (alphabet.encode bytes) = some bytes := by
  induction bytes using encode.induct with
  | case1 first second third rest ih =>
    have hfirst := first.toNat_lt
    have hsecond := second.toNat_lt
    have hthird := third.toNat_lt
    simp only [encode, decode, ih, Option.bind_eq_bind, Option.bind_some]
    rw [decodeGroup_three alphabet (by omega), @octet_eq _ 16 first (by omega),
      @octet_eq _ 8 second (by omega), @octet_eq _ 0 third (by omega)]
    simp
  | case2 first second =>
    have hfirst := first.toNat_lt
    have hsecond := second.toNat_lt
    simp only [encode, decode, List.isEmpty_nil, Option.bind_eq_bind]
    rw [decodeGroup_two alphabet (by omega) (by omega), @octet_eq _ 16 first (by omega),
      @octet_eq _ 8 second (by omega)]
    simp
  | case3 first =>
    have hfirst := first.toNat_lt
    simp only [encode, decode, List.isEmpty_nil, Option.bind_eq_bind]
    rw [decodeGroup_one alphabet (by omega) (by omega), @octet_eq _ 16 first (by omega)]
    simp
  | case4 => simp only [encode, decode]

theorem length_encode (bytes : List UInt8) :
    (alphabet.encode bytes).length = 4 * ((bytes.length + 2) / 3) := by
  induction bytes using encode.induct with
  | case1 first second third rest ih =>
    simp only [encode, List.length_cons, ih]
    omega
  | case2 first second => simp [encode]
  | case3 first => simp [encode]
  | case4 => simp [encode]

/-! ## The encoding, group by group -/

theorem encode_eq_append {bytes : List UInt8} (hbytes : bytes ≠ []) :
    alphabet.encode bytes = alphabet.encode (bytes.take 3) ++ alphabet.encode (bytes.drop 3) := by
  match bytes with
  | first :: second :: third :: rest => simp [encode]
  | [first, second] => simp [encode]
  | [first] => simp [encode]

theorem length_encode_take {bytes : List UInt8} (hbytes : bytes ≠ []) :
    (alphabet.encode (bytes.take 3)).length = 4 := by
  have hlength := List.length_pos_iff.2 hbytes
  rw [length_encode, List.length_take]
  omega

/-- The characters of a group are the encoding of its three bytes. -/
theorem getElem?_encode (bytes : List UInt8) (group : Nat) {place : Nat} (hplace : place < 4) :
    (alphabet.encode bytes)[4 * group + place]? =
      (alphabet.encode ((bytes.drop (3 * group)).take 3))[place]? := by
  induction group generalizing bytes with
  | zero =>
    by_cases hbytes : bytes = []
    · simp [hbytes, encode]
    · rw [encode_eq_append alphabet hbytes, List.getElem?_append_left]
      · simp
      · rw [length_encode_take alphabet hbytes]
        omega
  | succ group ih =>
    by_cases hbytes : bytes = []
    · simp [hbytes, encode]
    · have hfour := length_encode_take alphabet hbytes
      rw [encode_eq_append alphabet hbytes, List.getElem?_append_right (by omega), hfour]
      calc (alphabet.encode (bytes.drop 3))[4 * (group + 1) + place - 4]?
          = (alphabet.encode (bytes.drop 3))[4 * group + place]? := by
            congr 1
            omega
        _ = (alphabet.encode (((bytes.drop 3).drop (3 * group)).take 3))[place]? := ih _
        _ = (alphabet.encode ((bytes.drop (3 * (group + 1))).take 3))[place]? := by
            rw [List.drop_drop]
            congr 4
            omega

/-! ## The alphabet of RFC 4648 -/

/-- The capital letters, the small letters, the digits, `+` and `/`. -/
def standardSymbols : List Char :=
  (List.range 26).map (fun i => Char.ofNat ('A'.toNat + i)) ++
    (List.range 26).map (fun i => Char.ofNat ('a'.toNat + i)) ++
    (List.range 10).map (fun i => Char.ofNat ('0'.toNat + i)) ++ ['+', '/']

theorem nodup_standardSymbols : standardSymbols.Nodup :=
  List.Nodup.of_map Char.toNat (by decide)

def standard : Base64Alphabet where
  symbols := standardSymbols
  padding := '='
  length_symbols := by decide
  nodup_symbols := nodup_standardSymbols
  padding_notMem := by decide

end Base64Alphabet

end Liblw.Lib
