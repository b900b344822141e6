import Mathlib.Algebra.Order.Floor.Div
import Mathlib.Data.Nat.Bitwise
import Mathlib.GroupTheory.GroupAction.Ring

namespace YirangMQ.Utilities

/-!
# Base64

Texts are lists of octets, as `std::string` is one.  `Converter::to_base64` writes a preallocated
text of `=` four characters at a time, and patches the padding of the last group in afterwards;
`Converter::from_base64` reserves a result by a formula over the length of the text, and writes an
octet for every eight bits it collects.  Both write by index, so a write outside what was
reserved is a fault of its own here and not a silent one.

`base64` says what the encoder is for, group by group; `toBase64_eq` connects the two.
-/

/-- What a conversion can do other than return. -/
inductive Fault
  /-- a vector was asked for a length that wrapped below zero -/
  | lengthError
  /-- a write at or past the end of what was reserved -/
  | outOfBounds
  deriving DecidableEq, Repr

/-- `result[index] = octet` -/
def write (result : List UInt8) (index : Nat) (octet : UInt8) : Except Fault (List UInt8) :=
  if index < result.length then .ok (result.set index octet) else .error .outOfBounds

/-- The padding character. -/
def pad : UInt8 := '='.toUInt8

/-! ### The encoder -/

/-- `encode_table` -/
def encodeTable : List UInt8 :=
  "ABCDEFGHIJKLMNOPQRSTUVWXYZabcdefghijklmnopqrstuvwxyz0123456789+/".toList.map Char.toUInt8

/-- `encode_table[sextet]` -/
def letter (sextet : Nat) : UInt8 := encodeTable.getD sextet 0

/-- `i < input_length ? value[i++] : 0`, over what is left of the input. -/
def nextOctet : List UInt8 → Nat × List UInt8
  | [] => (0, [])
  | octet :: rest => (octet.toNat, rest)

/-- An octet is read or there is none left. -/
theorem nextOctet_length (rest : List UInt8) : (nextOctet rest).2.length ≤ rest.length := by
  cases rest with
  | nil => exact Nat.le_refl 0
  | cons octet rest => exact Nat.le_succ rest.length

/-- The four characters that a triple of octets is written as. -/
def writeTriple (triple j : Nat) (result : List UInt8) : Except Fault (List UInt8) := do
  let result ← write result j (letter (triple >>> 18 &&& 0x3F))
  let result ← write result (j + 1) (letter (triple >>> 12 &&& 0x3F))
  let result ← write result (j + 2) (letter (triple >>> 6 &&& 0x3F))
  write result (j + 3) (letter (triple &&& 0x3F))

/-- The loop of `to_base64`, over what is left of the input. -/
def encodeLoop (rest : List UInt8) (j : Nat) (result : List UInt8) : Except Fault (List UInt8) :=
  match rest with
  | [] => .ok result
  | octetA :: rest =>
    let b := nextOctet rest
    let c := nextOctet b.2
    let triple := octetA.toNat <<< 16 ||| b.1 <<< 8 ||| c.1
    match writeTriple triple j result with
    | .error fault => .error fault
    | .ok result => encodeLoop c.2 (j + 4) result
termination_by rest.length
decreasing_by
  have hb := nextOctet_length rest
  have hc := nextOctet_length (nextOctet rest).2
  simp only [List.length_cons]
  omega

/-- `to_base64` -/
def toBase64 (value : List UInt8) : Except Fault (List UInt8) :=
  if value = [] then
    .ok []
  else do
    let outputLength := 4 * ((value.length + 2) / 3)
    let result ← encodeLoop value 0 (List.replicate outputLength pad)
    if value.length % 3 = 1 then
      let result ← write result (outputLength - 1) pad
      write result (outputLength - 2) pad
    else if value.length % 3 = 2 then
      write result (outputLength - 1) pad
    else
      .ok result

/-! ### The decoder -/

/-- `decode_table`, with `64` for what is no letter -/
def decodeTable : List Nat := [
  64, 64, 64, 64, 64, 64, 64, 64, 64, 64, 64, 64, 64, 64, 64, 64,
  64, 64, 64, 64, 64, 64, 64, 64, 64, 64, 64, 64, 64, 64, 64, 64,
  64, 64, 64, 64, 64, 64, 64, 64, 64, 64, 64, 62, 64, 64, 64, 63,
  52, 53, 54, 55, 56, 57, 58, 59, 60, 61, 64, 64, 64, 64, 64, 64,
  64,  0,  1,  2,  3,  4,  5,  6,  7,  8,  9, 10, 11, 12, 13, 14,
  15, 16, 17, 18, 19, 20, 21, 22, 23, 24, 25, 64, 64, 64, 64, 64,
  64, 26, 27, 28, 29, 30, 31, 32, 33, 34, 35, 36, 37, 38, 39, 40,
  41, 42, 43, 44, 45, 46, 47, 48, 49, 50, 51, 64, 64, 64, 64, 64]

/-- `c >= 128 || decode_table[c] == 64`: the character is passed over. -/
def ignored (c : UInt8) : Bool := 128 ≤ c.toNat || decodeTable.getD c.toNat 64 == 64

/-- The variables of the loop of `from_base64`. -/
structure Decoder where
  buffer : Nat
  bitsCollected : Nat
  j : Nat
  result : List UInt8

/-- One letter: `buffer` is a `uint32_t`, so the bits shifted out of it are lost. -/
def Decoder.collect (d : Decoder) (sextet : Nat) : Except Fault Decoder :=
  let buffer := d.buffer <<< 6 % 2 ^ 32 ||| sextet
  let bitsCollected := d.bitsCollected + 6
  if 8 ≤ bitsCollected then
    let bitsCollected := bitsCollected - 8
    match write d.result d.j (UInt8.ofNat (buffer >>> bitsCollected &&& 0xFF)) with
    | .error fault => .error fault
    | .ok result => .ok ⟨buffer, bitsCollected, d.j + 1, result⟩
  else
    .ok { d with buffer := buffer, bitsCollected := bitsCollected }

/-- The loop of `from_base64`. -/
def decodeLoop : List UInt8 → Decoder → Except Fault Decoder
  | [], d => .ok d
  | c :: rest, d =>
    if c = pad then
      .ok d
    else if ignored c then
      decodeLoop rest d
    else
      match d.collect (decodeTable.getD c.toNat 64) with
      | .error fault => .error fault
      | .ok d => decodeLoop rest d

/-- `padding`: how many of the last two characters are `=`. -/
def paddingOf (value : List UInt8) : Nat :=
  (if value[value.length - 1]? = some pad then 1 else 0) +
    if 1 < value.length ∧ value[value.length - 2]? = some pad then 1 else 0

/-- `from_base64` -/
def fromBase64 (value : List UInt8) : Except Fault (List UInt8) :=
  if value = [] then
    .ok []
  else
    let padding := paddingOf value
    let reserved := value.length / 4 * 3
    if reserved < padding then
      .error .lengthError
    else
      match decodeLoop value ⟨0, 0, 0, List.replicate (reserved - padding) 0⟩ with
      | .error fault => .error fault
      | .ok d => .ok (d.result.take d.j)

/-! ### The alphabet -/

/-- The octets of the letters. -/
theorem encodeTable_eq : encodeTable = [
      65, 66, 67, 68, 69, 70, 71, 72, 73, 74, 75, 76, 77, 78, 79, 80,
      81, 82, 83, 84, 85, 86, 87, 88, 89, 90, 97, 98, 99, 100, 101, 102,
      103, 104, 105, 106, 107, 108, 109, 110, 111, 112, 113, 114, 115, 116, 117, 118,
      119, 120, 121, 122, 48, 49, 50, 51, 52, 53, 54, 55, 56, 57, 43, 47] := by
  decide +kernel

/-- Decoding undoes encoding, a letter at a time. -/
theorem letter_spec : ∀ sextet < 64, letter sextet ≠ pad ∧ ignored (letter sextet) = false ∧
    decodeTable.getD (letter sextet).toNat 64 = sextet := by
  simp only [letter, encodeTable_eq]
  decide +kernel

/-- The table has a letter for each sextet. -/
theorem encodeTable_length : encodeTable.length = 64 := by
  rw [encodeTable_eq]
  rfl

/-- A sextet within the table is its letter. -/
theorem letter_eq {sextet : Nat} (h : sextet < encodeTable.length) :
    letter sextet = encodeTable[sextet] := by
  rw [letter, List.getD_eq_getElem]

/-- What the decoder does not pass over is the letter of its sextet. -/
theorem letter_decoded : ∀ code < 128, decodeTable.getD code 64 ≠ 64 →
    decodeTable.getD code 64 < 64 ∧ letter (decodeTable.getD code 64) = UInt8.ofNat code := by
  simp only [letter, encodeTable_eq]
  decide +kernel

/-- The decoder passes over exactly what the encoder never writes. -/
theorem ignored_iff (c : UInt8) : ignored c = true ↔ c ∉ encodeTable := by
  constructor
  · intro hignored hmem
    obtain ⟨sextet, hlt, heq⟩ := List.getElem_of_mem hmem
    obtain ⟨-, hread, -⟩ := letter_spec sextet (encodeTable_length ▸ hlt)
    rw [letter_eq hlt, heq, hignored] at hread
    cases hread
  · intro hmem
    by_contra hread
    simp only [ignored, Bool.or_eq_true, decide_eq_true_eq, beq_iff_eq, not_or] at hread
    obtain ⟨hlt, hletter⟩ := letter_decoded c.toNat (by omega) hread.2
    rw [UInt8.ofNat_toNat] at hletter
    have hinside : decodeTable.getD c.toNat 64 < encodeTable.length :=
      hlt.trans_eq encodeTable_length.symm
    rw [← hletter, letter_eq hinside] at hmem
    exact hmem (List.getElem_mem hinside)

/-! ### What the encoder writes -/

/-- The octets, regrouped six bits at a time; the last group is filled up with zero bits. -/
def sextets : List UInt8 → List Nat
  | [] => []
  | [a] => [a.toNat / 4, a.toNat % 4 * 16]
  | [a, b] => [a.toNat / 4, a.toNat % 4 * 16 + b.toNat / 16, b.toNat % 16 * 4]
  | a :: b :: c :: rest =>
    a.toNat / 4 :: (a.toNat % 4 * 16 + b.toNat / 16) :: (b.toNat % 16 * 4 + c.toNat / 64) ::
      c.toNat % 64 :: sextets rest

/-- How many `=` a text of so many octets ends with. -/
def pads (length : Nat) : Nat :=
  if length % 3 = 1 then 2 else if length % 3 = 2 then 1 else 0

/-- The Base64 text of some octets. -/
def base64 (value : List UInt8) : List UInt8 :=
  (sextets value).map letter ++ List.replicate (pads value.length) pad

/-- Six bits at a time, no sextet is beyond the table. -/
theorem sextets_lt : ∀ (value : List UInt8), ∀ sextet ∈ sextets value, sextet < 64
  | [] => by simp [sextets]
  | [a] => by
    have ha := a.toNat_lt
    simp only [sextets, List.mem_cons, List.not_mem_nil, or_false, forall_eq_or_imp, forall_eq]
    omega
  | [a, b] => by
    have ha := a.toNat_lt
    have hb := b.toNat_lt
    simp only [sextets, List.mem_cons, List.not_mem_nil, or_false, forall_eq_or_imp, forall_eq]
    omega
  | a :: b :: c :: rest => by
    have ha := a.toNat_lt
    have hb := b.toNat_lt
    have hc := c.toNat_lt
    have ih := sextets_lt rest
    simp only [sextets, List.mem_cons, forall_eq_or_imp]
    refine ⟨?_, ?_, ?_, ?_, ih⟩ <;> omega

/-- Whole triples need no padding. -/
theorem pads_add_three (length : Nat) : pads (length + 3) = pads length := by
  rw [pads, pads, Nat.add_mod_right]

/-- The letters and the padding fill quadruples. -/
theorem sextets_length : ∀ value : List UInt8,
    (sextets value).length + pads value.length = 4 * ((value.length + 2) / 3)
  | [] => by decide
  | [a] => by simp [sextets, pads]
  | [a, b] => by simp [sextets, pads]
  | a :: b :: c :: rest => by
    have ih := sextets_length rest
    have hpads : pads (rest.length + 1 + 1 + 1) = pads rest.length := pads_add_three rest.length
    simp only [sextets, List.length_cons, hpads]
    omega

/-- The length that `to_base64` reserves is that of the text. -/
theorem base64_length (value : List UInt8) :
    (base64 value).length = 4 * ((value.length + 2) / 3) := by
  rw [base64, List.length_append, List.length_map, List.length_replicate, sextets_length]

/-- No letter of the text is the padding character. -/
theorem mem_letters {value : List UInt8} {c : UInt8} (hc : c ∈ (sextets value).map letter) :
    c ≠ pad := by
  obtain ⟨sextet, hsextet, rfl⟩ := List.mem_map.mp hc
  exact (letter_spec sextet (sextets_lt value sextet hsextet)).1

/-! ### The encoder meets its specification -/

/-- Writing at the end of what comes before replaces the next octet. -/
theorem write_append (before : List UInt8) (old new : UInt8) (after : List UInt8) :
    write (before ++ old :: after) before.length new = .ok (before ++ new :: after) := by
  have hlt : before.length < (before ++ old :: after).length := by simp
  rw [write, if_pos hlt]
  simp

/-- Writing further on leaves what stands between as it is. -/
theorem write_within (before front : List UInt8) (old new : UInt8) (after : List UInt8) :
    write (before ++ (front ++ old :: after)) (before.length + front.length) new =
      .ok (before ++ (front ++ new :: after)) := by
  have hwrite := write_append (before ++ front) old new after
  rwa [List.length_append, List.append_assoc, List.append_assoc] at hwrite

/-- Shifts and masks of the triple are divisions and remainders of its octets. -/
theorem triple_eq {a b c : Nat} (hb : b < 256) (hc : c < 256) :
    a <<< 16 ||| b <<< 8 ||| c = a * 65536 + b * 256 + c := by
  have hlow : b <<< 8 < 2 ^ 16 := by
    rw [Nat.shiftLeft_eq]
    omega
  have hfirst : a <<< 16 ||| b <<< 8 = a <<< 16 + b <<< 8 :=
    (Nat.shiftLeft_add_eq_or_of_lt hlow a).symm
  have hsecond : a <<< 16 + b <<< 8 = (a * 256 + b) <<< 8 := by
    simp only [Nat.shiftLeft_eq]
    omega
  rw [hfirst, hsecond, ← Nat.shiftLeft_add_eq_or_of_lt (i := 8) (by omega) (a * 256 + b),
    Nat.shiftLeft_eq]
  omega

/-- A shift and a mask take one sextet out of a triple. -/
theorem sextet_of_triple (triple shift : Nat) :
    triple >>> shift &&& 0x3F = triple / 2 ^ shift % 64 := by
  rw [Nat.shiftRight_eq_div_pow]
  exact Nat.and_two_pow_sub_one_eq_mod (triple / 2 ^ shift) 6

/-- The four characters of a triple, written over whatever four were there. -/
theorem writeTriple_spec (a b c : UInt8) (before : List UInt8) (p q r s : UInt8)
    (after : List UInt8) :
    writeTriple (a.toNat <<< 16 ||| b.toNat <<< 8 ||| c.toNat) before.length
        (before ++ p :: q :: r :: s :: after) =
      .ok (before ++ [letter (a.toNat / 4), letter (a.toNat % 4 * 16 + b.toNat / 16),
        letter (b.toNat % 16 * 4 + c.toNat / 64), letter (c.toNat % 64)] ++ after) := by
  have ha := a.toNat_lt
  have hb := b.toNat_lt
  have hc := c.toNat_lt
  have hfirst : (a.toNat * 65536 + b.toNat * 256 + c.toNat) / 2 ^ 18 % 64 = a.toNat / 4 := by omega
  have hsecond : (a.toNat * 65536 + b.toNat * 256 + c.toNat) / 2 ^ 12 % 64 =
      a.toNat % 4 * 16 + b.toNat / 16 := by omega
  have hthird : (a.toNat * 65536 + b.toNat * 256 + c.toNat) / 2 ^ 6 % 64 =
      b.toNat % 16 * 4 + c.toNat / 64 := by omega
  have hfourth : (a.toNat * 65536 + b.toNat * 256 + c.toNat) &&& 0x3F = c.toNat % 64 := by
    have hmask := Nat.and_two_pow_sub_one_eq_mod (a.toNat * 65536 + b.toNat * 256 + c.toNat) 6
    have hlow : (a.toNat * 65536 + b.toNat * 256 + c.toNat) % 2 ^ 6 = c.toNat % 64 := by omega
    exact hmask.trans hlow
  rw [writeTriple, triple_eq hb hc, sextet_of_triple, sextet_of_triple, sextet_of_triple, hfirst,
    hsecond, hthird, hfourth, write_append]
  -- each further character is written after the ones there already are
  have h1 := fun w x => write_within before [letter (a.toNat / 4)] w x (r :: s :: after)
  have h2 := fun w x => write_within before
    [letter (a.toNat / 4), letter (a.toNat % 4 * 16 + b.toNat / 16)] w x (s :: after)
  have h3 := fun w x => write_within before [letter (a.toNat / 4),
    letter (a.toNat % 4 * 16 + b.toNat / 16), letter (b.toNat % 16 * 4 + c.toNat / 64)] w x after
  simp only [List.length_cons, List.length_nil, List.cons_append, List.nil_append] at h1 h2 h3
  show (do
    let result ← write (before ++ letter (a.toNat / 4) :: q :: r :: s :: after) _ _
    let result ← write result _ _
    write result _ _) = _
  rw [h1]
  show (do
    let result ← write (before ++ letter (a.toNat / 4) ::
      letter (a.toNat % 4 * 16 + b.toNat / 16) :: r :: s :: after) _ _
    write result _ _) = _
  rw [h2]
  show write (before ++ letter (a.toNat / 4) :: letter (a.toNat % 4 * 16 + b.toNat / 16) ::
    letter (b.toNat % 16 * 4 + c.toNat / 64) :: s :: after) _ _ = _
  rw [h3]
  simp

/-- The loop of the encoder leaves the letters of its input, with the letter of zero where the
    padding is to stand. -/
theorem encodeLoop_spec : ∀ (value before : List UInt8),
    encodeLoop value before.length
        (before ++ List.replicate (4 * ((value.length + 2) / 3)) pad) =
      .ok (before ++ (sextets value).map letter ++ List.replicate (pads value.length) (letter 0))
  | [], before => by
    rw [encodeLoop]
    simp [sextets, pads]
  | [a], before => by
    have hwrite := writeTriple_spec a 0 0 before pad pad pad pad []
    have hroom : List.replicate (4 * (([a].length + 2) / 3)) pad = [pad, pad, pad, pad] := by simp
    rw [encodeLoop, hroom]
    dsimp only [nextOctet]
    rw [show (0 : Nat) = (0 : UInt8).toNat from rfl, hwrite]
    dsimp only
    rw [encodeLoop]
    simp [sextets, pads]
  | [a, b], before => by
    have hwrite := writeTriple_spec a b 0 before pad pad pad pad []
    have hroom : List.replicate (4 * (([a, b].length + 2) / 3)) pad = [pad, pad, pad, pad] := by
      simp
    rw [encodeLoop, hroom]
    dsimp only [nextOctet]
    rw [show (0 : Nat) = (0 : UInt8).toNat from rfl, hwrite]
    dsimp only
    rw [encodeLoop]
    simp [sextets, pads]
  | a :: b :: c :: rest, before => by
    have hlength : 4 * (((a :: b :: c :: rest).length + 2) / 3) =
        4 * ((rest.length + 2) / 3) + 1 + 1 + 1 + 1 := by
      simp only [List.length_cons]
      omega
    have ih := encodeLoop_spec rest (before ++ [letter (a.toNat / 4),
      letter (a.toNat % 4 * 16 + b.toNat / 16), letter (b.toNat % 16 * 4 + c.toNat / 64),
      letter (c.toNat % 64)])
    rw [encodeLoop, hlength]
    dsimp only [nextOctet, List.replicate_succ]
    rw [writeTriple_spec]
    have hj : before.length + 4 = (before ++ [letter (a.toNat / 4),
        letter (a.toNat % 4 * 16 + b.toNat / 16), letter (b.toNat % 16 * 4 + c.toNat / 64),
        letter (c.toNat % 64)]).length := by simp
    dsimp only
    rw [hj, ih, List.length_cons, List.length_cons, List.length_cons, pads_add_three]
    simp [sextets]

/-- The encoder never writes out of bounds, and writes the Base64 text of its input. -/
theorem toBase64_eq (value : List UInt8) : toBase64 value = .ok (base64 value) := by
  have hlength := sextets_length value
  have hloop := encodeLoop_spec value []
  simp only [List.length_nil, List.nil_append] at hloop
  by_cases hempty : value = []
  · rw [toBase64, if_pos hempty, hempty]
    rfl
  rw [toBase64, if_neg hempty]
  dsimp only
  rw [hloop, base64]
  show (if value.length % 3 = 1 then _ else _) = _
  by_cases h1 : value.length % 3 = 1
  · -- one octet is left over, and the last two characters are patched
    have hpads : pads value.length = 2 := by rw [pads, if_pos h1]
    have hlast : 4 * ((value.length + 2) / 3) - 1 = ((sextets value).map letter).length + 1 := by
      rw [List.length_map]
      omega
    have hbefore : 4 * ((value.length + 2) / 3) - 2 = ((sextets value).map letter).length := by
      rw [List.length_map]
      omega
    have hwrite := write_within ((sextets value).map letter) [letter 0] (letter 0) pad []
    have hwrite' := write_append ((sextets value).map letter) (letter 0) pad [pad]
    simp only [List.length_cons, List.length_nil, List.cons_append, List.nil_append,
      Nat.zero_add] at hwrite
    rw [if_pos h1, hpads, hlast, hbefore]
    show (do let result ← write ((sextets value).map letter ++ [letter 0, letter 0]) _ pad
             write result _ pad) = _
    rw [hwrite]
    exact hwrite'
  by_cases h2 : value.length % 3 = 2
  · have hpads : pads value.length = 1 := by rw [pads, if_neg h1, if_pos h2]
    have hlast : 4 * ((value.length + 2) / 3) - 1 = ((sextets value).map letter).length := by
      rw [List.length_map]
      omega
    rw [if_neg h1, if_pos h2, hpads, hlast]
    exact write_append ((sextets value).map letter) (letter 0) pad []
  · have hpads : pads value.length = 0 := by rw [pads, if_neg h1, if_neg h2]
    rw [if_neg h1, if_neg h2, hpads]
    rfl

/-! ### The decoder undoes the encoder

The residue of a decoder is the value of the bits it has collected and not yet written; they are
the low bits of `buffer`, however much of what came before them the shifts have lost. -/

/-- The bits collected and not yet written, as a number. -/
def Decoder.residue (d : Decoder) : Nat := d.buffer % 2 ^ d.bitsCollected

/-- A decoder that has written `out`, has `bits` bits of value `residue` left over, and has
    `room` octets reserved beyond what is written. -/
structure Decoder.Holds (d : Decoder) (out : List UInt8) (bits residue room : Nat) : Prop where
  written : d.result = out ++ List.replicate room 0
  index : d.j = out.length
  bits : d.bitsCollected = bits
  residue : d.residue = residue

/-- The bits shifted in do not meet those of the buffer. -/
theorem shifted_or {buffer sextet : Nat} (h : sextet < 64) :
    buffer <<< 6 % 2 ^ 32 ||| sextet = buffer * 64 % 2 ^ 32 + sextet := by
  have hmultiple : buffer <<< 6 % 2 ^ 32 = (buffer % 2 ^ 26) <<< 6 := by
    simp only [Nat.shiftLeft_eq]
    omega
  rw [hmultiple, ← Nat.shiftLeft_add_eq_or_of_lt (i := 6) (by omega) (buffer % 2 ^ 26),
    Nat.shiftLeft_eq]
  omega

variable {d : Decoder} {out : List UInt8} {bits residue room sextet : Nat}

/-- The first letter of a group is only collected. -/
theorem Decoder.Holds.gather (h : d.Holds out 0 0 room) (hsextet : sextet < 64) :
    ∃ d', d.collect sextet = .ok d' ∧ d'.Holds out 6 sextet room := by
  have hcollect : d.collect sextet =
      .ok { d with buffer := d.buffer * 64 % 2 ^ 32 + sextet, bitsCollected := 6 } := by
    rw [Decoder.collect, shifted_or hsextet, h.bits]
    rfl
  refine ⟨_, hcollect, h.written, h.index, rfl, ?_⟩
  show (d.buffer * 64 % 2 ^ 32 + sextet) % 2 ^ 6 = sextet
  omega

/-- Every further one completes an octet from the residue. -/
theorem Decoder.Holds.complete (h : d.Holds out (bits + 2) residue (room + 1))
    (hbits : bits = 0 ∨ bits = 2 ∨ bits = 4) (hsextet : sextet < 64) :
    ∃ d', d.collect sextet = .ok d' ∧
      d'.Holds (out ++ [UInt8.ofNat (residue * 2 ^ (6 - bits) + sextet / 2 ^ bits)]) bits
        (sextet % 2 ^ bits) room := by
  have hresidue : d.buffer % 2 ^ (bits + 2) = residue := by
    rw [← h.bits]
    exact h.residue
  have hoctet : (d.buffer * 64 % 2 ^ 32 + sextet) >>> bits &&& 0xFF =
      residue * 2 ^ (6 - bits) + sextet / 2 ^ bits := by
    have hmask := Nat.and_two_pow_sub_one_eq_mod
      ((d.buffer * 64 % 2 ^ 32 + sextet) / 2 ^ bits) 8
    rw [Nat.shiftRight_eq_div_pow]
    refine hmask.trans ?_
    rcases hbits with hbits | hbits | hbits <;> subst hbits <;> omega
  have hroom : d.result = out ++ 0 :: List.replicate room 0 := by
    rw [h.written, List.replicate_succ]
  have hwrite := write_append out 0 (UInt8.ofNat (residue * 2 ^ (6 - bits) + sextet / 2 ^ bits))
    (List.replicate room 0)
  have hcollect : d.collect sextet = .ok ⟨d.buffer * 64 % 2 ^ 32 + sextet, bits, d.j + 1,
      out ++ UInt8.ofNat (residue * 2 ^ (6 - bits) + sextet / 2 ^ bits) ::
        List.replicate room 0⟩ := by
    have hleft : bits + 2 + 6 - 8 = bits := by omega
    rw [Decoder.collect, shifted_or hsextet, h.bits]
    dsimp only
    rw [if_pos (by omega), hleft, hoctet, hroom, h.index, hwrite]
  refine ⟨_, hcollect, by simp, ?_, rfl, ?_⟩
  · show d.j + 1 = _
    rw [h.index, List.length_append]
    rfl
  · show (d.buffer * 64 % 2 ^ 32 + sextet) % 2 ^ bits = sextet % 2 ^ bits
    rcases hbits with hbits | hbits | hbits <;> subst hbits <;> omega

/-- A letter is collected as its sextet. -/
theorem decodeLoop_letter (hsextet : sextet < 64) {d' : Decoder}
    (hcollect : d.collect sextet = .ok d') (rest : List UInt8) :
    decodeLoop (letter sextet :: rest) d = decodeLoop rest d' := by
  obtain ⟨hpad, hignored, hdecode⟩ := letter_spec sextet hsextet
  rw [decodeLoop, if_neg hpad, hignored, hdecode, hcollect]
  rfl

/-- Padding is passed over. -/
theorem decodeLoop_pads (d : Decoder) (n : Nat) :
    decodeLoop (List.replicate n pad) d = .ok d := by
  cases n with
  | zero => rfl
  | succ n => rw [List.replicate_succ, decodeLoop, if_pos rfl]

/-- The first two letters of a group give its first octet, and leave the low bits of the second
    letter. -/
theorem decodeLoop_two (h : d.Holds out 0 0 (room + 1)) {s t : Nat} (hs : s < 64) (ht : t < 64)
    (rest : List UInt8) :
    ∃ d', decodeLoop (letter s :: letter t :: rest) d = decodeLoop rest d' ∧
      d'.Holds (out ++ [UInt8.ofNat (s * 4 + t / 16)]) 4 (t % 16) room := by
  obtain ⟨gathered, hgather, hgathered⟩ := h.gather hs
  obtain ⟨written, hwrite, hwritten⟩ := @Decoder.Holds.complete gathered out 4 s room t hgathered
    (by omega) ht
  rw [decodeLoop_letter hs hgather, decodeLoop_letter ht hwrite]
  exact ⟨written, rfl, hwritten⟩

/-- An octet is what its number is. -/
theorem ofNat_toNat_of_eq {n : Nat} {a : UInt8} (h : n = a.toNat) : UInt8.ofNat n = a := by
  rw [h, UInt8.ofNat_toNat]

/-- The letters of some octets, with padding after them or not, decode to the octets. -/
theorem decodeLoop_sextets : ∀ (value out : List UInt8) (d : Decoder) (n : Nat),
    d.Holds out 0 0 value.length →
    ∃ d', decodeLoop ((sextets value).map letter ++ List.replicate n pad) d = .ok d' ∧
      d'.result = out ++ value ∧ d'.j = (out ++ value).length
  | [], out, d, n, h => by
    refine ⟨d, decodeLoop_pads d n, ?_, ?_⟩
    · rw [h.written]
      rfl
    · rw [h.index, List.append_nil]
  | [a], out, d, n, h => by
    have ha := a.toNat_lt
    obtain ⟨d₁, hloop, h₁⟩ := @decodeLoop_two d out 0 h (a.toNat / 4) (a.toNat % 4 * 16)
      (by omega) (by omega) (List.replicate n pad)
    rw [ofNat_toNat_of_eq (a := a) (by omega)] at h₁
    refine ⟨d₁, hloop.trans (decodeLoop_pads d₁ n), ?_, h₁.index⟩
    rw [h₁.written]
    simp
  | [a, b], out, d, n, h => by
    have ha := a.toNat_lt
    have hb := b.toNat_lt
    obtain ⟨d₁, hloop, h₁⟩ := @decodeLoop_two d out 1 h (a.toNat / 4)
      (a.toNat % 4 * 16 + b.toNat / 16) (by omega) (by omega)
      (letter (b.toNat % 16 * 4) :: List.replicate n pad)
    rw [ofNat_toNat_of_eq (a := a) (by omega)] at h₁
    obtain ⟨d₂, hcollect, h₂⟩ := @Decoder.Holds.complete d₁ _ 2 _ 0 (b.toNat % 16 * 4) h₁
      (by omega) (by omega)
    rw [ofNat_toNat_of_eq (a := b) (by omega)] at h₂
    refine ⟨d₂, ?_, ?_, ?_⟩
    · refine hloop.trans ?_
      rw [decodeLoop_letter (by omega) hcollect, decodeLoop_pads]
    · rw [h₂.written]
      simp
    · rw [h₂.index]
      simp
  | a :: b :: c :: rest, out, d, n, h => by
    have ha := a.toNat_lt
    have hb := b.toNat_lt
    have hc := c.toNat_lt
    obtain ⟨d₁, hloop, h₁⟩ := @decodeLoop_two d out (rest.length + 2) h (a.toNat / 4)
      (a.toNat % 4 * 16 + b.toNat / 16) (by omega) (by omega)
      (letter (b.toNat % 16 * 4 + c.toNat / 64) :: letter (c.toNat % 64) ::
        ((sextets rest).map letter ++ List.replicate n pad))
    rw [ofNat_toNat_of_eq (a := a) (by omega)] at h₁
    obtain ⟨d₂, hcollect₂, h₂⟩ := @Decoder.Holds.complete d₁ _ 2 _ (rest.length + 1)
      (b.toNat % 16 * 4 + c.toNat / 64) h₁ (by omega) (by omega)
    rw [ofNat_toNat_of_eq (a := b) (by omega)] at h₂
    obtain ⟨d₃, hcollect₃, h₃⟩ := @Decoder.Holds.complete d₂ _ 0 _ rest.length (c.toNat % 64) h₂
      (by omega) (by omega)
    rw [ofNat_toNat_of_eq (a := c) (by omega), Nat.pow_zero, Nat.mod_one] at h₃
    obtain ⟨d', hrest, hresult, hj⟩ := decodeLoop_sextets rest _ d₃ n h₃
    refine ⟨d', ?_, ?_, ?_⟩
    · refine hloop.trans ?_
      rw [decodeLoop_letter (by omega) hcollect₂, decodeLoop_letter (by omega) hcollect₃, hrest]
    · rw [hresult]
      simp
    · rw [hj]
      simp

/-- `padding` counts the `=` among the last two characters. -/
theorem paddingOf_eq (value : List UInt8) : paddingOf value = (value.reverse.take 2).count pad := by
  obtain ⟨backwards, rfl⟩ : ∃ backwards : List UInt8, value = backwards.reverse :=
    ⟨value.reverse, value.reverse_reverse.symm⟩
  rw [List.reverse_reverse]
  match backwards with
  | [] => rfl
  | [x] => simp [paddingOf, List.count_cons]
  | x :: y :: rest =>
    simp only [paddingOf, List.length_reverse, List.length_cons, List.take_succ_cons,
      List.take_zero, List.count_cons, List.count_nil, beq_iff_eq]
    have hlast : (x :: y :: rest).reverse[rest.length + 1 + 1 - 1]? = some x := by simp
    have hbefore : (x :: y :: rest).reverse[rest.length + 1 + 1 - 2]? = some y := by simp
    rw [hlast, hbefore]
    simp
    omega

/-- The padding counted is the padding written. -/
theorem paddingOf_base64 (value : List UInt8) : paddingOf (base64 value) = pads value.length := by
  have hpads : pads value.length ≤ 2 := by
    rw [pads]
    split <;> [skip; split] <;> omega
  have hletters : pad ∉ (((sextets value).map letter).reverse.take (2 - pads value.length)) := by
    intro hmem
    exact mem_letters (List.mem_reverse.mp (List.mem_of_mem_take hmem)) rfl
  rw [paddingOf_eq, base64, List.reverse_append, List.reverse_replicate, List.take_append,
    List.take_replicate, List.length_replicate, Nat.min_eq_right hpads, List.count_append,
    List.count_replicate_self, List.count_eq_zero.mpr hletters, Nat.add_zero]

/-- What the decoder reserves for a Base64 text is the length of the octets it stands for. -/
theorem reserved_base64 (value : List UInt8) :
    (base64 value).length / 4 * 3 = value.length + pads value.length := by
  rw [base64_length, pads]
  split <;> [skip; split] <;> omega

/-- **What is encoded is decoded again.** -/
theorem fromBase64_base64 (value : List UInt8) : fromBase64 (base64 value) = .ok value := by
  by_cases hempty : value = []
  · rw [hempty]
    rfl
  have hpos : 0 < value.length := List.length_pos_iff.mpr hempty
  have hne : base64 value ≠ [] := by
    intro h
    have hlength := congrArg List.length h
    rw [base64_length, List.length_nil] at hlength
    omega
  have hroom : value.length + pads value.length - pads value.length = value.length := by omega
  obtain ⟨d, hloop, hresult, hj⟩ := decodeLoop_sextets value []
    ⟨0, 0, 0, List.replicate value.length 0⟩ (pads value.length) ⟨rfl, rfl, rfl, rfl⟩
  rw [fromBase64, if_neg hne]
  dsimp only
  rw [paddingOf_base64, reserved_base64, if_neg (by omega), hroom, base64, hloop]
  dsimp only
  rw [hresult, hj, List.nil_append, List.take_length]

/-- **Round trip.**  The encoder returns a text of four characters for every three octets begun;
    it is letters and then the padding, and the decoder returns the octets. -/
theorem base64_round_trip (value : List UInt8) : ∃ text, toBase64 value = .ok text ∧
    fromBase64 text = .ok value ∧ text.length = 4 * (value.length ⌈/⌉ 3) ∧
    ∃ letters, (∀ c ∈ letters, c ≠ pad) ∧ text = letters ++ List.replicate
      (if value.length % 3 = 1 then 2 else if value.length % 3 = 2 then 1 else 0) pad := by
  refine ⟨base64 value, toBase64_eq value, fromBase64_base64 value, ?_,
    (sextets value).map letter, fun c hc => mem_letters hc, rfl⟩
  rw [base64_length, Nat.ceilDiv_eq_add_pred_div]
  rfl

/-! ### The bounds of the decoder

After `k` letters the loop has written `6 * k / 8` octets and has `6 * k % 8` bits left over,
whatever the letters are; what it may write was fixed before, from the length of the text and its
last two characters alone. -/

/-- The letters that the decoder reads: those before the first `=`. -/
def lettersRead (value : List UInt8) : Nat :=
  (value.takeWhile (· ≠ pad)).countP (· ∈ encodeTable)

/-- A letter of a decoder that has read `k` letters: it is a fault exactly when the octet it
    completes has no room. -/
theorem collect_spec {k : Nat} (hj : d.j = 6 * k / 8) (hbits : d.bitsCollected = 6 * k % 8)
    (hroom : d.j ≤ d.result.length) (sextet : Nat) :
    (6 * (k + 1) / 8 ≤ d.result.length → ∃ d', d.collect sextet = .ok d' ∧
      d'.j = 6 * (k + 1) / 8 ∧ d'.bitsCollected = 6 * (k + 1) % 8 ∧
      d'.result.length = d.result.length) ∧
    (d.result.length < 6 * (k + 1) / 8 → d.collect sextet = .error .outOfBounds) := by
  rw [Decoder.collect]
  dsimp only
  by_cases hfull : 8 ≤ d.bitsCollected + 6
  · have hnext : 6 * (k + 1) / 8 = d.j + 1 := by omega
    have hleft : d.bitsCollected + 6 - 8 = 6 * (k + 1) % 8 := by omega
    rw [if_pos hfull, hnext, write]
    constructor
    · intro hle
      rw [if_pos (by omega)]
      exact ⟨_, rfl, rfl, hleft, List.length_set⟩
    · intro hlt
      rw [if_neg (by omega)]
  · have hsame : 6 * (k + 1) / 8 = d.j := by omega
    have hleft : d.bitsCollected + 6 = 6 * (k + 1) % 8 := by omega
    rw [if_neg hfull, hsame]
    constructor
    · intro hle
      exact ⟨_, rfl, rfl, hleft, rfl⟩
    · intro hlt
      omega

/-- The loop returns exactly when everything that its letters complete has room. -/
theorem decodeLoop_returns_iff : ∀ (value : List UInt8) (d : Decoder) (k : Nat),
    d.j = 6 * k / 8 → d.bitsCollected = 6 * k % 8 → d.j ≤ d.result.length →
    ((∃ d', decodeLoop value d = .ok d') ↔ 6 * (k + lettersRead value) / 8 ≤ d.result.length)
  | [], d, k, hj, hbits, hroom => by
    have hread : lettersRead [] = 0 := rfl
    rw [hread, Nat.add_zero, ← hj]
    exact ⟨fun _ => hroom, fun _ => ⟨d, rfl⟩⟩
  | c :: rest, d, k, hj, hbits, hroom => by
    by_cases hpad : c = pad
    · have hread : lettersRead (c :: rest) = 0 := by simp [lettersRead, hpad]
      rw [hread, Nat.add_zero, ← hj, decodeLoop, if_pos hpad]
      exact ⟨fun _ => hroom, fun _ => ⟨d, rfl⟩⟩
    rw [decodeLoop, if_neg hpad]
    by_cases hcoded : c ∈ encodeTable
    · -- a letter, after which the loop goes on with one letter more read
      have hignored : ¬ignored c = true := fun h => (ignored_iff c).mp h hcoded
      have hread : lettersRead (c :: rest) = lettersRead rest + 1 := by
        simp [lettersRead, hpad, hcoded]
      obtain ⟨hwrites, hfaults⟩ := collect_spec hj hbits hroom (decodeTable.getD c.toNat 64)
      rw [if_neg hignored, hread]
      by_cases hle : 6 * (k + 1) / 8 ≤ d.result.length
      · obtain ⟨d', hcollect, hj', hbits', hlength⟩ := hwrites hle
        have ih := decodeLoop_returns_iff rest d' (k + 1) hj' hbits' (by omega)
        rw [hcollect]
        dsimp only
        rw [ih, hlength, Nat.add_assoc, Nat.add_comm 1]
      · rw [hfaults (by omega)]
        constructor
        · rintro ⟨d', hd'⟩
          cases hd'
        · intro hall
          omega
    · have hread : lettersRead (c :: rest) = lettersRead rest := by
        simp [lettersRead, hpad, hcoded]
      rw [if_pos ((ignored_iff c).mpr hcoded), hread]
      exact decodeLoop_returns_iff rest d k hj hbits hroom

/-- Decoding stays in bounds: the length it reserves does not wrap, and no octet is written past
    it. -/
def StaysInBounds (value : List UInt8) : Prop := ∃ bytes, fromBase64 value = .ok bytes

/-- **Bounds of the decoder.**  It stays in bounds exactly when the octets that the letters before
    the first `=` complete, and the padding at the end, together fit three octets for every four
    characters. -/
theorem staysInBounds_iff (value : List UInt8) : StaysInBounds value ↔
    6 * lettersRead value / 8 + (value.reverse.take 2).count pad ≤ 3 * (value.length / 4) := by
  rw [StaysInBounds, fromBase64, ← paddingOf_eq]
  by_cases hempty : value = []
  · rw [if_pos hempty, hempty]
    exact ⟨fun _ => by decide, fun _ => ⟨[], rfl⟩⟩
  rw [if_neg hempty]
  dsimp only
  by_cases hwraps : value.length / 4 * 3 < paddingOf value
  · rw [if_pos hwraps]
    constructor
    · rintro ⟨bytes, hbytes⟩
      cases hbytes
    · intro hle
      omega
  · have hloop := decodeLoop_returns_iff value
      ⟨0, 0, 0, List.replicate (value.length / 4 * 3 - paddingOf value) 0⟩ 0 rfl rfl
      (Nat.zero_le _)
    rw [List.length_replicate, Nat.zero_add] at hloop
    have hfits : 6 * lettersRead value / 8 ≤ value.length / 4 * 3 - paddingOf value ↔
        6 * lettersRead value / 8 + paddingOf value ≤ 3 * (value.length / 4) := by omega
    rw [if_neg hwraps, ← hfits, ← hloop]
    cases decodeLoop value
        ⟨0, 0, 0, List.replicate (value.length / 4 * 3 - paddingOf value) 0⟩ with
    | error fault =>
      constructor
      · rintro ⟨bytes, hbytes⟩
        cases hbytes
      · rintro ⟨d, hd⟩
        cases hd
    | ok d => exact ⟨fun _ => ⟨d, rfl⟩, fun _ => ⟨_, rfl⟩⟩

/-- Two letters complete an octet that no room was reserved for; a lone `=` makes the reserved
    length wrap. -/
theorem two_letters_overrun : ¬StaysInBounds [65, 65] ∧
    fromBase64 [65, 65] = .error .outOfBounds ∧ fromBase64 [61] = .error .lengthError := by
  have hletters : fromBase64 [65, 65] = .error .outOfBounds := by decide +kernel
  have hpad : fromBase64 [61] = .error .lengthError := by decide +kernel
  refine ⟨?_, hletters, hpad⟩
  rintro ⟨bytes, hbytes⟩
  cases hletters.symm.trans hbytes

end YirangMQ.Utilities
