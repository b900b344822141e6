import YirangMQ.Library.Utf8
import Mathlib.Algebra.Ring.Nat
import Mathlib.Tactic.SplitIfs

namespace YirangMQ

/-!
# Code points

A string of code points is encoded with one to four bytes for each.

* `encodeChar`, `encode` — the encoding, as a text with one character for each byte;
* `length_le_encode` — there are at least as many bytes as code points, and
  `length_encode_eq_iff` — as many only in ASCII;
* `exists_encode` — **every well formed text is an encoding.**
-/

/-- The bytes of one code point. -/
def encodeChar (c : Char) : List Char :=
  let n := c.toNat
  if n < 0x80 then [c]
  else if n < 0x800 then [Char.ofNat (0xC0 + n / 64), Char.ofNat (0x80 + n % 64)]
  else if n < 0x10000 then
    [Char.ofNat (0xE0 + n / 4096), Char.ofNat (0x80 + n / 64 % 64), Char.ofNat (0x80 + n % 64)]
  else
    [Char.ofNat (0xF0 + n / 262144), Char.ofNat (0x80 + n / 4096 % 64),
      Char.ofNat (0x80 + n / 64 % 64), Char.ofNat (0x80 + n % 64)]

/-- A string of code points as a text of bytes. -/
def encode (chars : List Char) : String := String.ofList (chars.flatMap encodeChar)

/-! ### Lengths -/

theorem length_encodeChar_pos (c : Char) : 1 ≤ (encodeChar c).length := by
  unfold encodeChar
  dsimp only
  split_ifs <;> simp

theorem length_encodeChar_eq_one_iff (c : Char) :
    (encodeChar c).length = 1 ↔ c.toNat < 0x80 := by
  unfold encodeChar
  dsimp only
  split_ifs <;> simp_all

theorem length_encode (chars : List Char) :
    (encode chars).length = (chars.map fun c => (encodeChar c).length).sum := by
  rw [encode, String.length_ofList, List.length_flatMap]

/-- There are at least as many bytes as code points. -/
theorem length_le_encode (chars : List Char) : chars.length ≤ (encode chars).length := by
  rw [length_encode]
  induction chars with
  | nil => exact Nat.le_refl 0
  | cons c chars ih =>
    have hpos := length_encodeChar_pos c
    rw [List.length_cons, List.map_cons, List.sum_cons]
    omega

/-- There are as many bytes as code points exactly in ASCII. -/
theorem length_encode_eq_iff (chars : List Char) :
    (encode chars).length = chars.length ↔ ∀ c ∈ chars, c.toNat < 0x80 := by
  induction chars with
  | nil => simp [encode]
  | cons c chars ih =>
    have hpos := length_encodeChar_pos c
    have hle := length_le_encode chars
    have hone := length_encodeChar_eq_one_iff c
    have hsum : (encode (c :: chars)).length = (encodeChar c).length + (encode chars).length := by
      rw [length_encode, length_encode, List.map_cons, List.sum_cons]
    rw [hsum, List.forall_mem_cons, ← hone, ← ih, List.length_cons]
    omega

/-! ### Reading the bytes -/

/-- The code point of a number that is one. -/
theorem toNat_ofNat_of_valid {n : Nat} (h : n < 0xD800 ∨ 0xDFFF < n ∧ n < 0x110000) :
    (Char.ofNat n).toNat = n := by
  have hvalid : n.isValidChar := h
  rw [Char.ofNat, dif_pos hvalid]
  rfl

/-- A byte written with its number. -/
theorem ofNat_eq {n : Nat} {c : Char} (h : n = c.toNat) : Char.ofNat n = c := by
  rw [h, Char.ofNat_toNat]

/-- The tails of a character. -/
def IsTail (c : Char) : Prop := 0x80 ≤ c.toNat ∧ c.toNat ≤ 0xBF

theorem exists_two {a b : Char} (hlow : 0xC2 ≤ a.toNat) (hhigh : a.toNat < 0xE0)
    (hb : IsTail b) : ∃ c, encodeChar c = [a, b] := by
  obtain ⟨hb, hb'⟩ := hb
  let n := (a.toNat - 0xC0) * 64 + (b.toNat - 0x80)
  have hn : (Char.ofNat n).toNat = n := toNat_ofNat_of_valid (by omega)
  refine ⟨Char.ofNat n, ?_⟩
  have hfirst : ¬n < 0x80 := by omega
  have hsecond : n < 0x800 := by omega
  rw [encodeChar, hn, if_neg hfirst, if_pos hsecond, ofNat_eq (c := a) (by omega),
    ofNat_eq (c := b) (by omega)]

/-- Three bytes encode a code point when this is neither too small nor a surrogate. -/
theorem exists_three {a b c : Char} (hlow : 0xE0 ≤ a.toNat) (hhigh : a.toNat < 0xF0)
    (hb : IsTail b) (hc : IsTail c) (hsmall : a.toNat = 0xE0 → 0xA0 ≤ b.toNat)
    (hsurrogate : a.toNat = 0xED → b.toNat ≤ 0x9F) : ∃ d, encodeChar d = [a, b, c] := by
  obtain ⟨hb, hb'⟩ := hb
  obtain ⟨hc, hc'⟩ := hc
  let n := (a.toNat - 0xE0) * 4096 + (b.toNat - 0x80) * 64 + (c.toNat - 0x80)
  have hn : (Char.ofNat n).toNat = n := toNat_ofNat_of_valid (by omega)
  refine ⟨Char.ofNat n, ?_⟩
  have hfirst : ¬n < 0x80 := by omega
  have hsecond : ¬n < 0x800 := by omega
  have hthird : n < 0x10000 := by omega
  rw [encodeChar, hn, if_neg hfirst, if_neg hsecond, if_pos hthird, ofNat_eq (c := a) (by omega),
    ofNat_eq (c := b) (by omega), ofNat_eq (c := c) (by omega)]

/-- Four bytes encode a code point when this is neither too small nor too large. -/
theorem exists_four {a b c d : Char} (hlow : 0xF0 ≤ a.toNat) (hhigh : a.toNat < 0xF5)
    (hb : IsTail b) (hc : IsTail c) (hd : IsTail d) (hsmall : a.toNat = 0xF0 → 0x90 ≤ b.toNat)
    (hlarge : a.toNat = 0xF4 → b.toNat ≤ 0x8F) : ∃ e, encodeChar e = [a, b, c, d] := by
  obtain ⟨hb, hb'⟩ := hb
  obtain ⟨hc, hc'⟩ := hc
  obtain ⟨hd, hd'⟩ := hd
  let n := (a.toNat - 0xF0) * 262144 + (b.toNat - 0x80) * 4096 + (c.toNat - 0x80) * 64 +
    (d.toNat - 0x80)
  have hn : (Char.ofNat n).toNat = n := toNat_ofNat_of_valid (by omega)
  refine ⟨Char.ofNat n, ?_⟩
  have hfirst : ¬n < 0x80 := by omega
  have hsecond : ¬n < 0x800 := by omega
  have hthird : ¬n < 0x10000 := by omega
  rw [encodeChar, hn, if_neg hfirst, if_neg hsecond, if_neg hthird, ofNat_eq (c := a) (by omega),
    ofNat_eq (c := b) (by omega), ofNat_eq (c := c) (by omega), ofNat_eq (c := d) (by omega)]

/-- What is read where a tail is due. -/
theorem scanUtf8_tail {low high : Nat} {ranges : List (Nat × Nat)} {text : List Char}
    (h : scanUtf8 text ((low, high) :: ranges) = true) :
    ∃ b rest, text = b :: rest ∧ low ≤ b.toNat ∧ b.toNat ≤ high ∧ scanUtf8 rest ranges = true := by
  cases text with
  | nil => exact absurd h (by simp [scanUtf8])
  | cons b rest =>
    simp only [scanUtf8, Bool.and_eq_true, decide_eq_true_eq] at h
    exact ⟨b, rest, rfl, h.1.1, h.1.2, h.2⟩

/-- What a first byte tells of the bytes after it. -/
theorem continuations_cases {lead : Nat} {ranges : List (Nat × Nat)}
    (h : continuations lead = some ranges) :
    (lead < 0x80 ∧ ranges = []) ∨
    (0xC2 ≤ lead ∧ lead < 0xE0 ∧ ranges = [(0x80, 0xBF)]) ∨
    (∃ low high, 0xE0 ≤ lead ∧ lead < 0xF0 ∧ ranges = [(low, high), (0x80, 0xBF)] ∧
      0x80 ≤ low ∧ high ≤ 0xBF ∧ (lead = 0xE0 → 0xA0 ≤ low) ∧ (lead = 0xED → high ≤ 0x9F)) ∨
    (∃ low high, 0xF0 ≤ lead ∧ lead < 0xF5 ∧ ranges = [(low, high), (0x80, 0xBF), (0x80, 0xBF)] ∧
      0x80 ≤ low ∧ high ≤ 0xBF ∧ (lead = 0xF0 → 0x90 ≤ low) ∧ (lead = 0xF4 → high ≤ 0x8F)) := by
  unfold continuations at h
  split_ifs at h with h1 h2 h3 h4 h5 h6 h7 h8 h9 <;> obtain rfl := Option.some.inj h
  · exact .inl ⟨h1, rfl⟩
  · exact .inr (.inl ⟨by omega, h3, rfl⟩)
  · exact .inr (.inr (.inl ⟨0xA0, 0xBF, by omega, by omega, rfl, by omega⟩))
  · exact .inr (.inr (.inl ⟨0x80, 0x9F, by omega, by omega, rfl, by omega⟩))
  · exact .inr (.inr (.inl ⟨0x80, 0xBF, by omega, by omega, rfl, by omega⟩))
  · exact .inr (.inr (.inr ⟨0x90, 0xBF, by omega, by omega, rfl, by omega⟩))
  · exact .inr (.inr (.inr ⟨0x80, 0xBF, by omega, by omega, rfl, by omega⟩))
  · exact .inr (.inr (.inr ⟨0x80, 0x8F, by omega, by omega, rfl, by omega⟩))

/-- A well formed text starts with the bytes of a code point. -/
theorem exists_encodeChar {a : Char} {text : List Char} (h : scanUtf8 (a :: text) [] = true) :
    ∃ c rest, a :: text = encodeChar c ++ rest ∧ scanUtf8 rest [] = true := by
  rw [scanUtf8] at h
  cases hranges : continuations a.toNat with
  | none =>
    rw [hranges] at h
    exact absurd h Bool.false_ne_true
  | some ranges =>
    simp only [hranges] at h
    obtain ⟨hlow, rfl⟩ | ⟨hlow, hhigh, rfl⟩ | ⟨low, high, hlow, hhigh, rfl, hb⟩ |
      ⟨low, high, hlow, hhigh, rfl, hb⟩ := continuations_cases hranges
    · have hchar : encodeChar a = [a] := if_pos hlow
      exact ⟨a, text, by rw [hchar]; rfl, h⟩
    · obtain ⟨b, rest, rfl, hb, hb', h⟩ := scanUtf8_tail h
      obtain ⟨c, hchar⟩ := exists_two hlow hhigh ⟨hb, hb'⟩
      exact ⟨c, rest, by rw [hchar]; rfl, h⟩
    · obtain ⟨b, rest, rfl, hb', hb'', h⟩ := scanUtf8_tail h
      obtain ⟨c, rest, rfl, hc, hc', h⟩ := scanUtf8_tail h
      obtain ⟨d, hchar⟩ := exists_three hlow hhigh (b := b) ⟨by omega, by omega⟩ ⟨hc, hc'⟩
        (by omega) (by omega)
      exact ⟨d, rest, by rw [hchar]; rfl, h⟩
    · obtain ⟨b, rest, rfl, hb', hb'', h⟩ := scanUtf8_tail h
      obtain ⟨c, rest, rfl, hc, hc', h⟩ := scanUtf8_tail h
      obtain ⟨d, rest, rfl, hd, hd', h⟩ := scanUtf8_tail h
      obtain ⟨e, hchar⟩ := exists_four hlow hhigh (b := b) ⟨by omega, by omega⟩ ⟨hc, hc'⟩
        ⟨hd, hd'⟩ (by omega) (by omega)
      exact ⟨e, rest, by rw [hchar]; rfl, h⟩

/-- **Every well formed text is an encoding.** -/
theorem exists_encode {text : String} (h : IsUtf8 text) : ∃ chars, text = encode chars := by
  have hlist : ∀ n : Nat, ∀ bytes : List Char, bytes.length ≤ n → scanUtf8 bytes [] = true →
      ∃ chars : List Char, bytes = chars.flatMap encodeChar := by
    intro n
    induction n with
    | zero =>
      intro bytes hlength _
      exact ⟨[], List.length_eq_zero_iff.mp (Nat.le_zero.mp hlength)⟩
    | succ n ih =>
      intro bytes hlength hscan
      cases bytes with
      | nil => exact ⟨[], rfl⟩
      | cons a bytes =>
        obtain ⟨c, rest, hbytes, hrest⟩ := exists_encodeChar hscan
        have hshorter : rest.length ≤ n := by
          have hpos := length_encodeChar_pos c
          have hlengths := congrArg List.length hbytes
          rw [List.length_append] at hlengths
          omega
        obtain ⟨chars, rfl⟩ := ih rest hshorter hrest
        exact ⟨c :: chars, hbytes⟩
  obtain ⟨chars, hchars⟩ := hlist _ text.toList (Nat.le_refl _) h
  exact ⟨chars, by rw [encode, ← hchars, String.ofList_toList]⟩

end YirangMQ
