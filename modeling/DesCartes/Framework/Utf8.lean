import Mathlib.Data.List.Basic

/-!
# UTF-8

`encode` is the UTF-8 of a text, and `decodeLossy` the text of any bytes: what is not well formed is
replaced by U+FFFD, once for each maximal part that could have been the beginning of a character,
and once for each byte that could not.

* `decodeLossy_encode_append`: what is well formed is decoded to its text, whatever follows;
* `encode_decodeLossy`: decoding loses nothing exactly where the bytes are the UTF-8 of a text.
-/

namespace DesCartes.Utf8

/-- The UTF-8 of a text. -/
def encode (text : List Char) : List UInt8 := text.flatMap String.utf8EncodeChar

/-- U+FFFD. -/
def replacement : Char := '\uFFFD'

/-- The bytes behind the first one of a character: `n` of them, the next one between `low` and `high`. -/
def decodeTails : (n low high value : Nat) → List UInt8 → Char × List UInt8
  | 0, _, _, value, rest => (Char.ofNat value, rest)
  | _ + 1, _, _, _, [] => (replacement, [])
  | n + 1, low, high, value, b :: rest =>
    if low ≤ b.toNat ∧ b.toNat ≤ high then decodeTails n 0x80 0xBF (value * 64 + b.toNat % 64) rest
    else (replacement, b :: rest)

/-- A character, or the replacement of what is none, and the bytes behind it. -/
def decodeNext (b : UInt8) (rest : List UInt8) : Char × List UInt8 :=
  let b := b.toNat
  if b < 0x80 then (Char.ofNat b, rest)
  else if b < 0xC2 then (replacement, rest)
  else if b < 0xE0 then decodeTails 1 0x80 0xBF (b % 32) rest
  else if b < 0xF0 then
    decodeTails 2 (if b = 0xE0 then 0xA0 else 0x80) (if b = 0xED then 0x9F else 0xBF) (b % 16) rest
  else if b < 0xF5 then
    decodeTails 3 (if b = 0xF0 then 0x90 else 0x80) (if b = 0xF4 then 0x8F else 0xBF) (b % 8) rest
  else (replacement, rest)

/-- The characters of the first bytes. -/
def decodeFuel : Nat → List UInt8 → List Char
  | 0, _ => []
  | _ + 1, [] => []
  | n + 1, b :: rest => (decodeNext b rest).1 :: decodeFuel n (decodeNext b rest).2

/-- `String::from_utf8_lossy`. -/
def decodeLossy (bytes : List UInt8) : List Char := decodeFuel bytes.length bytes

/-- `std::str::from_utf8`: the text of the bytes, if they are well formed. -/
def decode? (bytes : List UInt8) : Option (List Char) :=
  let text := decodeLossy bytes
  if encode text = bytes then some text else none

@[simp] theorem encode_nil : encode [] = [] := rfl

@[simp] theorem encode_append (s t : List Char) : encode (s ++ t) = encode s ++ encode t :=
  List.flatMap_append

@[simp] theorem encode_cons (c : Char) (t : List Char) :
    encode (c :: t) = String.utf8EncodeChar c ++ encode t :=
  rfl

theorem length_decodeTails_le (n low high value : Nat) (rest : List UInt8) :
    (decodeTails n low high value rest).2.length ≤ rest.length := by
  induction n generalizing low high value rest with
  | zero => exact Nat.le_refl _
  | succ n ih =>
    cases rest with
    | nil => exact Nat.le_refl _
    | cons b rest =>
      simp only [decodeTails]
      split
      · exact Nat.le_succ_of_le (ih ..)
      · exact Nat.le_refl _

theorem length_decodeNext_le (b : UInt8) (rest : List UInt8) :
    (decodeNext b rest).2.length ≤ rest.length := by
  simp only [decodeNext]
  split
  · exact Nat.le_refl _
  · split
    · exact Nat.le_refl _
    · split_ifs
      all_goals first | exact length_decodeTails_le .. | exact Nat.le_refl _

/-- More steps than bytes make no difference. -/
theorem decodeFuel_eq {n : Nat} {bytes : List UInt8} (h : bytes.length ≤ n) :
    decodeFuel n bytes = decodeLossy bytes := by
  suffices ∀ (m n : Nat) (l : List UInt8), l.length ≤ n → l.length ≤ m → decodeFuel n l = decodeFuel m l from
    this _ _ _ h (Nat.le_refl _)
  intro m
  induction m with
  | zero =>
    intro n l _ hl
    rw [List.length_eq_zero_iff.mp (Nat.le_zero.mp hl)]
    cases n <;> rfl
  | succ m ih =>
    intro n l hn hm
    cases l with
    | nil => cases n <;> rfl
    | cons b rest =>
      obtain _ | n := n
      · exact absurd hn (by simp)
      · have := length_decodeNext_le b rest
        simp only [List.length_cons] at hn hm
        simp only [decodeFuel]
        rw [ih n _ (by omega) (by omega)]

theorem decodeLossy_cons (b : UInt8) (rest : List UInt8) :
    decodeLossy (b :: rest) = (decodeNext b rest).1 :: decodeLossy (decodeNext b rest).2 := by
  rw [decodeLossy, List.length_cons, decodeFuel, decodeFuel_eq (length_decodeNext_le b rest)]

@[simp] theorem decodeLossy_nil : decodeLossy [] = [] := rfl

section
variable {n low high value b : Nat} {rest : List UInt8}

theorem decodeTails_cons (hb : b < 256) (hlow : low ≤ b) (hhigh : b ≤ high) :
    decodeTails (n + 1) low high value (UInt8.ofNat b :: rest) =
      decodeTails n 0x80 0xBF (value * 64 + b % 64) rest := by
  have : (UInt8.ofNat b).toNat = b := by simpa using hb
  simp only [decodeTails, this, hlow, hhigh, and_self, if_true]

end

/-- The encoding of a character has one of four lengths. -/
theorem decodeNext_utf8EncodeChar (c : Char) (rest : List UInt8) :
    ∃ b l, String.utf8EncodeChar c = b :: l ∧ decodeNext b (l ++ rest) = (c, rest) := by
  have hvalid : c.toNat < 0xD800 ∨ 0xDFFF < c.toNat ∧ c.toNat < 0x110000 := c.valid
  have hchar : ∀ n, n = c.toNat → (Char.ofNat n, rest) = (c, rest) := fun n hn => by rw [hn, Char.ofNat_toNat]
  have hbyte : ∀ n, n < 256 → (UInt8.ofNat n).toNat = n := fun n hn => by simpa using hn
  have hval : c.val.toNat = c.toNat := rfl
  simp only [String.utf8EncodeChar, hval]
  generalize c.toNat = v at *
  by_cases h₁ : v ≤ 0x7F
  · refine ⟨_, _, if_pos h₁, ?_⟩
    have hv : (UInt8.ofNat v).toNat = v := hbyte v (by omega)
    simp only [decodeNext, hv, show v < 0x80 by omega, if_true]
    exact hchar v rfl
  by_cases h₂ : v ≤ 0x7FF
  · refine ⟨_, _, (if_neg h₁).trans (if_pos h₂), ?_⟩
    have hb := hbyte (v / 64 % 0x20 + 0xC0) (by omega)
    simp only [decodeNext, hb, List.cons_append, List.nil_append]
    rw [if_neg (by omega), if_neg (by omega), if_pos (by omega),
      decodeTails_cons (by omega) (by omega) (by omega)]
    exact hchar _ (by omega)
  by_cases h₃ : v ≤ 0xFFFF
  · refine ⟨_, _, (if_neg h₁).trans ((if_neg h₂).trans (if_pos h₃)), ?_⟩
    have hb := hbyte (v / 4096 % 0x10 + 0xE0) (by omega)
    simp only [decodeNext, hb, List.cons_append, List.nil_append]
    rw [if_neg (by omega), if_neg (by omega), if_neg (by omega), if_pos (by omega),
      decodeTails_cons (by omega) (by split <;> omega) (by split <;> omega),
      decodeTails_cons (by omega) (by omega) (by omega)]
    exact hchar _ (by omega)
  · refine ⟨_, _, (if_neg h₁).trans ((if_neg h₂).trans (if_neg h₃)), ?_⟩
    have hb := hbyte (v / 262144 % 0x08 + 0xF0) (by omega)
    simp only [decodeNext, hb, List.cons_append, List.nil_append]
    rw [if_neg (by omega), if_neg (by omega), if_neg (by omega), if_neg (by omega), if_pos (by omega),
      decodeTails_cons (by omega) (by split <;> omega) (by split <;> omega),
      decodeTails_cons (by omega) (by omega) (by omega), decodeTails_cons (by omega) (by omega) (by omega)]
    exact hchar _ (by omega)

/-- What is well formed is decoded to its text, whatever follows. -/
theorem decodeLossy_encode_append (text : List Char) (rest : List UInt8) :
    decodeLossy (encode text ++ rest) = text ++ decodeLossy rest := by
  induction text with
  | nil => rfl
  | cons c text ih =>
    obtain ⟨b, l, hc, hnext⟩ := decodeNext_utf8EncodeChar c (encode text ++ rest)
    rw [encode_cons, hc, List.append_assoc, List.cons_append, decodeLossy_cons, hnext, ih, List.cons_append]

theorem decodeLossy_encode (text : List Char) : decodeLossy (encode text) = text := by
  simpa using decodeLossy_encode_append text []

/-- Nothing is lost of the UTF-8 of a text, and of nothing else. -/
theorem encode_decodeLossy {bytes : List UInt8} :
    encode (decodeLossy bytes) = bytes ↔ ∃ text, encode text = bytes := by
  refine ⟨fun h => ⟨_, h⟩, ?_⟩
  rintro ⟨text, rfl⟩
  rw [decodeLossy_encode]

theorem decode?_encode (text : List Char) : decode? (encode text) = some text := by
  simp only [decode?, decodeLossy_encode, if_true]

end DesCartes.Utf8
