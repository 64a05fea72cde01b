import Mathlib.Data.List.Basic

/-!
# UTF-8, read lossily

Bytes to characters, the way a decoder reads them that has to give some text for any
bytes: a sequence that encodes a character is that character, and bytes that start none
are replaced, as many at a time as could have been the start of one.
-/
namespace Utf8

/-- How long a sequence is that starts with a byte, zero if none does. -/
def width (first : UInt8) : ℕ :=
  if first.toNat < 0x80 then 1
  else if first.toNat < 0xc2 then 0
  else if first.toNat < 0xe0 then 2
  else if first.toNat < 0xf0 then 3
  else if first.toNat < 0xf5 then 4
  else 0

def continues (byte : UInt8) : Bool := 0x80 ≤ byte.toNat && byte.toNat < 0xc0

/-- Whether a byte may come second: the sequence is not overlong, no surrogate, and not
past the last character. -/
def follows (first second : UInt8) : Bool :=
  continues second && (first.toNat ≠ 0xe0 || 0xa0 ≤ second.toNat) &&
    (first.toNat ≠ 0xed || second.toNat < 0xa0) && (first.toNat ≠ 0xf0 || 0x90 ≤ second.toNat) &&
    (first.toNat ≠ 0xf4 || second.toNat < 0x90)

/-- The bytes behind the first one that could belong to its sequence. -/
def tail (first : UInt8) (rest : List UInt8) : List UInt8 :=
  match rest with
  | [] => []
  | second :: rest =>
      if 2 ≤ width first && follows first second then
        second :: (rest.takeWhile continues).take (width first - 2)
      else []

/-- The bits of the first byte that count. -/
def lead (first : UInt8) : ℕ :=
  match width first with
  | 2 => first.toNat - 0xc0
  | 3 => first.toNat - 0xe0
  | 4 => first.toNat - 0xf0
  | _ => first.toNat

/-- The number a sequence stands for. -/
def code (first : UInt8) (tail : List UInt8) : ℕ :=
  tail.foldl (fun value byte => value * 64 + (byte.toNat - 0x80)) (lead first)

def replacement : Char := Char.ofNat 0xfffd

/-- The first characters of some bytes, as many as the fuel allows. -/
def decodeFrom : ℕ → List UInt8 → List Char
  | 0, _ => []
  | _ + 1, [] => []
  | fuel + 1, first :: rest =>
      let more := tail first rest
      (if more.length + 1 = width first then Char.ofNat (code first more) else replacement) ::
        decodeFrom fuel (rest.drop more.length)

/-- The text of some bytes. -/
def decode (bytes : List UInt8) : List Char := decodeFrom bytes.length bytes

/-- A byte past the characters of one byte, then one that starts nothing. -/
example : decode [0x63, 0xc3, 0xa9, 0xe2, 0x82, 0xff, 0x21] =
    ['c', 'é', '\ufffd', '\ufffd', '!'] := by
  decide +kernel

/-! ## What is written is read -/

section Sequences

variable {first second third fourth : UInt8}

theorem width_two (h : 0xc2 ≤ first.toNat) (h' : first.toNat < 0xe0) : width first = 2 := by
  rw [width, if_neg (by omega), if_neg (by omega), if_pos h']

theorem width_three (h : 0xe0 ≤ first.toNat) (h' : first.toNat < 0xf0) : width first = 3 := by
  rw [width, if_neg (by omega), if_neg (by omega), if_neg (by omega), if_pos h']

theorem width_four (h : 0xf0 ≤ first.toNat) (h' : first.toNat < 0xf5) : width first = 4 := by
  rw [width, if_neg (by omega), if_neg (by omega), if_neg (by omega), if_neg (by omega), if_pos h']

theorem continues_iff {byte : UInt8} :
    continues byte = true ↔ 0x80 ≤ byte.toNat ∧ byte.toNat < 0xc0 := by
  simp [continues]

theorem follows_iff : follows first second = true ↔ continues second = true ∧
    (first.toNat = 0xe0 → 0xa0 ≤ second.toNat) ∧ (first.toNat = 0xed → second.toNat < 0xa0) ∧
    (first.toNat = 0xf0 → 0x90 ≤ second.toNat) ∧ (first.toNat = 0xf4 → second.toNat < 0x90) := by
  simp only [follows, Bool.and_eq_true, Bool.or_eq_true, decide_eq_true_eq, and_assoc,
    ne_eq, ← imp_iff_not_or]

theorem tail_one (h : width first = 1) (rest : List UInt8) : tail first rest = [] := by
  cases rest <;> simp [tail, h]

theorem tail_two (h : width first = 2) (hsecond : follows first second = true)
    (rest : List UInt8) : tail first (second :: rest) = [second] := by
  simp [tail, h, hsecond]

theorem tail_three (h : width first = 3) (hsecond : follows first second = true)
    (hthird : continues third = true) (rest : List UInt8) :
    tail first (second :: third :: rest) = [second, third] := by
  simp [tail, h, hsecond, hthird]

theorem tail_four (h : width first = 4) (hsecond : follows first second = true)
    (hthird : continues third = true) (hfourth : continues fourth = true) (rest : List UInt8) :
    tail first (second :: third :: fourth :: rest) = [second, third, fourth] := by
  simp [tail, h, hsecond, hthird, hfourth]

end Sequences

/-- A byte behind the first one carries six bits. -/
theorem exists_continued (bits : ℕ) : ∃ byte : UInt8,
    UInt8.ofNat (bits % 0x40 + 0x80) = byte ∧ byte.toNat = bits % 0x40 + 0x80 :=
  ⟨_, rfl, by rw [UInt8.toNat_ofNat']; omega⟩

theorem exists_byte {n : ℕ} (h : n < 256) : ∃ byte : UInt8, UInt8.ofNat n = byte ∧ byte.toNat = n :=
  ⟨_, rfl, by rw [UInt8.toNat_ofNat']; omega⟩

/-- What is written of a character is read as that character, whatever comes after it. -/
theorem sequence_encode (c : Char) (rest : List UInt8) :
    ∃ first more, String.utf8EncodeChar c = first :: more ∧ tail first (more ++ rest) = more ∧
      more.length + 1 = width first ∧ Char.ofNat (code first more) = c := by
  have hvalid : c.val.toNat < 0xd800 ∨ 0xdfff < c.val.toNat ∧ c.val.toNat < 0x110000 := c.valid
  have hchar : Char.ofNat c.val.toNat = c := Char.ofNat_toNat c
  unfold String.utf8EncodeChar
  generalize c.val.toNat = v at hvalid hchar
  simp only
  split
  next hone =>
    obtain ⟨first, hfirst, hv⟩ := exists_byte (show v < 256 by omega)
    have hwidth : width first = 1 := by rw [width, if_pos (by omega)]
    refine ⟨first, [], by rw [hfirst], tail_one hwidth _, by rw [hwidth]; rfl, ?_⟩
    simp only [code, lead, hwidth, List.foldl_nil, hv, hchar]
  next hone =>
    obtain ⟨last, hlast, hlastBits⟩ := exists_continued v
    have hlastOk : continues last = true := continues_iff.2 (by omega)
    split
    next htwo =>
      obtain ⟨first, hfirst, hv⟩ := exists_byte (show v / 64 % 0x20 + 0xc0 < 256 by omega)
      have hwidth := width_two (show 0xc2 ≤ first.toNat by omega) (by omega)
      have hfollows : follows first last = true := by
        rw [follows_iff, continues_iff]
        omega
      refine ⟨first, [last], by rw [hfirst, hlast], tail_two hwidth hfollows _,
        by rw [hwidth]; rfl, (congrArg Char.ofNat ?_).trans hchar⟩
      simp only [code, lead, hwidth, List.foldl_cons, List.foldl_nil, hv, hlastBits]
      omega
    next htwo =>
      obtain ⟨middle, hmiddle, hmiddleBits⟩ := exists_continued (v / 64)
      have hmiddleOk : continues middle = true := continues_iff.2 (by omega)
      split
      next hthree =>
        obtain ⟨first, hfirst, hv⟩ := exists_byte (show v / 4096 % 0x10 + 0xe0 < 256 by omega)
        have hwidth := width_three (show 0xe0 ≤ first.toNat by omega) (by omega)
        have hfollows : follows first middle = true := by
          rw [follows_iff, continues_iff]
          omega
        refine ⟨first, [middle, last], by rw [hfirst, hmiddle, hlast],
          tail_three hwidth hfollows hlastOk _, by rw [hwidth]; rfl,
          (congrArg Char.ofNat ?_).trans hchar⟩
        simp only [code, lead, hwidth, List.foldl_cons, List.foldl_nil, hv, hmiddleBits, hlastBits]
        omega
      next hthree =>
        obtain ⟨first, hfirst, hv⟩ := exists_byte (show v / 262144 % 0x08 + 0xf0 < 256 by omega)
        obtain ⟨second, hsecond, hsecondBits⟩ := exists_continued (v / 4096)
        have hwidth := width_four (show 0xf0 ≤ first.toNat by omega) (by omega)
        have hfollows : follows first second = true := by
          rw [follows_iff, continues_iff]
          omega
        refine ⟨first, [second, middle, last], by rw [hfirst, hsecond, hmiddle, hlast],
          tail_four hwidth hfollows hmiddleOk hlastOk _, by rw [hwidth]; rfl,
          (congrArg Char.ofNat ?_).trans hchar⟩
        simp only [code, lead, hwidth, List.foldl_cons, List.foldl_nil, hv, hsecondBits,
          hmiddleBits, hlastBits]
        omega

theorem decodeFrom_encode (cs : List Char) {fuel : ℕ}
    (hfuel : (cs.flatMap String.utf8EncodeChar).length ≤ fuel) :
    decodeFrom fuel (cs.flatMap String.utf8EncodeChar) = cs := by
  induction cs generalizing fuel with
  | nil => cases fuel <;> rfl
  | cons c cs ih =>
      obtain ⟨first, more, hbytes, htail, hwhole, hcode⟩ :=
        sequence_encode c (cs.flatMap String.utf8EncodeChar)
      rw [List.flatMap_cons, hbytes, List.cons_append] at hfuel ⊢
      cases fuel with
      | zero => simp at hfuel
      | succ fuel =>
          simp only [List.length_cons, List.length_append] at hfuel
          simp only [decodeFrom, htail, if_pos hwhole, hcode, List.drop_left]
          rw [ih (by omega)]

/-- Text that was written as UTF-8 is read back. -/
theorem decode_encode (cs : List Char) : decode (cs.flatMap String.utf8EncodeChar) = cs :=
  decodeFrom_encode cs (Nat.le_refl _)

end Utf8
