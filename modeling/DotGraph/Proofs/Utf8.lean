import DotGraph.Charset.Codec
import Mathlib.Tactic.Common

/-!
# UTF-8

The decoder accepts the octets of a text and nothing else, so a text and its octets determine one
another. The range of a character's number says how many octets it has and what each of them is.
-/

namespace DotGraph.Text.Utf8

lemma isContinuation_iff {b : UInt8} :
    isContinuation b = true ↔ 128 ≤ b.toNat ∧ b.toNat ≤ 191 := by
  simp [isContinuation, UInt8.le_iff_toNat_le]

lemma isSecond_iff {a b : UInt8} : isSecond a b = true ↔
    128 ≤ b.toNat ∧ b.toNat ≤ 191 ∧ (a.toNat = 224 → 160 ≤ b.toNat) ∧
      (a.toNat = 237 → b.toNat ≤ 159) ∧ (a.toNat = 240 → 144 ≤ b.toNat) ∧
      (a.toNat = 244 → b.toNat ≤ 143) := by
  unfold isSecond
  simp only [← UInt8.toNat_inj]
  split_ifs with h1 h2 h3 h4 <;>
    simp_all [UInt8.le_iff_toNat_le, isContinuation_iff] <;> omega

lemma charOfNat_toNat {n : Nat} (h : n < 55296 ∨ 57343 < n ∧ n < 1114112) :
    (Char.ofNat n).toNat = n := by
  have hvalid : n.isValidChar := h
  rw [Char.ofNat, dif_pos hvalid]
  rfl

/-- The octets of a character by the range of its number. -/
lemma encodeChar_cases (c : Char) :
    (c.toNat < 128 ∧ String.utf8EncodeChar c = [UInt8.ofNat c.toNat]) ∨
    (128 ≤ c.toNat ∧ c.toNat < 2048 ∧ String.utf8EncodeChar c =
      [UInt8.ofNat (c.toNat / 64 + 192), UInt8.ofNat (c.toNat % 64 + 128)]) ∨
    (2048 ≤ c.toNat ∧ c.toNat < 65536 ∧ String.utf8EncodeChar c =
      [UInt8.ofNat (c.toNat / 4096 + 224), UInt8.ofNat (c.toNat / 64 % 64 + 128),
        UInt8.ofNat (c.toNat % 64 + 128)]) ∨
    (65536 ≤ c.toNat ∧ c.toNat < 1114112 ∧ String.utf8EncodeChar c =
      [UInt8.ofNat (c.toNat / 262144 + 240), UInt8.ofNat (c.toNat / 4096 % 64 + 128),
        UInt8.ofNat (c.toNat / 64 % 64 + 128), UInt8.ofNat (c.toNat % 64 + 128)]) := by
  have hv : c.toNat < 1114112 := by
    have := c.valid
    simp only [UInt32.isValidChar, Nat.isValidChar, Char.toNat_val] at this
    omega
  unfold String.utf8EncodeChar
  simp only [Char.toNat_val]
  by_cases h1 : c.toNat ≤ 0x7f
  · left
    exact ⟨by omega, if_pos h1⟩
  by_cases h2 : c.toNat ≤ 0x7ff
  · right; left
    refine ⟨by omega, by omega, ?_⟩
    rw [if_neg h1, if_pos h2, Nat.mod_eq_of_lt (by omega : c.toNat / 64 < 0x20)]
  by_cases h3 : c.toNat ≤ 0xffff
  · right; right; left
    refine ⟨by omega, by omega, ?_⟩
    rw [if_neg h1, if_neg h2, if_pos h3, Nat.mod_eq_of_lt (by omega : c.toNat / 4096 < 0x10)]
  · right; right; right
    refine ⟨by omega, hv, ?_⟩
    rw [if_neg h1, if_neg h2, if_neg h3, Nat.mod_eq_of_lt (by omega : c.toNat / 262144 < 0x08)]

lemma encodeChar_valid (c : Char) : c.toNat < 55296 ∨ 57343 < c.toNat := by
  have := c.valid
  simp only [UInt32.isValidChar, Nat.isValidChar, Char.toNat_val] at this
  omega

lemma toNat_octet {n : Nat} (h : n < 256) : (UInt8.ofNat n).toNat = n := by
  rw [UInt8.toNat_ofNat', Nat.mod_eq_of_lt h]

lemma octet_eq {b : UInt8} {n : Nat} (h : b.toNat = n) : UInt8.ofNat n = b := by
  rw [← h, UInt8.ofNat_toNat]

lemma piece_one {a : UInt8} (ha : a.toNat < 128) (bs : Octets) :
    piece a bs = .char (Char.ofNat a.toNat) 1 := by
  unfold piece
  rw [if_pos (by simpa [UInt8.lt_iff_toNat_lt] using ha)]

lemma piece_two {a b : UInt8} (ha : 194 ≤ a.toNat) (ha' : a.toNat ≤ 223)
    (hb : isContinuation b = true) (bs : Octets) :
    piece a (b :: bs) = .char (Char.ofNat (a.toNat % 32 * 64 + low b)) 2 := by
  have h1 : ¬ a < 0x80 := by simp [UInt8.lt_iff_toNat_lt]; omega
  have h2 : (0xC2 ≤ a && a ≤ 0xDF) = true := by simp [UInt8.le_iff_toNat_le]; omega
  unfold piece
  rw [if_neg h1, if_pos h2]
  simp only [hb, if_true]

lemma piece_three {a b c : UInt8} (ha : 224 ≤ a.toNat) (ha' : a.toNat ≤ 239)
    (hb : isSecond a b = true) (hc : isContinuation c = true) (bs : Octets) :
    piece a (b :: c :: bs) =
      .char (Char.ofNat ((a.toNat % 16 * 64 + low b) * 64 + low c)) 3 := by
  have h1 : ¬ a < 0x80 := by simp [UInt8.lt_iff_toNat_lt]; omega
  have h2 : ¬ (0xC2 ≤ a && a ≤ 0xDF) = true := by simp [UInt8.le_iff_toNat_le]; omega
  have h3 : (0xE0 ≤ a && a ≤ 0xEF) = true := by simp [UInt8.le_iff_toNat_le]; omega
  unfold piece
  rw [if_neg h1, if_neg h2, if_pos h3]
  simp only [hb, hc, if_true]

lemma piece_four {a b c d : UInt8} (ha : 240 ≤ a.toNat) (ha' : a.toNat ≤ 244)
    (hb : isSecond a b = true) (hc : isContinuation c = true) (hd : isContinuation d = true)
    (bs : Octets) : piece a (b :: c :: d :: bs) =
      .char (Char.ofNat (((a.toNat % 8 * 64 + low b) * 64 + low c) * 64 + low d)) 4 := by
  have h1 : ¬ a < 0x80 := by simp [UInt8.lt_iff_toNat_lt]; omega
  have h2 : ¬ (0xC2 ≤ a && a ≤ 0xDF) = true := by simp [UInt8.le_iff_toNat_le]; omega
  have h3 : ¬ (0xE0 ≤ a && a ≤ 0xEF) = true := by simp [UInt8.le_iff_toNat_le]; omega
  have h4 : (0xF0 ≤ a && a ≤ 0xF4) = true := by simp [UInt8.le_iff_toNat_le]; omega
  unfold piece
  rw [if_neg h1, if_neg h2, if_neg h3, if_pos h4]
  simp only [hb, hc, hd, if_true]

/-- A piece that is a character has one of four forms. -/
lemma piece_cases {a : UInt8} {bs : Octets} {c : Char} {size : Nat}
    (h : piece a bs = .char c size) :
    (a.toNat < 128 ∧ c = Char.ofNat a.toNat ∧ size = 1) ∨
    (∃ b rest, bs = b :: rest ∧ 194 ≤ a.toNat ∧ a.toNat ≤ 223 ∧ isContinuation b = true ∧
      c = Char.ofNat (a.toNat % 32 * 64 + low b) ∧ size = 2) ∨
    (∃ b b' rest, bs = b :: b' :: rest ∧ 224 ≤ a.toNat ∧ a.toNat ≤ 239 ∧ isSecond a b = true ∧
      isContinuation b' = true ∧ c = Char.ofNat ((a.toNat % 16 * 64 + low b) * 64 + low b') ∧
      size = 3) ∨
    (∃ b b' b'' rest, bs = b :: b' :: b'' :: rest ∧ 240 ≤ a.toNat ∧ a.toNat ≤ 244 ∧
      isSecond a b = true ∧ isContinuation b' = true ∧ isContinuation b'' = true ∧
      c = Char.ofNat (((a.toNat % 8 * 64 + low b) * 64 + low b') * 64 + low b'') ∧
      size = 4) := by
  unfold piece at h
  split at h
  · rename_i ha
    cases h
    exact .inl ⟨by simpa [UInt8.lt_iff_toNat_lt] using ha, rfl, rfl⟩
  split at h
  · rename_i ha
    simp only [Bool.and_eq_true, decide_eq_true_eq, UInt8.le_iff_toNat_le] at ha
    cases bs with
    | nil => simp at h
    | cons b rest =>
      dsimp only at h
      split at h
      · cases h
        exact .inr (.inl ⟨b, rest, rfl, ha.1, ha.2, ‹_›, rfl, rfl⟩)
      · simp at h
  split at h
  · rename_i ha
    simp only [Bool.and_eq_true, decide_eq_true_eq, UInt8.le_iff_toNat_le] at ha
    rcases bs with _ | ⟨b, _ | ⟨b', rest⟩⟩
    · simp at h
    · dsimp only at h
      split at h <;> simp at h
    · dsimp only at h
      split at h
      · split at h
        · cases h
          exact .inr (.inr (.inl ⟨b, b', rest, rfl, ha.1, ha.2, ‹_›, ‹_›, rfl, rfl⟩))
        · simp at h
      · simp at h
  split at h
  · rename_i ha
    simp only [Bool.and_eq_true, decide_eq_true_eq, UInt8.le_iff_toNat_le] at ha
    rcases bs with _ | ⟨b, _ | ⟨b', _ | ⟨b'', rest⟩⟩⟩
    · simp at h
    · dsimp only at h
      split at h <;> simp at h
    · dsimp only at h
      split at h
      · split at h <;> simp at h
      · simp at h
    · dsimp only at h
      split at h
      · split at h
        · split at h
          · cases h
            exact .inr (.inr (.inr ⟨b, b', b'', rest, rfl, ha.1, ha.2, ‹_›, ‹_›, ‹_›, rfl, rfl⟩))
          · simp at h
        · simp at h
      · simp at h
  · simp at h

/-- The piece at the octets of a character is the character. -/
lemma piece_of_encodeChar {c : Char} {a : UInt8} {tail : Octets}
    (h : String.utf8EncodeChar c = a :: tail) (rest : Octets) :
    piece a (tail ++ rest) = .char c (tail.length + 1) := by
  have hvalid := encodeChar_valid c
  rcases encodeChar_cases c with ⟨hc, he⟩ | ⟨hc, hc', he⟩ | ⟨hc, hc', he⟩ | ⟨hc, hc', he⟩
  · rw [he] at h
    cases h
    have ha := toNat_octet (n := c.toNat) (by omega)
    rw [List.nil_append, piece_one (by omega), ha, Char.ofNat_toNat]
    rfl
  · rw [he] at h
    cases h
    have ha := toNat_octet (n := c.toNat / 64 + 192) (by omega)
    have hb := toNat_octet (n := c.toNat % 64 + 128) (by omega)
    have hnum : (c.toNat / 64 + 192) % 32 * 64 + (c.toNat % 64 + 128) % 64 = c.toNat := by omega
    rw [List.singleton_append, piece_two (by omega) (by omega) (isContinuation_iff.2 (by omega)),
      low, ha, hb, hnum, Char.ofNat_toNat]
    rfl
  · rw [he] at h
    cases h
    have ha := toNat_octet (n := c.toNat / 4096 + 224) (by omega)
    have hb := toNat_octet (n := c.toNat / 64 % 64 + 128) (by omega)
    have hd := toNat_octet (n := c.toNat % 64 + 128) (by omega)
    have hnum : ((c.toNat / 4096 + 224) % 16 * 64 + (c.toNat / 64 % 64 + 128) % 64) * 64 +
        (c.toNat % 64 + 128) % 64 = c.toNat := by omega
    rw [List.cons_append, List.singleton_append, piece_three (by omega) (by omega)
      (isSecond_iff.2 (by omega)) (isContinuation_iff.2 (by omega)), low, low, ha, hb, hd, hnum,
      Char.ofNat_toNat]
    rfl
  · rw [he] at h
    cases h
    have ha := toNat_octet (n := c.toNat / 262144 + 240) (by omega)
    have hb := toNat_octet (n := c.toNat / 4096 % 64 + 128) (by omega)
    have hd := toNat_octet (n := c.toNat / 64 % 64 + 128) (by omega)
    have he := toNat_octet (n := c.toNat % 64 + 128) (by omega)
    have hnum : (((c.toNat / 262144 + 240) % 8 * 64 + (c.toNat / 4096 % 64 + 128) % 64) * 64 +
        (c.toNat / 64 % 64 + 128) % 64) * 64 + (c.toNat % 64 + 128) % 64 = c.toNat := by omega
    rw [List.cons_append, List.cons_append, List.singleton_append, piece_four (by omega) (by omega)
      (isSecond_iff.2 (by omega)) (isContinuation_iff.2 (by omega))
      (isContinuation_iff.2 (by omega)), low, low, low, ha, hb, hd, he, hnum, Char.ofNat_toNat]
    rfl

/-- The octets of a piece that is a character are those of the character. -/
lemma encodeChar_of_piece {a : UInt8} {bs : Octets} {c : Char} {size : Nat}
    (h : piece a bs = .char c size) :
    String.utf8EncodeChar c ++ bs.drop (size - 1) = a :: bs := by
  rcases piece_cases h with ⟨ha, hc, rfl⟩ | ⟨b, rest, rfl, ha, ha', hb, hc, rfl⟩ |
    ⟨b, b', rest, rfl, ha, ha', hb, hb', hc, rfl⟩ |
    ⟨b, b', b'', rest, rfl, ha, ha', hb, hb', hb'', hc, rfl⟩
  · have hn : c.toNat = a.toNat := hc ▸ charOfNat_toNat (by omega)
    rcases encodeChar_cases c with ⟨-, he⟩ | h | h | h
    · rw [he, hn, UInt8.ofNat_toNat]
      rfl
    all_goals omega
  · rw [isContinuation_iff] at hb
    have hn : c.toNat = a.toNat % 32 * 64 + b.toNat % 64 :=
      hc ▸ charOfNat_toNat (by unfold low; omega)
    rcases encodeChar_cases c with h | ⟨-, -, he⟩ | h | h
    · omega
    · rw [he, octet_eq (b := a) (by omega), octet_eq (b := b) (by omega)]
      rfl
    all_goals omega
  · rw [isContinuation_iff] at hb'
    rw [isSecond_iff] at hb
    have hn : c.toNat = (a.toNat % 16 * 64 + b.toNat % 64) * 64 + b'.toNat % 64 :=
      hc ▸ charOfNat_toNat (by unfold low; omega)
    rcases encodeChar_cases c with h | h | ⟨-, -, he⟩ | h
    · omega
    · omega
    · rw [he, octet_eq (b := a) (by omega), octet_eq (b := b) (by omega),
        octet_eq (b := b') (by omega)]
      rfl
    · omega
  · rw [isContinuation_iff] at hb' hb''
    rw [isSecond_iff] at hb
    have hn : c.toNat =
        ((a.toNat % 8 * 64 + b.toNat % 64) * 64 + b'.toNat % 64) * 64 + b''.toNat % 64 :=
      hc ▸ charOfNat_toNat (by unfold low; omega)
    rcases encodeChar_cases c with h | h | h | ⟨-, -, he⟩
    · omega
    · omega
    · omega
    · rw [he, octet_eq (b := a) (by omega), octet_eq (b := b) (by omega),
        octet_eq (b := b') (by omega), octet_eq (b := b'') (by omega)]
      rfl

/-! ### Texts -/

lemma encode_append (as bs : List Char) : encode (as ++ bs) = encode as ++ encode bs :=
  List.flatMap_append

lemma encode_cons (c : Char) (cs : List Char) :
    encode (c :: cs) = String.utf8EncodeChar c ++ encode cs :=
  List.flatMap_cons

lemma decodeFrom_nil (offset : Nat) : decodeFrom offset [] = .ok [] := by
  unfold decodeFrom
  rfl

/-- Characters at the front are decoded whatever follows them. -/
lemma decodeFrom_encode_append (offset : Nat) (cs : List Char) (bs : Octets) :
    decodeFrom offset (encode cs ++ bs) =
      (decodeFrom (offset + (encode cs).length) bs).map (cs ++ ·) := by
  induction cs generalizing offset with
  | nil =>
    rw [encode, List.flatMap_nil, List.nil_append, List.length_nil, Nat.add_zero]
    cases decodeFrom offset bs <;> rfl
  | cons c cs ih =>
    obtain ⟨a, tail, he⟩ := List.exists_cons_of_ne_nil (@String.utf8EncodeChar_ne_nil c)
    have hoffset : offset + (tail.length + 1) + (encode cs).length =
        offset + ((a :: tail) ++ encode cs).length := by
      rw [List.length_append, List.length_cons, Nat.add_assoc]
    rw [encode_cons, he, List.append_assoc, List.cons_append, decodeFrom, piece_of_encodeChar he]
    simp only [Nat.add_sub_cancel, List.drop_left, ih, hoffset]
    cases decodeFrom (offset + ((a :: tail) ++ encode cs).length) bs <;> rfl

lemma decodeFrom_encode (offset : Nat) (cs : List Char) :
    decodeFrom offset (encode cs) = .ok cs := by
  have h := decodeFrom_encode_append offset cs []
  rw [List.append_nil, decodeFrom_nil, Except.map, List.append_nil] at h
  exact h

lemma encode_of_decodeFrom {offset : Nat} {bs : Octets} {cs : List Char}
    (h : decodeFrom offset bs = .ok cs) : encode cs = bs := by
  induction hn : bs.length using Nat.strongRecOn generalizing offset bs cs with
  | ind n ih =>
    cases bs with
    | nil =>
      rw [decodeFrom_nil] at h
      cases h
      rfl
    | cons a bs =>
      rw [decodeFrom] at h
      cases hp : piece a bs with
      | malformed size => simp [hp] at h
      | char c size =>
        simp only [hp] at h
        cases hd : decodeFrom (offset + size) (bs.drop (size - 1)) with
        | error e => simp [hd, Except.map] at h
        | ok rest =>
          simp only [hd, Except.map, Except.ok.injEq] at h
          subst h
          have hlen : (bs.drop (size - 1)).length < n := by
            rw [← hn, List.length_drop, List.length_cons]
            omega
          rw [encode_cons, ih _ hlen hd rfl]
          exact encodeChar_of_piece hp

/-- Octets are decoded exactly where they are the encoding of the text. -/
theorem decode_eq_ok_iff {bs : Octets} {cs : List Char} : decode bs = .ok cs ↔ encode cs = bs := by
  constructor
  · exact encode_of_decodeFrom
  · rintro rfl
    exact decodeFrom_encode 0 cs

end DotGraph.Text.Utf8
