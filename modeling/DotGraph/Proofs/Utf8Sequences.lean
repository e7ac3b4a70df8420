import DotGraph.Proofs.Utf8
import Mathlib.Order.Bounds.Basic

/-!
# Well-formed UTF-8

Octets are the encoding of a text exactly where they are well-formed sequences one behind the
other. Where they are not, decoding stops behind the longest beginning that is.
-/

namespace DotGraph.Text.Utf8

/-! ### Well-formed octets -/

/-- The octets of one character. The bits of its number stand behind the mark of the first octet
and those of the octets that continue it. A form begins where the shorter ones end, so that none is
overlong; surrogates are left out, and the last number is 0x10FFFF. -/
inductive IsSequence : Octets → Prop
  | one {n : Nat} (h : n < 0x80) : IsSequence [UInt8.ofNat n]
  | two {m n : Nat} (hm : m < 0x20) (hn : n < 0x40) (h : 0x80 ≤ m * 0x40 + n) :
      IsSequence [UInt8.ofNat (m + 0xC0), UInt8.ofNat (n + 0x80)]
  | three {l m n : Nat} (hl : l < 0x10) (hm : m < 0x40) (hn : n < 0x40)
      (h : 0x800 ≤ (l * 0x40 + m) * 0x40 + n)
      (hs : (l * 0x40 + m) * 0x40 + n < 0xD800 ∨ 0xDFFF < (l * 0x40 + m) * 0x40 + n) :
      IsSequence [UInt8.ofNat (l + 0xE0), UInt8.ofNat (m + 0x80), UInt8.ofNat (n + 0x80)]
  | four {k l m n : Nat} (hk : k < 0x08) (hl : l < 0x40) (hm : m < 0x40) (hn : n < 0x40)
      (h : 0x10000 ≤ ((k * 0x40 + l) * 0x40 + m) * 0x40 + n)
      (hle : ((k * 0x40 + l) * 0x40 + m) * 0x40 + n ≤ 0x10FFFF) :
      IsSequence [UInt8.ofNat (k + 0xF0), UInt8.ofNat (l + 0x80), UInt8.ofNat (m + 0x80),
        UInt8.ofNat (n + 0x80)]

/-- The octets are well-formed sequences one behind the other. -/
def IsWellFormed (octets : Octets) : Prop :=
  ∃ parts : List Octets, (∀ part ∈ parts, IsSequence part) ∧ parts.flatten = octets

lemma isSequence_encodeChar (c : Char) : IsSequence (String.utf8EncodeChar c) := by
  have hvalid := encodeChar_valid c
  rcases encodeChar_cases c with ⟨hc, he⟩ | ⟨hc, hc', he⟩ | ⟨hc, hc', he⟩ | ⟨hc, hc', he⟩
  · rw [he]
    exact .one hc
  · rw [he]
    exact .two (by omega) (by omega) (by omega)
  · rw [he]
    exact .three (by omega) (by omega) (by omega) (by omega) (by omega)
  · rw [he]
    exact .four (by omega) (by omega) (by omega) (by omega) (by omega) (by omega)

lemma IsSequence.exists_char {bs : Octets} (h : IsSequence bs) :
    ∃ c, String.utf8EncodeChar c = bs := by
  cases h with
  | @one n h =>
    have hcases := encodeChar_cases (Char.ofNat n)
    rw [charOfNat_toNat (by omega)] at hcases
    rcases hcases with ⟨-, he⟩ | h | h | h
    · exact ⟨_, he⟩
    all_goals omega
  | @two m n hm hn h =>
    have hcases := encodeChar_cases (Char.ofNat (m * 0x40 + n))
    rw [charOfNat_toNat (by omega)] at hcases
    rcases hcases with h | ⟨-, -, he⟩ | h | h
    · omega
    · have hm' : (m * 0x40 + n) / 64 = m := by omega
      have hn' : (m * 0x40 + n) % 64 = n := by omega
      rw [hm', hn'] at he
      exact ⟨_, he⟩
    all_goals omega
  | @three l m n hl hm hn h hs =>
    have hcases := encodeChar_cases (Char.ofNat ((l * 0x40 + m) * 0x40 + n))
    rw [charOfNat_toNat (by omega)] at hcases
    rcases hcases with h | h | ⟨-, -, he⟩ | h
    · omega
    · omega
    · have hl' : ((l * 0x40 + m) * 0x40 + n) / 4096 = l := by omega
      have hm' : ((l * 0x40 + m) * 0x40 + n) / 64 % 64 = m := by omega
      have hn' : ((l * 0x40 + m) * 0x40 + n) % 64 = n := by omega
      rw [hl', hm', hn'] at he
      exact ⟨_, he⟩
    · omega
  | @four k l m n hk hl hm hn h hle =>
    have hcases := encodeChar_cases (Char.ofNat (((k * 0x40 + l) * 0x40 + m) * 0x40 + n))
    rw [charOfNat_toNat (by omega)] at hcases
    rcases hcases with h | h | h | ⟨-, -, he⟩
    · omega
    · omega
    · omega
    · have hk' : (((k * 0x40 + l) * 0x40 + m) * 0x40 + n) / 262144 = k := by omega
      have hl' : (((k * 0x40 + l) * 0x40 + m) * 0x40 + n) / 4096 % 64 = l := by omega
      have hm' : (((k * 0x40 + l) * 0x40 + m) * 0x40 + n) / 64 % 64 = m := by omega
      have hn' : (((k * 0x40 + l) * 0x40 + m) * 0x40 + n) % 64 = n := by omega
      rw [hk', hl', hm', hn'] at he
      exact ⟨_, he⟩

/-- The octets of texts are the well-formed ones. -/
theorem exists_encode_eq_iff {octets : Octets} :
    (∃ cs, encode cs = octets) ↔ IsWellFormed octets := by
  constructor
  · rintro ⟨cs, rfl⟩
    refine ⟨cs.map String.utf8EncodeChar, ?_, List.flatMap_def.symm⟩
    intro part hpart
    obtain ⟨c, -, rfl⟩ := List.mem_map.1 hpart
    exact isSequence_encodeChar c
  · rintro ⟨parts, hparts, rfl⟩
    induction parts with
    | nil => exact ⟨[], rfl⟩
    | cons part parts ih =>
      obtain ⟨c, hc⟩ := (hparts part List.mem_cons_self).exists_char
      obtain ⟨cs, hcs⟩ := ih fun other hother => hparts other (List.mem_cons_of_mem part hother)
      exact ⟨c :: cs, by rw [encode_cons, hc, hcs, List.flatten_cons]⟩

/-! ### Where decoding stops -/

/-- The octets of a character at the front are cut off by its size. -/
lemma split_of_piece {a : UInt8} {bs : Octets} {c : Char} {size : Nat}
    (h : piece a bs = .char c size) :
    ∃ tail rest, String.utf8EncodeChar c = a :: tail ∧ bs = tail ++ rest ∧
      size = tail.length + 1 := by
  obtain ⟨b, tail, he⟩ := List.exists_cons_of_ne_nil (@String.utf8EncodeChar_ne_nil c)
  have hsplit := encodeChar_of_piece h
  rw [he, List.cons_append, List.cons.injEq] at hsplit
  obtain ⟨rfl, htail⟩ := hsplit
  rw [← htail, piece_of_encodeChar he, Piece.char.injEq] at h
  exact ⟨tail, _, he, htail.symm, h.2.symm⟩

/-- A character at the front does not depend on what follows it. -/
lemma piece_append {a : UInt8} {bs : Octets} {c : Char} {size : Nat}
    (h : piece a bs = .char c size) (more : Octets) : piece a (bs ++ more) = .char c size := by
  obtain ⟨tail, rest, he, rfl, rfl⟩ := split_of_piece h
  rw [List.append_assoc, piece_of_encodeChar he]

/-- Decoding stops behind characters, at octets that begin none. -/
lemma decodeFrom_eq_error {offset stop : Nat} {bs : Octets}
    (h : decodeFrom offset bs = .error stop) :
    ∃ cs a rest size, bs = encode cs ++ a :: rest ∧ stop = offset + (encode cs).length ∧
      piece a rest = .malformed size := by
  fun_induction decodeFrom offset bs with
  | case1 => simp at h
  | case2 offset a bs c size hp ih =>
    cases hd : decodeFrom (offset + size) (bs.drop (size - 1)) with
    | ok cs => simp [hd, Except.map] at h
    | error e =>
      rw [hd, Except.map, Except.error.injEq] at h
      subst h
      obtain ⟨cs, b, rest, width, hbs, hstop, hb⟩ := ih hd
      obtain ⟨tail, left, he, rfl, rfl⟩ := split_of_piece hp
      rw [Nat.add_sub_cancel, List.drop_left] at hbs
      refine ⟨c :: cs, b, rest, width, ?_, ?_, hb⟩
      · rw [encode_cons, he, List.append_assoc, ← hbs, List.cons_append]
      · rw [hstop, encode_cons, he, List.length_append, List.length_cons, Nat.add_assoc]
  | case3 offset a bs size hp =>
    cases h
    exact ⟨[], a, bs, size, rfl, rfl, hp⟩

/-- Decoding stops behind the longest beginning that is the encoding of a text. -/
theorem isGreatest_of_decode_eq_error {bs : Octets} {stop : Nat} (h : decode bs = .error stop) :
    IsGreatest {n | ∃ cs, decode (bs.take n) = .ok cs} stop := by
  obtain ⟨cs, a, rest, size, rfl, hstop, hp⟩ := decodeFrom_eq_error h
  rw [Nat.zero_add] at hstop
  subst hstop
  constructor
  · exact ⟨cs, by rw [List.take_left, decode_eq_ok_iff]⟩
  · rintro n ⟨ds, hds⟩
    by_contra hn
    obtain ⟨k, rfl⟩ : ∃ k, n = (encode cs).length + (k + 1) :=
      ⟨n - (encode cs).length - 1, by omega⟩
    rw [List.take_length_add_append, List.take_succ_cons, decode, decodeFrom_encode_append,
      decodeFrom] at hds
    cases hq : piece a (rest.take k) with
    | malformed size => simp [hq, Except.map] at hds
    | char c size =>
      -- a character in the shorter octets would be one in all of them
      have hall := piece_append hq (rest.drop k)
      rw [List.take_append_drop, hp] at hall
      cases hall

end DotGraph.Text.Utf8
