import DotGraph.Proofs.DeclaredCharset
import DotGraph.Proofs.Utf8Sequences

/-!
# Character sets as codecs

In each character set, decoding and encoding are inverse to one another where they succeed. A
refusal to decode names the length of the longest beginning that is text, a refusal to encode the
first character that the set lacks.
-/

namespace DotGraph

namespace Charset

open Text

/-- The octets that are text in the set. -/
def Admits : Charset → Octets → Prop
  | utf8, octets => Utf8.IsWellFormed octets
  | latin1, _ => True
  | ascii, octets => ∀ b ∈ octets, b < 0x80

variable {charset : Charset} {octets : Octets}

/-! ### Encoding what was decoded -/

lemma encode_charOfOctet {limit : Nat} (hl : charset.limit? = some limit)
    (hle : ∀ b ∈ octets, b.toNat ≤ limit) :
    charset.encode (String.ofList (octets.map charOfOctet)) = .ok octets := by
  have hnone : (octets.map charOfOctet).find? (limit < ·.toNat) = none := by
    rw [List.find?_eq_none]
    intro c hc
    obtain ⟨b, hb, rfl⟩ := List.mem_map.1 hc
    rw [charOfOctet_toNat, decide_eq_true_eq]
    exact Nat.not_lt_of_le (hle b hb)
  have hback : (octets.map charOfOctet).map (fun c => UInt8.ofNat c.toNat) = octets := by
    rw [List.map_map]
    refine (List.map_congr_left fun b _ => ?_).trans (List.map_id octets)
    rw [Function.comp_apply, charOfOctet_toNat, UInt8.ofNat_toNat]
    rfl
  simp only [encode, hl, String.toList_ofList, hnone, hback]

lemma decode_ascii_eq_ok_iff {text : String} : ascii.decode octets = .ok text ↔
    ascii.Admits octets ∧ text = String.ofList (octets.map charOfOctet) := by
  have hnone : octets.findIdx? (0x80 ≤ ·) = none ↔ ascii.Admits octets := by
    simp [List.findIdx?_eq_none_iff, Admits]
  rw [← hnone, decode]
  cases octets.findIdx? (0x80 ≤ ·) <;> simp [eq_comm]

/-- Decoded text is encoded to the octets that it came from. -/
theorem encode_decode {text : String} (h : charset.decode octets = .ok text) :
    charset.encode text = .ok octets := by
  cases charset with
  | utf8 => exact congrArg Except.ok (Reader.decode_utf8_eq_ok_iff.1 h)
  | latin1 =>
    cases h
    exact encode_charOfOctet rfl fun b _ => Nat.le_of_lt_succ b.toNat_lt
  | ascii =>
    obtain ⟨hall, rfl⟩ := decode_ascii_eq_ok_iff.1 h
    exact encode_charOfOctet rfl fun b hb => Nat.le_of_lt_succ (UInt8.lt_iff_toNat_lt.1 (hall b hb))

lemma exists_decode_eq_ok_iff : (∃ text, charset.decode octets = .ok text) ↔
    charset.Admits octets := by
  cases charset with
  | utf8 =>
    rw [Admits, ← Utf8.exists_encode_eq_iff]
    simp only [Reader.decode_utf8_eq_ok_iff]
    exact ⟨fun ⟨text, h⟩ => ⟨text.toList, h⟩,
      fun ⟨cs, h⟩ => ⟨String.ofList cs, by rw [String.toList_ofList, h]⟩⟩
  | latin1 => exact ⟨fun _ => trivial, fun _ => ⟨_, rfl⟩⟩
  | ascii => simp [decode_ascii_eq_ok_iff]

/-! ### Refused octets -/

lemma isGreatest_of_findIdx? {offset : Nat} (h : octets.findIdx? (0x80 ≤ ·) = some offset) :
    IsGreatest {n | ascii.Admits (octets.take n)} offset := by
  obtain ⟨hlt, hoffset, hbefore⟩ := List.findIdx?_eq_some_iff_getElem.1 h
  constructor
  · intro b hb
    obtain ⟨i, hi, rfl⟩ := List.mem_take_iff_getElem.1 hb
    simpa using hbefore i (by omega)
  · intro n hn
    by_contra hlonger
    have hmem : octets[offset] ∈ octets.take n :=
      List.mem_take_iff_getElem.2 ⟨offset, by omega, rfl⟩
    exact UInt8.not_lt.2 (of_decide_eq_true hoffset) (hn _ hmem)

/-- A refusal names the length of the longest beginning that is text in the set. -/
lemma exists_offset_of_decode_eq_error {error : DotError}
    (h : charset.decode octets = .error error) :
    ∃ offset, error = .undecodable charset offset ∧
      IsGreatest {n | ∃ text, charset.decode (octets.take n) = .ok text} offset := by
  simp only [exists_decode_eq_ok_iff]
  cases charset with
  | utf8 =>
    rw [decode] at h
    split at h
    · cases h
    · rename_i offset hoffset
      cases h
      refine ⟨offset, rfl, ?_⟩
      have hgreatest := Utf8.isGreatest_of_decode_eq_error hoffset
      simp only [Utf8.decode_eq_ok_iff, Utf8.exists_encode_eq_iff] at hgreatest
      exact hgreatest
  | latin1 => cases h
  | ascii =>
    rw [decode] at h
    split at h
    · rename_i offset hoffset
      cases h
      exact ⟨offset, rfl, isGreatest_of_findIdx? hoffset⟩
    · cases h

/-- In each character set, octets are decoded to a text exactly where the text is encoded to them,
and they are text exactly where the set admits them. Octets that are refused are reported by the
length of their longest beginning that is text, and a text by the first character that the set
lacks. -/
theorem decode_eq_ok_iff_encode (charset : Charset) :
    (∀ octets text, charset.decode octets = .ok text ↔ charset.encode text = .ok octets) ∧
      (∀ octets, (∃ text, charset.decode octets = .ok text) ↔ charset.Admits octets) ∧
      (∀ octets error, charset.decode octets = .error error ↔
        ∃ offset, error = .undecodable charset offset ∧ offset < octets.length ∧
          IsGreatest {n | ∃ text, charset.decode (octets.take n) = .ok text} offset) ∧
      ∀ text error, charset.encode text = .error error ↔
        ∃ c, charset.FirstLacks text c ∧ error = .unencodable charset c := by
  refine ⟨fun octets text => ⟨encode_decode, decode_encode⟩, fun _ => exists_decode_eq_ok_iff, ?_,
    fun _ _ => encode_eq_error_iff⟩
  intro octets error
  constructor
  · intro h
    obtain ⟨offset, he, hgreatest⟩ := exists_offset_of_decode_eq_error h
    refine ⟨offset, he, ?_, hgreatest⟩
    by_contra hlt
    obtain ⟨text, htext⟩ := hgreatest.1
    rw [List.take_of_length_le (by omega), h] at htext
    cases htext
  · rintro ⟨offset, rfl, hlt, hgreatest⟩
    cases h : charset.decode octets with
    | ok text =>
      -- all of the octets would be a longer beginning
      have hle : octets.length ≤ offset :=
        hgreatest.2 ⟨text, by rw [List.take_length, h]⟩
      omega
    | error e =>
      obtain ⟨other, rfl, hother⟩ := exists_offset_of_decode_eq_error h
      rw [hgreatest.unique hother]

end Charset

end DotGraph
