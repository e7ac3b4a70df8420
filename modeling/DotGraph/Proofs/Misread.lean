import DotGraph.Proofs.Utf8

/-!
# Misread texts

A text that was written in UTF-8 and is read as Latin-1. ASCII characters are read as they are, any
other as two or more characters that are beyond ASCII too.
-/

namespace DotGraph.Text

/-- The UTF-8 octets of a text, read as Latin-1. -/
def misread (cs : List Char) : List Char := (Utf8.encode cs).map Charset.charOfOctet

/-- The number of characters beyond ASCII. -/
def beyond (cs : List Char) : Nat := cs.countP (0x80 ≤ ·.toNat)

lemma charOfOctet_toNat (b : UInt8) : (Charset.charOfOctet b).toNat = b.toNat :=
  Utf8.charOfNat_toNat (.inl (Nat.lt_trans b.toNat_lt (by decide)))

lemma charOfOctet_injective : Function.Injective Charset.charOfOctet := by
  intro a b h
  have htoNat := congrArg Char.toNat h
  rw [charOfOctet_toNat, charOfOctet_toNat] at htoNat
  exact UInt8.toNat_inj.1 htoNat

lemma misread_append (as bs : List Char) : misread (as ++ bs) = misread as ++ misread bs := by
  rw [misread, Utf8.encode_append, List.map_append]
  rfl

lemma misread_cons (c : Char) (cs : List Char) : misread (c :: cs) = misread [c] ++ misread cs :=
  misread_append [c] cs

lemma misread_singleton (c : Char) :
    misread [c] = (String.utf8EncodeChar c).map Charset.charOfOctet := by
  rw [misread, Utf8.encode_cons]
  simp [Utf8.encode]

lemma misread_injective : Function.Injective misread := by
  intro as bs h
  have hencode := (List.map_inj_right fun _ _ hc => charOfOctet_injective hc).1 h
  have has := Utf8.decode_eq_ok_iff.2 (rfl : Utf8.encode as = _)
  have hbs := Utf8.decode_eq_ok_iff.2 (rfl : Utf8.encode bs = _)
  rw [hencode, hbs] at has
  exact (Except.ok.inj has).symm

lemma misread_ascii {c : Char} (hc : c.toNat < 0x80) (cs : List Char) :
    misread (c :: cs) = c :: misread cs := by
  have hchar : misread [c] = [c] := by
    rw [misread_singleton]
    rcases Utf8.encodeChar_cases c with ⟨-, he⟩ | h | h | h
    · rw [he, List.map_singleton, Charset.charOfOctet, Utf8.toNat_octet (by omega),
        Char.ofNat_toNat]
    all_goals omega
  rw [misread_cons, hchar, List.singleton_append]

/-- A character beyond ASCII is misread as several, the first of which is no blank. -/
lemma misread_singleton_beyond {c : Char} (hc : 0x80 ≤ c.toNat) :
    ∃ a b more, misread [c] = a :: b :: more ∧ 0xC2 ≤ a.toNat ∧ a.toNat < 0x100 ∧
      ∀ d ∈ a :: b :: more, 0x80 ≤ d.toNat := by
  rw [misread_singleton]
  rcases Utf8.encodeChar_cases c with h | ⟨hl, hu, he⟩ | ⟨hl, hu, he⟩ | ⟨hl, hu, he⟩
  · omega
  · refine ⟨_, _, [], by rw [he]; rfl, ?_⟩
    simp only [List.forall_mem_cons, charOfOctet_toNat]
    rw [Utf8.toNat_octet (by omega), Utf8.toNat_octet (by omega)]
    exact ⟨by omega, by omega, by omega, by omega, by simp⟩
  · refine ⟨_, _, [_], by rw [he]; rfl, ?_⟩
    simp only [List.forall_mem_cons, charOfOctet_toNat]
    rw [Utf8.toNat_octet (by omega), Utf8.toNat_octet (by omega), Utf8.toNat_octet (by omega)]
    exact ⟨by omega, by omega, by omega, by omega, by omega, by simp⟩
  · refine ⟨_, _, [_, _], by rw [he]; rfl, ?_⟩
    simp only [List.forall_mem_cons, charOfOctet_toNat]
    rw [Utf8.toNat_octet (by omega), Utf8.toNat_octet (by omega), Utf8.toNat_octet (by omega),
      Utf8.toNat_octet (by omega)]
    exact ⟨by omega, by omega, by omega, by omega, by omega, by omega, by simp⟩

lemma beyond_append (as bs : List Char) : beyond (as ++ bs) = beyond as + beyond bs :=
  List.countP_append

lemma beyond_ascii {c : Char} (hc : c.toNat < 0x80) (cs : List Char) :
    beyond (c :: cs) = beyond cs := by
  have : ¬ 0x80 ≤ c.toNat := by omega
  rw [beyond, List.countP_cons_of_neg (by simpa using hc)]
  rfl

lemma beyond_le_length (cs : List Char) : beyond cs ≤ cs.length := List.countP_le_length

lemma beyond_le_of_infix {as bs : List Char} (h : as <:+: bs) : beyond as ≤ beyond bs :=
  h.sublist.countP_le

lemma beyond_eq_zero_iff {cs : List Char} : beyond cs = 0 ↔ ∀ c ∈ cs, c.toNat < 0x80 := by
  simp [beyond, List.countP_eq_zero]

lemma beyond_eq_length {cs : List Char} (h : ∀ c ∈ cs, 0x80 ≤ c.toNat) : beyond cs = cs.length := by
  rw [beyond, List.countP_eq_length]
  simpa using h

/-- Misreading at least doubles the number of characters beyond ASCII. -/
lemma beyond_misread (cs : List Char) : 2 * beyond cs ≤ beyond (misread cs) := by
  induction cs with
  | nil => exact Nat.zero_le _
  | cons c cs ih =>
    by_cases hc : c.toNat < 0x80
    · rw [misread_ascii hc, beyond_ascii hc, beyond_ascii hc]
      exact ih
    · obtain ⟨a, b, more, he, -, -, hmem⟩ := misread_singleton_beyond (Nat.not_lt.1 hc)
      have hmany := beyond_eq_length hmem
      have hone : beyond [c] = 1 := beyond_eq_length (by simpa using Nat.not_lt.1 hc)
      have hcons : beyond (c :: cs) = beyond [c] + beyond cs := beyond_append [c] cs
      rw [misread_cons, beyond_append, he, hmany, hcons, hone]
      simp only [List.length_cons]
      omega

lemma misread_of_ascii {cs : List Char} (h : ∀ c ∈ cs, c.toNat < 0x80) : misread cs = cs := by
  induction cs with
  | nil => rfl
  | cons c cs ih =>
    rw [misread_ascii (h c List.mem_cons_self), ih fun d hd => h d (List.mem_cons_of_mem _ hd)]

lemma mem_misread_iff {d : Char} (hd : d.toNat < 0x80) {cs : List Char} :
    d ∈ misread cs ↔ d ∈ cs := by
  induction cs with
  | nil => simp [misread, Utf8.encode]
  | cons c cs ih =>
    by_cases hc : c.toNat < 0x80
    · rw [misread_ascii hc, List.mem_cons, List.mem_cons, ih]
    · obtain ⟨a, b, more, he, -, -, hmem⟩ := misread_singleton_beyond (Nat.not_lt.1 hc)
      have hne : d ≠ c := by
        rintro rfl
        exact hc hd
      have hnot : d ∉ misread [c] := by
        intro hm
        rw [he] at hm
        have := hmem d hm
        omega
      rw [misread_cons, List.mem_append, List.mem_cons, ih]
      simp only [hnot, hne, false_or]

/-- A misread text can be cut at a character of ASCII. -/
lemma misread_split {s a b : List Char} {d : Char} (hd : d.toNat < 0x80)
    (h : misread s = a ++ d :: b) :
    ∃ s₁ s₂, s = s₁ ++ d :: s₂ ∧ misread s₁ = a ∧ misread s₂ = b := by
  induction s generalizing a with
  | nil => simp [misread, Utf8.encode] at h
  | cons c cs ih =>
    by_cases hc : c.toNat < 0x80
    · rw [misread_ascii hc] at h
      cases a with
      | nil =>
        obtain ⟨rfl, rfl⟩ := List.cons.inj h
        exact ⟨[], cs, rfl, rfl, rfl⟩
      | cons e a =>
        obtain ⟨rfl, hrest⟩ := List.cons.inj h
        obtain ⟨s₁, s₂, rfl, hs, hs'⟩ := ih hrest
        exact ⟨c :: s₁, s₂, rfl, by rw [misread_ascii hc, hs], hs'⟩
    · obtain ⟨e, f, more, he, -, -, hmem⟩ := misread_singleton_beyond (Nat.not_lt.1 hc)
      rw [misread_cons] at h
      rcases List.append_eq_append_iff.1 h with ⟨a', rfl, hrest⟩ | ⟨left, hleft, hrest⟩
      · obtain ⟨s₁, s₂, rfl, rfl, rfl⟩ := ih hrest
        exact ⟨c :: s₁, s₂, rfl, misread_cons c s₁, rfl⟩
      · cases left with
        | nil =>
          obtain ⟨s₁, s₂, rfl, hs, rfl⟩ := ih (a := []) hrest.symm
          refine ⟨c :: s₁, s₂, rfl, ?_, rfl⟩
          rw [misread_cons, hs, hleft, List.append_nil, List.append_nil]
        | cons g left =>
          obtain ⟨rfl, -⟩ := List.cons.inj hrest
          have hmisread : d ∈ misread [c] := by simp [hleft]
          rw [he] at hmisread
          have := hmem d hmisread
          omega

end DotGraph.Text
