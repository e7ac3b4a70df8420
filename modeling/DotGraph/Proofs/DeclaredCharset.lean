import DotGraph.Proofs.FormatInPlace

/-!
# Graphs in the character set that they declare

Octets that were encoded in a character set are decoded to the text that they came from, and
encoding fails at the first character that the set lacks. So the octets of a graph that was read
are read as that graph in the character set that it declares, wherever they exist.
-/

namespace DotGraph

open Text Scan Batch

namespace Charset

/-- The characters that the set does not have. -/
def Lacks : Charset → Char → Prop
  | utf8, _ => False
  | latin1, c => 0xFF < c.toNat
  | ascii, c => 0x7F < c.toNat

/-- The character is the first one in the text that the set lacks. -/
def FirstLacks (charset : Charset) (text : String) (c : Char) : Prop :=
  charset.Lacks c ∧ ∃ before after, text.toList = before ++ c :: after ∧
    ∀ d ∈ before, ¬ charset.Lacks d

variable {charset : Charset}

lemma lacks_iff {c : Char} : charset.Lacks c ↔ ∃ limit ∈ charset.limit?, limit < c.toNat := by
  cases charset <;> simp [Lacks, limit?]

/-! ### Encoding -/

lemma encode_eq_error_iff {text : String} {error : DotError} :
    charset.encode text = .error error ↔
      ∃ c, charset.FirstLacks text c ∧ error = .unencodable charset c := by
  cases hlimit : charset.limit? with
  | none =>
    have hall (c : Char) : ¬ charset.Lacks c := by simp [lacks_iff, hlimit]
    simp [encode, hlimit, FirstLacks, hall]
  | some limit =>
    have hlacks (c : Char) : charset.Lacks c ↔ limit < c.toNat := by simp [lacks_iff, hlimit]
    have hfirst (c : Char) : charset.FirstLacks text c ↔
        text.toList.find? (limit < ·.toNat) = some c := by
      rw [List.find?_eq_some_iff_append]
      simp [FirstLacks, hlacks]
    simp only [encode, hlimit, hfirst]
    cases text.toList.find? (limit < ·.toNat) <;> simp [eq_comm]

lemma exists_encode_eq_ok_iff {text : String} :
    (∃ octets, charset.encode text = .ok octets) ↔ ∀ c ∈ text.toList, ¬ charset.Lacks c := by
  cases hlimit : charset.limit? with
  | none => simp [encode, lacks_iff, hlimit]
  | some limit =>
    have hnone : (∀ c ∈ text.toList, ¬ charset.Lacks c) ↔
        text.toList.find? (limit < ·.toNat) = none := by
      simp [lacks_iff, hlimit]
    simp only [encode, hlimit, hnone]
    cases text.toList.find? (limit < ·.toNat) <;> simp

/-! ### Decoding what was encoded -/

/-- Octets that were encoded are decoded to their text. -/
theorem decode_encode {text : String} {octets : Octets} (h : charset.encode text = .ok octets) :
    charset.decode octets = .ok text := by
  cases charset with
  | utf8 =>
    cases h
    exact Reader.decode_utf8_eq_ok_iff.2 rfl
  | latin1 =>
    have hchars := (encode_limited rfl (by decide) h).1
    rw [decode, hchars, String.ofList_toList]
  | ascii =>
    obtain ⟨hchars, hle⟩ := encode_limited rfl (by decide) h
    have hnone : octets.findIdx? (0x80 ≤ ·) = none := by
      rw [List.findIdx?_eq_none_iff]
      intro b hb
      have hchar := hle (charOfOctet b) (hchars ▸ List.mem_map_of_mem hb)
      rw [charOfOctet_toNat] at hchar
      rw [decide_eq_false_iff_not, UInt8.le_iff_toNat_le]
      exact Nat.not_le_of_lt (Nat.lt_succ_of_le hchar)
    simp only [decode, hnone, hchars, String.ofList_toList]

end Charset

/-! ### Octets of a graph that was read -/

lemma Graph.toOctets_eq {g : Graph} {charset : Charset} (h : g.charset = .ok charset) :
    g.toOctets = charset.encode g.text := by
  rw [toOctets, h]
  rfl

namespace Reader

/-- The octets of a graph that was read are read as that graph in the character set that it
declares. There are octets unless the text holds a character that the set lacks, and the first
such character is reported. -/
theorem parseOctets_toOctets {reader : Reader} {source : String} {parsed : Parsed}
    (ha : AvoidsSignedPoint source) (h : reader.parse source = .ok parsed) {g : Graph}
    (hg : g ∈ parsed.toList) {charset : Charset} (hc : g.charset = .ok charset) :
    (∀ octets, g.toOctets = .ok octets →
        reader.parseOctets charset octets = .ok (.single g)) ∧
      ((∃ octets, g.toOctets = .ok octets) ↔ ∀ c ∈ g.text.toList, ¬ charset.Lacks c) ∧
      ∀ error, g.toOctets = .error error ↔
        ∃ c, charset.FirstLacks g.text c ∧ error = .unencodable charset c := by
  obtain ⟨hcanonical, hsimple, hsettled⟩ := (graphs_of_parse ha h).2.2 g hg
  have hread : reader.parse g.text = .ok (.single g) := by
    rw [Graph.text, Graph.IsWritable.parse_graph Printer.isReadable_default hcanonical.isWritable
      hsimple, toGraph_declaration rfl hcanonical hsimple hsettled]
  rw [Graph.toOctets_eq hc]
  refine ⟨?_, Charset.exists_encode_eq_ok_iff, fun _ => Charset.encode_eq_error_iff⟩
  intro octets hencode
  rw [parseOctets, Charset.decode_encode hencode]
  exact hread

/-- A name that Latin-1 can hold, and one that stops the encoding in ASCII. -/
theorem parseOctets_toOctets_accented :
    AvoidsSignedPoint "graph\x7bcharset=latin1;\"é\"\x7d" ∧
      AvoidsSignedPoint "graph\x7bcharset=ascii;\"aé€\"\x7d" ∧
      ∃ latin1 ascii octets,
        Reader.parse {} "graph\x7bcharset=latin1;\"é\"\x7d" = .ok (.single latin1) ∧
        Reader.parse {} "graph\x7bcharset=ascii;\"aé€\"\x7d" = .ok (.single ascii) ∧
        latin1.charset = .ok .latin1 ∧ ascii.charset = .ok .ascii ∧
        latin1.toOctets = .ok octets ∧
        Reader.parseOctets {} .latin1 octets = .ok (.single latin1) ∧
        ascii.toOctets = .error (.unencodable .ascii 'é') ∧
        Charset.ascii.FirstLacks ascii.text 'é' := by
  have hlatin1 : Reader.parse {} "graph\x7bcharset=latin1;\"é\"\x7d" =
      .ok (.single (declaring ⟨"latin1"⟩ ⟨"\"é\""⟩)) :=
    parse_declaring (.name (by decide +kernel)) (.quoted (.nil _)) (by decide +kernel)
  have hascii : Reader.parse {} "graph\x7bcharset=ascii;\"aé€\"\x7d" =
      .ok (.single (declaring ⟨"ascii"⟩ ⟨"\"aé€\""⟩)) :=
    parse_declaring (.name (by decide +kernel)) (.quoted (.nil _)) (by decide +kernel)
  have ha1 : AvoidsSignedPoint "graph\x7bcharset=latin1;\"é\"\x7d" := by decide +kernel
  have ha2 : AvoidsSignedPoint "graph\x7bcharset=ascii;\"aé€\"\x7d" := by decide +kernel
  have hoctets : (declaring ⟨"latin1"⟩ ⟨"\"é\""⟩).toOctets =
      .ok (octetsOf "graph \x7b\ncharset=latin1;\n\"é\";\n\x7d\n") := by decide +kernel
  have hc1 : (declaring ⟨"latin1"⟩ ⟨"\"é\""⟩).charset = .ok .latin1 := by decide +kernel
  have hc2 : (declaring ⟨"ascii"⟩ ⟨"\"aé€\""⟩).charset = .ok .ascii := by decide +kernel
  have hread := (parseOctets_toOctets ha1 hlatin1 (List.mem_singleton_self _) hc1).1 _ hoctets
  have hrefused : (declaring ⟨"ascii"⟩ ⟨"\"aé€\""⟩).toOctets = .error (.unencodable .ascii 'é') := by
    decide +kernel
  obtain ⟨c, hfirst, hc⟩ := ((parseOctets_toOctets ha2 hascii (List.mem_singleton_self _) hc2).2.2
    _).1 hrefused
  cases hc
  exact ⟨ha1, ha2, _, _, _, hlatin1, hascii, hc1, hc2, hoctets, hread, hrefused, hfirst⟩

end Reader

end DotGraph
