/-
The text of a hash is read back.

* `bytesOfHex?_hexText`: bytes are read back from their digits;
* `Hash.ofText?_text`: a hash is read back from its text.
-/
import MessageCatalog.Digest.Hash
import MessageCatalog.Proofs.Text.Blank

namespace MessageCatalog.Digest

/-! ### Bytes -/

lemma hexDigits_of_byte (byte : UInt8) :
    Text.hexDigit? (Text.hexChar (byte.toNat / 16)) = some (byte.toNat / 16) ∧
      Text.hexDigit? (Text.hexChar (byte.toNat % 16)) = some (byte.toNat % 16) := by
  have hbyte := byte.toNat_lt
  exact ⟨Text.hexDigit?_hexChar (by omega), Text.hexDigit?_hexChar (by omega)⟩

/-- **Bytes are read back from their digits.** -/
theorem bytesOfHex?_hexText (bytes : List UInt8) : bytesOfHex? (hexText bytes) = some bytes := by
  induction bytes with
  | nil => rfl
  | cons byte rest ih =>
      obtain ⟨hhigh, hlow⟩ := hexDigits_of_byte byte
      have hvalue : UInt8.ofNat (16 * (byte.toNat / 16) + byte.toNat % 16) = byte := by
        rw [Nat.div_add_mod, UInt8.ofNat_toNat]
      show bytesOfHex? (Text.hexChar (byte.toNat / 16) :: Text.hexChar (byte.toNat % 16) ::
        hexText rest) = some (byte :: rest)
      rw [bytesOfHex?, hhigh, hlow]
      simp only [ih, Option.map_some, hvalue]

/-! ### Blanks -/

lemma isWhite_hexChar {value : Nat} (h : value < 16) :
    Text.isWhite (Text.hexChar value) = false := by
  have table : ∀ i : Fin 16, Text.isWhite (Text.hexChar i.val) = false := by decide
  exact table ⟨value, h⟩

lemma isWhite_of_mem_hexText {bytes : List UInt8} {c : Char} (h : c ∈ hexText bytes) :
    Text.isWhite c = false := by
  obtain ⟨byte, _, hc⟩ := List.mem_flatMap.mp h
  have hbyte := byte.toNat_lt
  rcases List.mem_cons.mp hc with rfl | hc
  · exact isWhite_hexChar (by omega)
  · obtain rfl := List.mem_singleton.mp hc
    exact isWhite_hexChar (by omega)

/-! ### Hashes -/

namespace Hash

lemma isWhite_of_mem_label {c : Char} (h : c ∈ label) : Text.isWhite c = false := by
  have hall : label.all (fun c => !Text.isWhite c) = true := by decide
  simpa using List.all_eq_true.mp hall c h

lemma withoutLabel_label (cs : List Char) : withoutLabel (label ++ cs) = cs := by
  have hprefix : label.isPrefixOf (label ++ cs) = true :=
    List.isPrefixOf_iff_prefix.mpr (List.prefix_append label cs)
  rw [withoutLabel, if_pos hprefix, List.drop_left]

/-- **A hash is read back from its text.** -/
theorem ofText?_text (hash : Hash) : ofText? hash.text = some hash := by
  have hwhite : ∀ c ∈ label ++ hexText hash.bytes, Text.isWhite c = false := by
    intro c hc
    rcases List.mem_append.mp hc with hc | hc
    · exact isWhite_of_mem_label hc
    · exact isWhite_of_mem_hexText hc
  rw [ofText?, text, String.toList_ofList, Text.trimChars_of_forall hwhite, withoutLabel_label,
    bytesOfHex?_hexText, Option.bind_some, ofBytes?, dif_pos hash.size_eq]

end Hash

end MessageCatalog.Digest
