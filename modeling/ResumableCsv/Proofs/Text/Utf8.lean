import ResumableCsv.Outcome
import ResumableCsv.Reader.Source

/-!
Bytes of texts, character by character: ASCII characters are the only source of bytes below 128, no
text starts in the middle of a character, and a text starts with the bytes of a byte-order mark only
when U+FEFF is its first character.
-/

namespace ResumableCsv.Text

theorem bytes_eq_flatMap (text : String) :
    bytes text = text.toList.flatMap String.utf8EncodeChar := by
  rw [bytes, ← String.utf8Encode_toList]
  simp [List.utf8Encode]

theorem bytes_ofList (chars : List Char) :
    bytes (String.ofList chars) = chars.flatMap String.utf8EncodeChar := by
  rw [bytes_eq_flatMap, String.toList_ofList]

theorem bytes_injective {first second : String} (same : bytes first = bytes second) :
    first = second := by
  have read := ofBytes?_bytes first
  rw [same, ofBytes?_bytes second] at read
  exact (Option.some.inj read).symm

theorem bytes_of_ofBytes? {content : Bytes} {text : String} (read : ofBytes? content = some text) :
    bytes text = content := by
  rw [ofBytes?, String.fromUTF8?] at read
  split at read
  next valid =>
    cases read
    rfl
  next => cases read

/-- An ASCII character is one byte; no other character has a byte below 128. -/
theorem encodeChar_cases (c : Char) :
    (c.toNat < 0x80 ∧ String.utf8EncodeChar c = [UInt8.ofNat c.toNat]) ∨
      (0x80 ≤ c.toNat ∧ ∀ byte ∈ String.utf8EncodeChar c, 0x80 ≤ byte.toNat) := by
  have same : c.val.toNat = c.toNat := rfl
  fun_cases String.utf8EncodeChar c with
  | case1 v small =>
    refine .inl ⟨?_, rfl⟩
    omega
  | case2 v _ _ | case3 v _ _ _ | case4 v _ _ _ =>
    refine .inr ⟨by omega, ?_⟩
    simp only [List.mem_cons, List.not_mem_nil, or_false, forall_eq_or_imp, forall_eq,
      UInt8.toNat_ofNat']
    omega

theorem toNat_ofNat {n : Nat} (valid : n.isValidChar) : (Char.ofNat n).toNat = n := by
  rw [Char.ofNat, dif_pos valid]
  rfl

/-- ASCII bytes are the bytes of a text. -/
theorem exists_bytes_eq {content : Bytes} (ascii : ∀ byte ∈ content, byte.toNat < 0x80) :
    ∃ text, bytes text = content := by
  induction content with
  | nil => exact ⟨"", rfl⟩
  | cons byte rest ih =>
    obtain ⟨small, ascii⟩ := List.forall_mem_cons.mp ascii
    obtain ⟨text, rfl⟩ := ih ascii
    have number := toNat_ofNat (n := byte.toNat) (.inl (by omega))
    refine ⟨String.ofList (Char.ofNat byte.toNat :: text.toList), ?_⟩
    rw [bytes_ofList, List.flatMap_cons, ← bytes_eq_flatMap]
    rcases encodeChar_cases (Char.ofNat byte.toNat) with ⟨_, encoded⟩ | ⟨large, _⟩
    · rw [encoded, number, UInt8.ofNat_toNat]
      rfl
    · omega

/-- A text whose bytes lead another text is the beginning of that text. -/
theorem prefix_of_bytes_append {first second : String} {rest : Bytes}
    (same : bytes first ++ rest = bytes second) : first.toList <+: second.toList := by
  apply List.isPrefix_of_utf8Encode_append_eq_utf8Encode rest.toByteArray
  rw [String.utf8Encode_toList, String.utf8Encode_toList]
  apply ByteArray.ext
  apply Array.ext'
  simpa [bytes] using same

/-- The first byte of a text is the first byte of a character. -/
theorem isUTF8FirstByte_head_bytes (text : String) :
    ∀ byte ∈ (bytes text).head?, byte.IsUTF8FirstByte := by
  intro byte found
  rw [bytes_eq_flatMap] at found
  cases chars : text.toList with
  | nil =>
    rw [chars] at found
    cases found
  | cons c rest =>
    have nonempty : String.utf8EncodeChar c ≠ [] := String.utf8EncodeChar_ne_nil
    rw [chars, List.flatMap_cons, List.head?_append, List.head?_eq_some_head nonempty] at found
    cases found
    rw [List.head_eq_getElem]
    exact UInt8.isUTF8FirstByte_getElem_zero_utf8EncodeChar

/-- Whether U+FEFF is the first character. -/
def StartsWithMark (text : String) : Prop := text.toList.head? = some '\uFEFF'

theorem byteOrderMark_eq : byteOrderMark = bytes "\uFEFF" := by decide

theorem forall_mem_mark {P : UInt8 → Prop} (first : P 0xEF) (second : P 0xBB) (third : P 0xBF) :
    ∀ byte ∈ byteOrderMark, P byte := by
  intro byte member
  simp only [byteOrderMark, List.mem_cons, List.not_mem_nil, or_false] at member
  rcases member with rfl | rfl | rfl
  · exact first
  · exact second
  · exact third

/-- Bytes that some text leads begin with a mark only when that text does. -/
theorem startsWithMark_of_prefix {text : String} {rest : Bytes} (nonempty : text ≠ "")
    (marked : byteOrderMark <+: bytes text ++ rest) : StartsWithMark text := by
  have chars : text.toList ≠ [] := by
    intro nothing
    exact nonempty (String.toList_inj.mp (by rw [nothing]; rfl))
  cases same : text.toList with
  | nil => exact absurd same chars
  | cons c more =>
    have leading : bytes (String.ofList [c]) <+: bytes text ++ rest := by
      rw [bytes_eq_flatMap text, same, bytes_ofList, List.flatMap_singleton, List.flatMap_cons,
        List.append_assoc]
      exact List.prefix_append _ _
    have first : c = '\uFEFF' := by
      rw [byteOrderMark_eq] at marked
      rcases List.prefix_or_prefix_of_prefix marked leading with ⟨_, shorter⟩ | ⟨_, shorter⟩
      · simpa [eq_comm] using prefix_of_bytes_append shorter
      · simpa using prefix_of_bytes_append shorter
    simp [StartsWithMark, same, first]

theorem prefix_of_startsWithMark {text : String} (marked : StartsWithMark text) :
    byteOrderMark <+: bytes text := by
  obtain ⟨rest, same⟩ := List.head?_eq_some_iff.mp marked
  rw [bytes_eq_flatMap text, same, List.flatMap_cons, byteOrderMark_eq, bytes_eq_flatMap]
  exact List.prefix_append _ _

end ResumableCsv.Text

namespace ResumableCsv

theorem head?_of_marked {content : Bytes} (marked : byteOrderMark <+: content) :
    content.head? = some 0xEF := by
  obtain ⟨rest, rfl⟩ := marked
  rfl

theorem dropMark_of_unmarked {content : Bytes} (unmarked : ¬byteOrderMark <+: content) :
    dropMark content = content := by
  rw [dropMark, if_neg]
  rwa [List.isPrefixOf_iff_prefix]

theorem dropMark_suffix (content : Bytes) : dropMark content <:+ content := by
  unfold dropMark
  split
  · exact List.drop_suffix _ _
  · exact List.suffix_rfl

theorem dropMark_byteOrderMark (content : Bytes) :
    dropMark (byteOrderMark ++ content) = content := by
  simp [dropMark, List.isPrefixOf_iff_prefix]

theorem decodeRow_bytes (row : Row) : decodeRow .utf8 (row.map Text.bytes) = .ok row := by
  induction row with
  | nil => rfl
  | cons cell rest ih =>
    have read : Encoding.utf8.decode? (Text.bytes cell) = some cell := Text.ofBytes?_bytes cell
    simp [decodeRow, read, ih, Except.map]

/-- Decoding gives the row whose bytes they are, or none. -/
theorem decodeRow_eq_ok_iff {record : Record} {row : Row} :
    decodeRow .utf8 record = .ok row ↔ record = row.map Text.bytes := by
  constructor
  · intro decoded
    induction record generalizing row with
    | nil =>
      cases decoded
      rfl
    | cons field rest ih =>
      rw [decodeRow] at decoded
      split at decoded
      next => cases decoded
      next cell read =>
        obtain ⟨cells, later, rfl⟩ := Outcome.map_eq_ok_iff.mp decoded
        rw [List.map_cons, Text.bytes_of_ofBytes? read, ← ih later]
  · rintro rfl
    exact decodeRow_bytes row

theorem exists_row_of_ascii {record : Record}
    (ascii : ∀ field ∈ record, ∀ byte ∈ field, byte.toNat < 0x80) :
    ∃ row : Row, row.map Text.bytes = record := by
  induction record with
  | nil => exact ⟨[], rfl⟩
  | cons field rest ih =>
    obtain ⟨first, later⟩ := List.forall_mem_cons.mp ascii
    obtain ⟨cell, rfl⟩ := Text.exists_bytes_eq first
    obtain ⟨row, rfl⟩ := ih later
    exact ⟨cell :: row, rfl⟩

end ResumableCsv
