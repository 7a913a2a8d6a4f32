/-!
The bytes of a text and the text of some bytes. Only well-formed UTF-8 is a text, and it is the
text whose bytes it is.
-/

namespace ResumableCsv

abbrev Bytes := List UInt8

namespace Text

def bytes (text : String) : Bytes := text.toByteArray.data.toList

def ofBytes? (content : Bytes) : Option String := String.fromUTF8? ⟨content.toArray⟩

theorem ofBytes?_bytes (text : String) : ofBytes? (bytes text) = some text := by
  have same : (⟨(bytes text).toArray⟩ : ByteArray) = text.toByteArray := by simp [bytes]
  rw [ofBytes?, same, String.fromUTF8?, dif_pos text.isValidUTF8]
  rfl

end Text

end ResumableCsv
