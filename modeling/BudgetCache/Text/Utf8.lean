/-!
# Texts as bytes

The UTF-8 encoding of a text, as a list of bytes, and its inverse. A list of bytes that no text
encodes has no decoding.
-/

namespace BudgetCache.Text

/-- The bytes that encode a text. -/
def encode (text : String) : List UInt8 :=
  text.toList.flatMap String.utf8EncodeChar

/-- The text that a list of bytes encodes, if it does. -/
def decode? (bytes : List UInt8) : Option String :=
  String.fromUTF8? bytes.toByteArray

/-- Decoding undoes encoding. -/
theorem decode?_encode (text : String) : decode? (encode text) = some text := by
  have h : (encode text).toByteArray = text.toByteArray := String.utf8Encode_toList
  rw [decode?, h, String.fromUTF8?, dif_pos text.isValidUTF8]
  rfl

end BudgetCache.Text
