/-! Texts as bytes, and without the blanks around them. -/
namespace FlowGraph.Text

def utf8 (text : String) : List UInt8 := text.toList.flatMap String.utf8EncodeChar

def ofUtf8? (bytes : List UInt8) : Option String := String.fromUTF8? bytes.toByteArray

/-- A text is encoded as the bytes it consists of. -/
theorem ofUtf8?_utf8 (text : String) : ofUtf8? (utf8 text) = some text := by
  have hbytes : (utf8 text).toByteArray = text.toByteArray := String.utf8Encode_toList
  rw [ofUtf8?, hbytes, String.fromUTF8?, dif_pos text.isValidUTF8]
  rfl

/-- Characters with the property White_Space. -/
def isBlank (c : Char) : Bool :=
  let point := c.toNat
  9 ≤ point && point ≤ 13 || point = 0x20 || point = 0x85 || point = 0xA0 || point = 0x1680 ||
    0x2000 ≤ point && point ≤ 0x200A || point = 0x2028 || point = 0x2029 || point = 0x202F ||
    point = 0x205F || point = 0x3000

def trimChars (text : List Char) : List Char :=
  ((text.dropWhile isBlank).reverse.dropWhile isBlank).reverse

/-- `text` without the blanks at its two ends. -/
def trim (text : String) : String :=
  String.ofList (trimChars text.toList)

end FlowGraph.Text
