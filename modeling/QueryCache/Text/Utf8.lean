/-!
# Text as octets

The octets of a text in UTF-8, and the text that octets spell.
-/

namespace QueryCache.Text

/-- The octets of a text in UTF-8. -/
def utf8 (s : String) : List UInt8 := s.toUTF8.data.toList

/-- The text that octets spell in UTF-8. -/
def ofUtf8? (octets : List UInt8) : Option String :=
  String.fromUTF8? (ByteArray.mk octets.toArray)

end QueryCache.Text
