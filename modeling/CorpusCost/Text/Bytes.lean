/-!
# Texts as bytes

What files hold: bytes, which are a text if they are UTF-8.
-/

set_option autoImplicit false

namespace CorpusCost

/-- Bytes in order. -/
abbrev Bytes := List UInt8

namespace Bytes

/-- The UTF-8 bytes of a text. -/
def ofText (text : String) : Bytes := text.toUTF8.data.toList

/-- The text that bytes are, if they are UTF-8. -/
def text? (bytes : Bytes) : Option String := String.fromUTF8? ⟨bytes.toArray⟩

end Bytes

end CorpusCost
