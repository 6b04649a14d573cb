/-!
# Text as bytes

A text is stored as its UTF-8 bytes. Reading refuses bytes that are not UTF-8, so it accepts
exactly what writing produces (`ofBytes?_eq_some_iff`).
-/

namespace ObjectRegistry.Text

/-- The UTF-8 bytes of a text. -/
def bytes (text : String) : List UInt8 :=
  text.toUTF8.data.toList

/-- The text that bytes spell in UTF-8. -/
def ofBytes? (bytes : List UInt8) : Option String :=
  String.fromUTF8? ⟨bytes.toArray⟩

theorem length_bytes (text : String) : (bytes text).length = text.utf8ByteSize := rfl

theorem ofBytes?_bytes (text : String) : ofBytes? (bytes text) = some text := by
  have whole : (⟨(bytes text).toArray⟩ : ByteArray) = text.toByteArray := rfl
  rw [ofBytes?, whole, String.fromUTF8?, dif_pos text.isValidUTF8]
  rfl

theorem bytes_of_ofBytes? {b : List UInt8} {text : String} (h : ofBytes? b = some text) :
    bytes text = b := by
  unfold ofBytes? String.fromUTF8? at h
  split at h
  · cases h
    rfl
  · cases h

/-- Reading accepts exactly the bytes of a text, and answers that text. -/
theorem ofBytes?_eq_some_iff {b : List UInt8} {text : String} :
    ofBytes? b = some text ↔ bytes text = b :=
  ⟨bytes_of_ofBytes?, fun h => h ▸ ofBytes?_bytes text⟩

end ObjectRegistry.Text
