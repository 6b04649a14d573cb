import ObjectRegistry.Digest.Sha256
import ObjectRegistry.Text.Hex

/-!
# Digests

Objects are identified by the SHA-256 of their bytes in lower-case hexadecimal (`contentHash`).
The value of a sequence has a digest too, over its eight bytes with the highest first, which can
be cut short to serve as an id (`valueDigest`).
-/

namespace ObjectRegistry.Digest

/-- The content hash of an object: 64 lower-case hexadecimal digits. -/
def contentHash (content : ByteArray) : String :=
  Text.Hex.encode (Sha256.hash content)

/-- The first `length` digits of the digest of a value, all 64 when `length` is greater. -/
def valueDigest (value : Int64) (length : Nat) : String :=
  let bytes : ByteArray := ⟨(Sha256.bytesOfWord64 value.toUInt64).toArray⟩
  String.ofList ((Text.Hex.digits (Sha256.hash bytes)).take length)

end ObjectRegistry.Digest
