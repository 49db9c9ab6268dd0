import Fsnet.Storage.Files
/-!
# The two backends

`Memory` takes the versions of all keys from one revision and removes records;
`Files` counts the changes of each key and keeps a file for a key that has no
record. Both are the same map with versioned compare-and-swap.
-/

namespace Fsnet.Storage

open Lib

/-- Keys a backend takes, with no collision among their digests. -/
structure KeySet (digest : Bytes → Digest) where
  keys : Set Bytes
  valid : ∀ key ∈ keys, key ≠ [] ∧ key.length ≤ maximumKey
  distinct : Set.InjOn digest keys

/-- SHA-256 of two keys. -/
def letterDigest (bytes : Bytes) : Digest :=
  ⟨bigEndian 32 (if bytes = ascii "a" then 0xca978112ca1bbdcafac231b39a23dc4da786eff8147c4e72b9807785afee48bb
    else 0x3e23e8160039594a33894f6564e1b1348bbd7a0088d42c4acb73eeaed59c009d), bigEndian_length _ _⟩

def letters : KeySet letterDigest where
  keys := {key | key = ascii "a" ∨ key = ascii "b"}
  valid := by rintro key (rfl | rfl) <;> decide
  distinct := by
    rintro key (rfl | rfl) key' (rfl | rfl) h
    · rfl
    · exact absurd h (by decide)
    · exact absurd h (by decide)
    · rfl

end Fsnet.Storage
