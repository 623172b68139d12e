import FlowGate.Bytes.Basic

/-!
# Digests

A digest is a byte string of 32 bytes, the output of the hash functions used here.

## Main definitions

* `Digest` — 32 bytes
* `Digest.ofWords` — the digest that eight words of four bytes spell
-/

namespace FlowGate

/-- A byte string of 32 bytes. -/
structure Digest where
  bytes : Bytes
  length_bytes : bytes.length = 32

namespace Digest

@[ext] theorem ext {d e : Digest} (h : d.bytes = e.bytes) : d = e := by
  cases d; cases e; simp_all

instance : DecidableEq Digest := fun d e =>
  decidable_of_iff (d.bytes = e.bytes) ⟨ext, fun h => h ▸ rfl⟩

attribute [simp] length_bytes

/-- The digest of eight words, each written in four bytes by `form`. -/
def ofWords (form : UInt32 → Bytes) (length_form : ∀ w, (form w).length = 4)
    (w₀ w₁ w₂ w₃ w₄ w₅ w₆ w₇ : UInt32) : Digest where
  bytes := form w₀ ++ form w₁ ++ form w₂ ++ form w₃ ++ form w₄ ++ form w₅ ++ form w₆ ++ form w₇
  length_bytes := by simp [length_form]

/-- A word as four bytes, least significant first. -/
def littleEndian (w : UInt32) : Bytes := Bytes.ofNat 4 w.toNat

/-- A word as four bytes, most significant first. -/
def bigEndian (w : UInt32) : Bytes := (littleEndian w).reverse

@[simp] theorem length_littleEndian (w : UInt32) : (littleEndian w).length = 4 := by
  simp [littleEndian]

@[simp] theorem length_bigEndian (w : UInt32) : (bigEndian w).length = 4 := by
  simp [bigEndian]

end Digest

end FlowGate
