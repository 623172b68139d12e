import FlowGate.Hash.Sha512
import FlowGate.Signature.Curve

/-!
# Ed25519 signatures

Signing from a seed of 32 bytes, and strict verification without the cofactor.

## Main definitions

* `Ed25519.publicKey` — the public key of a seed
* `Ed25519.sign` — the signature of a message
* `Ed25519.verify` — whether 64 bytes are a signature of a message by a key

A key is refused if it is not the canonical encoding of a point or if the point has small order; a
signature is refused if its second half is not reduced or if its first half has small order.
-/

namespace FlowGate.Ed25519

open Curve

/-- The secret scalar of a hashed seed, with the bits that are always clear and always set. -/
def scalar (hashed : Bytes) : Nat :=
  let n := Bytes.toNat (hashed.take 32)
  n % 2 ^ 254 / 8 * 8 + 2 ^ 254

/-- The number of hashed bytes, reduced by the order of the group. -/
def challenge (bs : Bytes) : Nat :=
  Bytes.toNat (Sha512.hash bs) % order

/-- The public key of a seed. -/
def publicKey (seed : Bytes) : Bytes :=
  (Point.mul (scalar (Sha512.hash seed)) .base).encode

/-- The signature of a message with the key of a seed. -/
def sign (seed message : Bytes) : Bytes :=
  let hashed := Sha512.hash seed
  let a := scalar hashed
  let key := (Point.mul a .base).encode
  let r := challenge (hashed.drop 32 ++ message)
  let commitment := (Point.mul r .base).encode
  let k := challenge (commitment ++ key ++ message)
  commitment ++ Bytes.ofNat 32 ((r + k * a) % order)

/-- Whether `signature` is a signature of `message` by `key`. -/
def verify (key message signature : Bytes) : Bool :=
  if key.length ≠ 32 ∨ signature.length ≠ 64 then false
  else
    let commitment := signature.take 32
    let s := Bytes.toNat (signature.drop 32)
    match decode? key with
    | none => false
    | some a =>
      -- A larger number would be a second form of the signature, and such a key is nobody's.
      if s ≥ order || a.hasSmallOrder then false
      else
        let k := challenge (commitment ++ key ++ message)
        let r := (Point.mul s .base).add (Point.mul k a.neg)
        r.encode == commitment && !r.hasSmallOrder

end FlowGate.Ed25519
