import Mathlib.Data.List.Basic
/-!
# Cipher-block chaining

CBC over an arbitrary block type.  A block cipher carries the law that
decryption inverts encryption under the same key; the combining operation only
has to cancel.  The chaining value is threaded through each call, so a stream of
records that chain across record boundaries is a sequence of calls.
-/

namespace MacVnc.Lib.Cbc

structure BlockCipher (κ β : Type*) where
  encryptBlock : κ → β → β
  decryptBlock : κ → β → β
  decrypt_encrypt : ∀ key block, decryptBlock key (encryptBlock key block) = block

/-- A combining operation that the same right operand undoes. -/
class CancelXor (β : Type*) where
  xor : β → β → β
  xor_xor : ∀ a b, xor (xor a b) b = a

variable {κ β : Type*} [CancelXor β]

/-- Encrypt blocks under chaining value `iv`; also the chaining value left
behind. -/
def cbcEncrypt (cipher : BlockCipher κ β) (key : κ) : β → List β → List β × β
  | iv, [] => ([], iv)
  | iv, block :: rest =>
      let out := cipher.encryptBlock key (CancelXor.xor block iv)
      let next := cbcEncrypt cipher key out rest
      (out :: next.1, next.2)

/-- Decrypt blocks under chaining value `iv`; also the chaining value left
behind. -/
def cbcDecrypt (cipher : BlockCipher κ β) (key : κ) : β → List β → List β × β
  | iv, [] => ([], iv)
  | iv, block :: rest =>
      let next := cbcDecrypt cipher key block rest
      (CancelXor.xor (cipher.decryptBlock key block) iv :: next.1, next.2)

@[simp] theorem length_cbcEncrypt (cipher : BlockCipher κ β) (key : κ) (iv : β)
    (blocks : List β) : (cbcEncrypt cipher key iv blocks).1.length = blocks.length := by
  induction blocks generalizing iv with
  | nil => rfl
  | cons block rest ih => simp [cbcEncrypt, ih]

@[simp] theorem length_cbcDecrypt (cipher : BlockCipher κ β) (key : κ) (iv : β)
    (blocks : List β) : (cbcDecrypt cipher key iv blocks).1.length = blocks.length := by
  induction blocks generalizing iv with
  | nil => rfl
  | cons block rest ih => simp [cbcDecrypt, ih]

/-- Decryption from the same chaining value recovers the blocks and ends with
the chaining value that encryption ended with. -/
theorem cbcDecrypt_cbcEncrypt (cipher : BlockCipher κ β) (key : κ) (iv : β)
    (blocks : List β) :
    cbcDecrypt cipher key iv (cbcEncrypt cipher key iv blocks).1 =
      (blocks, (cbcEncrypt cipher key iv blocks).2) := by
  induction blocks generalizing iv with
  | nil => rfl
  | cons block rest ih =>
      simp only [cbcEncrypt, cbcDecrypt, ih, cipher.decrypt_encrypt, CancelXor.xor_xor]

end MacVnc.Lib.Cbc
