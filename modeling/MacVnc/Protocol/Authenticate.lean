import Mathlib.Logic.Equiv.Basic
import MacVnc.Lib.Checked
import MacVnc.Lib.Text
import MacVnc.Protocol.Record
/-!
# Apple authentication

The response of the client in the Diffie-Hellman authentication of the Mac
(`authenticate` in `hp-protocol/src/lib.rs`) and what the server makes of it.  MD5,
AES and the big integers are parameters, the two calls of the random source are
arguments.  A range outside of a buffer is `none`.
-/

namespace MacVnc.Protocol.Authenticate

open MacVnc.Lib
open MacVnc.Lib.Bytes
open MacVnc.Lib.Cbc
open MacVnc.Lib.Text
open MacVnc.Protocol.Record (Block Key)

/-- `num_bigint` on numbers of any size. -/
structure BigUint where
  modpow : Nat → Nat → Nat → Nat
  toBytesBe : Nat → List UInt8
  modpow_eq : ∀ base exponent modulus, 0 < modulus →
    modpow base exponent modulus = base ^ exponent % modulus
  ofBigEndian_toBytesBe : ∀ n, ofBigEndian (toBytesBe n) = n
  /-- There is no leading zero; zero itself takes a byte. -/
  length_toBytesBe_le : ∀ n size, n < 256 ^ size → 0 < size → (toBytesBe n).length ≤ size

/-- The libraries that the authentication calls. -/
structure Primitives where
  aes : BlockCipher Key Block
  md5 : List UInt8 → Key
  big : BigUint

/-- A computation that may fail, and `none` where an access would stop the program. -/
abbrev Guarded (α : Type) : Type := Checked.Guarded String α

def padded (P : Primitives) (n len : Nat) : Guarded (List UInt8) :=
  let b := P.big.toBytesBe n
  if ¬b.length ≤ len then throw "DH value overflow"
  else do
    let start ← Checked.sub len b.length
    Checked.copyInto (List.replicate len 0) start len b

/-- The group and the public value of the server that are accepted. -/
def AcceptedGroup (p g y : Nat) : Prop := 5 < p ∧ 1 < g ∧ g < p - 1 ∧ 1 < y ∧ y < p - 1

instance (p g y : Nat) : Decidable (AcceptedGroup p g y) := by
  unfold AcceptedGroup
  infer_instance

/-- User name and password in their places, each with a NUL behind it. -/
def credentials (user password padding : List UInt8) : Option (List UInt8) := do
  let plain ← Checked.copyInto padding 0 user.length user
  let plain ← Checked.copyInto plain user.length (user.length + 1) [0]
  let plain ← Checked.copyInto plain 64 (64 + password.length) password
  Checked.copyInto plain (64 + password.length) (64 + password.length + 1) [0]

/-- `as_chunks_mut::<16>` and a block operation on each. -/
def eachBlock (operation : Block → Block) (plain : List UInt8) : List UInt8 :=
  unblocks ((blocks 16 (plain.length / 16) plain).map operation)

def authenticate (P : Primitives) (generator : UInt16) (prime pub : List UInt8)
    (user password : Text) (random : Vector UInt8 prime.length) (padding : Vector UInt8 128) :
    Guarded (List UInt8 × Key) :=
  if ¬(byteLength user ≤ 63 ∧ byteLength password ≤ 63) then
    throw "Apple credential exceeds 63 UTF-8 bytes"
  else if ¬('\x00' ∉ user ∧ '\x00' ∉ password) then
    throw "credentials cannot contain NUL"
  else if ¬(prime ≠ [] ∧ prime.length ≤ 512 ∧ pub.length = prime.length) then
    throw "invalid DH parameter lengths"
  else
    let p := ofBigEndian prime
    let g := generator.toNat
    let y := ofBigEndian pub
    if ¬AcceptedGroup p g y then throw "invalid Apple DH parameters"
    else do
      let x := ofBigEndian random.toList
      let ours ← padded P (P.big.modpow g x p) prime.length
      let secret ← padded P (P.big.modpow y x p) prime.length
      let key := P.md5 secret
      let plain ← credentials (toUtf8 user) (toUtf8 password) padding.toList
      return (eachBlock (P.aes.encryptBlock key) plain ++ ours, key)

/-! ## The server -/

/-- The secret exponent of the server makes its public value. -/
def serverPublic (generator : UInt16) (prime : List UInt8) (s : Nat) : List UInt8 :=
  toBigEndian prime.length (generator.toNat ^ s % ofBigEndian prime)

/-- The key that the server finds: the hash of the shared secret. -/
def serverKey (P : Primitives) (prime : List UInt8) (s : Nat) (response : List UInt8) : Key :=
  let theirs := ofBigEndian (response.drop (response.length - prime.length))
  P.md5 (toBigEndian prime.length (theirs ^ s % ofBigEndian prime))

/-- The server reads so many blocks, 16 bytes each. -/
def readBlocks (decrypt : Block → Block) : Nat → List UInt8 → List UInt8
  | 0, _ => []
  | count + 1, bytes =>
      (decrypt (Vector.ofFn fun i => bytes.getD i 0)).toList ++
        readBlocks decrypt count (bytes.drop 16)

/-- The credentials that the server finds under this key. -/
def serverPlain (P : Primitives) (key : Key) (response : List UInt8) : List UInt8 :=
  readBlocks (P.aes.decryptBlock key) 8 response

/-! ## Padding -/

theorem ofBigEndian_zeros (count : Nat) (bytes : List UInt8) :
    ofBigEndian (List.replicate count 0 ++ bytes) = ofBigEndian bytes := by
  induction count with
  | zero => rfl
  | succ count ih =>
      rw [List.replicate_succ, List.cons_append, ofBigEndian_cons, ih]
      simp

theorem padded_eq (P : Primitives) {n len : Nat} (h : n < 256 ^ len) (hlen : 0 < len) :
    padded P n len = pure (toBigEndian len n) := by
  have hshort := P.big.length_toBytesBe_le n len h hlen
  have hvalue := P.big.ofBigEndian_toBytesBe n
  unfold padded
  generalize P.big.toBytesBe n = b at hshort hvalue ⊢
  have hbuffer : List.replicate len (0 : UInt8) =
      List.replicate (len - b.length) 0 ++ List.replicate b.length 0 ++ [] := by
    rw [List.append_nil, List.replicate_append_replicate, Nat.sub_add_cancel hshort]
  have hcopy : Checked.copyInto (List.replicate len (0 : UInt8)) (len - b.length) len b =
      some (List.replicate (len - b.length) 0 ++ b ++ []) := by
    refine Checked.copyInto_of_eq hbuffer ?_ ?_ ?_
    · rw [List.length_replicate]
    · rw [List.length_replicate, List.length_replicate, Nat.sub_add_cancel hshort]
    · rw [List.length_replicate]
  have hbytes : List.replicate (len - b.length) 0 ++ b = toBigEndian len n := by
    apply ofBigEndian_inj
    · rw [List.length_append, List.length_replicate, length_toBigEndian, Nat.sub_add_cancel hshort]
    · rw [ofBigEndian_zeros, hvalue, ofBigEndian_toBigEndian h]
  dsimp only
  rw [if_neg (not_not.2 hshort), Checked.sub_of_le hshort, Checked.lift_bind, hcopy,
    List.append_nil, hbytes, Checked.lift_some]

/-! ## Credentials -/

theorem copyInto_eq_copyAt {off last : Nat} {bytes buffer : List UInt8}
    (hlast : last = off + bytes.length) (h : last ≤ buffer.length) :
    Checked.copyInto buffer off last bytes = some (copyAt off bytes buffer) := by
  subst hlast
  exact if_pos ⟨Nat.le_add_right _ _, h, (Nat.add_sub_cancel_left _ _).symm⟩

/-- Both credentials and their NULs fit, and neither overwrites the other. -/
theorem credentials_spec {user password padding : List UInt8} (huser : user.length ≤ 63)
    (hpassword : password.length ≤ 63) (hpadding : padding.length = 128) :
    ∃ plain, credentials user password padding = some plain ∧ plain.length = 128 ∧
      plain.take (user.length + 1) = user ++ [0] ∧
      (plain.drop 64).take (password.length + 1) = password ++ [0] := by
  have hname : (copyAt 0 (user ++ [0]) padding).length = 128 := by
    rw [length_copyAt (by simp; omega), hpadding]
  have hboth : (copyAt 64 (password ++ [0]) (copyAt 0 (user ++ [0]) padding)).length = 128 := by
    rw [length_copyAt (by simp; omega), hname]
  refine ⟨copyAt 64 (password ++ [0]) (copyAt 0 (user ++ [0]) padding), ?_, hboth, ?_, ?_⟩
  · have hfirst : (copyAt 0 user padding).length = 128 := by
      rw [length_copyAt (by omega), hpadding]
    have hsecond : (copyAt 64 password (copyAt 0 (user ++ [0]) padding)).length = 128 := by
      rw [length_copyAt (by omega), hname]
    have hnul {xs : List UInt8} {off : Nat} (h : off + 1 ≤ xs.length) :
        Checked.copyInto xs off (off + 1) [0] = some (copyAt off [0] xs) :=
      copyInto_eq_copyAt rfl h
    have hpair : copyAt user.length [0] (copyAt 0 user padding) =
        copyAt 0 (user ++ [0]) padding := by
      rw [← copyAt_copyAt (Nat.zero_le _), Nat.zero_add]
    rw [credentials, copyInto_eq_copyAt (Nat.zero_add _).symm (by omega), Checked.some_bind,
      hnul (by omega), Checked.some_bind, hpair, copyInto_eq_copyAt rfl (by omega),
      Checked.some_bind, hnul (by omega), copyAt_copyAt (by omega)]
  · have hbefore : ((copyAt 64 (password ++ [0]) (copyAt 0 (user ++ [0]) padding)).drop 0).take
        (user.length + 1) = ((copyAt 0 (user ++ [0]) padding).drop 0).take (user.length + 1) :=
      field_copyAt_of_disjoint (by simp; omega) (.inl (by omega))
    rw [List.drop_zero] at hbefore
    rw [hbefore]
    exact field_copyAt (Nat.zero_le _) (by simp)
  · exact field_copyAt (by omega) (by simp)

theorem length_eachBlock (operation : Block → Block) {plain : List UInt8} (h : 16 ∣ plain.length) :
    (eachBlock operation plain).length = plain.length := by
  rw [eachBlock, length_unblocks, List.length_map, length_blocks, Nat.mul_div_cancel' h]

theorem readBlocks_append (decrypt : Block → Block) (count : Nat) (block : Block)
    (rest : List UInt8) : readBlocks decrypt (count + 1) (block.toList ++ rest) =
      (decrypt block).toList ++ readBlocks decrypt count rest := by
  have hlength : block.toList.length = 16 := Vector.length_toList
  have hblock : Vector.ofFn (fun i : Fin 16 => (block.toList ++ rest).getD i 0) = block := by
    ext i hi
    simp [List.getD_eq_getElem?_getD, List.getElem?_append_left]
  rw [readBlocks, hblock, List.drop_left' hlength]

/-- The server reads the blocks of the client back. -/
theorem readBlocks_unblocks {f g : Block → Block} (h : ∀ block, g (f block) = block)
    (bs : List Block) (rest : List UInt8) :
    readBlocks g bs.length (unblocks (bs.map f) ++ rest) = unblocks bs := by
  induction bs with
  | nil => rfl
  | cons block bs ih =>
      rw [List.map_cons, unblocks_cons, List.append_assoc, List.length_cons, readBlocks_append, h,
        ih, unblocks_cons]

theorem readBlocks_eachBlock {f g : Block → Block} (h : ∀ block, g (f block) = block)
    {plain : List UInt8} {count : Nat} (hplain : plain.length = 16 * count) (rest : List UInt8) :
    readBlocks g count (eachBlock f plain ++ rest) = plain := by
  have hcount : plain.length / 16 = count := by omega
  have hread := readBlocks_unblocks h (blocks 16 count plain) rest
  rw [length_blocks] at hread
  rw [eachBlock, hcount, hread, unblocks_blocks _ _ hplain.ge, ← hplain, List.take_length]

/-! ## The shared secret -/

/-- Both sides raise to the product of their exponents. -/
theorem pow_shared (g s x p : Nat) : (g ^ s % p) ^ x % p = (g ^ x % p) ^ s % p := by
  rw [← Nat.pow_mod, ← Nat.pow_mod, ← Nat.pow_mul, ← Nat.pow_mul, Nat.mul_comm]

/-- What the server recovers from the response. -/
structure Recovers (P : Primitives) (prime : List UInt8) (s : Nat) (user password : Text)
    (response : List UInt8) (key : Key) : Prop where
  length : response.length = 128 + prime.length
  key : serverKey P prime s response = key
  user : (serverPlain P (serverKey P prime s response) response).take (byteLength user + 1) =
    toUtf8 user ++ [0]
  password : ((serverPlain P (serverKey P prime s response) response).drop 64).take
    (byteLength password + 1) = toUtf8 password ++ [0]

theorem recovers_response (P : Primitives) {prime ours plain : List UInt8} {s : Nat}
    {user password : Text} {key : Key} (hours : ours.length = prime.length)
    (hkey : P.md5 (toBigEndian prime.length (ofBigEndian ours ^ s % ofBigEndian prime)) = key)
    (hlength : plain.length = 128)
    (huser : plain.take (byteLength user + 1) = toUtf8 user ++ [0])
    (hpassword : (plain.drop 64).take (byteLength password + 1) = toUtf8 password ++ [0]) :
    Recovers P prime s user password (eachBlock (P.aes.encryptBlock key) plain ++ ours) key := by
  have hblocks : 16 ∣ plain.length := ⟨8, hlength⟩
  have hcipher : (eachBlock (P.aes.encryptBlock key) plain).length = 128 := by
    rw [length_eachBlock _ hblocks, hlength]
  have hresponse : (eachBlock (P.aes.encryptBlock key) plain ++ ours).length =
      128 + prime.length := by
    rw [List.length_append, hcipher, hours]
  have hserverKey :
      serverKey P prime s (eachBlock (P.aes.encryptBlock key) plain ++ ours) = key := by
    rw [serverKey, hresponse, Nat.add_sub_cancel, List.drop_left' hcipher]
    exact hkey
  have hserverPlain :
      serverPlain P key (eachBlock (P.aes.encryptBlock key) plain ++ ours) = plain := by
    exact readBlocks_eachBlock (P.aes.decrypt_encrypt key) hlength ours
  refine ⟨hresponse, hserverKey, ?_, ?_⟩
  · rw [hserverKey, hserverPlain]
    exact huser
  · rw [hserverKey, hserverPlain]
    exact hpassword

/-- The server recovers what the client put in, whatever the exponents and the padding. -/
theorem server_recovers (P : Primitives) (generator : UInt16) (prime : List UInt8) (s : Nat)
    (user password : Text) (random : Vector UInt8 prime.length) (padding : Vector UInt8 128)
    (hprime : 1 ≤ prime.length ∧ prime.length ≤ 512)
    (hgroup : AcceptedGroup (ofBigEndian prime) generator.toNat
      (ofBigEndian (serverPublic generator prime s)))
    (huser : byteLength user ≤ 63 ∧ '\x00' ∉ user)
    (hpassword : byteLength password ≤ 63 ∧ '\x00' ∉ password) :
    ∃ response key, authenticate P generator prime (serverPublic generator prime s) user password
        random padding = pure (response, key) ∧
      Recovers P prime s user password response key := by
  have hp : 0 < ofBigEndian prime := Nat.lt_trans (by decide) hgroup.1
  have hfits (n : Nat) : n % ofBigEndian prime < 256 ^ prime.length :=
    Nat.lt_trans (Nat.mod_lt n hp) (ofBigEndian_lt prime)
  have hpublic : ofBigEndian (serverPublic generator prime s) =
      generator.toNat ^ s % ofBigEndian prime := ofBigEndian_toBigEndian (hfits _)
  have hlengths : prime ≠ [] ∧ prime.length ≤ 512 ∧
      (serverPublic generator prime s).length = prime.length :=
    ⟨List.ne_nil_of_length_pos hprime.1, hprime.2, length_toBigEndian _ _⟩
  have hmodpow (base exponent : Nat) :
      padded P (P.big.modpow base exponent (ofBigEndian prime)) prime.length =
        pure (toBigEndian prime.length (base ^ exponent % ofBigEndian prime)) := by
    rw [P.big.modpow_eq _ _ _ hp]
    exact padded_eq P (hfits _) hprime.1
  have hnameSize : (toUtf8 user).length ≤ 63 := (length_toUtf8 user).symm ▸ huser.1
  have hwordSize : (toUtf8 password).length ≤ 63 := (length_toUtf8 password).symm ▸ hpassword.1
  have hpadding : padding.toList.length = 128 := by simp
  obtain ⟨plain, hplain, hlength, hname, hword⟩ := credentials_spec hnameSize hwordSize hpadding
  rw [length_toUtf8] at hname hword
  unfold authenticate
  rw [if_neg (not_not.2 ⟨huser.1, hpassword.1⟩), if_neg (not_not.2 ⟨huser.2, hpassword.2⟩),
    if_neg (not_not.2 hlengths)]
  dsimp only
  rw [if_neg (not_not.2 hgroup), hmodpow, hmodpow, hplain]
  refine ⟨_, _, rfl, recovers_response P (length_toBigEndian _ _) ?_ hlength hname hword⟩
  rw [ofBigEndian_toBigEndian (hfits _), hpublic, pow_shared]

/-! ## The test of the layout

MD5 and AES-128 as they act in the test of the crate: the group of 23, the client
exponent 7. -/

def fixtureBig : BigUint where
  modpow base exponent modulus := base ^ exponent % modulus
  toBytesBe := bytesBe
  modpow_eq _ _ _ _ := rfl
  ofBigEndian_toBytesBe := ofBigEndian_bytesBe
  length_toBytesBe_le := length_bytesBe_le

/-- The blocks of the test: the user name, the padding and the password. -/
def nameBlock : Block := #v[97, 108, 105, 99, 101, 0, 7, 7, 7, 7, 7, 7, 7, 7, 7, 7]

def paddingBlock : Block := Vector.replicate 16 7

def passwordBlock : Block :=
  #v[101, 120, 97, 109, 112, 108, 101, 45, 111, 110, 108, 121, 0, 7, 7, 7]

def fixtureBlocks : List (Block × Block) :=
  [(nameBlock, #v[251, 136, 166, 236, 192, 152, 191, 46, 106, 131, 247, 187, 200, 1, 213, 242]),
    (paddingBlock, #v[71, 27, 62, 208, 52, 110, 15, 218, 214, 204, 83, 132, 63, 29, 191, 88]),
    (passwordBlock, #v[172, 169, 144, 66, 23, 121, 213, 26, 160, 8, 168, 68, 84, 146, 145, 190])]

/-- A permutation of the blocks that takes each of these to its ciphertext. -/
def tableCipher (pairs : List (Block × Block)) : BlockCipher Key Block :=
  let σ := pairs.foldr (fun pair rest => (Equiv.swap pair.1 pair.2).trans rest) (Equiv.refl Block)
  { encryptBlock := fun _ block => σ block
    decryptBlock := fun _ block => σ.symm block
    decrypt_encrypt := fun _ block => σ.symm_apply_apply block }

def fixtureMd5 (input : List UInt8) : Key :=
  if input = [4] then
    #v[236, 127, 126, 123, 180, 55, 66, 206, 134, 129, 69, 247, 29, 55, 181, 60]
  else Vector.replicate 16 0

def fixture : Primitives :=
  { aes := tableCipher fixtureBlocks, md5 := fixtureMd5, big := fixtureBig }

theorem server_recovers_alice :
    ∃ response key, authenticate fixture 2 [23] (serverPublic 2 [23] 5) "alice".toList
        "example-only".toList #v[7] (Vector.replicate 128 7) = pure (response, key) ∧
      Recovers fixture [23] 5 "alice".toList "example-only".toList response key :=
  server_recovers fixture 2 [23] 5 "alice".toList "example-only".toList #v[7]
    (Vector.replicate 128 7) (by decide) (by decide) (by decide) (by decide)

end MacVnc.Protocol.Authenticate
