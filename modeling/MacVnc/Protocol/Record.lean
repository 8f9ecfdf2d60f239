import MacVnc.Lib.Bytes
import MacVnc.Lib.Cbc
/-!
# The control record layer

Apple's HP control framing (`hp-protocol/src/record.rs`).  A record is a 16-bit
length followed by a whole number of AES blocks; the plaintext holds the body
length, the body, zero padding and a SHA-1 trailer over the sequence number and
everything before the trailer.  Each direction chains CBC across records.

AES-128 is any block cipher and SHA-1 any function to twenty bytes.
-/

namespace MacVnc.Protocol.Record

open MacVnc.Lib.Bytes
open MacVnc.Lib.Cbc

abbrev Block := Vector UInt8 16

abbrev Key := Vector UInt8 16

instance : CancelXor Block where
  xor a b := Vector.zipWith (· ^^^ ·) a b
  xor_xor a b := by
    ext i hi
    rw [Vector.getElem_zipWith, Vector.getElem_zipWith, UInt8.xor_assoc, UInt8.xor_self,
      UInt8.xor_zero]

structure Primitives where
  aes : BlockCipher Key Block
  sha1 : List UInt8 → Vector UInt8 20

structure RecordLayer where
  key : Key
  encIv : Block
  decIv : Block
  encSeq : UInt32
  decSeq : UInt32
  failed : Bool
deriving DecidableEq

namespace RecordLayer

def new (key : Key) (iv : Block) : RecordLayer :=
  { key, encIv := iv, decIv := iv, encSeq := 0, decSeq := 0, failed := false }

end RecordLayer

def unusable : String :=
  "control record layer is unusable after a verification failure"

def sequenceExhausted : String := "record sequence exhausted"

/-- `u32::checked_add(1)`. -/
def checkedSucc (n : UInt32) : Option UInt32 :=
  if n < 0xffffffff then some (n + 1) else none

/-- `(2 + len + 20 + 15) & !15`: the plaintext size of a record. -/
def recordSize (len : Nat) : Nat := (2 + len + 20 + 15) / 16 * 16

/-- The SHA-1 trailer over a sequence number and the rest of the plaintext. -/
def trailer (P : Primitives) (seq : UInt32) (front : List UInt8) : List UInt8 :=
  (P.sha1 (toBigEndian 4 seq.toNat ++ front)).toList

/-- What precedes the trailer: inner length, body and zero padding. -/
def plainFront (body : List UInt8) : List UInt8 :=
  toBigEndian 2 body.length ++ body ++
    List.replicate (recordSize body.length - 20 - (2 + body.length)) 0

def plaintext (P : Primitives) (seq : UInt32) (body : List UInt8) : List UInt8 :=
  plainFront body ++ trailer P seq (plainFront body)

/-- `as_chunks::<16>`: the whole blocks of a byte string. -/
def chunks16 (p : List UInt8) : List Block := blocks 16 (p.length / 16) p

namespace RecordLayer

def encrypt (P : Primitives) (r : RecordLayer) (body : List UInt8) :
    Except String (List UInt8) × RecordLayer :=
  if r.failed then (.error unusable, r)
  else if ¬ r.encSeq < 0xffffffff then (.error sequenceExhausted, r)
  else if ¬ body.length ≤ 65498 then (.error "control message too large", r)
  else
    let sealed := cbcEncrypt P.aes r.key r.encIv (chunks16 (plaintext P r.encSeq body))
    let r := { r with encIv := sealed.2 }
    match checkedSucc r.encSeq with
    | none => (.error sequenceExhausted, r)
    | some next =>
        (.ok (toBigEndian 2 (recordSize body.length) ++ unblocks sealed.1),
          { r with encSeq := next })

/-- `RecordLayer::decrypt`.  The layer is marked failed before any block is
processed and cleared again on the successful path only. -/
def decrypt (P : Primitives) (r : RecordLayer) (ct : List UInt8) :
    Except String (List UInt8) × RecordLayer :=
  if r.failed then (.error unusable, r)
  else if ¬ r.decSeq < 0xffffffff then (.error sequenceExhausted, r)
  else if ¬ ((32 ≤ ct.length ∧ ct.length ≤ 65520) ∧ ct.length % 16 = 0) then
    (.error "invalid encrypted record length", r)
  else
    let opened := cbcDecrypt P.aes r.key r.decIv (chunks16 ct)
    let p := unblocks opened.1
    let r := { r with failed := true, decIv := opened.2 }
    let last := p.length - 20
    if trailer P r.decSeq (p.take last) ≠ p.drop last then
      (.error "control record authentication failed", r)
    else
      let len := ofBigEndian (p.take 2)
      if ¬ len ≤ last - 2 then (.error "invalid inner record length", r)
      else
        match checkedSucc r.decSeq with
        | none => (.error sequenceExhausted, r)
        | some next =>
            (.ok ((p.drop 2).take len), { r with decSeq := next, failed := false })

end RecordLayer

/-- The loop of `drain_records` over the unused bytes: the bodies decrypted and
the bytes that no whole record covers yet. -/
def drainLoop (P : Primitives) (records : RecordLayer) (rest : List UInt8) :
    Except String (List (List UInt8) × List UInt8) × RecordLayer :=
  if _h : 2 ≤ rest.length then
    let n := ofBigEndian (rest.take 2)
    if ¬ (32 ≤ n ∧ n % 16 = 0) then (.error "invalid control record length", records)
    else if rest.length < 2 + n then (.ok ([], rest), records)
    else
      match records.decrypt P ((rest.drop 2).take n) with
      | (.error e, records) => (.error e, records)
      | (.ok body, records) =>
          match drainLoop P records (rest.drop (2 + n)) with
          | (.error e, records) => (.error e, records)
          | (.ok (out, rest), records) => (.ok (body :: out, rest), records)
  else (.ok ([], rest), records)
termination_by rest.length
decreasing_by simp; omega

/-- `drain_records`: `pending` keeps every byte when the call fails. -/
def drainRecords (P : Primitives) (records : RecordLayer) (pending : List UInt8) :
    Except String (List (List UInt8)) × RecordLayer × List UInt8 :=
  match drainLoop P records pending with
  | (.error e, records) => (.error e, records, pending)
  | (.ok (out, rest), records) => (.ok out, records, rest)

/-! ## What one record does -/

theorem checkedSucc_of_lt {n : UInt32} (h : n < 0xffffffff) :
    checkedSucc n = some (n + 1) := by
  rw [checkedSucc, if_pos h]

theorem toNat_succ {n : UInt32} (h : n < 0xffffffff) : (n + 1).toNat = n.toNat + 1 := by
  rw [UInt32.lt_iff_toNat_lt] at h
  rw [UInt32.toNat_add]
  exact Nat.mod_eq_of_lt (by simp at h ⊢; omega)

theorem recordSize_mod (len : Nat) : recordSize len % 16 = 0 := by
  simp [recordSize]

theorem recordSize_ge (len : Nat) : 2 + len + 20 ≤ recordSize len := by
  unfold recordSize
  omega

theorem recordSize_le {len : Nat} (h : len ≤ 65498) : recordSize len ≤ 65520 := by
  unfold recordSize
  omega

theorem recordSize_bounds {len : Nat} (h : len ≤ 65498) :
    32 ≤ recordSize len ∧ recordSize len ≤ 65520 ∧ recordSize len % 16 = 0 := by
  have hmod := recordSize_mod len
  have hge := recordSize_ge len
  have hle := recordSize_le h
  omega

theorem length_plainFront (body : List UInt8) :
    (plainFront body).length = recordSize body.length - 20 := by
  have := recordSize_ge body.length
  simp [plainFront]
  omega

@[simp] theorem length_plaintext (P : Primitives) (seq : UInt32) (body : List UInt8) :
    (plaintext P seq body).length = recordSize body.length := by
  have := recordSize_ge body.length
  simp [plaintext, length_plainFront, trailer]
  omega

theorem unblocks_chunks16 {p : List UInt8} (h : p.length % 16 = 0) :
    unblocks (chunks16 p) = p := by
  have hsize : 16 * (p.length / 16) = p.length := by omega
  rw [chunks16, unblocks_blocks _ _ hsize.le, hsize, List.take_length]

theorem chunks16_unblocks (bs : List Block) : chunks16 (unblocks bs) = bs := by
  rw [chunks16, length_unblocks, Nat.mul_div_cancel_left _ (by omega : 0 < 16),
    blocks_unblocks]

/-- The wire record of a body under sequence number `seq` and chaining value
`iv`, and the chaining value it leaves behind. -/
def sealRecord (P : Primitives) (key : Key) (seq : UInt32) (iv : Block) (body : List UInt8) :
    List UInt8 × Block :=
  let sealed := cbcEncrypt P.aes key iv (chunks16 (plaintext P seq body))
  (unblocks sealed.1, sealed.2)

@[simp] theorem length_sealRecord (P : Primitives) (key : Key) (seq : UInt32) (iv : Block)
    (body : List UInt8) :
    (sealRecord P key seq iv body).1.length = recordSize body.length := by
  have := recordSize_mod body.length
  simp [sealRecord, chunks16]
  omega

/-- A body within the limit always encrypts on a working layer: the wire record
is its sealed plaintext behind the record length. -/
theorem encrypt_ok {P : Primitives} {r : RecordLayer} {body : List UInt8}
    (hfailed : r.failed = false) (hseq : r.encSeq < 0xffffffff)
    (hbody : body.length ≤ 65498) :
    r.encrypt P body =
      (.ok (toBigEndian 2 (recordSize body.length) ++
          (sealRecord P r.key r.encSeq r.encIv body).1),
        { r with
          encIv := (sealRecord P r.key r.encSeq r.encIv body).2
          encSeq := r.encSeq + 1 }) := by
  simp [RecordLayer.encrypt, hfailed, hseq, hbody, checkedSucc_of_lt hseq, sealRecord]

/-- The record layer opens exactly what its peer sealed under the same key,
sequence number and chaining value. -/
theorem decrypt_sealRecord {P : Primitives} {r : RecordLayer} {body : List UInt8}
    (hfailed : r.failed = false) (hseq : r.decSeq < 0xffffffff)
    (hbody : body.length ≤ 65498) :
    r.decrypt P (sealRecord P r.key r.decSeq r.decIv body).1 =
      (.ok body,
        { r with
          decIv := (sealRecord P r.key r.decSeq r.decIv body).2
          decSeq := r.decSeq + 1 }) := by
  have hbounds := recordSize_bounds hbody
  have hge := recordSize_ge body.length
  have hfront := length_plainFront body
  have hopen : cbcDecrypt P.aes r.key r.decIv
      (chunks16 (sealRecord P r.key r.decSeq r.decIv body).1) =
      (chunks16 (plaintext P r.decSeq body),
        (sealRecord P r.key r.decSeq r.decIv body).2) := by
    simp only [sealRecord, chunks16_unblocks]
    exact cbcDecrypt_cbcEncrypt P.aes r.key r.decIv _
  have hplain : unblocks (chunks16 (plaintext P r.decSeq body)) =
      plaintext P r.decSeq body :=
    unblocks_chunks16 (by rw [length_plaintext]; exact hbounds.2.2)
  have htake : (plaintext P r.decSeq body).take (recordSize body.length - 20) =
      plainFront body := by
    rw [plaintext, ← hfront, List.take_left]
  have hdrop : (plaintext P r.decSeq body).drop (recordSize body.length - 20) =
      trailer P r.decSeq (plainFront body) := by
    rw [plaintext, ← hfront, List.drop_left]
  have hlen : ofBigEndian ((plaintext P r.decSeq body).take 2) = body.length := by
    rw [plaintext, plainFront, List.append_assoc, List.append_assoc,
      List.take_append_of_le_length (by simp), List.take_of_length_le (by simp),
      ofBigEndian_toBigEndian (by omega)]
  have hbodyOut : ((plaintext P r.decSeq body).drop 2).take body.length = body := by
    rw [plaintext, plainFront, List.append_assoc, List.append_assoc,
      List.drop_append_of_le_length (by simp), List.drop_of_length_le (by simp),
      List.nil_append, List.take_append_of_le_length (by simp), List.take_length]
  simp only [RecordLayer.decrypt, hfailed, hseq, hopen, hplain, length_sealRecord,
    length_plaintext, htake, hdrop, hlen, hbodyOut, checkedSucc_of_lt hseq]
  have hinner : body.length ≤ recordSize body.length - 20 - 2 := by omega
  simp [hbounds, hinner]

end MacVnc.Protocol.Record
