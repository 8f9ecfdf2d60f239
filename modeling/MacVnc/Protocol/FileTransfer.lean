import MacVnc.Lib.Bytes
import MacVnc.Lib.Text
/-!
# File messages

The Apple file messages (`hp-protocol/src/file_transfer.rs`): the file names
that are safe on Windows, the metadata a receiver interprets and the messages a
sender encodes.
-/

namespace MacVnc.Protocol.FileTransfer

open MacVnc.Lib.Bytes
open MacVnc.Lib (Text)
open MacVnc.Lib.Text

def maxFileBytes : Nat := 2 ^ 32 - 1

def itemInfo : UInt16 := 100

def newItem : UInt16 := 101

def data : UInt16 := 102

def endOfFile : UInt16 := 104

structure Message where
  kind : UInt16
  session : UInt32
  argument : UInt32
  payload : List UInt8
deriving DecidableEq

inductive NameError where
  | exceedsSizeLimit | invalid | unsafeName | unsafeSuffix | reserved
deriving DecidableEq, Repr

inductive MetadataError where
  | unsupportedFileInfoLayout
  | onlyOneRegularFile
  | fileSizesDisagree
  | truncatedFileMetadata
  | onlyRegularFiles
  | invalidFileNameLength
  | notUtf8
  | name (error : NameError)
deriving DecidableEq, Repr

/-! ## Names -/

/-- `/\:<>"|?*`, of which 34 is the quotation mark and 92 the backslash. -/
def forbiddenChars : List Nat := [47, 92, 58, 60, 62, 34, 124, 63, 42]

/-- The part before the first period, in upper case. -/
def stem (name : Text) : Text := (name.takeWhile (· ≠ '.')).map toAsciiUppercase

def deviceNames : List Text :=
  [['C', 'O', 'N'], ['P', 'R', 'N'], ['A', 'U', 'X'], ['N', 'U', 'L']]

/-- A device name with its number, from 1 to 9. -/
def numberedDevice (name : Text) : Bool :=
  ['1', '2', '3', '4', '5', '6', '7', '8', '9'].any fun n =>
    name = ['C', 'O', 'M', n] || name = ['L', 'P', 'T', n]

def validateName (name : Text) : Except NameError Unit :=
  if name = [] ∨ 255 < byteLength name then .error .exceedsSizeLimit
  else if name = ['.'] ∨ name = ['.', '.'] then .error .invalid
  else if name.any (fun c => isControl c || c.toNat ∈ forbiddenChars) then .error .unsafeName
  else if name.getLast? = some ' ' ∨ name.getLast? = some '.' then .error .unsafeSuffix
  else if stem name ∈ deviceNames ∨ numberedDevice (stem name) = true then .error .reserved
  else .ok ()

/-! ## Metadata -/

namespace Message

def field (m : Message) (offset width : Nat) : Nat :=
  ofBigEndian ((m.payload.drop offset).take width)

theorem field_lt (m : Message) (offset width : Nat) : m.field offset width < 256 ^ width := by
  calc m.field offset width < 256 ^ ((m.payload.drop offset).take width).length := ofBigEndian_lt _
    _ ≤ 256 ^ width := Nat.pow_le_pow_right (by decide) (List.length_take_le _ _)

/-- The size announced by metadata; `none` for other messages.  Only the known
single-file fields are interpreted. -/
def announcedSize (m : Message) : Except MetadataError (Option Nat) :=
  if m.kind = itemInfo then
    if m.payload.length ≠ 48 then .error .unsupportedFileInfoLayout
    else if m.field 24 4 ≠ 1 then .error .onlyOneRegularFile
    else if m.field 8 4 ≠ m.field 16 4 then .error .fileSizesDisagree
    else .ok (some (m.field 8 4))
  else if m.kind = newItem then
    if m.payload.length < 100 then .error .truncatedFileMetadata
    -- The mode bits of a regular file, 0o100000 under 0o170000.
    else if m.field 90 2 &&& 0xf000 ≠ 0x8000 then .error .onlyRegularFiles
    else if 100 + m.field 96 2 ≠ m.payload.length then .error .invalidFileNameLength
    else match fromUtf8 (m.payload.drop 100) with
      | none => .error .notUtf8
      | some name =>
          match validateName name with
          | .error e => .error (.name e)
          | .ok () => .ok (some (m.field 42 4))
  else .ok none

theorem announcedSize_le {m : Message} {size : Nat} (h : m.announcedSize = .ok (some size)) :
    size ≤ maxFileBytes := by
  have hfield : ∀ offset, m.field offset 4 ≤ maxFileBytes := fun offset => by
    have := m.field_lt offset 4
    unfold maxFileBytes
    omega
  unfold announcedSize at h
  by_cases hinfo : m.kind = itemInfo
  · rw [if_pos hinfo] at h
    split at h
    · cases h
    split at h
    · cases h
    split at h
    · cases h
    · cases h
      exact hfield 8
  · rw [if_neg hinfo] at h
    split at h
    · split at h
      · cases h
      split at h
      · cases h
      split at h
      · cases h
      split at h
      · cases h
      split at h
      · cases h
      · cases h
        exact hfield 42
    · cases h

end Message

/-! ## Encoding -/

def chunkBytes : Nat := 32 * 1024

inductive EncodeError where
  | invalidTransferId
  | exceedsControlRecordLimit
  | relativePath
  | pathContainsNul
  | pathExceedsSizeLimit
  | parentTraversal
  | name (error : NameError)
  | limitedTo4GiB
  | chunkExceedsLimit
deriving DecidableEq, Repr

/-- The wire form of a message of version 1. -/
def Message.encode (subtype : UInt8) (m : Message) : List UInt8 :=
  [0x22, subtype] ++ toBigEndian 4 (12 + m.payload.length) ++ toBigEndian 2 1 ++
    toBigEndian 2 m.kind.toNat ++ toBigEndian 4 m.session.toNat ++
    toBigEndian 4 m.argument.toNat ++ m.payload

def message (subtype : UInt8) (m : Message) : Except EncodeError (List UInt8) :=
  if m.session = 0 then .error .invalidTransferId
  else if 65498 - 18 < m.payload.length then .error .exceedsControlRecordLimit
  else .ok (m.encode subtype)

/-- A read (kind 1) or receive-file (kind 2) request. -/
def request (session : UInt32) (path : Text) (upload : Bool) : Except EncodeError (List UInt8) :=
  if path.head? ≠ some '/' then .error .relativePath
  else if Char.ofNat 0 ∈ path then .error .pathContainsNul
  else if 4096 < byteLength path then .error .pathExceedsSizeLimit
  else if ['.', '.'] ∈ path.splitOn '/' then .error .parentTraversal
  else message 2
    { kind := if upload then 2 else 1
      session
      argument := 1
      payload := toBigEndian 4 4 ++ toBigEndian 2 (byteLength path) ++ toUtf8 path }

def infoMessage (session : UInt32) (size : Nat) : Message :=
  { kind := itemInfo
    session
    argument := 1
    payload := copyAt 24 (toBigEndian 4 1) (copyAt 16 (toBigEndian 4 size)
      (copyAt 8 (toBigEndian 4 size) (List.replicate 48 0))) }

def itemMessage (session : UInt32) (name : Text) (size : Nat) : Message :=
  { kind := newItem
    session
    argument := 0x01000000
    -- The mode is 0o100644.
    payload := copyAt 96 (toBigEndian 2 (byteLength name)) (copyAt 90 (toBigEndian 2 0x81a4)
      (copyAt 42 (toBigEndian 4 size) (List.replicate 100 0))) ++ toUtf8 name }

def dataMessage (session : UInt32) (bytes : List UInt8) : Message :=
  { kind := data, session, argument := UInt32.ofNat bytes.length, payload := bytes }

def endMessage (session : UInt32) : Message :=
  { kind := endOfFile, session, argument := 0, payload := [] }

def uploadMetadata (session : UInt32) (name : Text) (size : Nat) :
    Except EncodeError (List UInt8 × List UInt8) :=
  match validateName name with
  | .error e => .error (.name e)
  | .ok () =>
      if maxFileBytes < size then .error .limitedTo4GiB
      else do
        let info ← message 0 (infoMessage session size)
        let item ← message 0 (itemMessage session name size)
        return (info, item)

def encodeData (session : UInt32) (bytes : List UInt8) : Except EncodeError (List UInt8) :=
  if chunkBytes < bytes.length then .error .chunkExceedsLimit
  else message 0 (dataMessage session bytes)

def encodeEnd (session : UInt32) : Except EncodeError (List UInt8) :=
  message 0 (endMessage session)

/-! ## What a receiver reads -/

section Metadata

variable {session : UInt32} {name : Text} {size : Nat}

theorem length_infoMessage : (infoMessage session size).payload.length = 48 := by
  simp [infoMessage, copyAt]

theorem length_itemMessage :
    (itemMessage session name size).payload.length = 100 + byteLength name := by
  simp [itemMessage, copyAt, length_toUtf8]
  omega

theorem byteLength_of_valid (h : validateName name = .ok ()) : byteLength name ≤ 255 := by
  unfold validateName at h
  by_cases hlong : name = [] ∨ 255 < byteLength name
  · rw [if_pos hlong] at h
    cases h
  · omega

theorem announcedSize_info (hsize : size ≤ maxFileBytes) :
    (infoMessage session size).announcedSize = .ok (some size) := by
  have hword : size < 256 ^ 4 := by
    unfold maxFileBytes at hsize
    omega
  have hfirst : (copyAt 8 (toBigEndian 4 size) (List.replicate 48 0)).length = 48 := by
    rw [length_copyAt (by simp), List.length_replicate]
  have hsecond : (copyAt 16 (toBigEndian 4 size)
      (copyAt 8 (toBigEndian 4 size) (List.replicate 48 0))).length = 48 := by
    rw [length_copyAt (by rw [length_toBigEndian, hfirst]; omega), hfirst]
  have hlength := @length_infoMessage session size
  have hcount : (infoMessage session size).field 24 4 = 1 := by
    rw [Message.field, infoMessage, field_copyAt (by omega) (length_toBigEndian _ _)]
    exact ofBigEndian_toBigEndian (by omega)
  have hdata : (infoMessage session size).field 16 4 = size := by
    rw [Message.field, infoMessage,
      field_copyAt_of_disjoint (by rw [length_toBigEndian, hsecond]; omega) (by simp),
      field_copyAt (by omega) (length_toBigEndian _ _)]
    exact ofBigEndian_toBigEndian hword
  have hfork : (infoMessage session size).field 8 4 = size := by
    rw [Message.field, infoMessage,
      field_copyAt_of_disjoint (by rw [length_toBigEndian, hsecond]; omega) (by simp),
      field_copyAt_of_disjoint (by rw [length_toBigEndian, hfirst]; omega) (by simp),
      field_copyAt (by simp) (length_toBigEndian _ _)]
    exact ofBigEndian_toBigEndian hword
  have hkind : (infoMessage session size).kind = itemInfo := rfl
  rw [Message.announcedSize, if_pos hkind, if_neg (by omega), if_neg (by omega),
    if_neg (by omega), hfork]

theorem announcedSize_item (hname : validateName name = .ok ()) (hsize : size ≤ maxFileBytes) :
    (itemMessage session name size).announcedSize = .ok (some size) := by
  have hword : size < 256 ^ 4 := by
    unfold maxFileBytes at hsize
    omega
  have hshort := byteLength_of_valid hname
  have hfirst : (copyAt 42 (toBigEndian 4 size) (List.replicate 100 0)).length = 100 := by
    rw [length_copyAt (by simp), List.length_replicate]
  have hsecond : (copyAt 90 (toBigEndian 2 0x81a4)
      (copyAt 42 (toBigEndian 4 size) (List.replicate 100 0))).length = 100 := by
    rw [length_copyAt (by rw [length_toBigEndian, hfirst]; omega), hfirst]
  have hheader : (copyAt 96 (toBigEndian 2 (byteLength name)) (copyAt 90 (toBigEndian 2 0x81a4)
      (copyAt 42 (toBigEndian 4 size) (List.replicate 100 0)))).length = 100 := by
    rw [length_copyAt (by rw [length_toBigEndian, hsecond]; omega), hsecond]
  -- The fields in front of the name are those of the header.
  have hfield : ∀ offset width, offset + width ≤ 100 →
      (itemMessage session name size).field offset width =
        ofBigEndian (((copyAt 96 (toBigEndian 2 (byteLength name)) (copyAt 90
          (toBigEndian 2 0x81a4) (copyAt 42 (toBigEndian 4 size)
            (List.replicate 100 0)))).drop offset).take width) := by
    intro offset width hbound
    rw [Message.field, itemMessage, List.drop_append_of_le_length (by omega),
      List.take_append_of_le_length (by rw [List.length_drop]; omega)]
  have hlength := @length_itemMessage session name size
  have hmode : (itemMessage session name size).field 90 2 = 0x81a4 := by
    rw [hfield 90 2 (by omega),
      field_copyAt_of_disjoint (by rw [length_toBigEndian, hsecond]; omega) (by simp),
      field_copyAt (by omega) (length_toBigEndian _ _)]
    exact ofBigEndian_toBigEndian (by omega)
  have hnameLength : (itemMessage session name size).field 96 2 = byteLength name := by
    rw [hfield 96 2 (by omega), field_copyAt (by omega) (length_toBigEndian _ _)]
    exact ofBigEndian_toBigEndian (by omega)
  have hfork : (itemMessage session name size).field 42 4 = size := by
    rw [hfield 42 4 (by omega),
      field_copyAt_of_disjoint (by rw [length_toBigEndian, hsecond]; omega) (by simp),
      field_copyAt_of_disjoint (by rw [length_toBigEndian, hfirst]; omega) (by simp),
      field_copyAt (by simp) (length_toBigEndian _ _)]
    exact ofBigEndian_toBigEndian hword
  have hutf8 : fromUtf8 ((itemMessage session name size).payload.drop 100) = some name := by
    rw [itemMessage, List.drop_append_of_le_length (by omega), List.drop_eq_nil_of_le (by omega),
      List.nil_append, fromUtf8_toUtf8]
  have hinfo : (itemMessage session name size).kind ≠ itemInfo := by
    show newItem ≠ itemInfo
    decide
  have hkind : (itemMessage session name size).kind = newItem := rfl
  rw [Message.announcedSize, if_neg hinfo, if_pos hkind, if_neg (by omega), hmode,
    if_neg (by decide), if_neg (by omega), hutf8]
  dsimp only
  rw [hname]
  dsimp only
  rw [hfork]

end Metadata

end MacVnc.Protocol.FileTransfer
