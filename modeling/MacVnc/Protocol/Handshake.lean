import MacVnc.Lib.Interaction
import MacVnc.Protocol.Authenticate
import MacVnc.Protocol.MediaOffer
import MacVnc.Protocol.Record
/-!
# The handshake

`HpConnection::connect` (`hp-protocol/src/lib.rs`) up to its first media offer, as a
dialogue with the Mac: the preliminary version exchange on a connection of its own, the
authentication, the search for the control key among the metadata, and the first
encrypted records.  The cryptographic libraries and the packing of the offers are
parameters, the random values arguments.
-/

namespace MacVnc.Protocol.Handshake

open MacVnc.Lib
open MacVnc.Lib.Bytes
open MacVnc.Lib.Interaction
open MacVnc.Lib.Interaction.Dialogue (receive say ensure fail arming inTime)
open MacVnc.Lib.Text
open MacVnc.Protocol.Authenticate (authenticate)
open MacVnc.Protocol.MediaOffer
open MacVnc.Protocol.Record (Block Key RecordLayer)

inductive HandshakeError where
  | text (message : String)
  /-- "Mac rejected authentication; no retry was attempted" -/
  | rejected
  | unsupportedEncoding (enc : Int)
  | unexpectedMessage (kind : UInt8)
  | panic
  /-- No turns are left to a loop that a deadline ends in the code. -/
  | outOfTurns
deriving DecidableEq

/-- A write, and where it goes: the response of the authentication goes to the same socket as
the rest of the control traffic. -/
inductive Output where
  | tcp (bytes : List UInt8)
  | response (bytes : List UInt8)
  | video (bytes : List UInt8)
  | control (bytes : List UInt8)
deriving DecidableEq

abbrev Talk (α : Type) : Type := Dialogue Output HandshakeError α

def checked {α : Type} : Option α → Talk α
  | some a => pure a
  | none => fail .panic

def ofExcept {α : Type} : Except String α → Talk α
  | .ok a => pure a
  | .error e => fail (.text e)

def ofGuarded {α : Type} (x : Checked.Guarded String α) : Talk α := checked x.run >>= ofExcept

def ensureText (p : Prop) [Decidable p] (message : String) : Talk Unit := ensure p (.text message)

abbrev readN (n : Nat) : Talk (List UInt8) := receive n

def read16 : Talk Nat := do
  let b ← receive 2
  pure (ofBigEndian b)

def read32 : Talk Nat := do
  let b ← receive 4
  pure (ofBigEndian b)

def toI32 (n : Nat) : Int := if n < 2 ^ 31 then n else (n : Int) - 2 ^ 32

def clientVersion : List UInt8 := ascii "RFB 003.008\n".toList

def version : Talk (List UInt8) := do
  let banner ← readN 12
  ensureText (banner.take 4 = ascii "RFB ".toList ∧ banner.getD 11 0 = 10)
    "invalid RFB version banner"
  say (.tcp clientVersion)
  let count ← readN 1
  let n := (count.getD 0 0).toNat
  ensureText (0 < n) "Mac refused the connection before authentication"
  readN n

/-! ## The search for the control key -/

def negotiationTimedOut : HandshakeError := .text "HP encryption negotiation timed out"

def rekeyRects : Nat → Talk (Option (List UInt8))
  | 0 => pure none
  | n + 1 => do
      inTime negotiationTimedOut
      let rh ← readN 12
      let enc := toI32 (ofBigEndian ((rh.drop 8).take 4))
      if enc = 1103 then do
        let blob ← readN 36
        pure (some blob)
      else if enc = 1010 ∨ enc = 1011 then do
        let size ← read16
        let _ ← readN size
        rekeyRects n
      else if enc = -224 then pure none
      else fail (.unsupportedEncoding enc)

/-- The loop over the messages, for so many turns. -/
def findRekeyLoop : Nat → Talk (List UInt8)
  | 0 => fail .outOfTurns
  | turns + 1 => do
      inTime negotiationTimedOut
      let kind ← readN 1
      if kind.getD 0 0 = 0 then do
        let _ ← readN 1
        let n ← read16
        match ← rekeyRects n with
        | some blob => pure blob
        | none => findRekeyLoop turns
      else if kind.getD 0 0 = 0x14 then do
        let _ ← readN 7
        findRekeyLoop turns
      else fail (.unexpectedMessage (kind.getD 0 0))

def findRekey (turns : Nat) : Talk (List UInt8) := do
  arming
  findRekeyLoop turns

/-! ## The connection -/

structure ConnectOptions where
  host : Text
  port : UInt16
  username : Text
  password : Text
  width : UInt16
  height : UInt16
  fps : UInt16

/-- The libraries that the handshake calls. -/
structure Primitives where
  auth : Authenticate.Primitives
  sha1 : List UInt8 → Vector UInt8 20
  packer : Packer

def Primitives.record (P : Primitives) : Record.Primitives := { aes := P.auth.aes, sha1 := P.sha1 }

/-- The random values and the clock of one call. -/
structure Environment where
  exponent : (size : Nat) → Vector UInt8 size
  padding : Vector UInt8 128
  videoSendKey : MediaKey
  videoReceiveKey : MediaKey
  videoSsrc : UInt32
  audioSsrc : UInt32
  audioSendKey : MediaKey
  audioOffer : Surroundings
  videoOffer : Surroundings
  filler : Vector UInt8 108

def ValidDimensions (width height : UInt16) : Prop :=
  0 < width ∧ 0 < height ∧ width ≤ 16384 ∧ height ≤ 16384 ∧
    width.toNat * height.toNat ≤ 67108864

instance (width height : UInt16) : Decidable (ValidDimensions width height) :=
  inferInstanceAs (Decidable (_ ∧ _))

def validateDimensions (width height : UInt16) : Talk Unit :=
  ensureText (ValidDimensions width height) "desktop dimensions exceed supported limits"

def unwrap (P : Primitives) (key : Key) (data : List UInt8) : Talk Block := do
  ensureText (data.length = 16) "invalid wrapped key block length"
  pure (P.auth.aes.decryptBlock key (Vector.ofFn fun i => data.getD i 0))

/-- `tcp.write_all(&records.encrypt(&message)?)`. -/
def writeRecord (P : Primitives) (records : RecordLayer) (message : List UInt8) :
    Talk RecordLayer := do
  let (wire, records) := records.encrypt P.record message
  say (.tcp (← ofExcept wire))
  pure records

/-- The checks before anything is sent. -/
def checkOptions (o : ConnectOptions) : Except HandshakeError Unit :=
  if ¬ o.host.any fun c => ¬ isWhitespace c then .error (.text "host is required")
  else if o.port = 0 then .error (.text "invalid port")
  else if o.width ≠ 0 ∧ o.height ≠ 0 ∧ ¬ ValidDimensions o.width o.height then
    .error (.text "desktop dimensions exceed supported limits")
  else if o.fps ≠ 30 ∧ o.fps ≠ 60 then
    .error (.text "HP supports a requested rate of 30 or 60 FPS")
  else if ¬ (byteLength o.username ≤ 63 ∧ byteLength o.password ≤ 63) then
    .error (.text "Apple authentication accepts at most 63 UTF-8 bytes per credential")
  else if ¬ ('\x00' ∉ o.username ∧ '\x00' ∉ o.password) then
    .error (.text "credentials cannot contain NUL")
  else .ok ()

structure Established where
  records : RecordLayer
  first : List UInt8
  width : UInt16
  height : UInt16
  mediaOffer : List UInt8

/-- From the greeting of the Mac to its result, with the key that wraps the control key. -/
def login (P : Primitives) (o : ConnectOptions) (env : Environment) : Talk Key := do
  let types ← version
  ensureText (30 ∈ types) "Mac did not offer Apple security type 30"
  say (.tcp [30])
  let generator ← read16
  let keyLen ← read16
  ensureText (64 ≤ keyLen ∧ keyLen ≤ 512) "unsupported Apple DH key length"
  let prime ← readN keyLen
  let pub ← readN keyLen
  let (response, wrapKey) ← ofGuarded (authenticate P.auth generator.toUInt16 prime pub
    o.username o.password (env.exponent prime.length) env.padding)
  say (.response response)
  let result ← read32
  ensure (result = 0) .rejected
  pure wrapKey

/-- The parameters of the desktop and what the viewer says of itself. -/
def introduce : Talk (UInt16 × UInt16) := do
  say (.tcp [1])
  let serverW ← read16
  let serverH ← read16
  let _ ← readN 16
  let nameLen ← read32
  ensureText (nameLen ≤ 65536) "desktop name too large"
  let _ ← readN nameLen
  say (.tcp (← checked viewerInfo))
  say (.tcp [0x12, 0, 0, 1, 0, 1, 0, 1, 0, 0, 0, 1])
  say (.tcp encodings)
  pure (serverW.toUInt16, serverH.toUInt16)

/-- The control key and the first record under it. -/
def openRecords (P : Primitives) (wrapKey : Key) (turns : Nat) :
    Talk (List UInt8 × RecordLayer) := do
  let blob ← findRekey turns
  let key ← unwrap P wrapKey ((blob.drop 4).take 16)
  let iv ← unwrap P wrapKey ((blob.drop 20).take 16)
  say (.tcp [0x12, 0, 0, 2, 0, 1, 0, 0])
  let n ← read16
  ensureText (32 ≤ n ∧ n % 16 = 0) "bad initial control record length"
  let ciphertext ← readN n
  let (first, records) := (RecordLayer.new key iv).decrypt P.record ciphertext
  pure (← ofExcept first, records)

/-- The first encrypted messages, the media offer as the last. -/
def configureMedia (P : Primitives) (env : Environment) (fps width height : UInt16)
    (records : RecordLayer) : Talk (List UInt8 × RecordLayer) := do
  let display ← checked (displayConfig width height fps)
  let records ← writeRecord P records encodings
  let records ← writeRecord P records display
  let records ← writeRecord P records [3, 0, 0, 0, 0, 0, 255, 255, 255, 255]
  say (.video [0])
  say (.control [0])
  let mediaOffer ← checked (mediaOptions P.packer env.audioOffer env.videoOffer env.videoSsrc
    env.videoSendKey env.videoReceiveKey fps env.audioSsrc env.audioSendKey env.filler)
  let records ← writeRecord P records mediaOffer
  pure (mediaOffer, records)

/-- The dialogue on the second connection. -/
def session (P : Primitives) (o : ConnectOptions) (env : Environment) (turns : Nat) :
    Talk Established := do
  say (.video [0])
  say (.control [0])
  let wrapKey ← login P o env
  let (serverW, serverH) ← introduce
  let (first, records) ← openRecords P wrapKey turns
  let width := if o.width = 0 then serverW else o.width
  let height := if o.height = 0 then serverH else o.height
  validateDimensions width height
  let (mediaOffer, records) ← configureMedia P env o.fps width height records
  pure { records, first, width, height, mediaOffer }

def patience : Nat := 8 * 10 ^ 9

/-- `connect` over its two connections.  The search for the key has as many turns as there are
bytes to read. -/
def connect (P : Primitives) (o : ConnectOptions) (env : Environment) (warm tcp : Socket) :
    Ending Output HandshakeError Established Socket :=
  match checkOptions o with
  | .error e => { result := .error (.program e), emitted := [], rest := tcp }
  | .ok () =>
      let greeting := version.over patience warm
      match greeting.result with
      | .error stop => { result := .error stop, emitted := greeting.emitted, rest := tcp }
      | .ok _ =>
          ((session P o env (tcp.bytes.length + 1)).over patience tcp).after greeting.emitted

/-- `connect` to a Mac whose bytes on the two connections are these. -/
def connectTo (P : Primitives) (o : ConnectOptions) (env : Environment) (warm tcp : List UInt8) :
    Ending Output HandshakeError Established (List UInt8) :=
  match checkOptions o with
  | .error e => { result := .error (.program e), emitted := [], rest := tcp }
  | .ok () =>
      let greeting := version.run warm
      match greeting.result with
      | .error stop => { result := .error stop, emitted := greeting.emitted, rest := tcp }
      | .ok _ => ((session P o env (tcp.length + 1)).run tcp).after greeting.emitted

/-! ## A client

MD5 and AES-128 as they act on the secret that it shares with the Mac of the group of 23 in 64
bytes, on its credentials, and on the key and the vector of that Mac. -/

def fixtureMd5 (input : List UInt8) : Key :=
  if input = List.replicate 63 0 ++ [8] then
    #v[99, 138, 25, 163, 55, 93, 28, 212, 166, 213, 151, 208, 237, 15, 178, 163]
  else Vector.replicate 16 0

def fixtureBlocks : List (Block × Block) :=
  [(Authenticate.nameBlock,
      #v[153, 169, 8, 5, 6, 98, 196, 22, 69, 147, 254, 13, 147, 28, 125, 96]),
    (Authenticate.paddingBlock,
      #v[201, 239, 239, 212, 231, 76, 190, 21, 122, 173, 114, 153, 75, 111, 140, 240]),
    (Authenticate.passwordBlock,
      #v[40, 196, 242, 6, 240, 88, 81, 45, 207, 5, 64, 19, 243, 243, 99, 250]),
    (Vector.replicate 16 1,
      #v[135, 6, 247, 186, 203, 2, 33, 11, 198, 95, 235, 53, 63, 117, 128, 207]),
    (Vector.replicate 16 2,
      #v[187, 167, 146, 125, 195, 168, 191, 103, 11, 134, 23, 134, 153, 183, 88, 20])]

def fixturePrimitives : Primitives :=
  { auth :=
      { aes := Authenticate.tableCipher fixtureBlocks
        md5 := fixtureMd5
        big := Authenticate.fixtureBig }
    sha1 := fun _ => Vector.replicate 20 0
    packer := fixturePacker (fixtureOffer 8) (fixtureOffer 7) }

def fixtureOptions : ConnectOptions :=
  { host := "mac.local".toList
    port := 5900
    username := "alice".toList
    password := "example-only".toList
    width := 0
    height := 0
    fps := 60 }

def fixtureEnvironment : Environment :=
  { exponent := fun size => Vector.replicate size 7
    padding := Vector.replicate 128 7
    videoSendKey := Vector.replicate 46 1
    videoReceiveKey := Vector.replicate 46 2
    videoSsrc := 0
    audioSsrc := 0
    audioSendKey := Vector.replicate 46 3
    audioOffer := fixtureSurroundings
    videoOffer := fixtureSurroundings
    filler := Vector.replicate 108 0 }

end MacVnc.Protocol.Handshake
