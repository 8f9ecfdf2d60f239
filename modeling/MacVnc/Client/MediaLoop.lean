import MacVnc.Media.Compositing
import MacVnc.Media.Depacketize
/-!
# The media loop of a session

The loop of `run_session` (`macvnc-app/src/backend.rs`) that receives datagrams,
decodes access units and publishes frames.  The HEVC decoder is a parameter: it
may answer by everything that it was given.  What the rest of the loop does with
commands, files, reports and feedback does not touch the state of this one; where
it fails, the list of rounds ends.
-/

namespace MacVnc.Client.MediaLoop

open MacVnc.Media.Srtp (Primitives RtpPacket SrtpReceiver isRtcp)
open MacVnc.Media.Depacketize
open MacVnc.Media.Compositing

/-- The result of `decode`, without tiles for an error, and the error counts read after it. -/
structure Decoded where
  tiles : Option (List DecodedTile)
  referenceErrors : Nat
  logErrors : Nat
deriving DecidableEq

/-- The decoders are numbered; `given` are the access units with the results, oldest first. -/
structure Decoder where
  number : Nat
  given : List (AccessUnit × Decoded)
deriving DecidableEq

structure HevcDecoder where
  new : Nat → Bool
  decode : Decoder → AccessUnit → Decoded

structure Connection where
  width : Nat
  height : Nat
  tileCount : Option Nat
  mediaReoffers : Nat
deriving DecidableEq

structure Session where
  width : Nat
  height : Nat
  tiles : Nat
  compositor : Compositor
  decoder : Decoder
  decoders : Nat
  depacketizer : Depacketizer
  receiver : SrtpReceiver
  generation : Option Nat
  lossEpoch : Nat
  needsKeyframe : Bool
  dirty : Bool
  connected : Bool
  geometryPending : Bool
  reoffersSeen : Nat
  lossAt : Bool

inductive Stop where
  | cancelled
  | media (error : MediaError)
  | decoderFailed
  | panicked
deriving DecidableEq

/-- The environment of one iteration: what the connection reports, the datagrams that have
arrived with their times, the orders in which hash maps are iterated, and when the
cancellation flag is seen. -/
structure Round where
  connection : Connection
  datagrams : List (List UInt8 × Nat)
  polledAt : Nat
  ties : Nat → Key
  cancelled : Bool
  cancelledAt : Nat → Bool
  cancelledAfter : Bool

/-- A frame stored for the interface, whether it announces a screen, and the session then. -/
structure Publication where
  frame : RgbaFrame
  announced : Bool
  session : Session

namespace Session

def newDecoder (codec : HevcDecoder) (s : Session) : Except Stop Session :=
  if codec.new s.decoders then
    .ok { s with decoder := { number := s.decoders, given := [] }, decoders := s.decoders + 1 }
  else .error .decoderFailed

def newCompositor (s : Session) : Except Stop Session :=
  match Compositor.new s.width s.height s.tiles with
  | .error e => .error (.media e)
  | .ok compositor => .ok { s with compositor }

/-- The state before the loop; the decoder is the first thing to be created. -/
def start (codec : HevcDecoder) (connection : Connection) (receiver : SrtpReceiver) :
    Except Stop Session :=
  if codec.new 0 then
    let tiles := connection.tileCount.getD 1
    match Compositor.new connection.width connection.height tiles with
    | .error e => .error (.media e)
    | .ok compositor =>
        .ok
          { width := connection.width
            height := connection.height
            tiles
            compositor
            decoder := { number := 0, given := [] }
            decoders := 1
            depacketizer := Depacketizer.new tiles
            receiver
            generation := none
            lossEpoch := 0
            needsKeyframe := true
            dirty := false
            connected := false
            geometryPending := false
            reoffersSeen := connection.mediaReoffers
            lossAt := false }
  else .error .decoderFailed

/-- A changed screen or a new offer starts over, but for keys and replay state. -/
def reconfigure (codec : HevcDecoder) (connection : Connection) (s : Session) :
    Except Stop Session :=
  if (s.width, s.height) ≠ (connection.width, connection.height) ∨
      s.reoffersSeen ≠ connection.mediaReoffers then
    let s :=
      { s with
        width := connection.width
        height := connection.height
        tiles := connection.tileCount.getD 1 }
    match s.newCompositor with
    | .error stop => .error stop
    | .ok s =>
        match s.newDecoder codec with
        | .error stop => .error stop
        | .ok s =>
            .ok
              { s with
                depacketizer := Depacketizer.new s.tiles
                generation := none
                lossEpoch := 0
                needsKeyframe := true
                dirty := false
                geometryPending := true
                reoffersSeen := connection.mediaReoffers }
  else .ok s

/-! ## Receiving -/

/-- The diagnostic mode omits one middle fragment after playback has settled. -/
def omits (simulateLoss : Bool) (s : Session) (p : RtpPacket) (now : Nat) : Bool :=
  simulateLoss && s.connected && !s.lossAt && decide (15000 ≤ now) &&
    decide (3 ≤ p.payload.length) && decide (p.payload.getD 0 0 >>> 1 &&& 63 = 49) &&
    decide (p.payload.getD 2 0 &&& 0xc0 = 0)

def receive (P : Primitives) (ties : Nat → Key) (simulateLoss : Bool) (s : Session)
    (datagram : List UInt8) (now : Nat) : Option (List AccessUnit × Session) :=
  if isRtcp datagram then some ([], s)
  else match s.receiver.unprotect P datagram with
    | none => none
    | some (none, receiver) => some ([], { s with receiver })
    | some (some p, receiver) =>
        let s := { s with receiver }
        if s.omits simulateLoss p now then some ([], { s with lossAt := true })
        else (s.depacketizer.push ties p now).map fun (events, depacketizer) =>
          (units events, { s with depacketizer })

def receiveAll (P : Primitives) (ties : Nat → Key) (simulateLoss : Bool) (s : Session) :
    List (List UInt8 × Nat) → Option (List AccessUnit × Session)
  | [] => some ([], s)
  | (datagram, now) :: rest =>
      (s.receive P ties simulateLoss datagram now).bind fun (first, s) =>
        (s.receiveAll P ties simulateLoss rest).map fun (later, s) => (first ++ later, s)

/-- The access units of one iteration: at most 512 datagrams, then a poll. -/
def batch (P : Primitives) (simulateLoss : Bool) (round : Round) (s : Session) :
    Option (List AccessUnit × Session) :=
  (s.receiveAll P round.ties simulateLoss (round.datagrams.take 512)).bind fun (pushed, s) =>
    (s.depacketizer.poll round.polledAt).map fun (events, depacketizer) =>
      (pushed ++ units events, { s with depacketizer })

/-! ## Decoding -/

/-- A new generation or loss epoch needs a keyframe. -/
def follow (s : Session) (au : AccessUnit) : Session :=
  if s.generation ≠ some au.generation ∨ s.lossEpoch ≠ au.lossEpoch then
    { s with
      generation := some au.generation
      lossEpoch := au.lossEpoch
      needsKeyframe := true
      dirty := false }
  else s

def refresh (codec : HevcDecoder) (s : Session) : Except Stop Session :=
  if s.needsKeyframe then
    match s.newDecoder codec with
    | .error stop => .error stop
    | .ok s => s.newCompositor
  else .ok s

def draw (s : Session) : List DecodedTile → Except Stop Session
  | [] => .ok s
  | tile :: rest =>
      match s.compositor.update tile with
      | none => .error .panicked
      | some (.error e) => .error (.media e)
      | some (.ok (drawn, compositor)) =>
          { s with compositor, dirty := s.dirty || drawn }.draw rest

def accept (s : Session) (au : AccessUnit) (decoded : Decoded) : Except Stop Session :=
  match decoded.tiles with
  | none => .ok { s with needsKeyframe := true, dirty := false }
  | some tiles =>
      if 0 < decoded.referenceErrors ∨ 0 < decoded.logErrors then
        .ok { s with needsKeyframe := true, dirty := false }
      else if au.key ∧ tiles ≠ [] then { s with needsKeyframe := false }.draw tiles
      else s.draw tiles

def decode (codec : HevcDecoder) (s : Session) (au : AccessUnit) : Except Stop Session :=
  let decoded := codec.decode s.decoder au
  { s with decoder := { s.decoder with given := s.decoder.given ++ [(au, decoded)] } }.accept
    au decoded

def present (codec : HevcDecoder) (s : Session) (au : AccessUnit) : Except Stop Session :=
  let s := s.follow au
  if s.needsKeyframe ∧ !au.key then .ok s
  else match s.refresh codec with
    | .error stop => .error stop
    | .ok s => s.decode codec au

def presentAll (codec : HevcDecoder) (cancelledAt : Nat → Bool) (index : Nat) (s : Session) :
    List AccessUnit → Except Stop Session
  | [] => .ok s
  | au :: rest =>
      if cancelledAt index then .error .cancelled
      else match s.present codec au with
        | .error stop => .error stop
        | .ok s => s.presentAll codec cancelledAt (index + 1) rest

/-! ## Publishing -/

/-- A loss after the last emitted picture needs a keyframe too. -/
def settle (s : Session) : Session :=
  if s.lossEpoch ≠ s.depacketizer.lossEpoch then
    { s with lossEpoch := s.depacketizer.lossEpoch, needsKeyframe := true, dirty := false }
  else s

def publish (cancelled : Bool) (s : Session) : Option Publication × Session :=
  if s.dirty ∧ !s.needsKeyframe ∧ !cancelled then
    (some
      { frame := s.compositor.snapshot
        announced := !s.connected || s.geometryPending
        session := s },
      { s with connected := true, geometryPending := false, dirty := false })
  else (none, s)

def iterate (codec : HevcDecoder) (P : Primitives) (simulateLoss : Bool) (s : Session)
    (round : Round) : Except Stop (Option Publication × Session) :=
  if round.cancelled then .error .cancelled
  else match s.reconfigure codec round.connection with
    | .error stop => .error stop
    | .ok s =>
        match s.batch P simulateLoss round with
        | none => .error .panicked
        | some (units, s) =>
            match s.presentAll codec round.cancelledAt 0 units with
            | .error stop => .error stop
            | .ok s => .ok (s.settle.publish round.cancelledAfter)

def run (codec : HevcDecoder) (P : Primitives) (simulateLoss : Bool) (s : Session) :
    List Round → List Publication × Option Stop
  | [] => ([], none)
  | round :: rest =>
      match s.iterate codec P simulateLoss round with
      | .error stop => ([], some stop)
      | .ok (published, s) =>
          let (later, stop) := s.run codec P simulateLoss rest
          (published.toList ++ later, stop)

end Session

def runSession (codec : HevcDecoder) (P : Primitives) (simulateLoss : Bool)
    (connection : Connection) (receiver : SrtpReceiver) (rounds : List Round) :
    List Publication × Option Stop :=
  match Session.start codec connection receiver with
  | .error stop => ([], some stop)
  | .ok s => s.run codec P simulateLoss rounds

end MacVnc.Client.MediaLoop
