import Mathlib.Data.List.AList
import MacVnc.Lib.Stateful
import MacVnc.Media.Compositing
import MacVnc.Media.Depacketize
/-!
# The FFmpeg adapter

`HevcDecoder` (`hp-media/src/decoder.rs`) between the access units and the tiles.
FFmpeg answers as it likes.  Its objects are kept with what has become of them, and a
call that the library does not allow, on an object that is not there or into a buffer
that is too small, has no outcome.
-/

namespace MacVnc.Media.HevcDecoder

open MacVnc.Lib.Stateful
open MacVnc.Media.Compositing (MediaError RgbaFrame rgbaLen)
open MacVnc.Media.Depacketize (AccessUnit)

/-! ## The objects of the library -/

structure Frame where
  width : Int
  height : Int
  format : Int
  pts : Int
deriving DecidableEq

inductive Context where
  | absent
  | allocated
  | opened
deriving DecidableEq

inductive Picture where
  | absent
  | clean
  | filled (frame : Frame)
deriving DecidableEq

inductive Packet where
  | absent
  | empty
  | buffer (size : Nat)
  | filled (data : List UInt8) (pts : Int)
deriving DecidableEq

structure Objects where
  context : Context
  picture : Picture
  packet : Packet
  scaler : Bool
deriving DecidableEq

namespace Objects

def none : Objects :=
  { context := .absent, picture := .absent, packet := .absent, scaler := false }

/-- `avcodec_alloc_context3`, which may return null. -/
def contextAlloc (some? : Bool) (o : Objects) : Option Objects :=
  if o.context = .absent then
    some { o with context := if some? then .allocated else .absent }
  else .none

/-- `av_opt_set_int`. -/
def setOption (o : Objects) : Option Objects :=
  if o.context = .allocated then some o else .none

/-- `avcodec_open2`, which fails below zero. -/
def contextOpen (code : Int) (o : Objects) : Option Objects :=
  if o.context = .allocated then
    some { o with context := if code < 0 then .allocated else .opened }
  else .none

/-- `avcodec_free_context` on a context. -/
def contextFree (o : Objects) : Option Objects :=
  if o.context ≠ .absent then some { o with context := .absent } else .none

/-- `av_frame_alloc`. -/
def frameAlloc (some? : Bool) (o : Objects) : Option Objects :=
  if o.picture = .absent then some { o with picture := if some? then .clean else .absent }
  else .none

/-- `av_frame_free`. -/
def frameFree (o : Objects) : Option Objects :=
  if o.picture ≠ .absent then some { o with picture := .absent } else .none

/-- `av_frame_unref`. -/
def frameUnref (o : Objects) : Option Objects :=
  if o.picture ≠ .absent then some { o with picture := .clean } else .none

/-- `av_packet_alloc`. -/
def packetAlloc (some? : Bool) (o : Objects) : Option Objects :=
  if o.packet = .absent then some { o with packet := if some? then .empty else .absent }
  else .none

/-- `av_new_packet`, which fails below zero or leaves no data. -/
def packetNew (code : Int) (data : Bool) (size : Nat) (o : Objects) : Option Objects :=
  if o.packet = .empty then
    some { o with packet := if 0 ≤ code ∧ data then .buffer size else .empty }
  else .none

/-- `copy_nonoverlapping` into the data of the packet, and its times. -/
def packetFill (data : List UInt8) (pts : Int) (o : Objects) : Option Objects :=
  if o.packet = .buffer data.length then some { o with packet := .filled data pts } else .none

/-- `av_packet_free`. -/
def packetFree (o : Objects) : Option Objects :=
  if o.packet ≠ .absent then some { o with packet := .absent } else .none

/-- `avcodec_send_packet`. -/
def send (o : Objects) : Option Objects :=
  match o.context, o.packet with
  | .opened, .filled _ _ => some o
  | _, _ => .none

/-- `avcodec_receive_frame`, with a frame or without. -/
def receive (frame : Option Frame) (o : Objects) : Option Objects :=
  if o.context = .opened ∧ o.picture ≠ .absent then
    some { o with picture := frame.elim .clean .filled }
  else .none

/-- `sws_getCachedContext` takes the scaler that the caller holds and returns one or null. -/
def scalerGet (held some? : Bool) (o : Objects) : Option Objects :=
  if o.scaler = held then some { o with scaler := some? } else .none

/-- `sws_scale` of the rows of a picture into a buffer. -/
def scale (stride height : Int) (size : Nat) (o : Objects) : Option Objects :=
  match o.picture with
  | .filled f =>
      if o.scaler ∧ 0 ≤ stride ∧ f.width * 4 ≤ stride ∧ height = f.height ∧ stride * height ≤ size
      then some o else .none
  | _ => .none

/-- `sws_freeContext`. -/
def scalerFree (o : Objects) : Option Objects :=
  if o.scaler then some { o with scaler := false } else .none

end Objects

/-! ## The adapter -/

inductive DecodeError where
  | unavailable
  | contextAllocation
  | configuration
  | couldNotOpen
  | frameAllocation
  | tooManyDecoders
  | accessUnitLimit
  | packetAllocation
  | packetBuffer
  | packetRejected (code : Int)
  | frameRejected (code : Int)
  | invalidWidth
  | invalidHeight
  | media (e : MediaError)
  | pixelFormat
  | framebufferAllocation
  | incompleteConversion
deriving DecidableEq

structure DecodedTile where
  tile : Nat
  pts : Int
  frame : RgbaFrame
deriving DecidableEq

abbrev Routes := AList fun _ : Int => Nat

/-- What became of the routes: a packet was accepted for a tile, a frame took its route. -/
inductive Event where
  | accepted (pts : Int) (tile : Nat)
  | taken (pts : Int) (tile : Nat)
deriving DecidableEq

def Event.pts : Event → Int
  | .accepted pts _ => pts
  | .taken pts _ => pts

/-- The decoder with the objects of the library, and its history. -/
structure State where
  objects : Objects
  sws : Bool
  routes : Routes
  log : List Event

def State.start : State := { objects := .none, sws := false, routes := ∅, log := [] }

abbrev Code (α : Type) : Type := Computation DecodeError State α

/-- A call of the library. -/
def api (f : Objects → Option Objects) : Code Unit :=
  ofOutcome fun s => (f s.objects).map fun objects => (.ok (), { s with objects })

def readFrame : Code Frame :=
  ofOutcome fun s =>
    match s.objects.picture with
    | .filled frame => some (.ok frame, s)
    | _ => none

/-- How a frame is converted: whether there are a scaler and room, the rows that were
written, and the bytes. -/
structure Conversion where
  scaler : Bool
  room : Bool
  rows : Int
  byte : Nat → UInt8

/-- The frames that come out until a code that is none. -/
structure Received where
  frames : List (Frame × Conversion)
  code : Int
  isCode : code < 0

/-- How the library answers in one call of `decode`. -/
structure Answers where
  packet : Bool
  buffer : Int
  data : Bool
  sent : Int
  drained : Received
  resent : Int
  last : Received

/-- How the library answers in `new`, and the counter slot that is free. -/
structure Opening where
  available : Bool
  context : Bool
  options : List Int
  opened : Int
  frame : Bool
  slot : Option Nat

/-! ### Routes -/

/-- `pop_first`. -/
def popFirst (routes : Routes) : Routes :=
  match routes.keys.min? with
  | some first => routes.erase first
  | none => routes

def maxRoutes : Nat := 1024

/-- `while self.routes.len() > 1024`, with a turn for each route. -/
def trim : Nat → Routes → Routes
  | 0, routes => routes
  | turns + 1, routes =>
      if maxRoutes < routes.keys.length then trim turns (popFirst routes) else routes

def insertRoute (pts : Int) (tile : Nat) (routes : Routes) : Routes :=
  let routes := routes.insert pts tile
  trim routes.keys.length routes

/-! ### decode -/

/-- `AVERROR(EAGAIN)` and `AVERROR_EOF`. -/
def again : Int := -11

def endOfFile : Int := -541478725

def convert (answer : Conversion) : Code (Option DecodedTile) := do
  let f ← readFrame
  let s ← get
  match s.routes.lookup f.pts with
  | none => pure none
  | some tile => do
      modify fun s =>
        { s with routes := s.routes.erase f.pts, log := s.log ++ [.taken f.pts tile] }
      ensure (fun _ => 0 ≤ f.width) .invalidWidth
      ensure (fun _ => 0 ≤ f.height) .invalidHeight
      match rgbaLen f.width.toNat f.height.toNat with
      | .error e => throw (.media e)
      | .ok length => do
          let s ← get
          api (Objects.scalerGet s.sws answer.scaler)
          modify fun s => { s with sws := answer.scaler }
          ensure (fun _ => answer.scaler) .pixelFormat
          ensure (fun _ => answer.room) .framebufferAllocation
          api (Objects.scale (f.width * 4) f.height length)
          ensure (fun _ => answer.rows = f.height) .incompleteConversion
          pure <| some
            { tile
              pts := f.pts
              frame :=
                { width := f.width.toNat
                  height := f.height.toNat
                  pixels := (List.range length).map answer.byte } }

/-- The loop of `drain` over the frames, up to this code. -/
def drainFrames (code : Int) : List (Frame × Conversion) → Code (List DecodedTile)
  | [] => do
      api (Objects.receive none)
      if code = again ∨ code = endOfFile then pure [] else throw (.frameRejected code)
  | (frame, answer) :: rest => do
      api (Objects.receive (some frame))
      let result ← attempt (convert answer)
      api Objects.frameUnref
      match result with
      | .error e => throw e
      | .ok none => drainFrames code rest
      | .ok (some tile) => do
          let out ← drainFrames code rest
          pure (tile :: out)

def drain (received : Received) : Code (List DecodedTile) :=
  drainFrames received.code received.frames

/-- The packet is sent, and once more when the frames before it have to be fetched first. -/
def sendPacket (answers : Answers) : Code (List DecodedTile × Int) := do
  api Objects.send
  if answers.sent = again then do
    match ← attempt (drain answers.drained) with
    | .error e => do
        api Objects.packetFree
        throw e
    | .ok out => do
        api Objects.send
        pure (out, answers.resent)
  else pure ([], answers.sent)

def decode (au : AccessUnit) (answers : Answers) : Code (List DecodedTile) := do
  ensure (fun _ => au.data ≠ [] ∧ au.data.length ≤ 8 * 1024 * 1024) .accessUnitLimit
  api (Objects.packetAlloc answers.packet)
  ensure (fun _ => answers.packet) .packetAllocation
  api (Objects.packetNew answers.buffer answers.data au.data.length)
  if answers.buffer < 0 ∨ ¬ answers.data then do
    api Objects.packetFree
    throw .packetBuffer
  else do
    api (Objects.packetFill au.data au.pts)
    let (out, code) ← sendPacket answers
    api Objects.packetFree
    ensure (fun _ => 0 ≤ code) (.packetRejected code)
    modify fun s =>
      { s with
        routes := insertRoute au.pts au.tile s.routes
        log := s.log ++ [.accepted au.pts au.tile] }
    let rest ← drain answers.last
    pure (out ++ rest)

/-! ### new and drop -/

/-- The options are set one after the other. -/
def configure : List Int → Code Unit
  | [] => pure ()
  | code :: rest => do
      api Objects.setOption
      if code < 0 then do
        api Objects.contextFree
        throw .configuration
      else configure rest

def new (answers : Opening) : Code Unit := do
  ensure (fun _ => answers.available) .unavailable
  api (Objects.contextAlloc answers.context)
  ensure (fun _ => answers.context) .contextAllocation
  configure answers.options
  api (Objects.contextOpen answers.opened)
  if answers.opened < 0 then do
    api Objects.contextFree
    throw .couldNotOpen
  else do
    api (Objects.frameAlloc answers.frame)
    if ¬ answers.frame then do
      api Objects.contextFree
      throw .frameAllocation
    else if answers.slot = none then do
      api Objects.frameFree
      api Objects.contextFree
      throw .tooManyDecoders
    else pure ()

def drop : Code Unit := do
  api Objects.frameFree
  api Objects.contextFree
  let s ← get
  if s.sws then api Objects.scalerFree else pure ()

def decodeAll : List (AccessUnit × Answers) → Code (List (Except DecodeError (List DecodedTile)))
  | [] => pure []
  | (au, answers) :: rest => do
      let result ← attempt (decode au answers)
      let results ← decodeAll rest
      pure (result :: results)

def life (opening : Opening) (calls : List (AccessUnit × Answers)) :
    Code (List (Except DecodeError (List DecodedTile))) := do
  new opening
  let results ← decodeAll calls
  drop
  pure results

end MacVnc.Media.HevcDecoder
