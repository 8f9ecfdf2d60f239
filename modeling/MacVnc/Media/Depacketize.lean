import MacVnc.Media.Srtp
import Mathlib
/-!
# HEVC depacketization

The picture assembler of the client (`hp-media/src/depacketize.rs`): packets are
grouped by source and timestamp, held through a repair window, put back in
order, reassembled into NAL units and emitted as access units.

A call returns everything that happened to groups as a list of events, of which
the emitted access units are what the source returns.  A call that would panic
or never return is `none`.  The hash maps are finite maps; where the iteration
order of one decides, it is a parameter.
-/

namespace MacVnc.Media.Depacketize

open MacVnc.Lib.Bytes
open MacVnc.Media.Srtp (RtpPacket slice sub64)

def maxGroups : Nat := 64

def maxGroupBytes : Nat := 8 * 1024 * 1024

def maxPendingBytes : Nat := 32 * 1024 * 1024

def holdMs : Nat := 25

def incompleteIdleMs : Nat := 200

def maxGroupAgeMs : Nat := 1000

def maxCandidatePackets : Nat := 8

def maxCandidateBytes : Nat := 64 * 1024

inductive Counter where
  | packets | markers | avcConfigMarker | avcFuAHeader | fuStart | fuEnd | short
  | sourceHandoff | unknownSource | pendingByteLimit | groupLimit | byteLimit
  | lateTimestamp | missingMarker | sequenceGap
  | reassembleShort | donlShort | apDuringFu | apSizeShort | apSizeInvalid | fuShort
  | fuRestarted | fuDonlChanged | fuMissingStart | singleDuringFu | fuMissingEnd | emptyGroup
  | continuationSlices | noVcl | missingFirstSlice | preKey | keyframes
deriving DecidableEq, Repr

abbrev Nal := List UInt8

structure AccessUnit where
  generation : Nat
  lossEpoch : Nat
  data : List UInt8
  tile : Nat
  pts : Nat
  rtpTimestamp : UInt32
  donl : UInt16
  key : Bool
deriving DecidableEq

abbrev Key := UInt32 × UInt32

structure Group where
  packets : List RtpPacket
  first : Nat
  order : Nat
  bytes : Nat
  marker : Option UInt16
  markerAt : Option Nat
  lastPacket : Nat
deriving DecidableEq

structure SourceObservation where
  packets : Nat
  last : Nat
  donl : Option Bool
  params : List Nal
  prefixPackets : List RtpPacket
  prefixBytes : Nat
deriving DecidableEq

structure Depacketizer where
  tiles : Nat
  sources : List UInt32
  groups : AList fun _ : Key => Group
  first : Option Nat
  nextPts : Nat
  haveKey : Bool
  params : List Nal
  dropped : Nat
  lastTs : AList fun _ : UInt32 => UInt32
  nextGroup : Nat
  counters : Counter → Nat
  observed : AList fun _ : UInt32 => SourceObservation
  generation : Nat
  lossEpoch : Nat

/-- How a group left the depacketizer. -/
inductive Outcome where
  | emitted (unit : AccessUnit)
  | discarded (reason : Counter)
deriving DecidableEq

/-- What a call did: resolve a group, refuse a packet for the byte limits, or
clear the pending groups at a source handoff. -/
inductive Event where
  | resolved (key : Key) (group : Group) (outcome : Outcome)
  | refused (packet : RtpPacket)
  | cleared (groups : List (Key × Group))
deriving DecidableEq

def Event.unit? : Event → Option AccessUnit
  | .resolved _ _ (.emitted unit) => some unit
  | _ => none

structure Selection where
  selected : Bool
  events : List Event
  state : Depacketizer

/-- The access units among the events: what the source returns. -/
def units (events : List Event) : List AccessUnit := events.filterMap Event.unit?

/-- `u64::saturating_add(1)`. -/
def saturatingSucc (n : Nat) : Nat := if n < 2 ^ 64 - 1 then n + 1 else n

def nalKind (nal : Nal) : Option UInt8 := nal[0]?.map fun (b : UInt8) => b >>> 1 &&& 63

/-- `u16::from_be_bytes([b[o], b[o + 1]])`. -/
def be16 (b : List UInt8) (o : Nat) : Option UInt16 :=
  (slice b o (o + 2)).map fun bytes => UInt16.ofNat (ofBigEndian bytes)

def startCode : List UInt8 := [0, 0, 0, 1]

/-- `params.insert(nal, nal)`: the map is the list of its keys in order. -/
def insertParam (params : List Nal) (nal : Nal) : List Nal :=
  if nal ∈ params then params else params.orderedInsert (· ≤ ·) nal

/-- Insert a parameter set while there is room for it. -/
def storeParam (params : List Nal) (nal : Nal) : List Nal :=
  if params.length < 64 then insertParam params nal else params

/-! ## Framing -/

/-- `parse_parameter_ap` on the bytes behind the offset, after `params`. -/
def parseParameterAp : List UInt8 → List Nal → Option (List Nal)
  | [], params => if params = [] then none else some params
  | [_], _ => none
  | hi :: lo :: tail, params =>
      let size := ofBigEndian [hi, lo]
      if size < 2 ∨ tail.length < size then none
      else
        let nal := tail.take size
        if nal.getD 0 0 &&& 128 ≠ 0 ∨ nal.getD 1 0 &&& 7 = 0 then none
        else
          let kind := nal.getD 0 0 >>> 1 &&& 63
          if 32 ≤ kind ∧ kind ≤ 34 then
            if 65536 < size ∨ 64 ≤ params.length then none
            else parseParameterAp (tail.drop size) (params ++ [nal])
          else parseParameterAp (tail.drop size) params
termination_by rest => rest.length
decreasing_by all_goals simp; omega

def splitAggregate : List UInt8 → Except Counter (List Nal)
  | [] => .ok []
  | [_] => .error .apSizeShort
  | hi :: lo :: tail =>
      let n := ofBigEndian [hi, lo]
      if n < 2 ∨ tail.length < n then .error .apSizeInvalid
      else (splitAggregate (tail.drop n)).map fun nals => tail.take n :: nals
termination_by rest => rest.length
decreasing_by simp; omega

/-! ## Reassembly -/

/-- The local variables of `reassemble`. -/
structure Assembly where
  nals : List Nal
  fragment : Option Nal
  fragmentDonl : UInt16
  first : Option UInt16
deriving DecidableEq

namespace Assembly

def empty : Assembly := { nals := [], fragment := none, fragmentDonl := 0, first := none }

/-- One fragmentation unit with header bytes `h0 h1 h2`. -/
def addFragment (a : Assembly) (h0 h1 h2 : UInt8) (donl : UInt16) (piece : List UInt8) :
    Except Counter Assembly :=
  let start : Bool := h2 &&& 128 ≠ 0
  if start = true ∧ a.fragment.isSome = true then .error .fuRestarted
  else
    let header : UInt8 := (h0 &&& 129) ||| ((h2 &&& 63) <<< (1 : UInt8))
    let fragment := if start then some [header, h1] else a.fragment
    let fragmentDonl := if start then donl else a.fragmentDonl
    if fragmentDonl ≠ donl then .error .fuDonlChanged
    else match fragment with
      | none => .error .fuMissingStart
      | some nal =>
          if h2 &&& 64 ≠ 0 then
            .ok { a with nals := a.nals ++ [nal ++ piece], fragment := none, fragmentDonl }
          else .ok { a with fragment := some (nal ++ piece), fragmentDonl }

def add (appleDonl : Bool) (a : Assembly) (b : List UInt8) : Option (Except Counter Assembly) :=
  if b.length < 2 then some (.error .reassembleShort)
  else b[0]?.bind fun (h0 : UInt8) => b[1]?.bind fun (h1 : UInt8) =>
  let kind := h0 >>> 1 &&& 63
  let o := if kind = 49 then 3 else 2
  if appleDonl = true ∧ b.length < o + 2 then some (.error .donlShort)
  else (if appleDonl then be16 b o else some 0).bind fun donl =>
  let a := { a with first := some (a.first.getD donl) }
  let bodyStart := if appleDonl then 4 else 2
  if kind = 48 then
    if a.fragment.isSome = true then some (.error .apDuringFu)
    else some ((splitAggregate (b.drop bodyStart)).map fun nals =>
      { a with nals := a.nals ++ nals })
  else if kind = 49 then
    let payloadStart := if appleDonl then 5 else 3
    if b.length ≤ payloadStart then some (.error .fuShort)
    else b[2]?.bind fun (h2 : UInt8) => (slice b payloadStart b.length).bind fun piece =>
      some (a.addFragment h0 h1 h2 donl piece)
  else if a.fragment.isSome = true then some (.error .singleDuringFu)
  else (slice b bodyStart b.length).bind fun body =>
    some (.ok { a with nals := a.nals ++ [h0 :: h1 :: body] })

def addAll (appleDonl : Bool) (a : Assembly) : List (List UInt8) → Option (Except Counter Assembly)
  | [] => some (.ok a)
  | b :: rest =>
      match a.add appleDonl b with
      | none => none
      | some (.error reason) => some (.error reason)
      | some (.ok a) => a.addAll appleDonl rest

end Assembly

def reassemble (payloads : List (List UInt8)) (appleDonl : Bool) :
    Option (Except Counter (List Nal × UInt16)) :=
  match Assembly.empty.addAll appleDonl payloads with
  | none => none
  | some (.error reason) => some (.error reason)
  | some (.ok a) =>
      if a.fragment.isSome = true then some (.error .fuMissingEnd)
      else match a.first with
        | none => some (.error .emptyGroup)
        | some donl => some (.ok (a.nals, donl))

/-! ## Groups -/

namespace Group

def new (now order : Nat) : Group :=
  { packets := [], first := now, order, bytes := 0, marker := none, markerAt := none,
    lastPacket := now }

def contains (g : Group) (seq : UInt16) : Bool := g.packets.any fun p => p.seq == seq

/-- Store a packet unless its sequence number is there already. -/
def add (g : Group) (p : RtpPacket) (now : Nat) : Group :=
  if g.contains p.seq then g
  else
    { g with
      bytes := g.bytes + p.payload.length
      marker := if p.marker then some p.seq else g.marker
      markerAt := if p.marker then some (g.markerAt.getD now) else g.markerAt
      lastPacket := now
      packets := g.packets ++ [p] }

/-- Whether the repair window of the group is still open. -/
def waits (g : Group) (now : Nat) : Bool :=
  match g.markerAt with
  | some arrived => now - arrived < holdMs
  | none => now - g.lastPacket < incompleteIdleMs && now - g.first < maxGroupAgeMs

end Group

def sortByDistance (last : UInt16) (packets : List RtpPacket) : List RtpPacket :=
  packets.insertionSort fun a b => last - b.seq ≤ last - a.seq

def consecutive : List RtpPacket → Bool
  | a :: b :: rest => b.seq == a.seq + 1 && consecutive (b :: rest)
  | _ => true

/-- What the NAL units of a group add up to. -/
structure Picture where
  data : List UInt8
  keyframe : Bool
  vcl : Bool
  firstSlice : Bool
deriving DecidableEq

def Picture.empty : Picture := { data := [], keyframe := false, vcl := false, firstSlice := false }

def paramsOfKind (params : List Nal) (kind : UInt8) : List UInt8 :=
  (params.filter fun nal => nalKind nal = some kind).flatMap fun nal => startCode ++ nal

/-- The parameter sets that precede a key picture; an empty one would panic. -/
def parameterPrefix (params : List Nal) : Option (List UInt8) :=
  if [] ∈ params then none
  else some (paramsOfKind params 32 ++ paramsOfKind params 33 ++ paramsOfKind params 34)

namespace Depacketizer

def new (tileCount : Nat) : Depacketizer :=
  { tiles := max 1 (min tileCount 16)
    sources := []
    groups := ∅
    first := none
    nextPts := 0
    haveKey := false
    params := []
    dropped := 0
    lastTs := ∅
    nextGroup := 0
    counters := fun _ => 0
    observed := ∅
    generation := 0
    lossEpoch := 0 }

def count (d : Depacketizer) (name : Counter) : Depacketizer :=
  { d with counters := Function.update d.counters name (d.counters name + 1) }

def countIf (d : Depacketizer) (c : Bool) (name : Counter) : Depacketizer :=
  { d with counters := if c then (d.count name).counters else d.counters }

def recordLoss (d : Depacketizer) (reason : Counter) : Depacketizer :=
  { d with dropped := d.dropped + 1, lossEpoch := saturatingSucc d.lossEpoch }.count reason

/-! ## Polling -/

def addNal (d : Depacketizer) (pic : Picture) (nal : Nal) : Option (Depacketizer × Picture) :=
  (nalKind nal).bind fun kind =>
  if 32 ≤ kind ∧ kind ≤ 34 then
    some (if nal.length ≤ 65536 then { d with params := storeParam d.params nal } else d, pic)
  else if 31 < kind ∨ nal.length < 3 then some (d, pic)
  else nal[2]?.bind fun (b : UInt8) =>
  let leading : Bool := b &&& 128 ≠ 0
  some
    (d.countIf (!leading) .continuationSlices,
      { data := pic.data ++ startCode ++ nal
        keyframe := pic.keyframe || (16 ≤ kind && kind ≤ 21)
        vcl := true
        firstSlice := pic.firstSlice || leading })

def addNals (d : Depacketizer) (pic : Picture) : List Nal → Option (Depacketizer × Picture)
  | [] => some (d, pic)
  | nal :: rest =>
      match d.addNal pic nal with
      | none => none
      | some (d, pic) => d.addNals pic rest

def lose (d : Depacketizer) (reason : Counter) : Outcome × Depacketizer :=
  (.discarded reason, d.recordLoss reason)

/-- The end of the loop body of `poll`: the tests on the picture, then its unit. -/
def finish (d : Depacketizer) (key : Key) (donl : UInt16) (pic : Picture) :
    Option (Outcome × Depacketizer) :=
  if pic.vcl = false then some (.discarded .noVcl, d.count .noVcl)
  else if pic.firstSlice = false then some (d.lose .missingFirstSlice)
  else if d.haveKey = false ∧ pic.keyframe = false then
    some (.discarded .preKey, d.count .preKey)
  else
    (if pic.keyframe then (parameterPrefix d.params).map fun pref => pref ++ pic.data
      else some pic.data).bind fun data =>
    (d.sources.idxOf? key.1).bind fun tile =>
    some
      (.emitted
        { generation := d.generation
          lossEpoch := d.lossEpoch
          data
          tile
          pts := d.nextPts
          rtpTimestamp := key.2
          donl
          key := pic.keyframe },
        { d.countIf pic.keyframe .keyframes with
          haveKey := d.haveKey || pic.keyframe
          nextPts := d.nextPts + 1
          lastTs := d.lastTs.insert key.1 key.2 })

/-- The framing in force for a source: Apple's unless inferred otherwise. -/
def appleDonl (d : Depacketizer) (ssrc : UInt32) : Bool :=
  ((d.observed.lookup ssrc).bind SourceObservation.donl).getD true

def resolve (d : Depacketizer) (key : Key) (g : Group) : Option (Outcome × Depacketizer) :=
  match g.marker with
  | none => some (d.lose .missingMarker)
  | some last =>
      let packets := sortByDistance last g.packets
      if consecutive packets = false then some (d.lose .sequenceGap)
      else
        match reassemble (packets.map RtpPacket.payload) (d.appleDonl key.1) with
        | none => none
        | some (.error reason) => some (d.lose reason)
        | some (.ok (nals, donl)) =>
            match d.addNals Picture.empty nals with
            | none => none
            | some (d, pic) => d.finish key donl pic

/-- Whether a timestamp is not newer than the last one emitted for the source. -/
def late (d : Depacketizer) (key : Key) : Bool :=
  (d.lastTs.lookup key.1).any fun ts => (key.2 - ts).toBitVec.toInt ≤ 0

def removeGroup (d : Depacketizer) (key : Key) : Depacketizer :=
  { d with groups := d.groups.erase key }

def pollLoop (d : Depacketizer) (now : Nat) : List Key → Option (List Event × Depacketizer)
  | [] => some ([], d)
  | key :: keys =>
      match d.groups.lookup key with
      | none => none
      | some g =>
          if d.late key then
            let d := { d.removeGroup key with dropped := d.dropped + 1 }.count .lateTimestamp
            (d.pollLoop now keys).map fun (events, d) =>
              (.resolved key g (.discarded .lateTimestamp) :: events, d)
          else if g.waits now then some ([], d)
          else match (d.removeGroup key).resolve key g with
            | none => none
            | some (outcome, d) =>
                (d.pollLoop now keys).map fun (events, d) =>
                  (.resolved key g outcome :: events, d)

def keysByOrder (d : Depacketizer) : List Key :=
  (d.groups.entries.insertionSort fun a b => a.2.order ≤ b.2.order).map Sigma.fst

def poll (d : Depacketizer) (now : Nat) : Option (List Event × Depacketizer) :=
  if d.sources.length < d.tiles ∧ now - d.first.getD now < 750 then some ([], d)
  else d.pollLoop now d.keysByOrder

/-! ## Pushing -/

def countHeader (d : Depacketizer) (p : RtpPacket) : Depacketizer :=
  let d := d.count .packets
  let d := d.countIf p.marker .markers
  let d := d.countIf (p.payload.head? == some 0x92) .avcConfigMarker
  let d := d.countIf (p.payload.head?.any fun b => b &&& 31 == 28) .avcFuAHeader
  match p.payload with
  | b0 :: _ :: b2 :: _ =>
      let fu : Bool := b0 >>> 1 &&& 63 = 49
      (d.countIf (fu && b2 &&& 128 != 0) .fuStart).countIf (fu && b2 &&& 64 != 0) .fuEnd
  | _ => d

/-- Infer the framing of a source from a fully valid parameter-set aggregate. -/
def inferFraming (s : SourceObservation) (payload : List UInt8) : SourceObservation :=
  match parseParameterAp (payload.drop 4) [], parseParameterAp (payload.drop 2) [] with
  | some params, none => { s with donl := some true, params }
  | none, some params => { s with donl := some false, params }
  | _, _ => s

def unobserved : SourceObservation :=
  { packets := 0, last := 0, donl := none, params := [], prefixPackets := [], prefixBytes := 0 }

/-- Record the packet in its source's observation, for at most 32 sources. -/
def observe (d : Depacketizer) (p : RtpPacket) (now : Nat) : Option Depacketizer :=
  if (d.observed.lookup p.ssrc).isSome = true ∨ d.observed.keys.length < 32 then
    let s := (d.observed.lookup p.ssrc).getD unobserved
    let s := { s with packets := s.packets + 1, last := now }
    (nalKind p.payload).bind fun kind =>
    let s := if kind = 48 then inferFraming s p.payload else s
    some { d with observed := d.observed.insert p.ssrc s }
  else some d

/-- Whether the active source has gone quiet and the new one has shown enough. -/
def handoffDue (d : Depacketizer) (p : RtpPacket) (now : Nat) : Option Bool :=
  if d.tiles = 1 then
    d.sources[0]?.map fun active =>
      (d.observed.lookup active).any (fun s => 100 ≤ now - s.last) &&
        (d.observed.lookup p.ssrc).any fun s => 8 ≤ s.packets
  else some false

/-- Drop the oldest candidates until one of `size` bytes fits; an empty queue
that never fits would loop for ever. -/
def evictPrefix (size : Nat) : List RtpPacket → Nat → Option (List RtpPacket × Nat)
  | [], bytes => if maxCandidateBytes < bytes + size then none else some ([], bytes)
  | old :: rest, bytes =>
      if maxCandidatePackets ≤ (old :: rest).length ∨ maxCandidateBytes < bytes + size then
        (sub64 bytes old.payload.length).bind (evictPrefix size rest)
      else some (old :: rest, bytes)

/-- Keep a packet of an unselected source as evidence for a later handoff. -/
def hold (d : Depacketizer) (p : RtpPacket) : Option Depacketizer :=
  let d := d.count .unknownSource
  if d.tiles = 1 ∧ p.payload.length ≤ maxCandidateBytes then
    match d.observed.lookup p.ssrc with
    | none => some d
    | some s =>
        (evictPrefix p.payload.length s.prefixPackets s.prefixBytes).map fun (held, bytes) =>
          { d with
            observed := d.observed.insert p.ssrc
              { s with
                prefixPackets := held ++ [p]
                prefixBytes := bytes + p.payload.length } }
  else some d

/-- Make `ssrc` the only source of a new generation. -/
def handoff (d : Depacketizer) (ssrc : UInt32) : Depacketizer :=
  { d with
    generation := saturatingSucc d.generation
    sources := [ssrc]
    groups := ∅
    params := []
    haveKey := false
    lastTs := ∅
    dropped := d.dropped + 1 }.count .sourceHandoff

def select (d : Depacketizer) (p : RtpPacket) (now : Nat) : Option Selection :=
  if p.ssrc ∈ d.sources then some { selected := true, events := [], state := d }
  else if d.tiles ≤ d.sources.length then
    (d.handoffDue p now).bind fun replace =>
    if replace then some
      { selected := true
        events := [.cleared (d.groups.entries.map fun e => (e.1, e.2))]
        state := d.handoff p.ssrc }
    else (d.hold p).map fun state => { selected := false, events := [], state }
  else some
    { selected := true
      events := []
      state := { d with sources := (d.sources ++ [p.ssrc]).insertionSort (· ≤ ·) } }

def takePrefix (d : Depacketizer) (ssrc : UInt32) : List RtpPacket × Depacketizer :=
  match d.observed.lookup ssrc with
  | none => ([], d)
  | some s =>
      (s.prefixPackets,
        { d with
          observed := d.observed.insert ssrc { s with prefixPackets := [], prefixBytes := 0 } })

/-- Store the parameter sets observed for a source while there is room, and the
time of the first packet. -/
def prepare (d : Depacketizer) (ssrc : UInt32) (now : Nat) : Depacketizer :=
  let observed := ((d.observed.lookup ssrc).map SourceObservation.params).getD []
  { d with params := observed.foldl storeParam d.params, first := some (d.first.getD now) }

def pendingBytes (d : Depacketizer) : Nat := (d.groups.entries.map fun e => e.2.bytes).sum

def oldest (d : Depacketizer) : List (Sigma fun _ : Key => Group) :=
  d.groups.entries.filter fun e => d.groups.entries.all fun other => e.2.first ≤ other.2.first

/-- Evict an oldest group; among equals, `hint` when it is one of them. -/
def evictGroup (d : Depacketizer) (hint : Key) : List Event × Depacketizer :=
  match (d.oldest.find? fun e => e.1 = hint).or d.oldest.head? with
  | none => ([], d)
  | some e =>
      ([.resolved e.1 e.2 (.discarded .groupLimit)],
        (d.removeGroup e.1).recordLoss .groupLimit)

/-- Put a packet into its group, which is dropped when it grows too large. -/
def insertPacket (d : Depacketizer) (p : RtpPacket) (now : Nat) : List Event × Depacketizer :=
  let key : Key := (p.ssrc, p.timestamp)
  let g := ((d.groups.lookup key).getD (Group.new now d.nextGroup)).add p now
  let d := { d with nextGroup := d.nextGroup + 1 }
  if maxGroupBytes < g.bytes ∨ 8192 < g.packets.length then
    ([.resolved key g (.discarded .byteLimit)], (d.removeGroup key).recordLoss .byteLimit)
  else ([], { d with groups := d.groups.insert key g })

/-- `push_selected` before its poll: refuse the packet, or make room for its group
and put it there.  `tieBreak n` is the key that the hash map would meet first among
groups of equal age at stamp `n`. -/
def place (tieBreak : Nat → Key) (d : Depacketizer) (p : RtpPacket) (now : Nat) :
    List Event × Depacketizer :=
  let group := d.groups.lookup (p.ssrc, p.timestamp)
  let size := p.payload.length
  if ¬group.any (fun g => g.contains p.seq) = true ∧
      (maxGroupBytes < size ∨ maxPendingBytes < d.pendingBytes + size) then
    ([.refused p], d.recordLoss .pendingByteLimit)
  else
    let (evicted, d) :=
      if group = none ∧ maxGroups ≤ d.groups.keys.length then
        d.evictGroup (tieBreak d.nextGroup)
      else ([], d)
    let (inserted, d) := d.insertPacket p now
    (evicted ++ inserted, d)

def pushSelected (tieBreak : Nat → Key) (d : Depacketizer) (p : RtpPacket) (now : Nat) :
    Option (List Event × Depacketizer) :=
  let (placed, d) := (d.prepare p.ssrc now).place tieBreak p now
  (d.poll now).map fun (events, d) => (placed ++ events, d)

def pushAll (tieBreak : Nat → Key) (d : Depacketizer) (now : Nat) :
    List RtpPacket → Option (List Event × Depacketizer)
  | [] => some ([], d)
  | p :: rest =>
      match d.pushSelected tieBreak p now with
      | none => none
      | some (events, d) =>
          (d.pushAll tieBreak now rest).map fun (later, d) => (events ++ later, d)

def push (tieBreak : Nat → Key) (d : Depacketizer) (p : RtpPacket) (now : Nat) :
    Option (List Event × Depacketizer) :=
  let d := d.countHeader p
  if p.payload.length < 2 then (d.count .short).poll now
  else (d.observe p now).bind fun d => (d.select p now).bind fun s =>
  if s.selected then
    let (prior, d) := s.state.takePrefix p.ssrc
    (d.pushAll tieBreak now (prior ++ [p])).map fun (events, d) => (s.events ++ events, d)
  else (s.state.poll now).map fun (events, d) => (s.events ++ events, d)

end Depacketizer

/-! ## Runs -/

inductive Op where
  | push (p : RtpPacket) (now : Nat)
  | poll (now : Nat)
deriving DecidableEq

def Depacketizer.step (tieBreak : Nat → Key) (d : Depacketizer) :
    Op → Option (List Event × Depacketizer)
  | .push p now => d.push tieBreak p now
  | .poll now => d.poll now

def Depacketizer.run (tieBreak : Nat → Key) (d : Depacketizer) :
    List Op → Option (List Event × Depacketizer)
  | [] => some ([], d)
  | op :: ops =>
      match d.step tieBreak op with
      | none => none
      | some (events, d) =>
          (d.run tieBreak ops).map fun (later, d) => (events ++ later, d)

end MacVnc.Media.Depacketize
