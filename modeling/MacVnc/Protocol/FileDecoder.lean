import MacVnc.Protocol.FileTransfer
/-!
# The file message decoder

Reassembly of length-delimited file messages across authenticated records
(`hp-protocol/src/file_transfer.rs`).  Other control data behind the messages is
returned as it is.  However the encoded messages are cut into record bodies,
the decoder returns them in order and ends with nothing pending.
-/

namespace MacVnc.Protocol.FileDecoder

open MacVnc.Lib.Bytes
open MacVnc.Protocol.FileTransfer

def maxMessageBytes : Nat := 1024 * 1024

inductive FeedError where
  | backlogTooLarge
  | unsupportedSubtype
  | invalidLength
  | unsupportedVersion
deriving DecidableEq, Repr

/-- What a call of `feed` returns. -/
structure Fed where
  messages : List Message
  other : Option (List UInt8)
deriving DecidableEq

structure Decoder where
  pending : List UInt8
deriving DecidableEq

def readAt (bytes : List UInt8) (off width : Nat) : Nat :=
  ofBigEndian ((bytes.drop off).take width)

/-- The loop of `feed` on the unread bytes, after `messages`, with the bytes it
leaves pending. -/
def scan (rest : List UInt8) (messages : List Message) : Except FeedError (Fed × List UInt8) :=
  if rest = [] then .ok ({ messages, other := none }, [])
  else if rest.head? ≠ some 0x22 then .ok ({ messages, other := some rest }, [])
  else if rest.length < 6 then .ok ({ messages, other := none }, rest)
  else if rest.getD 1 0 ≠ 0 ∧ rest.getD 1 0 ≠ 2 then .error .unsupportedSubtype
  else
    let len := readAt rest 2 4
    if len < 12 ∨ maxMessageBytes - 6 < len then .error .invalidLength
    else if rest.length < 6 + len then .ok ({ messages, other := none }, rest)
    else if readAt rest 6 2 ≠ 1 then .error .unsupportedVersion
    else
      let m : Message :=
        { kind := UInt16.ofNat (readAt rest 8 2)
          session := UInt32.ofNat (readAt rest 10 4)
          argument := UInt32.ofNat (readAt rest 14 4)
          payload := (rest.drop 18).take (len - 12) }
      scan (rest.drop (6 + len)) (messages ++ [m])
termination_by rest.length
decreasing_by
  have := List.length_pos_of_ne_nil ‹rest ≠ []›
  rw [List.length_drop]
  omega

namespace Decoder

def new : Decoder := { pending := [] }

def feed (d : Decoder) (body : List UInt8) : Except FeedError Fed × Decoder :=
  if d.pending = [] ∧ body.head? ≠ some 0x22 then (.ok { messages := [], other := some body }, d)
  else if maxMessageBytes + 65520 < d.pending.length + body.length then
    (.error .backlogTooLarge, d)
  else
    let pending := d.pending ++ body
    match scan pending [] with
    | .error e => (.error e, { pending })
    | .ok (fed, pending) => (.ok fed, { pending })

def feedAll (d : Decoder) : List (List UInt8) → Except FeedError (List Fed × Decoder)
  | [] => .ok ([], d)
  | body :: bodies =>
      match d.feed body with
      | (.error e, _) => .error e
      | (.ok fed, d) => (d.feedAll bodies).map fun (later, d) => (fed :: later, d)

end Decoder

/-! ## Frames -/

structure Frame where
  subtype : UInt8
  message : Message
  known : subtype = 0 ∨ subtype = 2
  size : message.payload.length ≤ maxMessageBytes - 18

namespace Frame

def bytes (f : Frame) : List UInt8 := f.message.encode f.subtype

def stream (frames : List Frame) : List UInt8 := frames.flatMap bytes

theorem stream_cons (f : Frame) (frames : List Frame) :
    stream (f :: frames) = f.bytes ++ stream frames := rfl

theorem stream_append (first second : List Frame) :
    stream (first ++ second) = stream first ++ stream second := List.flatMap_append

theorem length_bytes (f : Frame) : f.bytes.length = 18 + f.message.payload.length := by
  simp [bytes, Message.encode]
  omega

theorem bytes_ne_nil (f : Frame) : f.bytes ≠ [] := by
  have := f.length_bytes
  intro hnil
  rw [hnil] at this
  simp at this
  omega

theorem head_bytes (f : Frame) : f.bytes.head? = some 0x22 := rfl

theorem subtype_bytes (f : Frame) : f.bytes.getD 1 0 = f.subtype := rfl

theorem readAt_append (front field back : List UInt8) {off width : Nat}
    (hfront : front.length = off) (hfield : field.length = width) :
    readAt (front ++ (field ++ back)) off width = ofBigEndian field := by
  rw [readAt, ← hfront, List.drop_left, ← hfield, List.take_left]

variable (f : Frame) (tail : List UInt8)

theorem readAt_length : readAt (f.bytes ++ tail) 2 4 = 12 + f.message.payload.length := by
  have hsize := f.size
  have hread := readAt_append [0x22, f.subtype] (toBigEndian 4 (12 + f.message.payload.length))
    (toBigEndian 2 1 ++ toBigEndian 2 f.message.kind.toNat ++
      toBigEndian 4 f.message.session.toNat ++ toBigEndian 4 f.message.argument.toNat ++
      f.message.payload ++ tail) rfl (length_toBigEndian _ _)
  rw [ofBigEndian_toBigEndian (by unfold maxMessageBytes at hsize; omega)] at hread
  rw [← hread]
  simp [bytes, Message.encode]

theorem readAt_version : readAt (f.bytes ++ tail) 6 2 = 1 := by
  have hread := readAt_append ([0x22, f.subtype] ++ toBigEndian 4 (12 + f.message.payload.length))
    (toBigEndian 2 1) (toBigEndian 2 f.message.kind.toNat ++
      toBigEndian 4 f.message.session.toNat ++ toBigEndian 4 f.message.argument.toNat ++
      f.message.payload ++ tail) rfl (length_toBigEndian _ _)
  rw [ofBigEndian_toBigEndian (by omega)] at hread
  rw [← hread]
  simp [bytes, Message.encode]

theorem readAt_kind : readAt (f.bytes ++ tail) 8 2 = f.message.kind.toNat := by
  have hkind := f.message.kind.toNat_lt
  have hread := readAt_append ([0x22, f.subtype] ++ toBigEndian 4 (12 + f.message.payload.length) ++
      toBigEndian 2 1) (toBigEndian 2 f.message.kind.toNat)
    (toBigEndian 4 f.message.session.toNat ++ toBigEndian 4 f.message.argument.toNat ++
      f.message.payload ++ tail) rfl (length_toBigEndian _ _)
  rw [ofBigEndian_toBigEndian (by omega)] at hread
  rw [← hread]
  simp [bytes, Message.encode]

theorem readAt_session : readAt (f.bytes ++ tail) 10 4 = f.message.session.toNat := by
  have hsession := f.message.session.toNat_lt
  have hread := readAt_append ([0x22, f.subtype] ++ toBigEndian 4 (12 + f.message.payload.length) ++
      toBigEndian 2 1 ++ toBigEndian 2 f.message.kind.toNat)
    (toBigEndian 4 f.message.session.toNat)
    (toBigEndian 4 f.message.argument.toNat ++ f.message.payload ++ tail) rfl
    (length_toBigEndian _ _)
  rw [ofBigEndian_toBigEndian (by omega)] at hread
  rw [← hread]
  simp [bytes, Message.encode]

theorem readAt_argument : readAt (f.bytes ++ tail) 14 4 = f.message.argument.toNat := by
  have hargument := f.message.argument.toNat_lt
  have hread := readAt_append ([0x22, f.subtype] ++ toBigEndian 4 (12 + f.message.payload.length) ++
      toBigEndian 2 1 ++ toBigEndian 2 f.message.kind.toNat ++
      toBigEndian 4 f.message.session.toNat)
    (toBigEndian 4 f.message.argument.toNat) (f.message.payload ++ tail) rfl
    (length_toBigEndian _ _)
  rw [ofBigEndian_toBigEndian (by omega)] at hread
  rw [← hread]
  simp [bytes, Message.encode]

theorem drop_header : (f.bytes ++ tail).drop 18 = f.message.payload ++ tail := by
  have hheader : ([0x22, f.subtype] ++ toBigEndian 4 (12 + f.message.payload.length) ++
      toBigEndian 2 1 ++ toBigEndian 2 f.message.kind.toNat ++
      toBigEndian 4 f.message.session.toNat ++ toBigEndian 4 f.message.argument.toNat).length =
      18 := by
    simp
  rw [bytes, Message.encode, List.append_assoc, List.drop_append_of_le_length (by omega),
    List.drop_eq_nil_of_le (by omega), List.nil_append]

end Frame

/-! ## Scanning -/

theorem scan_nil (messages : List Message) :
    scan [] messages = .ok ({ messages, other := none }, []) := by
  rw [scan.eq_def]
  exact if_pos rfl

/-- A whole frame is decoded and the loop goes on behind it. -/
theorem scan_frame (f : Frame) (rest : List UInt8) (messages : List Message) :
    scan (f.bytes ++ rest) messages = scan rest (messages ++ [f.message]) := by
  have hsize := f.size
  have hlength := f.length_bytes
  have htotal : (f.bytes ++ rest).length = 18 + f.message.payload.length + rest.length := by
    rw [List.length_append, hlength]
  have hsubtype : (f.bytes ++ rest).getD 1 0 = f.subtype := rfl
  have hlen := f.readAt_length rest
  have hdrop : (f.bytes ++ rest).drop (6 + (12 + f.message.payload.length)) = rest := by
    rw [List.drop_append_of_le_length (by omega), List.drop_eq_nil_of_le (by omega),
      List.nil_append]
  have hpayload : ((f.bytes ++ rest).drop 18).take (12 + f.message.payload.length - 12) =
      f.message.payload := by
    rw [f.drop_header rest, Nat.add_sub_cancel_left, List.take_left]
  have hmessage : ({ kind := UInt16.ofNat f.message.kind.toNat
                     session := UInt32.ofNat f.message.session.toNat
                     argument := UInt32.ofNat f.message.argument.toNat
                     payload := f.message.payload } : Message) = f.message := by
    simp
  rw [scan.eq_def, if_neg (by simp [f.bytes_ne_nil]), if_neg (by simp [f.head_bytes]),
    if_neg (by omega), hsubtype, if_neg (by rcases f.known with h | h <;> simp [h])]
  dsimp only
  rw [hlen, if_neg (by unfold maxMessageBytes at hsize ⊢; omega), if_neg (by omega),
    f.readAt_version rest, if_neg (by simp), hdrop, hpayload, f.readAt_kind rest,
    f.readAt_session rest, f.readAt_argument rest, hmessage]

theorem scan_incomplete {f : Frame} {front back : List UInt8} (h : f.bytes = front ++ back)
    (hfront : front ≠ []) (hback : back ≠ []) (messages : List Message) :
    scan front messages = .ok ({ messages, other := none }, front) := by
  have hlength := f.length_bytes
  rw [h, List.length_append] at hlength
  have hmore := List.length_pos_of_ne_nil hback
  have hsize := f.size
  have hhead : front.head? = some 0x22 := by
    have hhead := f.head_bytes
    rwa [h, List.head?_append_of_ne_nil _ hfront] at hhead
  rw [scan.eq_def, if_neg hfront, if_neg (not_not.2 hhead)]
  by_cases hshort : front.length < 6
  · rw [if_pos hshort]
  rw [if_neg hshort]
  have hsubtype : front.getD 1 0 = f.subtype := by
    rw [← f.subtype_bytes, h, List.getD_eq_getElem?_getD, List.getD_eq_getElem?_getD,
      List.getElem?_append_left (by omega)]
  have hlen : readAt front 2 4 = 12 + f.message.payload.length := by
    have hread := f.readAt_length []
    rw [List.append_nil, h, readAt, List.drop_append_of_le_length (by omega),
      List.take_append_of_le_length (by rw [List.length_drop]; omega)] at hread
    exact hread
  rw [hsubtype, if_neg (by rcases f.known with hk | hk <;> simp [hk])]
  dsimp only
  rw [hlen, if_neg (by unfold maxMessageBytes at hsize ⊢; omega), if_pos (by omega)]

theorem scan_other {tail : List UInt8} (htail : tail ≠ []) (hhead : tail.head? ≠ some 0x22)
    (messages : List Message) :
    scan tail messages = .ok ({ messages, other := some tail }, []) := by
  rw [scan.eq_def, if_neg htail, if_pos hhead]

def otherData (tail : List UInt8) : Option (List UInt8) := if tail = [] then none else some tail

/-- All frames and the control data behind them. -/
theorem scan_all (frames : List Frame) {tail : List UInt8} (hhead : tail.head? ≠ some 0x22)
    (messages : List Message) :
    scan (Frame.stream frames ++ tail) messages =
      .ok ({ messages := messages ++ frames.map Frame.message, other := otherData tail }, []) := by
  induction frames generalizing messages with
  | nil =>
      rw [List.map_nil, List.append_nil]
      by_cases htail : tail = []
      · rw [htail]
        exact scan_nil messages
      · rw [otherData, if_neg htail]
        exact scan_other htail hhead messages
  | cons f frames ih =>
      rw [Frame.stream_cons, List.append_assoc, scan_frame, ih, List.append_assoc]
      rfl

/-- What the decoder holds between two calls: nothing, or the beginning of the next frame. -/
def Begins (pending : List UInt8) (frames : List Frame) : Prop :=
  pending = [] ∨ ∃ f rest back, frames = f :: rest ∧ back ≠ [] ∧ f.bytes = pending ++ back

theorem Begins.length_lt {pending : List UInt8} {frames : List Frame} (h : Begins pending frames) :
    pending.length < maxMessageBytes := by
  rcases h with rfl | ⟨f, rest, back, _, hback, hbytes⟩
  · decide
  · have hlength := f.length_bytes
    have hsize := f.size
    have hmore := List.length_pos_of_ne_nil hback
    rw [hbytes, List.length_append] at hlength
    unfold maxMessageBytes at hsize ⊢
    omega

/-- The frames that a prefix of the stream completes are decoded, and the beginning
of the next one stays pending. -/
theorem scan_prefix {frames : List Frame} {front back : List UInt8}
    (h : Frame.stream frames = front ++ back) (messages : List Message) :
    ∃ done rest pending, frames = done ++ rest ∧ front = Frame.stream done ++ pending ∧
      Begins pending rest ∧
      scan front messages =
        .ok ({ messages := messages ++ done.map Frame.message, other := none }, pending) := by
  induction frames generalizing front messages with
  | nil =>
      obtain ⟨rfl, rfl⟩ := List.append_eq_nil_iff.1 h.symm
      refine ⟨[], [], [], rfl, rfl, Or.inl rfl, ?_⟩
      rw [List.map_nil, List.append_nil]
      exact scan_nil messages
  | cons f frames ih =>
      have hstream : f.bytes ++ Frame.stream frames = front ++ back := by
        rw [← h, Frame.stream_cons]
      rcases List.append_eq_append_iff.1 hstream with ⟨later, rfl, hlater⟩ | ⟨missing, hbytes, _⟩
      · obtain ⟨done, rest, pending, rfl, rfl, hbegins, hscan⟩ :=
          ih hlater (messages ++ [f.message])
        refine ⟨f :: done, rest, pending, rfl, ?_, hbegins, ?_⟩
        · rw [Frame.stream_cons, List.append_assoc]
        · rw [scan_frame, hscan, List.append_assoc]
          rfl
      · by_cases hnone : front = []
        · subst hnone
          refine ⟨[], f :: frames, [], rfl, rfl, Or.inl rfl, ?_⟩
          rw [List.map_nil, List.append_nil]
          exact scan_nil messages
        · by_cases hwhole : missing = []
          · rw [hwhole, List.append_nil] at hbytes
            have hfront : front = f.bytes ++ [] := by rw [List.append_nil, hbytes]
            refine ⟨[f], frames, [], rfl, ?_, Or.inl rfl, ?_⟩
            · rw [hfront, Frame.stream_cons, List.append_assoc]
              rfl
            · rw [hfront, scan_frame]
              exact scan_nil _
          · refine ⟨[], f :: frames, front, rfl, rfl,
              Or.inr ⟨f, frames, missing, rfl, hwhole, hbytes⟩, ?_⟩
            rw [scan_incomplete hbytes hnone hwhole, List.map_nil, List.append_nil]

/-! ## Feeding -/

theorem feed_eq_scan {pending body : List UInt8} (hbody : pending = [] → body ≠ [])
    (hbacklog : pending.length + body.length ≤ maxMessageBytes + 65520) {fed : Fed}
    {left : List UInt8} (hscan : scan (pending ++ body) [] = .ok (fed, left)) :
    ({ pending } : Decoder).feed body = (.ok fed, { pending := left }) := by
  unfold Decoder.feed
  by_cases hother : pending = [] ∧ body.head? ≠ some 0x22
  · obtain ⟨rfl, hhead⟩ := hother
    rw [List.nil_append, scan_other (hbody rfl) hhead, Except.ok.injEq, Prod.mk.injEq] at hscan
    rw [if_pos ⟨rfl, hhead⟩, ← hscan.1, ← hscan.2]
  · rw [if_neg hother]
    dsimp only
    rw [if_neg (by omega), hscan]

/-- What the calls returned besides messages: the control data with the last one. -/
structure Others (feds : List Fed) (tail : List UInt8) : Prop where
  absent : tail = [] → ∀ fed ∈ feds, fed.other = none
  last : tail ≠ [] → ∃ earlier final, feds = earlier ++ [final] ∧ final.other = some tail ∧
    ∀ fed ∈ earlier, fed.other = none

theorem others_singleton (messages : List Message) (tail : List UInt8) :
    Others [{ messages, other := otherData tail }] tail where
  absent htail fed hfed := by
    rw [List.mem_singleton.1 hfed]
    exact if_pos htail
  last htail := ⟨[], _, rfl, if_neg htail, fun fed hfed => by cases hfed⟩

theorem Others.cons {feds : List Fed} {tail : List UInt8} (h : Others feds tail) {fed : Fed}
    (hfed : fed.other = none) : Others (fed :: feds) tail where
  absent htail := List.forall_mem_cons.2 ⟨hfed, h.absent htail⟩
  last htail := by
    obtain ⟨earlier, final, rfl, hfinal, hnone⟩ := h.last htail
    exact ⟨fed :: earlier, final, rfl, hfinal, List.forall_mem_cons.2 ⟨hfed, hnone⟩⟩

/-- A cutting of what is left of the stream: bodies of records, empty only inside a
message, with the control data in one piece. -/
structure Cutting (pending : List UInt8) (frames : List Frame) (tail : List UInt8)
    (bodies : List (List UInt8)) : Prop where
  whole : pending ++ bodies.flatten = Frame.stream frames ++ tail
  size : ∀ body ∈ bodies, body.length ≤ 65498
  inside : ∀ before after, bodies = before ++ [] :: after →
    ∀ count, pending ++ before.flatten ≠ Frame.stream (frames.take count)
  uncut : tail ≠ [] → ∃ front last, bodies = front ++ [last] ∧ tail <:+ last

theorem Cutting.body_ne_nil {frames : List Frame} {tail body : List UInt8}
    {bodies : List (List UInt8)} {pending : List UInt8}
    (h : Cutting pending frames tail (body :: bodies)) (hpending : pending = []) : body ≠ [] := by
  rintro rfl
  have hinside := h.inside [] bodies rfl 0
  rw [hpending] at hinside
  exact hinside rfl

theorem Cutting.before {pending body : List UInt8} {frames : List Frame} {tail : List UInt8}
    {bodies : List (List UInt8)} (h : Cutting pending frames tail (body :: bodies))
    (hmore : bodies ≠ []) :
    ∃ back, Frame.stream frames = (pending ++ body) ++ back ∧ bodies.flatten = back ++ tail := by
  have hwhole := h.whole
  rw [List.flatten_cons, ← List.append_assoc] at hwhole
  obtain ⟨back, hback⟩ : ∃ back, bodies.flatten = back ++ tail := by
    by_cases htail : tail = []
    · exact ⟨bodies.flatten, by rw [htail, List.append_nil]⟩
    · obtain ⟨front, last, hbodies, lead, hlast⟩ := h.uncut htail
      cases front with
      | nil =>
          rw [List.nil_append, List.cons.injEq] at hbodies
          exact absurd hbodies.2 hmore
      | cons head front =>
          rw [List.cons_append, List.cons.injEq] at hbodies
          refine ⟨front.flatten ++ lead, ?_⟩
          rw [hbodies.2, List.flatten_append, List.append_assoc, hlast, List.flatten_cons,
            List.flatten_nil, List.append_nil]
  rw [hback, ← List.append_assoc] at hwhole
  exact ⟨back, (List.append_cancel_right hwhole).symm, hback⟩

theorem Cutting.rest {pending body left : List UInt8} {done rest : List Frame}
    {tail : List UInt8} {bodies : List (List UInt8)}
    (h : Cutting pending (done ++ rest) tail (body :: bodies)) (hmore : bodies ≠ [])
    (hleft : pending ++ body = Frame.stream done ++ left) : Cutting left rest tail bodies where
  whole := by
    have hwhole := h.whole
    rw [List.flatten_cons, ← List.append_assoc, hleft, Frame.stream_append, List.append_assoc,
      List.append_assoc] at hwhole
    exact List.append_cancel_left hwhole
  size other hother := h.size other (List.mem_cons_of_mem _ hother)
  inside before after hsplit count := by
    intro hwhole
    apply h.inside (body :: before) after (by rw [hsplit, List.cons_append]) (done.length + count)
    rw [List.flatten_cons, ← List.append_assoc, hleft, List.append_assoc, hwhole,
      List.take_length_add_append, Frame.stream_append]
  uncut htail := by
    obtain ⟨front, last, hbodies, hlast⟩ := h.uncut htail
    cases front with
    | nil =>
        rw [List.nil_append, List.cons.injEq] at hbodies
        exact absurd hbodies.2 hmore
    | cons head front =>
        rw [List.cons_append, List.cons.injEq] at hbodies
        exact ⟨front, last, hbodies.2, hlast⟩

theorem feedAll_cutting {pending : List UInt8} {frames : List Frame} {tail : List UInt8}
    {bodies : List (List UInt8)} (h : Cutting pending frames tail bodies)
    (hbegins : Begins pending frames) (hhead : tail.head? ≠ some 0x22) :
    ∃ feds, ({ pending } : Decoder).feedAll bodies = .ok (feds, .new) ∧
      feds.flatMap Fed.messages = frames.map Frame.message ∧ Others feds tail := by
  induction bodies generalizing pending frames with
  | nil =>
      have hwhole := h.whole
      rw [List.flatten_nil, List.append_nil] at hwhole
      have htail : tail = [] := by
        by_contra hne
        obtain ⟨front, last, hbodies, _⟩ := h.uncut hne
        cases front <;> cases hbodies
      rw [htail, List.append_nil] at hwhole
      rcases hbegins with rfl | ⟨f, rest, back, rfl, hback, hbytes⟩
      · cases frames with
        | nil =>
            rw [htail]
            exact ⟨[], rfl, rfl, fun _ => List.forall_mem_nil _, fun hne => absurd rfl hne⟩
        | cons f frames =>
            rw [Frame.stream_cons] at hwhole
            exact absurd (List.append_eq_nil_iff.1 hwhole.symm).1 f.bytes_ne_nil
      · have hlength := congrArg List.length hwhole
        have hpos := List.length_pos_of_ne_nil hback
        rw [Frame.stream_cons, hbytes, List.length_append, List.length_append] at hlength
        omega
  | cons body bodies ih =>
      have hpending := hbegins.length_lt
      have hbody := h.size body (by simp)
      by_cases hmore : bodies = []
      · have hwhole := h.whole
        rw [hmore, List.flatten_cons, List.flatten_nil, List.append_nil] at hwhole
        have hscan := scan_all frames hhead []
        rw [← hwhole] at hscan
        have hfeed := feed_eq_scan h.body_ne_nil (by omega) hscan
        rw [hmore]
        unfold Decoder.feedAll
        rw [hfeed]
        exact ⟨_, rfl, by simp, others_singleton _ tail⟩
      · obtain ⟨back, hstream, _⟩ := h.before hmore
        obtain ⟨done, rest, left, rfl, hleft, hbegins', hscan⟩ := scan_prefix hstream []
        have hfeed := feed_eq_scan h.body_ne_nil (by omega) hscan
        obtain ⟨feds, hall, hmessages, hothers⟩ := ih (h.rest hmore hleft) hbegins'
        unfold Decoder.feedAll
        rw [hfeed]
        dsimp only
        rw [hall]
        refine ⟨_, rfl, ?_, hothers.cons rfl⟩
        rw [List.flatMap_cons, hmessages, List.nil_append, List.map_append]

/-- However the encoded messages and the control data behind them are cut, the
decoder returns the messages in order and the control data with the last call,
and nothing stays pending. -/
theorem decoding_ignores_segmentation (frames : List Frame) (tail : List UInt8)
    (hhead : tail.head? ≠ some 0x22) (bodies : List (List UInt8))
    (hwhole : bodies.flatten = Frame.stream frames ++ tail)
    (hsize : ∀ body ∈ bodies, body.length ≤ 65498)
    (hinside : ∀ before after, bodies = before ++ [] :: after →
      ∀ count, before.flatten ≠ Frame.stream (frames.take count))
    (huncut : tail ≠ [] → ∃ front last, bodies = front ++ [last] ∧ tail <:+ last) :
    ∃ feds, Decoder.new.feedAll bodies = .ok (feds, .new) ∧
      feds.flatMap Fed.messages = frames.map Frame.message ∧
      (tail = [] → ∀ fed ∈ feds, fed.other = none) ∧
      (tail ≠ [] → ∃ earlier final, feds = earlier ++ [final] ∧ final.other = some tail ∧
        ∀ fed ∈ earlier, fed.other = none) := by
  have hcutting : Cutting [] frames tail bodies := ⟨hwhole, hsize, hinside, huncut⟩
  obtain ⟨feds, hall, hmessages, hothers⟩ := feedAll_cutting hcutting (Or.inl rfl) hhead
  exact ⟨feds, hall, hmessages, hothers.absent, hothers.last⟩

/-- A chunk of four bytes and the end of the file, cut inside the header of the
first message, with a control message behind them. -/
theorem decoding_ignores_segmentation_chunk :
    let frames : List Frame :=
      [⟨0, dataMessage 3 [0, 0x22, 255, 42], Or.inl rfl, by decide⟩,
        ⟨0, endMessage 3, Or.inl rfl, by decide⟩]
    let bodies :=
      [(Frame.stream frames).take 5, (Frame.stream frames).drop 5 ++ [0x14, 0, 0, 4]]
    ∃ feds, Decoder.new.feedAll bodies = .ok (feds, .new) ∧
      feds.flatMap Fed.messages = frames.map Frame.message ∧
      ([0x14, 0, 0, 4] = ([] : List UInt8) → ∀ fed ∈ feds, fed.other = none) ∧
      ([0x14, 0, 0, 4] ≠ ([] : List UInt8) → ∃ earlier final, feds = earlier ++ [final] ∧
        final.other = some [0x14, 0, 0, 4] ∧ ∀ fed ∈ earlier, fed.other = none) := by
  intro frames bodies
  apply decoding_ignores_segmentation frames [0x14, 0, 0, 4] (by decide) bodies
  · decide
  · decide
  · intro before after hsplit
    have hmem : [] ∈ bodies := by
      rw [hsplit]
      simp
    exact absurd hmem (by decide)
  · exact fun _ => ⟨[(Frame.stream frames).take 5], _, rfl, List.suffix_append _ _⟩

/-! ## Failing closed -/

/-- One whole frame, by its header alone. -/
structure Framed (bytes : List UInt8) : Prop where
  head : bytes.head? = some 0x22
  header : 6 ≤ bytes.length
  subtype : bytes.getD 1 0 = 0 ∨ bytes.getD 1 0 = 2
  least : 12 ≤ readAt bytes 2 4
  most : readAt bytes 2 4 ≤ maxMessageBytes - 6
  whole : bytes.length = 6 + readAt bytes 2 4

/-- The beginning of a frame: its subtype and length count once its header is there. -/
structure Incomplete (pending : List UInt8) : Prop where
  head : pending.head? = some 0x22
  missing : 6 ≤ pending.length → ∃ back, back ≠ [] ∧ Framed (pending ++ back)

theorem readAt_append_left {bytes : List UInt8} {off width : Nat}
    (h : off + width ≤ bytes.length) (more : List UInt8) :
    readAt (bytes ++ more) off width = readAt bytes off width := by
  rw [readAt, List.drop_append_of_le_length (by omega),
    List.take_append_of_le_length (by rw [List.length_drop]; omega)]
  rfl

theorem getD_append_left {bytes : List UInt8} {i : Nat} (h : i < bytes.length)
    (more : List UInt8) : (bytes ++ more).getD i 0 = bytes.getD i 0 := by
  rw [List.getD_eq_getElem?_getD, List.getD_eq_getElem?_getD, List.getElem?_append_left h]

theorem framed_append {rest back : List UInt8} (hhead : rest.head? = some 0x22)
    (hlong : 6 ≤ rest.length) (hsubtype : ¬ (rest.getD 1 0 ≠ 0 ∧ rest.getD 1 0 ≠ 2))
    (hlen : ¬ (readAt rest 2 4 < 12 ∨ maxMessageBytes - 6 < readAt rest 2 4))
    (hwhole : rest.length + back.length = 6 + readAt rest 2 4) : Framed (rest ++ back) := by
  have hread : readAt (rest ++ back) 2 4 = readAt rest 2 4 := readAt_append_left (by omega) back
  have hempty : rest ≠ [] := List.ne_nil_of_length_pos (by omega)
  refine ⟨?_, ?_, ?_, ?_, ?_, ?_⟩
  · rw [List.head?_append_of_ne_nil _ hempty, hhead]
  · rw [List.length_append]
    omega
  · rw [getD_append_left (by omega)]
    tauto
  · rw [hread]
    omega
  · rw [hread]
    omega
  · rw [hread, List.length_append, hwhole]

theorem Incomplete.length_lt {pending : List UInt8} (h : Incomplete pending) :
    pending.length < maxMessageBytes := by
  by_cases hheader : 6 ≤ pending.length
  · obtain ⟨back, hback, hframed⟩ := h.missing hheader
    have hwhole := hframed.whole
    have hmost := hframed.most
    have hmore := List.length_pos_of_ne_nil hback
    rw [List.length_append] at hwhole
    unfold maxMessageBytes at hmost ⊢
    omega
  · unfold maxMessageBytes
    omega

theorem scan_header {rest : List UInt8} (hhead : rest.head? = some 0x22) (hlong : 6 ≤ rest.length)
    (more : List UInt8) (messages : List Message) :
    scan (rest ++ more) messages =
      if rest.getD 1 0 ≠ 0 ∧ rest.getD 1 0 ≠ 2 then .error .unsupportedSubtype
      else if readAt rest 2 4 < 12 ∨ maxMessageBytes - 6 < readAt rest 2 4 then
        .error .invalidLength
      else if (rest ++ more).length < 6 + readAt rest 2 4 then
        .ok ({ messages, other := none }, rest ++ more)
      else if readAt (rest ++ more) 6 2 ≠ 1 then .error .unsupportedVersion
      else
        let m : Message :=
          { kind := UInt16.ofNat (readAt (rest ++ more) 8 2)
            session := UInt32.ofNat (readAt (rest ++ more) 10 4)
            argument := UInt32.ofNat (readAt (rest ++ more) 14 4)
            payload := ((rest ++ more).drop 18).take (readAt rest 2 4 - 12) }
        scan ((rest ++ more).drop (6 + readAt rest 2 4)) (messages ++ [m]) := by
  have hempty : rest ≠ [] := List.ne_nil_of_length_pos (by omega)
  have hhead' : (rest ++ more).head? = some 0x22 := by
    rw [List.head?_append_of_ne_nil _ hempty, hhead]
  rw [scan.eq_def, if_neg (by simp [hempty]), if_neg (not_not.2 hhead'),
    if_neg (by rw [List.length_append]; omega), getD_append_left (by omega)]
  dsimp only
  rw [readAt_append_left (by omega)]

/-- What a round of the loop does, whatever bytes come later. -/
inductive Round (rest : List UInt8) : Prop where
  | done (hempty : rest = [])
  | other (hrest : rest ≠ []) (hhead : rest.head? ≠ some 0x22)
  | wait (hrest : Incomplete rest)
      (hscan : ∀ messages, scan rest messages = .ok ({ messages, other := none }, rest))
  | bad (e : FeedError) (hparse : e ≠ .backlogTooLarge)
      (hscan : ∀ more messages, scan (rest ++ more) messages = .error e)
  | frame (m : Message) (size : Nat) (hleast : 6 ≤ size) (hsize : size ≤ rest.length)
      (hlength : size = 6 + readAt rest 2 4)
      (hscan : ∀ more messages,
        scan (rest ++ more) messages = scan (rest.drop size ++ more) (messages ++ [m]))

theorem round (rest : List UInt8) : Round rest := by
  by_cases hempty : rest = []
  · exact .done hempty
  by_cases hhead : rest.head? = some 0x22
  swap
  · exact .other hempty hhead
  by_cases hshort : rest.length < 6
  · refine .wait ⟨hhead, fun h => absurd h (by omega)⟩ fun messages => ?_
    rw [scan.eq_def, if_neg hempty, if_neg (not_not.2 hhead), if_pos hshort]
  have hmore := scan_header hhead (not_lt.1 hshort)
  by_cases hsubtype : rest.getD 1 0 ≠ 0 ∧ rest.getD 1 0 ≠ 2
  · refine .bad .unsupportedSubtype nofun fun more messages => ?_
    rw [hmore, if_pos hsubtype]
  by_cases hlen : readAt rest 2 4 < 12 ∨ maxMessageBytes - 6 < readAt rest 2 4
  · refine .bad .invalidLength nofun fun more messages => ?_
    rw [hmore, if_neg hsubtype, if_pos hlen]
  by_cases hwhole : rest.length < 6 + readAt rest 2 4
  · refine .wait ⟨hhead, fun _ => ?_⟩ fun messages => ?_
    · refine ⟨List.replicate (6 + readAt rest 2 4 - rest.length) 0, ?_, ?_⟩
      · rw [ne_eq, List.replicate_eq_nil_iff]
        omega
      · exact framed_append hhead (by omega) hsubtype hlen
          (by rw [List.length_replicate]; omega)
    · have hone := hmore [] messages
      rw [List.append_nil, if_neg hsubtype, if_neg hlen, if_pos hwhole] at hone
      exact hone
  by_cases hversion : readAt rest 6 2 ≠ 1
  · refine .bad .unsupportedVersion nofun fun more messages => ?_
    rw [hmore, if_neg hsubtype, if_neg hlen, if_neg (by rw [List.length_append]; omega),
      readAt_append_left (by omega), if_pos hversion]
  · refine .frame
      { kind := UInt16.ofNat (readAt rest 8 2)
        session := UInt32.ofNat (readAt rest 10 4)
        argument := UInt32.ofNat (readAt rest 14 4)
        payload := (rest.drop 18).take (readAt rest 2 4 - 12) }
      (6 + readAt rest 2 4) (by omega) (by omega) rfl fun more messages => ?_
    rw [hmore, if_neg hsubtype, if_neg hlen, if_neg (by rw [List.length_append]; omega),
      readAt_append_left (by omega), if_neg hversion]
    dsimp only
    rw [readAt_append_left (by omega), readAt_append_left (by omega),
      readAt_append_left (by omega), List.drop_append_of_le_length (by omega),
      List.drop_append_of_le_length (by omega),
      List.take_append_of_le_length (by rw [List.length_drop]; omega)]

/-- The rounds of the loop up to its result. -/
inductive Scans : List UInt8 → List Message → Except FeedError (Fed × List UInt8) → Prop
  | done {messages} : Scans [] messages (.ok ({ messages, other := none }, []))
  | other {rest messages} : Scans rest messages (.ok ({ messages, other := some rest }, []))
  | wait {rest messages} : Incomplete rest →
      Scans rest messages (.ok ({ messages, other := none }, rest))
  | bad {rest messages e} : e ≠ .backlogTooLarge →
      (∀ more messages, scan (rest ++ more) messages = .error e) → Scans rest messages (.error e)
  | frame {rest messages m size result} :
      (∀ more messages,
        scan (rest ++ more) messages = scan (rest.drop size ++ more) (messages ++ [m])) →
      Scans (rest.drop size) (messages ++ [m]) result → Scans rest messages result

theorem scan_scans (rest : List UInt8) (messages : List Message) :
    Scans rest messages (scan rest messages) := by
  induction hlength : rest.length using Nat.strong_induction_on generalizing rest messages with
  | _ n ih =>
    subst hlength
    cases round rest with
    | done hempty =>
        rw [hempty, scan_nil]
        exact .done
    | other hrest hhead =>
        rw [scan_other hrest hhead]
        exact .other
    | wait hrest hscan =>
        rw [hscan]
        exact .wait hrest
    | bad e hparse hscan =>
        have hnow := hscan [] messages
        rw [List.append_nil] at hnow
        rw [hnow]
        exact .bad hparse hscan
    | frame m size hleast hsize hlen hscan =>
        have hnow := hscan [] messages
        rw [List.append_nil, List.append_nil] at hnow
        rw [hnow]
        exact .frame hscan (ih _ (by rw [List.length_drop]; omega) _ _ rfl)

/-- A loop that failed fails again with the same error, whatever bytes come later. -/
theorem scan_error_append {rest : List UInt8} {messages : List Message} {e : FeedError}
    (h : scan rest messages = .error e) (more : List UInt8) (others : List Message) :
    scan (rest ++ more) others = .error e := by
  have hscans := scan_scans rest messages
  generalize scan rest messages = result at h hscans
  induction hscans generalizing others with
  | done => cases h
  | other => cases h
  | wait => cases h
  | bad _ hscan =>
      cases h
      exact hscan more others
  | frame hscan _ ih =>
      rw [hscan]
      exact ih _ h

theorem scan_error_ne {rest : List UInt8} {messages : List Message} {e : FeedError}
    (h : scan rest messages = .error e) : e ≠ .backlogTooLarge := by
  have hscans := scan_scans rest messages
  generalize scan rest messages = result at h hscans
  induction hscans with
  | done => cases h
  | other => cases h
  | wait => cases h
  | bad hparse _ =>
      cases h
      exact hparse
  | frame _ _ ih => exact ih h

/-- What the loop leaves pending, and where it found other data. -/
theorem scan_ok {rest left : List UInt8} {messages : List Message} {fed : Fed}
    (h : scan rest messages = .ok (fed, left)) :
    (left = [] ∨ Incomplete left) ∧ ∀ other, fed.other = some other → other <:+ rest := by
  have hscans := scan_scans rest messages
  generalize scan rest messages = result at h hscans
  induction hscans with
  | done =>
      cases h
      exact ⟨Or.inl rfl, nofun⟩
  | other =>
      cases h
      refine ⟨Or.inl rfl, fun other hother => ?_⟩
      cases hother
      exact List.suffix_refl _
  | wait hrest =>
      cases h
      exact ⟨Or.inr hrest, nofun⟩
  | bad => cases h
  | frame _ _ ih =>
      obtain ⟨hleft, hothers⟩ := ih h
      exact ⟨hleft, fun other hother => (hothers other hother).trans (List.drop_suffix _ _)⟩

/-- Other data never begins in front of the body that completes the pending frame. -/
theorem scan_other_suffix {pending body left : List UInt8} {fed : Fed}
    (hpending : pending = [] ∨ Incomplete pending)
    (h : scan (pending ++ body) [] = .ok (fed, left)) {other : List UInt8}
    (hother : fed.other = some other) : other <:+ body := by
  rcases hpending with rfl | hincomplete
  · exact (scan_ok h).2 other hother
  have hempty : pending ≠ [] := by
    rintro rfl
    exact absurd hincomplete.head nofun
  cases round (pending ++ body) with
  | done hnil => exact absurd (List.append_eq_nil_iff.1 hnil).1 hempty
  | other hrest hhead =>
      rw [List.head?_append_of_ne_nil _ hempty] at hhead
      exact absurd hincomplete.head hhead
  | wait hrest hscan =>
      rw [hscan] at h
      cases h
      cases hother
  | bad e hparse hscan =>
      have hnow := hscan [] []
      rw [List.append_nil, h] at hnow
      cases hnow
  | frame m size hleast hsize hlen hscan =>
      have hnow := hscan [] []
      rw [List.append_nil, List.append_nil, h] at hnow
      have hsuffix := (scan_ok hnow.symm).2 other hother
      have hbeyond : pending.length ≤ size := by
        by_cases hheader : 6 ≤ pending.length
        · obtain ⟨back, -, hframed⟩ := hincomplete.missing hheader
          have hwhole := hframed.whole
          rw [readAt_append_left (by omega), List.length_append] at hwhole
          rw [readAt_append_left (by omega)] at hlen
          omega
        · omega
      rw [List.drop_append, List.drop_eq_nil_of_le hbeyond, List.nil_append] at hsuffix
      exact hsuffix.trans (List.drop_suffix _ _)

namespace Decoder

/-- Bodies fed one after the other, errors or not. -/
def feeds (d : Decoder) : List (List UInt8) → List (Except FeedError Fed) × Decoder
  | [] => ([], d)
  | body :: bodies =>
      let (result, d) := d.feed body
      let (results, d) := d.feeds bodies
      (result :: results, d)

def Clean (d : Decoder) : Prop := d.pending = [] ∨ Incomplete d.pending

/-- A malformed frame is still among the pending bytes. -/
def Failed (d : Decoder) : Prop := ∃ e, scan d.pending [] = .error e

theorem Clean.length_lt {d : Decoder} (h : d.Clean) : d.pending.length < maxMessageBytes := by
  rcases h with hempty | hincomplete
  · rw [hempty]
    decide
  · exact hincomplete.length_lt

theorem Clean.feed {d : Decoder} (h : d.Clean) {body : List UInt8} (hbody : body.length ≤ 65520) :
    (∃ fed, (d.feed body).1 = .ok fed ∧ (d.feed body).2.Clean ∧
      ∀ other, fed.other = some other → other <:+ body) ∨
    ∃ e, e ≠ .backlogTooLarge ∧ (d.feed body).1 = .error e ∧ (d.feed body).2.Failed := by
  have hlength := h.length_lt
  unfold Decoder.feed
  split
  · refine Or.inl ⟨_, rfl, h, fun other hother => ?_⟩
    cases hother
    exact List.suffix_refl _
  rw [if_neg (by omega)]
  dsimp only
  cases hscan : scan (d.pending ++ body) [] with
  | error e =>
      exact Or.inr ⟨e, scan_error_ne hscan, rfl, e, hscan⟩
  | ok result =>
      obtain ⟨fed, left⟩ := result
      exact Or.inl ⟨fed, rfl, (scan_ok hscan).1, fun other => scan_other_suffix h hscan⟩

theorem Failed.feed {d : Decoder} (h : d.Failed) (body : List UInt8) :
    (∃ e, (d.feed body).1 = .error e) ∧ (d.feed body).2.Failed := by
  obtain ⟨e, he⟩ := h
  have hempty : d.pending ≠ [] := by
    intro hnil
    rw [hnil, scan_nil] at he
    cases he
  unfold Decoder.feed
  rw [if_neg fun hother => hempty hother.1]
  split
  · exact ⟨⟨_, rfl⟩, e, he⟩
  · dsimp only
    rw [scan_error_append he body []]
    exact ⟨⟨e, rfl⟩, e, scan_error_append he body []⟩

theorem Failed.feeds {d : Decoder} (h : d.Failed) (bodies : List (List UInt8)) :
    (d.feeds bodies).2.Failed := by
  induction bodies generalizing d with
  | nil => exact h
  | cons body bodies ih => exact ih (h.feed body).2

/-- After any calls the decoder is clean, or a call failed and every later one fails. -/
theorem Clean.feeds {d : Decoder} (h : d.Clean) {bodies : List (List UInt8)}
    (hsize : ∀ body ∈ bodies, body.length ≤ 65520) :
    ((∀ result ∈ (d.feeds bodies).1, ∃ fed, result = .ok fed) ∧ (d.feeds bodies).2.Clean) ∨
    ((∃ e, .error e ∈ (d.feeds bodies).1) ∧ (d.feeds bodies).2.Failed) := by
  induction bodies generalizing d with
  | nil => exact Or.inl ⟨nofun, h⟩
  | cons body bodies ih =>
      rw [List.forall_mem_cons] at hsize
      rcases h.feed hsize.1 with ⟨fed, hresult, hclean, -⟩ | ⟨e, -, hresult, hfailed⟩
      · rcases ih hclean hsize.2 with ⟨hall, hrest⟩ | ⟨⟨e, hmem⟩, hrest⟩
        · exact Or.inl ⟨List.forall_mem_cons.2 ⟨⟨fed, hresult⟩, hall⟩, hrest⟩
        · exact Or.inr ⟨⟨e, List.mem_cons_of_mem _ hmem⟩, hrest⟩
      · exact Or.inr ⟨⟨e, List.mem_cons.2 (Or.inl hresult.symm)⟩, hfailed.feeds bodies⟩

end Decoder

/-- While nothing failed, less than one frame is pending and other data comes from the body at
hand; once a call failed, every later one fails. -/
theorem reassembly_fails_closed (before : List (List UInt8))
    (hbefore : ∀ body ∈ before, body.length ≤ 65520) (body : List UInt8)
    (hbody : body.length ≤ 65520) :
    ((∀ result ∈ (Decoder.new.feeds before).1, ∃ fed, result = .ok fed) →
      ((Decoder.new.feeds before).2.pending = [] ∨
        Incomplete (Decoder.new.feeds before).2.pending) ∧
      (Decoder.new.feeds before).2.pending.length < maxMessageBytes ∧
      ((Decoder.new.feeds before).2.feed body).1 ≠ .error .backlogTooLarge ∧
      ∀ fed other, ((Decoder.new.feeds before).2.feed body).1 = .ok fed →
        fed.other = some other → other <:+ body) ∧
    ((∃ e, .error e ∈ (Decoder.new.feeds before).1) →
      ∃ e, ((Decoder.new.feeds before).2.feed body).1 = .error e) := by
  have hnew : Decoder.new.Clean := Or.inl rfl
  rcases hnew.feeds hbefore with ⟨hall, hclean⟩ | ⟨⟨e, hmem⟩, hfailed⟩
  · refine ⟨fun _ => ⟨hclean, hclean.length_lt, ?_⟩, ?_⟩
    · rcases hclean.feed hbody with ⟨fed, hresult, -, hother⟩ | ⟨e, hne, hresult, -⟩
      · rw [hresult]
        refine ⟨nofun, fun found other hfound => ?_⟩
        cases hfound
        exact hother other
      · rw [hresult]
        refine ⟨fun herror => ?_, nofun⟩
        cases herror
        exact hne rfl
    · rintro ⟨e, hmem⟩
      obtain ⟨fed, hok⟩ := hall _ hmem
      cases hok
  · refine ⟨fun hall => ?_, fun _ => (hfailed.feed body).1⟩
    obtain ⟨fed, hok⟩ := hall _ hmem
    cases hok

/-- A message cut in its header, with a length that is invalid. -/
theorem reassembly_fails_closed_cut :
    (Decoder.new.feeds [[0x22, 0, 0]]).2.pending.length < maxMessageBytes ∧
      ∃ e, ((Decoder.new.feeds [[0x22, 0, 0], [0, 0, 1]]).2.feed [0x14]).1 = .error e := by
  have hclean := reassembly_fails_closed [[0x22, 0, 0]] (by decide) [0, 0, 1] (by decide)
  have hfailed := reassembly_fails_closed [[0x22, 0, 0], [0, 0, 1]] (by decide) [0x14] (by decide)
  have hfeeds : Decoder.new.feeds [[0x22, 0, 0]] =
      ([.ok { messages := [], other := none }], { pending := [0x22, 0, 0] }) := by
    decide +kernel
  rw [hfeeds] at hclean ⊢
  refine ⟨(hclean.1 ?_).2.1, hfailed.2 ⟨.invalidLength, by decide +kernel⟩⟩
  exact fun result hresult => ⟨_, List.mem_singleton.1 hresult⟩

/-- Two bytes with an unknown subtype stay pending. -/
theorem unknown_subtype_stays_pending :
    ¬ ∀ bodies : List (List UInt8), (∀ body ∈ bodies, body.length ≤ 65520) →
      (∀ result ∈ (Decoder.new.feeds bodies).1, ∃ fed, result = .ok fed) →
      (Decoder.new.feeds bodies).2.pending = [] ∨
        ∃ back, back ≠ [] ∧ Framed ((Decoder.new.feeds bodies).2.pending ++ back) := by
  intro hclaim
  have hfeeds : Decoder.new.feeds [[0x22, 9]] =
      ([.ok { messages := [], other := none }], { pending := [0x22, 9] }) := by decide +kernel
  have hbytes := hclaim [[0x22, 9]] (by decide)
  rw [hfeeds] at hbytes
  rcases hbytes fun result hmem => ⟨_, List.mem_singleton.1 hmem⟩ with hnil | ⟨back, -, hframed⟩
  · cases hnil
  · have hsubtype := hframed.subtype
    rw [getD_append_left (by decide)] at hsubtype
    exact absurd hsubtype (by decide)

end MacVnc.Protocol.FileDecoder
