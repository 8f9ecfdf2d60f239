import MacVnc.Lib.SerialNumber
import MacVnc.Media.DepacketizeTrace
import MacVnc.Media.Packetize
import Mathlib.Algebra.Order.BigOperators.Group.List
/-!
# Reordered and duplicated packets

The packets of one key picture, in any order of arrival and with any duplicates,
collect in one group of a fresh depacketizer; the poll after the repair window
puts them back in order and emits the picture as one access unit.
-/

namespace MacVnc.Media.DepacketizeOrder

open MacVnc.Lib.SerialNumber
open MacVnc.Media.Srtp (RtpPacket)
open MacVnc.Media.Depacketize
open MacVnc.Media.DepacketizeGroup
open MacVnc.Media.DepacketizeTrace
open MacVnc.Media.Packetize

/-! ## The packets of a picture -/

/-- What the collection of a picture needs to know about its packets; `sets` are
the parameter sets of the picture. -/
structure PicturePackets (key : Key) (last : UInt16) (sets : List Nal)
    (packets : List RtpPacket) : Prop where
  source : ∀ p ∈ packets, (p.ssrc, p.timestamp) = key
  distinct : ∀ p ∈ packets, ∀ q ∈ packets, p.seq = q.seq → p = q
  nodup : packets.Nodup
  marker : ∀ p ∈ packets, p.marker = true ↔ p.seq = last
  ordered : packets.Pairwise fun a b => (last - b.seq).toNat < (last - a.seq).toNat
  consecutive : consecutive packets = true
  count : packets.length ≤ 8192
  bytes : (packets.map fun p => p.payload.length).sum ≤ maxGroupBytes
  header : ∀ p ∈ packets, 2 ≤ p.payload.length
  framing : ∀ p ∈ packets, nalKind p.payload = some 48 →
    ∃ params, parseParameterAp (p.payload.drop 4) [] = some params ∧ ∀ nal ∈ params, nal ∈ sets

theorem payload_framing {piece : Piece} (h : piece.Valid) {payload : List UInt8}
    (hmem : payload ∈ piece.payloads) :
    2 ≤ payload.length ∧ (nalKind payload = some 48 →
      ∃ params, parseParameterAp (payload.drop 4) [] = some params ∧
        ∀ nal ∈ params, nal ∈ piece.nals ∧ isParam nal = true) := by
  cases piece with
  | single donl nal =>
      obtain ⟨h0, h1, body, rfl, _, hkind⟩ := validNal_split h
      rw [List.mem_singleton.1 hmem]
      refine ⟨by simp, fun haggregate => ?_⟩
      have hvalue : h0 >>> 1 &&& 63 = 48 := Option.some.inj haggregate
      rw [hvalue] at hkind
      exact absurd hkind (by decide)
  | fragments donl h0 h1 bodies =>
      have hfragment : ∀ start (bodies : List (List UInt8)),
          payload ∈ Piece.fragmentAll donl h0 h1 start bodies →
          ∃ s l b, payload = Piece.fragment donl h0 h1 s l b := by
        intro start bodies
        induction bodies generalizing start with
        | nil => exact fun hnone => by cases hnone
        | cons body rest ih =>
            cases rest with
            | nil => exact fun hone => ⟨_, _, _, List.mem_singleton.1 hone⟩
            | cons next rest =>
                intro hin
                rcases List.mem_cons.1 hin with hhead | htail
                · exact ⟨_, _, _, hhead⟩
                · exact ih false htail
      obtain ⟨s, l, b, rfl⟩ := hfragment true bodies hmem
      refine ⟨by simp [Piece.fragment], fun haggregate => ?_⟩
      have hvalue : (h0 &&& 129 ||| 98) >>> 1 &&& 63 = 48 := Option.some.inj haggregate
      rw [fragment_kind] at hvalue
      exact absurd hvalue (by decide)
  | aggregate h0 h1 donl nals =>
      rw [List.mem_singleton.1 hmem]
      refine ⟨by simp, fun _ => ⟨nals.filter isParam, ?_, ?_⟩⟩
      · have hdrop : (h0 :: h1 :: (Piece.donlBytes donl ++ nals.flatMap Piece.sized)).drop 4 =
            nals.flatMap Piece.sized := by
          show (Piece.donlBytes donl ++ nals.flatMap Piece.sized).drop 2 = _
          rw [← length_donlBytes donl, List.drop_left]
        rw [hdrop]
        have hsome := h.some
        exact parseParameterAp_sized h.valid [] (by simpa using h.room) (by
          intro hnil
          rw [List.nil_append] at hnil
          rw [hnil] at hsome
          exact absurd hsome (by decide))
      · intro nal hnal
        exact ⟨List.mem_of_mem_filter hnal, (List.mem_filter.1 hnal).2⟩

def parameterSets (pieces : List Piece) : List Nal := (pieces.flatMap Piece.nals).filter isParam

theorem payload_packetize {key : Key} {pt : UInt8} {start : UInt16} {pieces : List Piece}
    {p : RtpPacket} (hp : p ∈ packetize key pt start pieces) :
    ∃ piece ∈ pieces, p.payload ∈ piece.payloads := by
  apply List.mem_flatMap.1
  rw [← map_payload_number key pt start (pieces.flatMap Piece.payloads)]
  exact List.mem_map_of_mem hp

theorem distance_packetize {key : Key} {pt : UInt8} {start : UInt16} {pieces : List Piece}
    (hcount : (pieces.flatMap Piece.payloads).length ≤ 8192) {i : Nat}
    (hi : i < (packetize key pt start pieces).length) :
    (start + UInt16.ofNat ((pieces.flatMap Piece.payloads).length - 1) -
      (packetize key pt start pieces)[i].seq).toNat =
      (pieces.flatMap Piece.payloads).length - 1 - i := by
  have hlen : (packetize key pt start pieces).length = (pieces.flatMap Piece.payloads).length :=
    length_number key pt start _
  rw [show (packetize key pt start pieces)[i].seq = _ from (getElem_number hi).1]
  exact toNat_distance start (by omega) (by omega)

theorem ordered_packetize (key : Key) (pt : UInt8) (start : UInt16) {pieces : List Piece}
    (hcount : (pieces.flatMap Piece.payloads).length ≤ 8192) :
    (packetize key pt start pieces).Pairwise fun a b =>
      (start + UInt16.ofNat ((pieces.flatMap Piece.payloads).length - 1) - b.seq).toNat <
        (start + UInt16.ofNat ((pieces.flatMap Piece.payloads).length - 1) - a.seq).toNat := by
  have hlen : (packetize key pt start pieces).length = (pieces.flatMap Piece.payloads).length :=
    length_number key pt start _
  rw [List.pairwise_iff_getElem]
  intro i j hi hj hij
  rw [distance_packetize hcount hi, distance_packetize hcount hj]
  omega

theorem picturePackets {pieces : List Piece} (h : ValidPicture pieces) (key : Key) (pt : UInt8)
    (start : UInt16) :
    PicturePackets key (start + UInt16.ofNat ((pieces.flatMap Piece.payloads).length - 1))
      (parameterSets pieces) (packetize key pt start pieces) := by
  have hlen : (packetize key pt start pieces).length = (pieces.flatMap Piece.payloads).length :=
    length_number key pt start _
  have hcount := h.packets
  have hordered := ordered_packetize key pt start hcount
  constructor
  · exact fun p hp => key_of_mem_number hp
  · intro p hp q hq hseq
    have hinj : ((packetize key pt start pieces).map fun p =>
        (start + UInt16.ofNat ((pieces.flatMap Piece.payloads).length - 1) - p.seq).toNat).Nodup :=
      List.pairwise_map.2 (hordered.imp fun hlt => (Nat.ne_of_lt hlt).symm)
    exact List.inj_on_of_nodup_map hinj hp hq (by rw [hseq])
  · exact hordered.imp fun {a b} hlt heq => by
      rw [heq] at hlt
      omega
  · intro p hp
    obtain ⟨i, hi, rfl⟩ := List.mem_iff_getElem.1 hp
    obtain ⟨hseq, hmarker⟩ := getElem_number hi
    show (packetize key pt start pieces)[i].marker = true ↔ _
    rw [show (packetize key pt start pieces)[i].marker = _ from hmarker,
      show (packetize key pt start pieces)[i].seq = _ from hseq, decide_eq_true_eq]
    constructor
    · intro hlast
      rw [← hlast, Nat.add_sub_cancel]
    · intro heq
      have := add_ofNat_inj start (by omega) (by omega) heq
      omega
  · exact hordered
  · exact consecutive_number _
  · rw [hlen]
    exact hcount
  · have hsame : (packetize key pt start pieces).map (fun p => p.payload.length) =
        (pieces.flatMap Piece.payloads).map List.length := by
      rw [← map_payload_number key pt start (pieces.flatMap Piece.payloads),
        List.map_map]
      rfl
    rw [hsame]
    exact h.bytes
  · intro p hp
    obtain ⟨piece, hpiece, hin⟩ := payload_packetize hp
    exact (payload_framing (h.valid piece hpiece) hin).1
  · intro p hp haggregate
    obtain ⟨piece, hpiece, hin⟩ := payload_packetize hp
    obtain ⟨params, hparse, hparams⟩ :=
      (payload_framing (h.valid piece hpiece) hin).2 haggregate
    refine ⟨params, hparse, fun nal hnal => ?_⟩
    exact List.mem_filter.2 ⟨List.mem_flatMap.2 ⟨piece, hpiece, (hparams nal hnal).1⟩,
      (hparams nal hnal).2⟩

/-! ## Stored parameter sets -/

structure Stored (sets params : List Nal) : Prop where
  sorted : params.Pairwise (· ≤ ·)
  nodup : params.Nodup
  sets : ∀ nal ∈ params, nal ∈ sets

theorem stored_nil (sets : List Nal) : Stored sets [] :=
  ⟨.nil, .nil, fun nal hnal => by cases hnal⟩

/-- A parameter set is inserted in order unless it is known or there is no room. -/
theorem storeParam_cases (params : List Nal) (nal : Nal) :
    (storeParam params nal = params ∧ (nal ∈ params ∨ 64 ≤ params.length)) ∨
      nal ∉ params ∧ storeParam params nal = params.orderedInsert (· ≤ ·) nal := by
  unfold storeParam insertParam
  by_cases hroom : params.length < 64
  · rw [if_pos hroom]
    by_cases hknown : nal ∈ params
    · exact Or.inl ⟨if_pos hknown, Or.inl hknown⟩
    · exact Or.inr ⟨hknown, if_neg hknown⟩
  · exact Or.inl ⟨if_neg hroom, Or.inr (by omega)⟩

theorem Stored.storeParam {sets params : List Nal} (h : Stored sets params) {nal : Nal}
    (hnal : nal ∈ sets) : Stored sets (storeParam params nal) := by
  rcases storeParam_cases params nal with ⟨hsame, _⟩ | ⟨hnew, hinsert⟩
  · rwa [hsame]
  · rw [hinsert]
    refine ⟨h.sorted.orderedInsert nal, ?_, fun other hother => ?_⟩
    · exact (List.perm_orderedInsert _ _ _).nodup_iff.2 (List.nodup_cons.2 ⟨hnew, h.nodup⟩)
    · rcases (List.mem_orderedInsert _).1 hother with rfl | hold
      · exact hnal
      · exact h.sets other hold

theorem Stored.foldl {sets params nals : List Nal} (h : Stored sets params)
    (hnals : ∀ nal ∈ nals, nal ∈ sets) :
    Stored sets (nals.foldl Depacketize.storeParam params) := by
  induction nals generalizing params with
  | nil => exact h
  | cons nal rest ih =>
      apply ih (h.storeParam (hnals nal (by simp)))
      exact fun other hother => hnals other (List.mem_cons_of_mem _ hother)

theorem mem_foldl_storeParam {params nals : List Nal} {nal : Nal} (h : nal ∈ params) :
    nal ∈ nals.foldl storeParam params := by
  induction nals generalizing params with
  | nil => exact h
  | cons other rest ih =>
      apply ih
      rcases storeParam_cases params other with ⟨hsame, _⟩ | ⟨_, hinsert⟩
      · rwa [hsame]
      · rw [hinsert]
        exact (List.mem_orderedInsert _).2 (Or.inr h)

/-- With at most 64 parameter sets in the picture there is room for each. -/
theorem Stored.mem_storeParam {sets params : List Nal} (h : Stored sets params)
    (hroom : sets.dedup.length ≤ 64) {nal : Nal} (hnal : nal ∈ sets) :
    nal ∈ Depacketize.storeParam params nal := by
  rcases storeParam_cases params nal with ⟨hsame, hwhy⟩ | ⟨_, hinsert⟩
  · rw [hsame]
    by_contra hnew
    have hnodup : (nal :: params).Nodup := List.nodup_cons.2 ⟨hnew, h.nodup⟩
    have hsubset : nal :: params ⊆ sets.dedup := by
      intro other hother
      rw [List.mem_dedup]
      rcases List.mem_cons.1 hother with rfl | hold
      · exact hnal
      · exact h.sets other hold
    have hlen := (List.subperm_of_subset hnodup hsubset).length_le
    rw [List.length_cons] at hlen
    have hfull := hwhy.resolve_left hnew
    omega
  · rw [hinsert]
    exact (List.mem_orderedInsert _).2 (Or.inl rfl)

theorem Stored.complete {sets params nals : List Nal} (h : Stored sets params)
    (hnals : ∀ nal ∈ nals, nal ∈ sets) (hroom : sets.dedup.length ≤ 64) {nal : Nal}
    (hmem : nal ∈ nals) : nal ∈ nals.foldl Depacketize.storeParam params := by
  induction nals generalizing params with
  | nil => cases hmem
  | cons head rest ih =>
      have hhead := hnals head (by simp)
      rcases List.mem_cons.1 hmem with rfl | hin
      · show nal ∈ rest.foldl Depacketize.storeParam (Depacketize.storeParam params nal)
        exact mem_foldl_storeParam (h.mem_storeParam hroom hhead)
      · apply ih (h.storeParam hhead) _ hin
        exact fun other hother => hnals other (List.mem_cons_of_mem _ hother)

/-! ## Collecting -/

/-- A packet and the time of its arrival. -/
abbrev Arrival := RtpPacket × Nat

/-- Packets of the picture that arrive within the repair window of the marker. -/
structure Arrives (packets : List RtpPacket) (arrivals : List Arrival) : Prop where
  only : ∀ a ∈ arrivals, a.1 ∈ packets
  ordered : arrivals.Pairwise fun a b => a.2 ≤ b.2
  span : ∀ a ∈ arrivals, ∀ b ∈ arrivals, b.2 < a.2 + 200
  repair : ∀ a ∈ arrivals, a.1.marker = true → ∀ b ∈ arrivals, b.2 ≤ a.2 + 24

theorem Arrives.before {packets : List RtpPacket} {first rest : List Arrival}
    (h : Arrives packets (first ++ rest)) : Arrives packets first where
  only a ha := h.only a (List.mem_append_left _ ha)
  ordered := (List.pairwise_append.1 h.ordered).1
  span a ha b hb := h.span a (List.mem_append_left _ ha) b (List.mem_append_left _ hb)
  repair a ha hm b hb :=
    h.repair a (List.mem_append_left _ ha) hm b (List.mem_append_left _ hb)

/-- The group holds the packets that arrived, each once. -/
structure Collects (last : UInt16) (arrived : List Arrival) (g : Group) : Prop where
  mem : ∀ p, p ∈ g.packets ↔ ∃ now, (p, now) ∈ arrived
  nodup : g.packets.Nodup
  bytes : g.bytes = (g.packets.map fun p => p.payload.length).sum
  first : ∃ a ∈ arrived, a.2 = g.first
  lastPacket : ∃ a ∈ arrived, a.2 = g.lastPacket
  marked : ∀ a ∈ arrived, a.1.marker = true →
    g.marker = some last ∧ ∃ t, g.markerAt = some t ∧ t ≤ a.2
  markedAt : ∀ t, g.markerAt = some t → ∃ a ∈ arrived, a.1.marker = true ∧ a.2 = t

theorem collects_new {last : UInt16} {p : RtpPacket} (hlast : p.marker = true → p.seq = last)
    (now order : Nat) : Collects last [(p, now)] ((Group.new now order).add p now) := by
  have hadd : (Group.new now order).add p now =
      { packets := [p], first := now, order, bytes := p.payload.length,
        marker := if p.marker then some p.seq else none,
        markerAt := if p.marker then some now else none, lastPacket := now } := by
    simp [Group.add, Group.contains, Group.new]
  rw [hadd]
  constructor
  · intro q
    simp
  · exact List.nodup_singleton p
  · simp
  · exact ⟨_, List.mem_singleton_self _, rfl⟩
  · exact ⟨_, List.mem_singleton_self _, rfl⟩
  · intro a ha hmarker
    rw [List.mem_singleton.1 ha] at hmarker ⊢
    dsimp only at hmarker ⊢
    rw [if_pos hmarker, if_pos hmarker, hlast hmarker]
    exact ⟨rfl, now, rfl, Nat.le_refl _⟩
  · intro t ht
    refine ⟨_, List.mem_singleton_self _, ?_⟩
    dsimp only at ht ⊢
    by_cases hmarker : p.marker = true
    · rw [if_pos hmarker] at ht
      exact ⟨hmarker, Option.some.inj ht⟩
    · rw [if_neg hmarker] at ht
      cases ht

section

variable {key : Key} {last : UInt16} {sets : List Nal} {packets : List RtpPacket}

theorem Collects.subset {arrived : List Arrival} {g : Group} (h : Collects last arrived g)
    (harrives : Arrives packets arrived) : g.packets ⊆ packets := by
  intro p hp
  obtain ⟨now, hin⟩ := (h.mem p).1 hp
  exact harrives.only _ hin

theorem Collects.contains {arrived : List Arrival} {g : Group} (h : Collects last arrived g)
    (hpicture : PicturePackets key last sets packets) (harrives : Arrives packets arrived)
    {p : RtpPacket} (hp : p ∈ packets) : g.contains p.seq = true ↔ p ∈ g.packets := by
  unfold Group.contains
  rw [List.any_eq_true]
  constructor
  · rintro ⟨q, hq, hseq⟩
    have := hpicture.distinct q (h.subset harrives hq) p hp (by simpa using hseq)
    rwa [this] at hq
  · exact fun hin => ⟨p, hin, by simp⟩

theorem Collects.duplicate {arrived : List Arrival} {g : Group} (h : Collects last arrived g)
    {p : RtpPacket} {before now : Nat} (hbefore : (p, before) ∈ arrived) (hle : before ≤ now) :
    Collects last (arrived ++ [(p, now)]) g := by
  constructor
  · intro q
    rw [h.mem q]
    constructor
    · rintro ⟨t, hin⟩
      exact ⟨t, List.mem_append_left _ hin⟩
    · rintro ⟨t, hin⟩
      rcases List.mem_append.1 hin with hold | hnew
      · exact ⟨t, hold⟩
      · rw [List.mem_singleton, Prod.mk.injEq] at hnew
        rw [hnew.1]
        exact ⟨before, hbefore⟩
  · exact h.nodup
  · exact h.bytes
  · obtain ⟨a, ha, hfirst⟩ := h.first
    exact ⟨a, List.mem_append_left _ ha, hfirst⟩
  · obtain ⟨a, ha, hlast⟩ := h.lastPacket
    exact ⟨a, List.mem_append_left _ ha, hlast⟩
  · intro a ha hmarker
    rcases List.mem_append.1 ha with hold | hnew
    · exact h.marked a hold hmarker
    · rw [List.mem_singleton.1 hnew] at hmarker ⊢
      obtain ⟨hlast, t, ht, hat⟩ := h.marked _ hbefore hmarker
      exact ⟨hlast, t, ht, Nat.le_trans hat hle⟩
  · intro t ht
    obtain ⟨a, ha, hmarker, hat⟩ := h.markedAt t ht
    exact ⟨a, List.mem_append_left _ ha, hmarker, hat⟩

theorem Collects.markerAt_join {arrived : List Arrival} {g : Group}
    (h : Collects last arrived g) {p : RtpPacket} {now t : Nat}
    (ht : (if p.marker then some (g.markerAt.getD now) else g.markerAt) = some t) :
    ∃ a ∈ arrived ++ [(p, now)], a.1.marker = true ∧ a.2 = t := by
  have hold : g.markerAt = some t → ∃ a ∈ arrived ++ [(p, now)], a.1.marker = true ∧ a.2 = t := by
    intro hat
    obtain ⟨a, ha, hmarker, hat⟩ := h.markedAt t hat
    exact ⟨a, List.mem_append_left _ ha, hmarker, hat⟩
  by_cases hp : p.marker = true
  · rw [if_pos hp] at ht
    cases hat : g.markerAt with
    | none =>
        rw [hat] at ht
        exact ⟨(p, now), by simp, hp, Option.some.inj ht⟩
    | some t' =>
        rw [hat] at ht
        exact hold (hat.trans ht)
  · rw [if_neg hp] at ht
    exact hold ht

/-- A marker among the arrivals is not earlier than the time that the group keeps. -/
theorem Collects.markerAt_le {arrived : List Arrival} {g : Group} (h : Collects last arrived g)
    {p : RtpPacket} {now : Nat} (hlater : ∀ a ∈ arrived, a.2 ≤ now) {a : Arrival}
    (ha : a ∈ arrived ++ [(p, now)]) (hmarker : a.1.marker = true) :
    g.markerAt.getD now ≤ a.2 := by
  rcases List.mem_append.1 ha with hold | hlatest
  · obtain ⟨t, ht, hle⟩ := (h.marked a hold hmarker).2
    rw [ht]
    exact hle
  · rw [List.mem_singleton.1 hlatest]
    cases hat : g.markerAt with
    | none => exact Nat.le_refl now
    | some t =>
        obtain ⟨b, hb, _, hbt⟩ := h.markedAt t hat
        rw [Option.getD_some, ← hbt]
        exact hlater b hb

/-- A new packet joins the group. -/
theorem Collects.join {arrived : List Arrival} {g : Group} (h : Collects last arrived g)
    {p : RtpPacket} {now : Nat} (hnew : g.contains p.seq = false) (hfresh : p ∉ g.packets)
    (hlast : p.marker = true → p.seq = last) (hlater : ∀ a ∈ arrived, a.2 ≤ now) :
    Collects last (arrived ++ [(p, now)]) (g.add p now) := by
  unfold Group.add
  rw [if_neg (by rw [hnew]; exact Bool.false_ne_true)]
  constructor
  · intro q
    rw [List.mem_append, h.mem q, List.mem_singleton]
    constructor
    · rintro (⟨t, hin⟩ | rfl)
      · exact ⟨t, List.mem_append_left _ hin⟩
      · exact ⟨now, by simp⟩
    · rintro ⟨t, hin⟩
      rcases List.mem_append.1 hin with hold | hlatest
      · exact Or.inl ⟨t, hold⟩
      · rw [List.mem_singleton, Prod.mk.injEq] at hlatest
        exact Or.inr hlatest.1
  · rw [List.nodup_append]
    refine ⟨h.nodup, List.nodup_singleton p, ?_⟩
    intro a ha b hb heq
    rw [List.mem_singleton.1 hb] at heq
    exact hfresh (heq ▸ ha)
  · simp [h.bytes]
  · obtain ⟨a, ha, hfirst⟩ := h.first
    exact ⟨a, List.mem_append_left _ ha, hfirst⟩
  · exact ⟨(p, now), by simp, rfl⟩
  · intro a ha hmarker
    dsimp only
    by_cases hp : p.marker = true
    · rw [if_pos hp, if_pos hp, hlast hp]
      exact ⟨rfl, _, rfl, h.markerAt_le hlater ha hmarker⟩
    · rcases List.mem_append.1 ha with hold | hlatest
      · rw [if_neg hp, if_neg hp]
        exact h.marked a hold hmarker
      · rw [List.mem_singleton.1 hlatest] at hmarker
        exact absurd hmarker hp
  · intro t ht
    exact h.markerAt_join ht

/-- A packet that arrives joins the group; a duplicate changes nothing. -/
theorem Collects.add {arrived : List Arrival} {g : Group} (h : Collects last arrived g)
    (hpicture : PicturePackets key last sets packets) {p : RtpPacket} {now : Nat}
    (harrives : Arrives packets (arrived ++ [(p, now)])) :
    Collects last (arrived ++ [(p, now)]) (g.add p now) := by
  have hp : p ∈ packets := harrives.only (p, now) (by simp)
  have hlater : ∀ a ∈ arrived, a.2 ≤ now := fun a ha =>
    (List.pairwise_append.1 harrives.ordered).2.2 a ha (p, now) (by simp)
  have hcontains := h.contains hpicture harrives.before hp
  by_cases hduplicate : g.contains p.seq = true
  · obtain ⟨before, hbefore⟩ := (h.mem p).1 (hcontains.1 hduplicate)
    unfold Group.add
    rw [if_pos hduplicate]
    exact h.duplicate hbefore (hlater _ hbefore)
  · exact h.join (Bool.eq_false_of_not_eq_true hduplicate)
      (fun hin => hduplicate (hcontains.2 hin)) (hpicture.marker p hp).1 hlater

theorem Collects.limits {arrived : List Arrival} {g : Group} (h : Collects last arrived g)
    (hpicture : PicturePackets key last sets packets) (harrives : Arrives packets arrived) :
    g.packets.length ≤ 8192 ∧ g.bytes ≤ maxGroupBytes := by
  have hsubperm := List.subperm_of_subset h.nodup (h.subset harrives)
  constructor
  · exact hsubperm.length_le.trans hpicture.count
  · rw [h.bytes]
    obtain ⟨l, hperm, hsublist⟩ := hsubperm
    calc (g.packets.map fun p => p.payload.length).sum
        = (l.map fun p => p.payload.length).sum := (hperm.map _).sum_nat.symm
      _ ≤ (packets.map fun p => p.payload.length).sum :=
          (hsublist.map _).sum_le_sum fun _ _ => Nat.zero_le _
      _ ≤ maxGroupBytes := hpicture.bytes

/-- The repair window is open as long as packets arrive. -/
theorem Collects.waits {arrived : List Arrival} {g : Group} (h : Collects last arrived g)
    (harrives : Arrives packets arrived) {a : Arrival} (ha : a ∈ arrived) :
    g.waits a.2 = true := by
  unfold Group.waits
  cases hat : g.markerAt with
  | none =>
      obtain ⟨b, hb, hfirst⟩ := h.first
      obtain ⟨c, hc, hlast⟩ := h.lastPacket
      have hspan := harrives.span b hb a ha
      have hidle := harrives.span c hc a ha
      rw [Bool.and_eq_true, decide_eq_true_eq, decide_eq_true_eq, incompleteIdleMs, maxGroupAgeMs,
        ← hfirst, ← hlast]
      omega
  | some t =>
      obtain ⟨b, hb, hmarker, hbt⟩ := h.markedAt t hat
      have hrepair := harrives.repair b hb hmarker a ha
      rw [decide_eq_true_eq, holdMs, ← hbt]
      omega

/-! ## Steps -/

/-- A depacketizer that has seen nothing but the picture. -/
structure Fresh (sets : List Nal) (key : Key) (d : Depacketizer) : Prop where
  tiles : d.tiles = 1
  lastTs : d.lastTs = ∅
  nextPts : d.nextPts = 0
  generation : d.generation = 0
  lossEpoch : d.lossEpoch = 0
  dropped : d.dropped = 0
  params : Stored sets d.params
  observed : ∀ s, d.observed.lookup key.1 = some s →
    s.donl ≠ some false ∧ s.prefixPackets = [] ∧ ∀ nal ∈ s.params, nal ∈ sets

inductive Collecting (last : UInt16) (key : Key) (d : Depacketizer) : List Arrival → Prop
  | idle : d.sources = [] → d.groups = ∅ → Collecting last key d []
  | group {arrived g} : d.sources = [key.1] → d.groups = AList.singleton key g →
      Collects last arrived g → Collecting last key d arrived

theorem Collecting.exists_group {d : Depacketizer} {arrived : List Arrival}
    (h : Collecting last key d arrived) {a : Arrival} (ha : a ∈ arrived) :
    ∃ g, d.sources = [key.1] ∧ d.groups = AList.singleton key g ∧ Collects last arrived g := by
  cases h with
  | idle => cases ha
  | @group _ g hsources hgroups hcollects => exact ⟨g, hsources, hgroups, hcollects⟩

theorem observe_fresh (hpicture : PicturePackets key last sets packets) {d : Depacketizer}
    (h : Fresh sets key d) {p : RtpPacket} (hp : p ∈ packets) (now : Nat) :
    ∃ d', d.observe p now = some d' ∧ Fresh sets key d' ∧ d'.sources = d.sources ∧
      d'.groups = d.groups := by
  have hkey : p.ssrc = key.1 := congrArg Prod.fst (hpicture.source p hp)
  have hheader := hpicture.header p hp
  unfold Depacketizer.observe
  rw [hkey]
  by_cases hroom : (d.observed.lookup key.1).isSome = true ∨ d.observed.keys.length < 32
  · rw [if_pos hroom, nalKind_eq _ (by omega), Option.bind_some]
    refine ⟨_, rfl, ⟨h.tiles, h.lastTs, h.nextPts, h.generation, h.lossEpoch, h.dropped,
      h.params, ?_⟩,
      rfl, rfl⟩
    intro s hs
    rw [show _ = _ from AList.lookup_insert _] at hs
    cases hs
    have hold : ∀ s, (d.observed.lookup key.1).getD Depacketizer.unobserved = s →
        s.donl ≠ some false ∧ s.prefixPackets = [] ∧ ∀ nal ∈ s.params, nal ∈ sets := by
      intro s hs
      cases hknown : d.observed.lookup key.1 with
      | none =>
          rw [hknown] at hs
          cases hs
          exact ⟨by decide, rfl, fun nal hnal => by cases hnal⟩
      | some s' =>
          rw [hknown] at hs
          cases hs
          exact h.observed _ hknown
    generalize (d.observed.lookup key.1).getD Depacketizer.unobserved = s at hold ⊢
    obtain ⟨hdonl, hheld, hparams⟩ := hold s rfl
    by_cases haggregate : p.payload[0] >>> 1 &&& 63 = 48
    · rw [if_pos haggregate]
      rcases hpicture.framing p hp (by rw [nalKind_eq _ (by omega), haggregate]) with
        ⟨params, hparse, hsets⟩
      unfold Depacketizer.inferFraming
      rw [hparse]
      cases parseParameterAp (p.payload.drop 2) [] with
      | none => exact ⟨by simp, hheld, hsets⟩
      | some _ => exact ⟨hdonl, hheld, hparams⟩
    · rw [if_neg haggregate]
      exact ⟨hdonl, hheld, hparams⟩
  · rw [if_neg hroom]
    exact ⟨d, rfl, h, rfl, rfl⟩

theorem select_fresh {d : Depacketizer} (h : Fresh sets key d) {p : RtpPacket}
    (hkey : p.ssrc = key.1) {arrived : List Arrival} (hcollecting : Collecting last key d arrived)
    (now : Nat) :
    ∃ d', d.select p now = some { selected := true, events := [], state := d' } ∧
      Fresh sets key d' ∧ d'.sources = [key.1] ∧ d'.groups = d.groups := by
  unfold Depacketizer.select
  cases hcollecting with
  | idle hsources _ =>
      rw [hsources, if_neg (by simp), if_neg (by rw [h.tiles]; decide), hkey]
      exact ⟨_, rfl, ⟨h.tiles, h.lastTs, h.nextPts, h.generation, h.lossEpoch, h.dropped,
      h.params, h.observed⟩, rfl, rfl⟩
  | group hsources _ _ =>
      rw [if_pos (by rw [hsources, hkey]; exact List.mem_singleton_self _)]
      exact ⟨d, rfl, h, hsources, rfl⟩

theorem takePrefix_fresh {d : Depacketizer} (h : Fresh sets key d) :
    ∃ d', d.takePrefix key.1 = ([], d') ∧ Fresh sets key d' ∧ d'.sources = d.sources ∧
      d'.groups = d.groups := by
  unfold Depacketizer.takePrefix
  cases hs : d.observed.lookup key.1 with
  | none => exact ⟨d, rfl, h, rfl, rfl⟩
  | some s =>
      obtain ⟨hdonl, hheld, hparams⟩ := h.observed s hs
      dsimp only
      rw [hheld]
      refine ⟨_, rfl, ⟨h.tiles, h.lastTs, h.nextPts, h.generation, h.lossEpoch, h.dropped,
      h.params, ?_⟩,
        rfl, rfl⟩
      intro s' hs'
      rw [show _ = _ from AList.lookup_insert _] at hs'
      cases hs'
      exact ⟨hdonl, rfl, hparams⟩

theorem prepare_fresh {d : Depacketizer} (h : Fresh sets key d) (now : Nat) :
    Fresh sets key (d.prepare key.1 now) := by
  refine ⟨h.tiles, h.lastTs, h.nextPts, h.generation, h.lossEpoch, h.dropped, ?_,
    h.observed⟩
  apply h.params.foldl
  cases hs : d.observed.lookup key.1 with
  | none => exact fun nal hnal => by cases hnal
  | some s => exact (h.observed s hs).2.2

theorem insertPacket_collects (hpicture : PicturePackets key last sets packets)
    {d : Depacketizer} (h : Fresh sets key d) (hsources : d.sources = [key.1]) {p : RtpPacket}
    {now : Nat} {arrived : List Arrival} (harrives : Arrives packets (arrived ++ [(p, now)]))
    (hgroup : Collects last (arrived ++ [(p, now)])
      (((d.groups.lookup key).getD (Group.new now d.nextGroup)).add p now))
    (hinsert : ∀ g, d.groups.insert key g = AList.singleton key g) :
    ∃ d', d.insertPacket p now = ([], d') ∧ Fresh sets key d' ∧
      Collecting last key d' (arrived ++ [(p, now)]) := by
  have hkey : (p.ssrc, p.timestamp) = key :=
    hpicture.source p (harrives.only (p, now) (by simp))
  obtain ⟨hcount, hbytes⟩ := hgroup.limits hpicture harrives
  unfold Depacketizer.insertPacket
  rw [hkey]
  dsimp only
  rw [if_neg (by omega)]
  refine ⟨_, rfl, ⟨h.tiles, h.lastTs, h.nextPts, h.generation, h.lossEpoch, h.dropped,
    h.params, h.observed⟩, ?_⟩
  exact .group hsources (hinsert _) hgroup

theorem place_collects (tieBreak : Nat → Key) (hpicture : PicturePackets key last sets packets)
    {d : Depacketizer} (h : Fresh sets key d) (hsources : d.sources = [key.1]) {p : RtpPacket}
    {now : Nat} {arrived : List Arrival} (harrives : Arrives packets (arrived ++ [(p, now)]))
    (hgroups : (d.groups = ∅ ∧ arrived = []) ∨
      ∃ g, d.groups = AList.singleton key g ∧ Collects last arrived g) :
    ∃ d', d.place tieBreak p now = ([], d') ∧ Fresh sets key d' ∧
      Collecting last key d' (arrived ++ [(p, now)]) := by
  have hp : p ∈ packets := harrives.only (p, now) (by simp)
  have hkey : (p.ssrc, p.timestamp) = key := hpicture.source p hp
  have hsize : p.payload.length ≤ maxGroupBytes := by
    calc p.payload.length
        ≤ (packets.map fun p => p.payload.length).sum :=
          List.le_sum_of_mem (List.mem_map_of_mem hp)
      _ ≤ maxGroupBytes := hpicture.bytes
  unfold Depacketizer.place
  rw [hkey]
  dsimp only
  rcases hgroups with ⟨hempty, rfl⟩ | ⟨g, hsingle, hcollects⟩
  · have hnone : d.groups.lookup key = none := by
      rw [hempty]
      exact AList.lookup_empty key
    have hpending : d.pendingBytes = 0 := by
      rw [Depacketizer.pendingBytes, hempty]
      rfl
    rcases insertPacket_collects hpicture h hsources harrives (by
      rw [hnone, Option.getD_none]
      exact collects_new (hpicture.marker p hp).1 now d.nextGroup) (by
      intro g
      rw [hempty]
      rfl) with ⟨d', hd', hfresh, hcollecting⟩
    rw [if_neg (by
      rw [hpending]
      unfold maxGroupBytes maxPendingBytes at *
      omega), if_neg (by
      rw [hempty]
      exact fun hfull => absurd hfull.2 (by decide)), hd']
    exact ⟨d', rfl, hfresh, hcollecting⟩
  · have hsome : d.groups.lookup key = some g := by
      rw [hsingle]
      exact AList.lookup_insert ∅
    have hpending : d.pendingBytes = g.bytes := by
      rw [Depacketizer.pendingBytes, hsingle]
      exact Nat.add_zero _
    have hbytes := (hcollects.limits hpicture harrives.before).2
    rcases insertPacket_collects hpicture h hsources harrives (by
      rw [hsome, Option.getD_some]
      exact hcollects.add hpicture harrives) (by
      intro g
      rw [hsingle]
      exact AList.insert_singleton_eq) with ⟨d', hd', hfresh, hcollecting⟩
    rw [if_neg (by
      rw [hpending]
      unfold maxGroupBytes maxPendingBytes at *
      omega), if_neg (by
      rw [hsome]
      exact fun hfull => by cases hfull.1), hd']
    exact ⟨d', rfl, hfresh, hcollecting⟩

/-- The source is selected, so a poll looks at the only group. -/
theorem poll_group {d : Depacketizer} (h : Fresh sets key d) (hsources : d.sources = [key.1])
    {g : Group} (hgroups : d.groups = AList.singleton key g) (now : Nat) :
    d.poll now =
      if g.waits now then some ([], d)
      else ((d.removeGroup key).resolve key g).map fun (outcome, d') =>
        ([.resolved key g outcome], d') :=
  poll_single key h.tiles hsources hgroups h.lastTs now

theorem push_collects (tieBreak : Nat → Key) (hpicture : PicturePackets key last sets packets)
    {d : Depacketizer} (h : Fresh sets key d) {arrived : List Arrival} {p : RtpPacket} {now : Nat}
    (harrives : Arrives packets (arrived ++ [(p, now)]))
    (hcollecting : Collecting last key d arrived) :
    ∃ d', d.push tieBreak p now = some ([], d') ∧ Fresh sets key d' ∧
      Collecting last key d' (arrived ++ [(p, now)]) := by
  have hp : p ∈ packets := harrives.only (p, now) (by simp)
  have hssrc : p.ssrc = key.1 := congrArg Prod.fst (hpicture.source p hp)
  have hheader := hpicture.header p hp
  unfold Depacketizer.push
  dsimp only
  rw [if_neg (by omega)]
  obtain ⟨counters, hcounted⟩ := countHeader_same d p
  rw [hcounted]
  have h₁ : Fresh sets key { d with counters } :=
    ⟨h.tiles, h.lastTs, h.nextPts, h.generation, h.lossEpoch, h.dropped,
      h.params, h.observed⟩
  obtain ⟨d₂, hobserve, h₂, hsources₂, hgroups₂⟩ := observe_fresh hpicture h₁ hp now
  have hcollecting₂ : Collecting last key d₂ arrived := by
    cases hcollecting with
    | idle hsources hgroups => exact .idle (hsources₂.trans hsources) (hgroups₂.trans hgroups)
    | group hsources hgroups hcollects =>
        exact .group (hsources₂.trans hsources) (hgroups₂.trans hgroups) hcollects
  obtain ⟨d₃, hselect, h₃, hsources₃, hgroups₃⟩ := select_fresh h₂ hssrc hcollecting₂ now
  obtain ⟨d₄, htake, h₄, hsources₄, hgroups₄⟩ := takePrefix_fresh h₃
  rw [hobserve, Option.bind_some, hselect, Option.bind_some, if_pos rfl, hssrc, htake]
  dsimp only
  rw [List.nil_append, Depacketizer.pushAll, Depacketizer.pushSelected, hssrc]
  have hgroups₅ : (d₄.prepare key.1 now).groups = d.groups :=
    hgroups₄.trans (hgroups₃.trans hgroups₂)
  rcases place_collects tieBreak hpicture (prepare_fresh h₄ now) (hsources₄.trans hsources₃)
    harrives (by
      rw [hgroups₅]
      cases hcollecting with
      | idle _ hgroups => exact Or.inl ⟨hgroups, rfl⟩
      | group _ hgroups hcollects => exact Or.inr ⟨_, hgroups, hcollects⟩) with
    ⟨d', hplace, hfresh, hcollecting'⟩
  rw [hplace]
  dsimp only
  have hpoll : d'.poll now = some ([], d') := by
    have hlatest : (p, now) ∈ arrived ++ [(p, now)] := by simp
    obtain ⟨g, hsources, hgroups, hcollects⟩ := hcollecting'.exists_group hlatest
    rw [poll_group hfresh hsources hgroups, if_pos (hcollects.waits harrives hlatest)]
  rw [hpoll]
  exact ⟨d', rfl, hfresh, hcollecting'⟩

theorem run_collects (tieBreak : Nat → Key) (hpicture : PicturePackets key last sets packets)
    {d : Depacketizer} (h : Fresh sets key d) (arrived rest : List Arrival)
    (harrives : Arrives packets (arrived ++ rest)) (hcollecting : Collecting last key d arrived) :
    ∃ d', d.run tieBreak (rest.map fun a => Op.push a.1 a.2) = some ([], d') ∧
      Fresh sets key d' ∧ Collecting last key d' (arrived ++ rest) := by
  induction rest generalizing d arrived with
  | nil =>
      rw [List.append_nil]
      exact ⟨d, rfl, h, hcollecting⟩
  | cons a rest ih =>
      have hsplit : arrived ++ a :: rest = arrived ++ [a] ++ rest := by simp
      rw [hsplit] at harrives ⊢
      rcases push_collects tieBreak hpicture h harrives.before hcollecting with
        ⟨d₁, hpush, h₁, hcollecting₁⟩
      obtain ⟨d', hrun, h', hcollecting'⟩ := ih h₁ (arrived ++ [a]) harrives hcollecting₁
      exact ⟨d', run_cons (show d.step tieBreak (.push a.1 a.2) = _ from hpush) hrun, h',
        hcollecting'⟩

end

/-! ## Completion -/

/-- A delivery of the picture: every packet arrives, within the repair window. -/
structure Delivery (packets : List RtpPacket) (arrivals : List Arrival) : Prop where
  arrives : Arrives packets arrivals
  all : ∀ p ∈ packets, ∃ now, (p, now) ∈ arrivals

theorem fresh_new (sets : List Nal) (key : Key) : Fresh sets key (Depacketizer.new 1) :=
  ⟨rfl, rfl, rfl, rfl, rfl, rfl, stored_nil sets, fun s hs => by cases hs⟩

theorem Collects.sort {key : Key} {last : UInt16} {sets : List Nal} {packets : List RtpPacket}
    {arrivals : List Arrival} {g : Group} (h : Collects last arrivals g)
    (hpicture : PicturePackets key last sets packets) (hdelivery : Delivery packets arrivals) :
    sortByDistance last g.packets = packets := by
  apply insertionSort_eq_of_perm (f := fun p => (last - p.seq).toNat)
  · exact fun a b => UInt16.le_iff_toNat_le
  · rw [List.perm_ext_iff_of_nodup h.nodup hpicture.nodup]
    intro p
    rw [h.mem p]
    constructor
    · rintro ⟨now, hin⟩
      exact hdelivery.arrives.only _ hin
    · exact hdelivery.all p
  · exact hpicture.ordered

theorem validNal_pieces {pieces : List Piece} (h : ∀ piece ∈ pieces, piece.Valid) :
    ∀ nal ∈ pieces.flatMap Piece.nals, ValidNal nal := by
  intro nal hnal
  obtain ⟨piece, hpiece, hin⟩ := List.mem_flatMap.1 hnal
  have hvalid := h piece hpiece
  cases piece with
  | single donl nal' =>
      rw [List.mem_singleton.1 hin]
      exact hvalid
  | fragments donl h0 h1 bodies =>
      rw [List.mem_singleton.1 hin]
      exact hvalid.nal
  | aggregate h0 h1 donl nals => exact (hvalid.valid nal hin).1

theorem isSlice_of_isIrap {nal : Nal} (hlen : 3 ≤ nal.length) (h : isIrap nal = true) :
    isSlice nal = true := by
  unfold isIrap at h
  unfold isSlice
  rw [nalKind_eq nal (by omega), Option.any_some, Bool.and_eq_true, decide_eq_true_eq,
    decide_eq_true_eq] at h
  rw [nalKind_eq nal (by omega), Option.any_some, Bool.and_eq_true, decide_eq_true_eq,
    decide_eq_true_eq]
  exact ⟨hlen, UInt8.le_trans h.2 (by decide)⟩

theorem storable_subset (pieces : List Piece) :
    ∀ nal ∈ storable (pieces.flatMap Piece.nals), nal ∈ parameterSets pieces := by
  intro nal hnal
  obtain ⟨hin, hparam⟩ := List.mem_filter.1 hnal
  exact List.mem_filter.2 ⟨hin, (Bool.and_eq_true_iff.1 hparam).1⟩

def keyUnit (key : Key) (pieces : List Piece) (params : List Nal) : AccessUnit :=
  { generation := 0
    lossEpoch := 0
    data :=
      paramsOfKind params 32 ++ paramsOfKind params 33 ++ paramsOfKind params 34 ++
        ((pieces.flatMap Piece.nals).filter isSlice).flatMap fun nal => startCode ++ nal
    tile := 0
    pts := 0
    rtpTimestamp := key.2
    donl := ((pieces.head?).map Piece.donl).getD 0
    key := true }

theorem Fresh.appleDonl {sets : List Nal} {key : Key} {d : Depacketizer} (h : Fresh sets key d) :
    d.appleDonl key.1 = true := by
  unfold Depacketizer.appleDonl
  cases hs : d.observed.lookup key.1 with
  | none => rfl
  | some s =>
      have hne := (h.observed s hs).1
      rw [Option.bind_some]
      cases hinferred : s.donl with
      | none => rfl
      | some apple =>
          cases apple with
          | true => rfl
          | false => exact absurd hinferred hne

/-- The sorted packets of a picture hold its NAL units. -/
theorem contents_packetize {key : Key} {pt : UInt8} {start : UInt16} {pieces : List Piece}
    (hvalid : ValidPicture pieces) {last : UInt16} {d : Depacketizer}
    (h : Fresh (parameterSets pieces) key d) {g : Group} (hmarker : g.marker = some last)
    (hsort : sortByDistance last g.packets = packetize key pt start pieces) :
    Contents d key g (pieces.flatMap Piece.nals) ((pieces.head?.map Piece.donl).getD 0) := by
  have hheaded : Headed (pieces.flatMap Piece.nals) := fun nal hnal => by
    have := (validNal_pieces hvalid.valid nal hnal).length
    omega
  have hsome : pieces.head?.map Piece.donl = some ((pieces.head?.map Piece.donl).getD 0) := by
    obtain ⟨frame, hframe, _⟩ := hvalid.key
    cases pieces with
    | nil => cases hframe
    | cons => rfl
  refine ⟨⟨last, hmarker, ?_, ?_⟩, hheaded⟩
  · rw [hsort]
    exact consecutive_number _
  · rw [hsort, h.appleDonl, packetize, map_payload_number]
    exact reassemble_payloads hvalid.valid hsome

/-- Resolving the complete group emits the picture. -/
theorem resolve_emits {key : Key} {pt : UInt8} {start : UInt16} {pieces : List Piece}
    (hvalid : ValidPicture pieces) {last : UInt16} {d : Depacketizer}
    (h : Fresh (parameterSets pieces) key d) (hsources : d.sources = [key.1]) {g : Group}
    (hmarker : g.marker = some last)
    (hsort : sortByDistance last g.packets = packetize key pt start pieces) :
    ∃ d', d.resolve key g = some (.emitted (keyUnit key pieces
          ((storable (pieces.flatMap Piece.nals)).foldl storeParam d.params)), d') ∧
      d'.dropped = 0 ∧ d'.lossEpoch = 0 := by
  obtain ⟨leading, hleading, hslice, hstarts⟩ := hvalid.first
  obtain ⟨frame, hframe, hirap⟩ := hvalid.key
  have hfirst : ((pieces.flatMap Piece.nals).filter isSlice).any startsPicture = true :=
    List.any_eq_true.2 ⟨leading, List.mem_filter.2 ⟨hleading, hslice⟩, hstarts⟩
  have hkey : ((pieces.flatMap Piece.nals).filter isSlice).any isIrap = true := by
    have hlen := (validNal_pieces hvalid.valid frame hframe).length
    exact List.any_eq_true.2
      ⟨frame, List.mem_filter.2 ⟨hframe, isSlice_of_isIrap hlen hirap⟩, hirap⟩
  have hstored := h.params.foldl (storable_subset pieces)
  obtain ⟨counters, hresolve⟩ := resolve_contents (contents_packetize hvalid h hmarker hsort)
  have hpref : parameterPrefix (paramsAfter d (pieces.flatMap Piece.nals)) = some
      (paramsOfKind (paramsAfter d (pieces.flatMap Piece.nals)) 32 ++
        paramsOfKind (paramsAfter d (pieces.flatMap Piece.nals)) 33 ++
        paramsOfKind (paramsAfter d (pieces.flatMap Piece.nals)) 34) := by
    refine if_neg fun hnil => ?_
    have := (validNal_pieces hvalid.valid [] (List.mem_of_mem_filter (hstored.sets [] hnil))).length
    exact absurd this (by decide)
  have htile : d.sources.idxOf? key.1 = some 0 := by
    rw [hsources]
    simp [List.idxOf?]
  rw [hresolve, finish_emits
    (d := { d with params := paramsAfter d (pieces.flatMap Piece.nals), counters })
    hfirst (Or.inr hkey) hpref htile, hkey, if_pos rfl]
  refine ⟨_, congrArg some (Prod.ext ?_ rfl), h.dropped, h.lossEpoch⟩
  dsimp only
  rw [h.generation, h.lossEpoch, h.nextPts]
  rfl

/-- A key picture whose packets arrive in any order and any number of times is
emitted once, by a poll after the repair window, with its NAL units in order:
the parameter sets stored from it, then its slices. -/
theorem reordered_picture_emitted (tieBreak : Nat → Key) (key : Key) (pt : UInt8)
    (start : UInt16) {pieces : List Piece} (hvalid : ValidPicture pieces)
    {arrivals : List Arrival} (hdelivery : Delivery (packetize key pt start pieces) arrivals)
    {now : Nat} (hnow : ∃ a ∈ arrivals, a.1.marker = true ∧ a.2 + 25 ≤ now) :
    ∃ d events d' params,
      (Depacketizer.new 1).run tieBreak (arrivals.map fun a => Op.push a.1 a.2) = some ([], d) ∧
      d.poll now = some (events, d') ∧
      units events = [keyUnit key pieces params] ∧
      Stored (parameterSets pieces) params ∧
      ((parameterSets pieces).dedup.length ≤ 64 →
        ∀ nal ∈ parameterSets pieces, nal.length ≤ 65536 → nal ∈ params) ∧
      d'.dropped = 0 ∧ d'.lossEpoch = 0 := by
  have hpicture := picturePackets hvalid key pt start
  rcases run_collects tieBreak hpicture (fresh_new _ key) [] arrivals
    hdelivery.arrives (.idle rfl rfl) with ⟨d, hrun, hfresh, hcollecting⟩
  obtain ⟨a, ha, hmarker, hdue⟩ := hnow
  obtain ⟨g, hsources, hgroups, hcollects⟩ := hcollecting.exists_group ha
  obtain ⟨hlast, t, ht, hle⟩ := hcollects.marked a ha hmarker
  have hwaits : ¬g.waits now = true := by
    unfold Group.waits
    rw [ht, decide_eq_true_eq, holdMs]
    omega
  have hremoved : Fresh (parameterSets pieces) key (d.removeGroup key) :=
    ⟨hfresh.tiles, hfresh.lastTs, hfresh.nextPts, hfresh.generation, hfresh.lossEpoch,
      hfresh.dropped, hfresh.params, hfresh.observed⟩
  rcases resolve_emits hvalid hremoved hsources hlast (hcollects.sort hpicture hdelivery) with
    ⟨d', hresolve, hdropped, hepoch⟩
  have hpoll := poll_group hfresh hsources hgroups now
  rw [if_neg hwaits, hresolve] at hpoll
  refine ⟨d, _, d', _, hrun, hpoll, rfl, ?_, ?_, hdropped, hepoch⟩
  · exact hfresh.params.foldl (storable_subset pieces)
  · intro hroom nal hnal hsize
    apply hfresh.params.complete (storable_subset pieces) hroom
    obtain ⟨hin, hparam⟩ := List.mem_filter.1 hnal
    exact List.mem_filter.2 ⟨hin, Bool.and_eq_true_iff.2 ⟨hparam, decide_eq_true hsize⟩⟩

/-! ## Example -/

/-- A picture of an aggregate with parameter sets, a fragmented slice and a single one. -/
def fixturePicture : List Piece :=
  [.aggregate 96 1 7 [[64, 1, 12], [66, 1, 1], [68, 1, 192]],
    .fragments 8 38 1 [[175, 1], [2, 3]],
    .single 9 [2, 1, 80]]

def fixturePackets : List RtpPacket := packetize (11, 90000) 96 65534 fixturePicture

def fixtureArrivals : List Arrival :=
  [(3, 10), (1, 12), (1, 15), (0, 20), (2, 34)].filterMap fun a =>
    fixturePackets[a.1]?.map fun p => (p, a.2)

theorem fixturePicture_valid : ValidPicture fixturePicture where
  valid piece hpiece := by
    have haggregate : ∀ nal ∈ [[64, 1, 12], [66, 1, 1], [(68 : UInt8), 1, 192]],
        ValidNal nal ∧ nal.length < 2 ^ 16 := by
      intro nal hnal
      simp only [List.mem_cons, List.not_mem_nil, or_false] at hnal
      rcases hnal with rfl | rfl | rfl <;>
        exact ⟨⟨by decide, by decide, by decide, by decide⟩, by decide⟩
    simp only [fixturePicture, List.mem_cons, List.not_mem_nil, or_false] at hpiece
    rcases hpiece with rfl | rfl | rfl
    · exact ⟨by decide, haggregate, by decide, by decide⟩
    · exact ⟨⟨by decide, by decide, by decide, by decide⟩, by decide, by decide⟩
    · exact ⟨by decide, by decide, by decide, by decide⟩
  key := ⟨[38, 1, 175, 1, 2, 3], by decide, by decide⟩
  first := ⟨[38, 1, 175, 1, 2, 3], by decide, by decide⟩
  packets := by decide
  bytes := by decide

theorem fixture_delivered : Delivery fixturePackets fixtureArrivals where
  arrives := ⟨by decide, by decide, by decide, by decide⟩
  all p hp := by
    have hall : ∀ p ∈ fixturePackets, p ∈ fixtureArrivals.map Prod.fst := by decide
    obtain ⟨a, ha, rfl⟩ := List.mem_map.1 (hall p hp)
    exact ⟨a.2, ha⟩

theorem reordered_picture_emitted_fixture :
    ∃ d events d' params,
      (Depacketizer.new 1).run (fun _ => (0, 0))
        (fixtureArrivals.map fun a => Op.push a.1 a.2) = some ([], d) ∧
      d.poll 35 = some (events, d') ∧
      units events = [keyUnit (11, 90000) fixturePicture params] ∧
      Stored (parameterSets fixturePicture) params ∧
      ((parameterSets fixturePicture).dedup.length ≤ 64 →
        ∀ nal ∈ parameterSets fixturePicture, nal.length ≤ 65536 → nal ∈ params) ∧
      d'.dropped = 0 ∧ d'.lossEpoch = 0 :=
  reordered_picture_emitted (fun _ => (0, 0)) (11, 90000) 96 65534 fixturePicture_valid
    fixture_delivered (by decide)

end MacVnc.Media.DepacketizeOrder
