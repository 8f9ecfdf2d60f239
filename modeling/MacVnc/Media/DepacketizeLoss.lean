import MacVnc.Media.DepacketizeTrace
/-!
# Losses between pictures

While one source sends, two access units in a row with the same loss epoch have
no loss between them that the depacketizer could see: every group that left it in
between was overtaken by the first unit or held no slice.  A picture none of
whose packets arrive leaves no group and changes no epoch.
-/

namespace MacVnc.Media.DepacketizeLoss

open MacVnc.Lib.Transition
open MacVnc.Media.Srtp (RtpPacket)
open MacVnc.Media.Depacketize
open MacVnc.Media.DepacketizeGroup
open MacVnc.Media.DepacketizeTrace

/-! ## The loss epoch -/

theorem le_saturatingSucc (n : Nat) : n ≤ saturatingSucc n := by
  unfold saturatingSucc
  split <;> omega

theorem saturatingSucc_ne {n : Nat} (h : n < 2 ^ 64 - 1) : saturatingSucc n ≠ n := by
  rw [saturatingSucc, if_pos h]
  omega

theorem Settles.lossEpoch_le {d d' : Depacketizer} {key : Key} {g : Group} {outcome : Outcome}
    (h : Settles d key g outcome d') : d.lossEpoch ≤ d'.lossEpoch := by
  cases h with
  | incomplete => exact le_saturatingSucc _
  | headless => exact le_saturatingSucc _
  | noSlices => exact le_refl _
  | preKey => exact le_refl _
  | emitted => exact le_refl _

theorem emits_lossEpoch_le {d : Depacketizer} {e : Event} {d' : Depacketizer}
    (h : Emits d e d') : d.lossEpoch ≤ d'.lossEpoch := by
  cases h with
  | late => exact le_refl _
  | @due key _ _ _ _ _ hsettles =>
      have hremoved : d.lossEpoch = (d.removeGroup key).lossEpoch := rfl
      rw [hremoved]
      exact Settles.lossEpoch_le hsettles
  | evicted => exact le_saturatingSucc _
  | overflow => exact le_saturatingSucc _
  | refused => exact le_saturatingSucc _
  | handoff => exact le_refl _

theorem quiet_lossEpoch_le {d d' : Depacketizer} (h : Quiet d d') :
    d.lossEpoch ≤ d'.lossEpoch := by
  rw [h.lossEpoch]

/-! ## Groups that are no loss -/

/-- The packets of the group are numbered without a gap up to its marker. -/
def Whole (g : Group) : Prop :=
  ∃ last, g.marker = some last ∧ consecutive (sortByDistance last g.packets) = true

/-- The group is whole and reassembles to NAL units without slice data. -/
def NoSliceData (g : Group) : Prop :=
  ∃ last apple nals donl, g.marker = some last ∧
    consecutive (sortByDistance last g.packets) = true ∧
    reassemble ((sortByDistance last g.packets).map RtpPacket.payload) apple =
      some (.ok (nals, donl)) ∧
    ∀ nal ∈ nals, isSlice nal = false

/-- A group discarded because its timestamp is not newer than `emitted`, or
because it has no slice data. -/
def Harmless (ssrc emitted : UInt32) (e : Event) : Prop :=
  ∃ timestamp g,
    (e = .resolved (ssrc, timestamp) g (.discarded .lateTimestamp) ∧
      (timestamp - emitted).toBitVec.toInt ≤ 0) ∨
    (e = .resolved (ssrc, timestamp) g (.discarded .noVcl) ∧ NoSliceData g)

/-- After a unit of the source: the gate is open and its timestamp is the last. -/
def After (ssrc emitted : UInt32) (d : Depacketizer) : Prop :=
  d.haveKey = true ∧ d.lastTs.lookup ssrc = some emitted

theorem after_emitted {d d' : Depacketizer} {key : Key} {g : Group} {unit : AccessUnit}
    (h : Emits d (.resolved key g (.emitted unit)) d') :
    After key.1 unit.rtpTimestamp d' ∧ unit.lossEpoch = d.lossEpoch ∧
      d'.lossEpoch = d.lossEpoch ∧ Whole g := by
  cases h with
  | due _ _ hsettles =>
      cases hsettles with
      | emitted _ hc =>
          obtain ⟨last, hmarker, hconsecutive, _⟩ := hc.complete
          exact ⟨⟨rfl, AList.lookup_insert _⟩, rfl, rfl, last, hmarker, hconsecutive⟩

theorem After.quiet {ssrc emitted : UInt32} {d d' : Depacketizer} (h : After ssrc emitted d)
    (hstep : Quiet d d') : After ssrc emitted d' := by
  unfold After
  rw [hstep.haveKey, hstep.lastTs]
  exact h

theorem After.emits {ssrc emitted : UInt32} {d d' : Depacketizer} {e : Event}
    (h : After ssrc emitted d) (hsource : FromSources [ssrc] e) (hnone : e.unit? = none)
    (hstep : Emits d e d') : After ssrc emitted d' := by
  cases hstep with
  | late => exact h
  | due _ _ hsettles =>
      cases hsettles with
      | incomplete => exact h
      | headless => exact h
      | noSlices => exact h
      | preKey => exact h
      | emitted => cases hnone
  | evicted => exact h
  | overflow => exact h
  | refused => exact h
  | handoff => cases hsource

/-- An event that emits nothing and leaves the epoch alone is harmless. -/
theorem harmless_of_epoch {ssrc emitted : UInt32} {d d' : Depacketizer} {e : Event}
    (h : After ssrc emitted d) (hsource : FromSources [ssrc] e) (hnone : e.unit? = none)
    (hstep : Emits d e d') (hbound : d.lossEpoch < 2 ^ 64 - 1)
    (hepoch : d.lossEpoch = d'.lossEpoch) : Harmless ssrc emitted e := by
  have hloss : d.lossEpoch ≠ saturatingSucc d.lossEpoch := (saturatingSucc_ne hbound).symm
  cases hstep with
  | @late key g _ hlate =>
      have hkey : key.1 = ssrc := List.mem_singleton.1 hsource
      refine ⟨key.2, g, Or.inl ⟨by rw [← hkey], ?_⟩⟩
      unfold Depacketizer.late at hlate
      rw [hkey, h.2, Option.any_some] at hlate
      exact of_decide_eq_true hlate
  | @due key g _ _ _ _ hsettles =>
      have hkey : key.1 = ssrc := List.mem_singleton.1 hsource
      cases hsettles with
      | incomplete => exact absurd hepoch hloss
      | headless => exact absurd hepoch hloss
      | @noSlices nals donl _ hc hslices =>
          obtain ⟨last, hmarker, hconsecutive, hreassemble⟩ := hc.complete
          refine ⟨key.2, g, Or.inr ⟨by rw [← hkey], last, _, nals, donl, hmarker, hconsecutive,
            hreassemble, ?_⟩⟩
          intro nal hnal
          exact Bool.eq_false_iff.2 (List.filter_eq_nil_iff.1 hslices nal hnal)
      | preKey _ _ hgate =>
          have hopen : d.haveKey = true := h.1
          rw [show d.haveKey = false from hgate] at hopen
          cases hopen
      | emitted => cases hnone
  | evicted => exact absurd hepoch hloss
  | overflow => exact absurd hepoch hloss
  | refused => exact absurd hepoch hloss
  | handoff => cases hsource

theorem unit?_of_units {events : List Event} (h : units events = []) :
    ∀ e ∈ events, e.unit? = none := by
  intro e he
  unfold units at h
  exact List.filterMap_eq_nil_iff.1 h e he

/-- While one source sends, no received packet goes unaccounted, and between two
units in a row with the same loss epoch every group that left the depacketizer was
overtaken or held no slice. -/
theorem loss_changes_epoch (tieBreak : Nat → Key) (ssrc : UInt32) (ops : List Op)
    (hops : ∀ p now, Op.push p now ∈ ops → p.ssrc = ssrc) :
    ∃ events d, (Depacketizer.new 1).run tieBreak ops = some (events, d) ∧
      (∀ p now, Op.push p now ∈ ops → 2 ≤ p.payload.length → Accounted events d p) ∧
      (d.lossEpoch < 2 ^ 64 - 1 → ∀ before between after key₁ g₁ unit₁ key₂ g₂ unit₂,
        events = before ++ .resolved key₁ g₁ (.emitted unit₁) ::
          (between ++ .resolved key₂ g₂ (.emitted unit₂) :: after) →
        units between = [] → unit₁.lossEpoch = unit₂.lossEpoch →
        Whole g₂ ∧ ∀ e ∈ between, Harmless ssrc unit₁.rtpTimestamp e) := by
  obtain ⟨events, d, hrun, htrace, _⟩ := run_trace tieBreak (safe_new 1) ops
  have honly : OnlySource ssrc (Depacketizer.new 1) := fun other hother => by cases hother
  obtain ⟨hfrom, haccounted⟩ := run_single tieBreak (safe_new 1) honly hops hrun
  refine ⟨events, d, hrun, haccounted, ?_⟩
  intro hbound before between after key₁ g₁ unit₁ key₂ g₂ unit₂ hevents hnone hepoch
  subst hevents
  obtain ⟨m₁, n₁, _, hfirst, hrest⟩ := htrace.around
  obtain ⟨m₂, n₂, hbetween, hsecond, hafter⟩ := hrest.around
  obtain ⟨hstart, hepoch₁, hsame₁, _⟩ := after_emitted hfirst
  obtain ⟨_, hepoch₂, hsame₂, hwhole⟩ := after_emitted hsecond
  have hkey : key₁.1 = ssrc :=
    List.mem_singleton.1 (hfrom (.resolved key₁ g₁ (.emitted unit₁)) (by simp))
  rw [hkey] at hstart
  have hequal : n₁.lossEpoch = m₂.lossEpoch := by
    rw [hsame₁, ← hepoch₁, hepoch, hepoch₂]
  refine ⟨hwhole, fun e he => ?_⟩
  obtain ⟨first, second, hsplit⟩ := List.append_of_mem he
  rw [hsplit] at hbetween
  rcases hbetween.unraised (f := Depacketizer.lossEpoch) (fun _ _ => quiet_lossEpoch_le)
    (fun _ _ _ => emits_lossEpoch_le) hequal with ⟨m, n, hprior, hstep, hlater, hstays⟩
  have hquietEvents : ∀ e ∈ between, FromSources [ssrc] e ∧ e.unit? = none := by
    intro e he
    exact ⟨hfrom e (by simp [he]), unit?_of_units hnone e he⟩
  have hafter_m : After ssrc unit₁.rtpTimestamp m := by
    apply hprior.invariant (P := fun e => FromSources [ssrc] e ∧ e.unit? = none)
      (fun _ _ hquiet h => h.quiet hquiet) (fun _ _ _ hP hemits h => h.emits hP.1 hP.2 hemits)
    · intro e he
      exact hquietEvents e (by simp [hsplit, he])
    · exact hstart
  have hbound_m : m.lossEpoch < 2 ^ 64 - 1 := by
    have hto : m.lossEpoch = m₂.lossEpoch := by
      have hfromStart :=
        hprior.monotone (f := Depacketizer.lossEpoch) (fun _ _ => quiet_lossEpoch_le)
        (fun _ _ _ => emits_lossEpoch_le)
      have htoEnd := hlater.monotone (f := Depacketizer.lossEpoch) (fun _ _ => quiet_lossEpoch_le)
        (fun _ _ _ => emits_lossEpoch_le)
      omega
    have hend := hafter.monotone (f := Depacketizer.lossEpoch)
      (fun _ _ => quiet_lossEpoch_le) (fun _ _ _ => emits_lossEpoch_le)
    omega
  exact harmless_of_epoch hafter_m (hquietEvents e he).1 (hquietEvents e he).2 hstep hbound_m hstays

/-! ## A picture none of whose packets arrive -/

def slicePacket (seq : UInt16) (timestamp : UInt32) (kind : UInt8) : RtpPacket :=
  { ssrc := 1
    seq
    timestamp
    marker := true
    pt := 96
    payload := [kind * 2, 1, 0, 0, 128] }

/-- The key picture 1 and the picture 3 arrive; picture 2, which the sender
numbered between them, does not. -/
def lostPicture : List Op :=
  [.push (slicePacket 1 1 19) 0, .poll 30, .push (slicePacket 3 3 1) 40, .poll 70]

def numbered : Event → Option (List UInt16 × Nat × Nat)
  | .resolved _ g (.emitted unit) =>
      some (g.packets.map RtpPacket.seq, unit.generation, unit.lossEpoch)
  | _ => none

/-- Two units in a row carry the same generation and epoch although the picture
with sequence number 2 was never received. -/
theorem lostPicture_changes_no_epoch :
    ((Depacketizer.new 1).run (fun _ => (0, 0)) lostPicture).map
        (fun result => result.1.map numbered) =
      some [some ([1], 0, 0), some ([3], 0, 0)] ∧
    ∀ op ∈ lostPicture, ∀ p now, op = .push p now → p.seq ≠ 2 := by
  refine ⟨by decide +kernel, ?_⟩
  intro op hop p now hpush
  subst hpush
  simp only [lostPicture, List.mem_cons, List.not_mem_nil, or_false, reduceCtorEq, false_or,
    Op.push.injEq] at hop
  rcases hop with ⟨rfl, _⟩ | ⟨rfl, _⟩ <;> decide

/-- Picture 2 arrives without its marker and is given up before picture 3. -/
def strandedPicture : List Op :=
  [.push (slicePacket 1 1 19) 0, .poll 30, .push { slicePacket 2 2 1 with marker := false } 40,
    .push (slicePacket 3 3 1) 41, .poll 300]

theorem loss_changes_epoch_stranded :
    ((Depacketizer.new 1).run (fun _ => (0, 0)) strandedPicture).map
        (fun result => result.1.map numbered) =
      some [some ([1], 0, 0), none, some ([3], 0, 1)] ∧
    ∃ events d, (Depacketizer.new 1).run (fun _ => (0, 0)) strandedPicture = some (events, d) ∧
      (∀ p now, Op.push p now ∈ strandedPicture → 2 ≤ p.payload.length →
        Accounted events d p) ∧
      (d.lossEpoch < 2 ^ 64 - 1 → ∀ before between after key₁ g₁ unit₁ key₂ g₂ unit₂,
        events = before ++ .resolved key₁ g₁ (.emitted unit₁) ::
          (between ++ .resolved key₂ g₂ (.emitted unit₂) :: after) →
        units between = [] → unit₁.lossEpoch = unit₂.lossEpoch →
        Whole g₂ ∧ ∀ e ∈ between, Harmless 1 unit₁.rtpTimestamp e) := by
  refine ⟨by decide +kernel, ?_⟩
  apply loss_changes_epoch
  intro p now hpush
  simp only [strandedPicture, List.mem_cons, List.not_mem_nil, or_false, reduceCtorEq, false_or,
    Op.push.injEq] at hpush
  rcases hpush with ⟨rfl, _⟩ | ⟨rfl, _⟩ | ⟨rfl, _⟩ <;> rfl

end MacVnc.Media.DepacketizeLoss
