import MacVnc.Lib.Ledger
import MacVnc.Media.DepacketizeNumbers
/-!
# What becomes of the groups

Every group that is made is numbered, and a ledger of the numbers is kept beside the
depacketizer: the groups that were made, those that are pending, and how the others
left, by a poll, an eviction or a source handoff.  The ledger stays balanced over any
calls, polls serve it in order, and the counters of the source count its entries.
-/

namespace MacVnc.Media.DepacketizeAccounting

open MacVnc.Lib
open MacVnc.Lib.WeightedMap
open MacVnc.Media.Srtp (RtpPacket sub64)
open MacVnc.Media.Depacketize
open MacVnc.Media.DepacketizeGroup
open MacVnc.Media.DepacketizeTrace
open MacVnc.Media.DepacketizeFrame
open MacVnc.Media.DepacketizeNumbers

/-! ## The ledger -/

def isReassemblyError : Counter → Bool
  | .reassembleShort | .donlShort | .apDuringFu | .apSizeShort | .apSizeInvalid | .fuShort
  | .fuRestarted | .fuDonlChanged | .fuMissingStart | .singleDuringFu | .fuMissingEnd
  | .emptyGroup => true
  | _ => false

def isReason : Counter → Bool
  | .lateTimestamp | .missingMarker | .sequenceGap | .noVcl | .missingFirstSlice | .preKey
  | .groupLimit | .byteLimit => true
  | name => isReassemblyError name

inductive Fate where
  | resolved (outcome : Outcome)
  | cleared
deriving DecidableEq

/-- A poll resolved the group; the limits on groups and bytes are a push's. -/
def Fate.polled : Fate → Bool
  | .resolved (.emitted _) => true
  | .resolved (.discarded reason) => reason ≠ .groupLimit ∧ reason ≠ .byteLimit
  | .cleared => false

/-- The numbers of the groups that an event takes away, and how they left. -/
def closes : Event → List (Nat × Fate)
  | .resolved _ g outcome => [(g.order, .resolved outcome)]
  | .refused _ => []
  | .cleared groups => groups.map fun e => (e.2.order, .cleared)

def orders (groups : AList fun _ : Key => Group) : List Nat :=
  groups.entries.map fun e => e.2.order

def ledger (created : List Nat) (events : List Event) (d : Depacketizer) : Ledger Fate where
  issued := created
  opened := orders d.groups
  closed := events.flatMap closes

/-! ## Which groups are made -/

/-- The number of the group that `or_insert` makes, if the packet has none. -/
def madeByInsert (d : Depacketizer) (p : RtpPacket) : List Nat :=
  if d.groups.lookup (p.ssrc, p.timestamp) = none then [d.nextGroup] else []

def madeByPlace (tieBreak : Nat → Key) (d : Depacketizer) (p : RtpPacket) : List Nat :=
  let group := d.groups.lookup (p.ssrc, p.timestamp)
  let size := p.payload.length
  if ¬group.any (fun g => g.contains p.seq) = true ∧
      (maxGroupBytes < size ∨ maxPendingBytes < d.pendingBytes + size) then []
  else if group = none ∧ maxGroups ≤ d.groups.keys.length then
    madeByInsert (d.evictGroup (tieBreak d.nextGroup)).2 p
  else madeByInsert d p

def madeByAll (tieBreak : Nat → Key) (d : Depacketizer) (now : Nat) : List RtpPacket → List Nat
  | [] => []
  | p :: rest =>
      match d.pushSelected tieBreak p now with
      | none => []
      | some (_, d') =>
          madeByPlace tieBreak (d.prepare p.ssrc now) p ++ madeByAll tieBreak d' now rest

def madeByPush (tieBreak : Nat → Key) (d : Depacketizer) (p : RtpPacket) (now : Nat) : List Nat :=
  if p.payload.length < 2 then []
  else
    match (d.countHeader p).observe p now with
    | none => []
    | some d =>
        match d.select p now with
        | none => []
        | some s =>
            if s.selected then
              let (prior, d) := s.state.takePrefix p.ssrc
              madeByAll tieBreak d now (prior ++ [p])
            else []

def madeByStep (tieBreak : Nat → Key) (d : Depacketizer) : Op → List Nat
  | .push p now => madeByPush tieBreak d p now
  | .poll _ => []

def made (tieBreak : Nat → Key) (d : Depacketizer) : List Op → List Nat
  | [] => []
  | op :: ops =>
      match d.step tieBreak op with
      | none => []
      | some (_, d') => madeByStep tieBreak d op ++ made tieBreak d' ops

/-! ## Counters -/

/-- The fate of a group that was discarded for this reason. -/
def isDiscard (reason : Counter) : Fate → Bool := fun fate => fate = .resolved (.discarded reason)

theorem counters_count (d : Depacketizer) (name reason : Counter) :
    (d.count name).counters reason = d.counters reason + if name = reason then 1 else 0 := by
  unfold Depacketizer.count
  by_cases hsame : name = reason
  · rw [if_pos hsame, hsame]
    exact Function.update_self _ _ _
  · rw [if_neg hsame, Nat.add_zero]
    exact Function.update_of_ne (Ne.symm hsame) _ _

theorem counters_count_other {d : Depacketizer} {name reason : Counter}
    (hname : isReason name = false) (hreason : isReason reason = true) :
    (d.count name).counters reason = d.counters reason := by
  rw [counters_count, if_neg, Nat.add_zero]
  rintro rfl
  rw [hname] at hreason
  cases hreason

theorem counters_countIf {d : Depacketizer} {c : Bool} {name reason : Counter}
    (hname : isReason name = false) (hreason : isReason reason = true) :
    (d.countIf c name).counters reason = d.counters reason := by
  cases c with
  | false => rfl
  | true => exact counters_count_other hname hreason

theorem addNal_counters {d d' : Depacketizer} {pic pic' : Picture} {nal : Nal}
    (h : d.addNal pic nal = some (d', pic')) {reason : Counter} (hreason : isReason reason = true) :
    d'.counters reason = d.counters reason := by
  unfold Depacketizer.addNal at h
  obtain ⟨kind, _, h⟩ := Option.bind_eq_some_iff.1 h
  dsimp only at h
  split at h
  · split at h
    · cases h
      rfl
    · cases h
      rfl
  split at h
  · cases h
    rfl
  · obtain ⟨b, _, h⟩ := Option.bind_eq_some_iff.1 h
    cases h
    exact counters_countIf rfl hreason

theorem addNals_counters {d d' : Depacketizer} {pic pic' : Picture} {nals : List Nal}
    (h : d.addNals pic nals = some (d', pic')) {reason : Counter}
    (hreason : isReason reason = true) : d'.counters reason = d.counters reason := by
  induction nals generalizing d pic with
  | nil =>
      cases h
      rfl
  | cons nal rest ih =>
      unfold Depacketizer.addNals at h
      split at h
      · cases h
      · rename_i d₁ pic₁ hnal
        exact (ih h).trans (addNal_counters hnal hreason)

/-- The outcome is counted under its reason, and under no other. -/
structure Counts (d : Depacketizer) (outcome : Outcome) (d' : Depacketizer) : Prop where
  counted : ∀ reason, isReason reason = true → d'.counters reason =
    d.counters reason + if outcome = .discarded reason then 1 else 0
  named : ∀ reason, outcome = .discarded reason → isReason reason = true

theorem counts_count {d : Depacketizer} {reason : Counter} (h : isReason reason = true) :
    Counts d (.discarded reason) (d.count reason) where
  counted other _ := by
    rw [counters_count]
    simp only [Outcome.discarded.injEq]
  named other hother := by
    cases hother
    exact h

theorem counts_lose {d : Depacketizer} {reason : Counter} (h : isReason reason = true) :
    Counts d (d.lose reason).1 (d.lose reason).2 :=
  ⟨(counts_count h).counted, (counts_count (d := d) h).named⟩

/-! ## Reassembly -/

theorem splitAggregate_reason {rest : List UInt8} {reason : Counter}
    (h : splitAggregate rest = .error reason) : isReassemblyError reason = true := by
  fun_induction splitAggregate rest with
  | case1 => cases h
  | case2 => cases h; rfl
  | case3 => cases h; rfl
  | case4 hi lo tail n hfits ih =>
      cases htail : splitAggregate (tail.drop n) with
      | error e =>
          rw [htail] at h
          cases h
          exact ih htail
      | ok nals =>
          rw [htail] at h
          cases h

theorem addFragment_reason {a : Assembly} {h0 h1 h2 : UInt8} {donl : UInt16} {piece : List UInt8}
    {reason : Counter} (h : a.addFragment h0 h1 h2 donl piece = .error reason) :
    isReassemblyError reason = true := by
  unfold Assembly.addFragment at h
  dsimp only at h
  generalize (if decide (h2 &&& 128 ≠ 0) = true then donl else a.fragmentDonl) = carried at h
  generalize (if decide (h2 &&& 128 ≠ 0) = true then
      some [(h0 &&& 129) ||| ((h2 &&& 63) <<< (1 : UInt8)), h1]
    else a.fragment) = fragment at h
  split at h
  · cases h
    rfl
  split at h
  · cases h
    rfl
  split at h
  · cases h
    rfl
  · split at h
    · cases h
    · cases h

theorem add_reason {apple : Bool} {a : Assembly} {b : List UInt8} {reason : Counter}
    (h : a.add apple b = some (.error reason)) : isReassemblyError reason = true := by
  unfold Assembly.add at h
  split at h
  · cases h
    rfl
  obtain ⟨h0, _, h⟩ := Option.bind_eq_some_iff.1 h
  obtain ⟨h1, _, h⟩ := Option.bind_eq_some_iff.1 h
  dsimp only at h
  generalize (if h0 >>> 1 &&& 63 = 49 then 3 else 2) = o at h
  generalize (if apple = true then 4 else 2) = bodyStart at h
  generalize (if apple = true then 5 else 3) = payloadStart at h
  split at h
  · cases h
    rfl
  obtain ⟨donl, _, h⟩ := Option.bind_eq_some_iff.1 h
  split at h
  · split at h
    · cases h
      rfl
    · cases hsplit : splitAggregate (b.drop bodyStart) with
      | error e =>
          rw [hsplit] at h
          cases h
          exact splitAggregate_reason hsplit
      | ok nals =>
          rw [hsplit] at h
          cases h
  split at h
  · split at h
    · cases h
      rfl
    · obtain ⟨h2, _, h⟩ := Option.bind_eq_some_iff.1 h
      obtain ⟨piece, _, h⟩ := Option.bind_eq_some_iff.1 h
      exact addFragment_reason (Option.some.inj h)
  split at h
  · cases h
    rfl
  · obtain ⟨body, _, h⟩ := Option.bind_eq_some_iff.1 h
    cases h

theorem addAll_reason {apple : Bool} {a : Assembly} {payloads : List (List UInt8)}
    {reason : Counter} (h : a.addAll apple payloads = some (.error reason)) :
    isReassemblyError reason = true := by
  induction payloads generalizing a with
  | nil => cases h
  | cons b rest ih =>
      unfold Assembly.addAll at h
      split at h
      · cases h
      · rename_i hadd
        cases h
        exact add_reason hadd
      · exact ih h

theorem reassemble_reason {apple : Bool} {payloads : List (List UInt8)} {reason : Counter}
    (h : reassemble payloads apple = some (.error reason)) : isReassemblyError reason = true := by
  unfold reassemble at h
  split at h
  · cases h
  · rename_i hall
    cases h
    exact addAll_reason hall
  split at h
  · cases h
    rfl
  split at h
  · cases h
    rfl
  · cases h

theorem isReason_of_reassembly {reason : Counter} (h : isReassemblyError reason = true) :
    isReason reason = true := by
  cases reason <;> first | rfl | exact h

/-! ## Resolving -/

theorem finish_counts {d d' : Depacketizer} {key : Key} {donl : UInt16} {pic : Picture}
    {outcome : Outcome} (h : d.finish key donl pic = some (outcome, d')) :
    Counts d outcome d' := by
  unfold Depacketizer.finish at h
  split at h
  · cases h
    exact counts_count rfl
  split at h
  · cases h
    exact counts_lose rfl
  split at h
  · cases h
    exact counts_count rfl
  obtain ⟨data, _, h⟩ := Option.bind_eq_some_iff.1 h
  obtain ⟨tile, _, h⟩ := Option.bind_eq_some_iff.1 h
  cases h
  refine ⟨?_, nofun⟩
  intro reason hreason
  rw [if_neg nofun, Nat.add_zero]
  exact counters_countIf rfl hreason

theorem Counts.after {d m d' : Depacketizer} {outcome : Outcome} (h : Counts m outcome d')
    (hsame : ∀ reason, isReason reason = true → m.counters reason = d.counters reason) :
    Counts d outcome d' where
  counted reason hreason := by rw [h.counted reason hreason, hsame reason hreason]
  named := h.named

theorem resolve_counts {d d' : Depacketizer} {key : Key} {g : Group} {outcome : Outcome}
    (h : d.resolve key g = some (outcome, d')) : Counts d outcome d' := by
  unfold Depacketizer.resolve at h
  split at h
  · cases h
    exact counts_lose rfl
  dsimp only at h
  split at h
  · cases h
    exact counts_lose rfl
  split at h
  · cases h
  · rename_i reason hreassemble
    cases h
    exact counts_lose (isReason_of_reassembly (reassemble_reason hreassemble))
  · split at h
    · cases h
    · rename_i m pic hnals
      exact (finish_counts h).after fun reason hreason => addNals_counters hnals hreason

/-! ## The invariant -/

/-- The groups that were made and the events so far account for a state. -/
structure Accounts (created : List Nat) (events : List Event) (d : Depacketizer) : Prop where
  balanced : (ledger created events d).Balanced
  ordered : (ledger created events d).InOrder Fate.polled
  numbered : ∀ n ∈ created, n < d.nextGroup
  named : ∀ n reason, (n, .resolved (.discarded reason)) ∈ (ledger created events d).closed →
    isReason reason = true
  counted : ∀ reason, isReason reason = true →
    d.counters reason = ((ledger created events d).served (isDiscard reason)).length

variable {created : List Nat} {events : List Event} {d d' : Depacketizer}

theorem Accounts.same (h : Accounts created events d)
    (hopened : (orders d.groups).Perm (orders d'.groups)) (hnext : d.nextGroup ≤ d'.nextGroup)
    (hcounters : ∀ reason, isReason reason = true → d'.counters reason = d.counters reason) :
    Accounts created events d' where
  balanced :=
    { increasing := h.balanced.increasing
      account := (hopened.symm.append_right _).trans h.balanced.account }
  ordered :=
    { increasing := h.ordered.increasing
      ahead := fun n hn m hm => h.ordered.ahead n hn m (hopened.symm.subset hm) }
  numbered n hn := Nat.lt_of_lt_of_le (h.numbered n hn) hnext
  named := h.named
  counted reason hreason := (hcounters reason hreason).trans (h.counted reason hreason)

theorem ledger_append (created : List Nat) (events : List Event) (e : Event) (d d' : Depacketizer) :
    ledger created (events ++ [e]) d' =
      (ledger created events d).close (closes e) (orders d'.groups) := by
  simp [ledger, Ledger.close, List.flatMap_append]

theorem Accounts.close (h : Accounts created events d) {e : Event}
    (hopened : (orders d.groups).Perm ((closes e).map Prod.fst ++ orders d'.groups))
    (hordered : (ledger created (events ++ [e]) d').InOrder Fate.polled)
    (hnext : d.nextGroup ≤ d'.nextGroup)
    (hnamed : ∀ n reason, (n, .resolved (.discarded reason)) ∈ closes e → isReason reason = true)
    (hcounted : ∀ reason, isReason reason = true → d'.counters reason = d.counters reason +
      ((closes e).filter fun entry => isDiscard reason entry.2).length) :
    Accounts created (events ++ [e]) d' where
  balanced := by
    rw [ledger_append created events e d]
    exact h.balanced.close hopened
  ordered := hordered
  numbered n hn := Nat.lt_of_lt_of_le (h.numbered n hn) hnext
  named n reason hmem := by
    rw [ledger_append created events e d] at hmem
    rcases List.mem_append.1 hmem with hold | hnew
    · exact h.named n reason hold
    · exact hnamed n reason hnew
  counted reason hreason := by
    rw [ledger_append created events e d, Ledger.served_close, List.length_append, List.length_map,
      hcounted reason hreason, h.counted reason hreason]

theorem Accounts.resolve (h : Accounts created events d) (key : Key) {g : Group}
    {outcome : Outcome} (hcounts : Counts d outcome d')
    (hopened : (orders d.groups).Perm (g.order :: orders d'.groups))
    (hleast : (Fate.resolved outcome).polled = true → ∀ m ∈ orders d'.groups, g.order < m)
    (hnext : d.nextGroup ≤ d'.nextGroup) :
    Accounts created (events ++ [.resolved key g outcome]) d' := by
  have hcloses : closes (.resolved key g outcome) = [(g.order, .resolved outcome)] := rfl
  refine h.close (hcloses ▸ hopened) ?_ hnext ?_ ?_
  rotate_left
  · intro n reason hmem
    rw [hcloses, List.mem_singleton, Prod.mk.injEq, Fate.resolved.injEq] at hmem
    exact hcounts.named reason hmem.2.symm
  · intro reason hreason
    rw [hcounts.counted reason hreason, hcloses]
    by_cases hsame : outcome = .discarded reason
    · rw [if_pos hsame, List.filter_cons_of_pos (by simp [isDiscard, hsame])]
      rfl
    · rw [if_neg hsame, List.filter_cons_of_neg (by simp [isDiscard, hsame])]
      rfl
  · rw [ledger_append created events _ d, hcloses]
    by_cases hpolled : (Fate.resolved outcome).polled = true
    · exact h.ordered.serve hpolled hopened (hleast hpolled)
    · apply h.ordered.close_other
      · intro entry hentry
        rw [List.mem_singleton.1 hentry]
        exact Bool.not_eq_true _ ▸ hpolled
      · intro m hm
        exact hopened.symm.subset (List.mem_cons_of_mem _ hm)

theorem orders_erase {groups : AList fun _ : Key => Group} {key : Key} {g : Group}
    (h : groups.lookup key = some g) :
    (orders groups).Perm (g.order :: orders (groups.erase key)) :=
  (perm_erase h).map fun e : (Sigma fun _ : Key => Group) => e.2.order

/-! ## Polling -/

/-- The pending groups by increasing number. -/
structure Queue (d : Depacketizer) (entries : List (Sigma fun _ : Key => Group)) : Prop where
  pending : entries.Perm d.groups.entries
  increasing : entries.Pairwise fun a b => a.2.order < b.2.order

theorem Queue.head {key : Key} {g : Group} {entries : List (Sigma fun _ : Key => Group)}
    (h : Queue d (⟨key, g⟩ :: entries)) : d.groups.lookup key = some g :=
  AList.mem_lookup_iff.2 (h.pending.subset List.mem_cons_self)

theorem Queue.tail {key : Key} {g : Group} {entries : List (Sigma fun _ : Key => Group)}
    (h : Queue d (⟨key, g⟩ :: entries)) (hgroups : d'.groups = d.groups.erase key) :
    Queue d' entries where
  pending := by
    have hfront : (⟨key, g⟩ :: entries).Perm (⟨key, g⟩ :: (d.groups.erase key).entries) :=
      h.pending.trans (perm_erase h.head)
    rw [hgroups]
    exact hfront.cons_inv
  increasing := h.increasing.of_cons

theorem Queue.orders {entries : List (Sigma fun _ : Key => Group)} (h : Queue d entries) :
    (entries.map fun e => e.2.order).Perm (orders d.groups) :=
  h.pending.map _

/-- The head of the queue has the least number. -/
theorem Queue.least {key : Key} {g : Group} {entries : List (Sigma fun _ : Key => Group)}
    (h : Queue d (⟨key, g⟩ :: entries)) (hgroups : d'.groups = d.groups.erase key) :
    ∀ m ∈ DepacketizeAccounting.orders d'.groups, g.order < m := by
  intro m hm
  obtain ⟨e, he, rfl⟩ := List.mem_map.1 ((h.tail hgroups).orders.symm.subset hm)
  exact (List.pairwise_cons.1 h.increasing).1 e he

/-- The loop of `poll` serves the groups in order until one waits. -/
theorem pollLoop_accounts {now : Nat} (hsafe : Safe d) (h : Accounts created events d)
    {entries : List (Sigma fun _ : Key => Group)} (hqueue : Queue d entries) {later : List Event}
    (hloop : d.pollLoop now (entries.map Sigma.fst) = some (later, d')) :
    Accounts created (events ++ later) d' := by
  induction entries generalizing d events later with
  | nil =>
      cases hloop
      rw [List.append_nil]
      exact h
  | cons e entries ih =>
      obtain ⟨key, g⟩ := e
      have hg := hqueue.head
      cases pollLoop_inversion hsafe hloop with
      | late hg' hsafe' hrest =>
          rw [hg] at hg'
          cases hg'
          have hcounts : Counts d (.discarded .lateTimestamp)
              ({ d.removeGroup key with dropped := d.dropped + 1 }.count .lateTimestamp) :=
            (counts_count rfl).after fun _ _ => rfl
          have hstep := h.resolve key hcounts (orders_erase hg) (fun _ => hqueue.least rfl)
            (Nat.le_refl d.nextGroup)
          have hlast := ih hsafe' hstep (hqueue.tail rfl) hrest
          rwa [← List.append_cons] at hlast
      | waits =>
          rw [List.append_nil]
          exact h
      | @resolved _ outcome d₁ _ _ hg' hresolve hsettles hsafe' hrest =>
          rw [hg] at hg'
          cases hg'
          have hgroups : d₁.groups = d.groups.erase key := hsettles.groups
          have hcounts : Counts d outcome d₁ := (resolve_counts hresolve).after fun _ _ => rfl
          have hopened : (orders d.groups).Perm (g.order :: orders d₁.groups) := by
            rw [hgroups]
            exact orders_erase hg
          have hstep := h.resolve key hcounts hopened (fun _ => hqueue.least hgroups)
            (settles_nextGroup hsettles).ge
          have hlast := ih hsafe' hstep (hqueue.tail hgroups) hrest
          rwa [← List.append_cons] at hlast

theorem queue_keysByOrder (h : Accounts created events d) :
    ∃ entries, d.keysByOrder = entries.map Sigma.fst ∧ Queue d entries := by
  refine ⟨d.groups.entries.insertionSort fun a b => a.2.order ≤ b.2.order, rfl, ?_, ?_⟩
  · exact List.perm_insertionSort _ _
  · have hsorted := List.pairwise_insertionSort (fun a b : (Sigma fun _ : Key => Group) =>
      a.2.order ≤ b.2.order) d.groups.entries
    have hdistinct : (d.groups.entries.insertionSort fun a b => a.2.order ≤ b.2.order).Pairwise
        fun a b => a.2.order ≠ b.2.order := by
      apply List.pairwise_map.1
      exact (((List.perm_insertionSort _ _).map _).nodup_iff).2
        (List.nodup_append.1 h.balanced.nodup).1
    exact (hsorted.and hdistinct).imp fun hboth => Nat.lt_of_le_of_ne hboth.1 hboth.2

theorem poll_accounts {now : Nat} (hsafe : Safe d) (h : Accounts created events d)
    {later : List Event} (hpoll : d.poll now = some (later, d')) :
    Accounts created (events ++ later) d' := by
  unfold Depacketizer.poll at hpoll
  split at hpoll
  · cases hpoll
    rw [List.append_nil]
    exact h
  · obtain ⟨entries, hkeys, hqueue⟩ := queue_keysByOrder h
    rw [hkeys] at hpoll
    exact pollLoop_accounts hsafe h hqueue hpoll

/-! ## Placing a packet -/

theorem evictGroup_accounts (h : Accounts created events d) (hint : Key) :
    Accounts created (events ++ (d.evictGroup hint).1) (d.evictGroup hint).2 := by
  unfold Depacketizer.evictGroup
  cases hold : (d.oldest.find? fun e => e.1 = hint).or d.oldest.head? with
  | none =>
      rw [List.append_nil]
      exact h
  | some e =>
      have hg := lookup_evicted hold
      have hcounts : Counts d (.discarded .groupLimit)
          ((d.removeGroup e.1).recordLoss .groupLimit) :=
        (counts_lose (d := d.removeGroup e.1) rfl).after fun _ _ => rfl
      exact h.resolve e.1 hcounts (orders_erase hg) nofun (Nat.le_refl d.nextGroup)

theorem add_order (g : Group) (p : RtpPacket) (now : Nat) : (g.add p now).order = g.order := by
  unfold Group.add
  split
  · rfl
  · rfl

theorem orders_insert (groups : AList fun _ : Key => Group) (key : Key) (g : Group) :
    orders (groups.insert key g) = g.order :: orders (groups.erase key) := rfl

theorem inserted_accounts (h : Accounts created events d) (p : RtpPacket) (now : Nat) :
    Accounts (created ++ madeByInsert d p) events
      { d with
        nextGroup := d.nextGroup + 1
        groups := d.groups.insert (p.ssrc, p.timestamp)
          (((d.groups.lookup (p.ssrc, p.timestamp)).getD (Group.new now d.nextGroup)).add p
            now) } := by
  unfold madeByInsert
  cases hlookup : d.groups.lookup (p.ssrc, p.timestamp) with
  | none =>
      have hissued : ∀ m ∈ (ledger created events d).issued, m < d.nextGroup := h.numbered
      have hledger : ledger (created ++ [d.nextGroup]) events
          { d with
            nextGroup := d.nextGroup + 1
            groups := d.groups.insert (p.ssrc, p.timestamp)
              ((Group.new now d.nextGroup).add p now) } =
          (ledger created events d).issue d.nextGroup := by
        have hnone : (p.ssrc, p.timestamp) ∉ d.groups := by
          rw [← AList.lookup_isSome, hlookup]
          exact Bool.false_ne_true
        have horders : orders (d.groups.insert (p.ssrc, p.timestamp)
            ((Group.new now d.nextGroup).add p now)) = d.nextGroup :: orders d.groups := by
          rw [orders, AList.entries_insert_of_notMem hnone, List.map_cons, add_order]
          rfl
        rw [ledger, horders]
        rfl
      rw [if_pos rfl, Option.getD_none]
      exact
        { balanced := hledger ▸ h.balanced.issue hissued
          ordered := hledger ▸ h.ordered.issue h.balanced hissued
          numbered := by
            intro n hn
            rcases List.mem_append.1 hn with hold | hnew
            · exact Nat.lt_succ_of_lt (h.numbered n hold)
            · rw [List.mem_singleton.1 hnew]
              exact Nat.lt_succ_self _
          named := h.named
          counted := h.counted }
  | some g =>
      rw [if_neg nofun, List.append_nil, Option.getD_some]
      refine h.same ?_ (Nat.le_succ _) fun _ _ => rfl
      rw [orders_insert, add_order]
      exact orders_erase hlookup

theorem insertPacket_accounts (h : Accounts created events d) (p : RtpPacket) (now : Nat) :
    Accounts (created ++ madeByInsert d p) (events ++ (d.insertPacket p now).1)
      (d.insertPacket p now).2 := by
  have hinserted := inserted_accounts h p now
  unfold Depacketizer.insertPacket
  dsimp only
  generalize ((d.groups.lookup (p.ssrc, p.timestamp)).getD
    (Group.new now d.nextGroup)).add p now = g at hinserted ⊢
  split
  · have hcounts : Counts d (.discarded .byteLimit)
        (({ d with nextGroup := d.nextGroup + 1 }.removeGroup
          (p.ssrc, p.timestamp)).recordLoss .byteLimit) :=
      (counts_lose rfl).after fun _ _ => rfl
    exact hinserted.resolve _ ⟨hcounts.counted, hcounts.named⟩ (.refl _) nofun (Nat.le_refl _)
  · rw [List.append_nil]
    exact hinserted

theorem refused_accounts (h : Accounts created events d) (p : RtpPacket) :
    Accounts created (events ++ [.refused p]) (d.recordLoss .pendingByteLimit) := by
  have hcloses : closes (.refused p) = [] := rfl
  refine h.close (.refl _) ?_ (Nat.le_refl d.nextGroup) nofun ?_
  · rw [ledger_append created events _ d]
    exact h.ordered.close_other nofun fun _ hm => hm
  · intro reason hreason
    rw [hcloses]
    exact counters_count_other rfl hreason

theorem place_accounts (tieBreak : Nat → Key) (h : Accounts created events d) (p : RtpPacket)
    (now : Nat) :
    Accounts (created ++ madeByPlace tieBreak d p) (events ++ (d.place tieBreak p now).1)
      (d.place tieBreak p now).2 := by
  unfold madeByPlace Depacketizer.place
  dsimp only
  split
  · rw [List.append_nil]
    exact refused_accounts h p
  split
  · rw [← List.append_assoc]
    exact insertPacket_accounts (evictGroup_accounts h _) p now
  · exact insertPacket_accounts h p now

theorem pushSelected_accounts {tieBreak : Nat → Key} {now : Nat} (hsafe : Safe d)
    (h : Accounts created events d) {p : RtpPacket} (hsource : p.ssrc ∈ d.sources)
    {later : List Event} (hpush : d.pushSelected tieBreak p now = some (later, d')) :
    Accounts (created ++ madeByPlace tieBreak (d.prepare p.ssrc now) p) (events ++ later) d' := by
  obtain ⟨_, hsafe₁⟩ := prepare_quiet hsafe p.ssrc now
  obtain ⟨_, hsafe₂, _, _, _⟩ := place_run tieBreak hsafe₁ p now hsource
  have hprepared : Accounts created events (d.prepare p.ssrc now) :=
    h.same (.refl _) (Nat.le_refl _) fun _ _ => rfl
  have hplaced := place_accounts tieBreak hprepared p now
  obtain ⟨⟨polled, last⟩, hpoll, heq⟩ := Option.map_eq_some_iff.1 hpush
  cases heq
  have hpolled := poll_accounts hsafe₂ hplaced hpoll
  rwa [List.append_assoc] at hpolled

theorem pushAll_accounts {tieBreak : Nat → Key} {now : Nat} (hsafe : Safe d)
    (h : Accounts created events d) {queue : List RtpPacket}
    (hsource : ∀ p ∈ queue, p.ssrc ∈ d.sources) {later : List Event}
    (hpush : d.pushAll tieBreak now queue = some (later, d')) :
    Accounts (created ++ madeByAll tieBreak d now queue) (events ++ later) d' := by
  induction queue generalizing created events d later with
  | nil =>
      cases hpush
      rw [madeByAll, List.append_nil, List.append_nil]
      exact h
  | cons p rest ih =>
      rcases pushSelected_run tieBreak hsafe p now (hsource p List.mem_cons_self) with
        ⟨first, d₁, hfirst, _, hsafe₁, hsources, _, _⟩
      unfold Depacketizer.pushAll at hpush
      rw [hfirst] at hpush
      obtain ⟨⟨rest', last⟩, hrest, heq⟩ := Option.map_eq_some_iff.1 hpush
      cases heq
      have hstep := pushSelected_accounts hsafe h (hsource p List.mem_cons_self) hfirst
      have hlater : ∀ q ∈ rest, q.ssrc ∈ d₁.sources := by
        rw [hsources]
        exact fun q hq => hsource q (List.mem_cons_of_mem _ hq)
      have hlast := ih hsafe₁ hstep hlater hrest
      rw [List.append_assoc, List.append_assoc] at hlast
      rw [madeByAll, hfirst]
      exact hlast

/-! ## Pushing -/

theorem handoff_accounts (h : Accounts created events d) (ssrc : UInt32) :
    Accounts created (events ++ [.cleared (d.groups.entries.map fun e => (e.1, e.2))])
      (d.handoff ssrc) := by
  have hcloses : closes (.cleared (d.groups.entries.map fun e => (e.1, e.2))) =
      d.groups.entries.map fun e => (e.2.order, Fate.cleared) := by
    rw [closes, List.map_map]
    rfl
  have hfates : ∀ entry ∈ closes (.cleared (d.groups.entries.map fun e => (e.1, e.2))),
      entry.2 = .cleared := by
    rw [hcloses]
    intro entry hentry
    obtain ⟨e, _, rfl⟩ := List.mem_map.1 hentry
    rfl
  have hopened : (closes (.cleared (d.groups.entries.map fun e => (e.1, e.2)))).map Prod.fst =
      orders d.groups := by
    rw [hcloses, List.map_map]
    rfl
  refine h.close ?_ ?_ (Nat.le_refl d.nextGroup) ?_ ?_
  · rw [hopened]
    exact (List.append_nil _).symm ▸ .refl _
  · rw [ledger_append created events _ d]
    refine h.ordered.close_other ?_ nofun
    intro entry hentry
    rw [hfates entry hentry]
    rfl
  · intro n reason hmem
    cases hfates _ hmem
  · intro reason hreason
    have hnone : (closes (.cleared (d.groups.entries.map fun e => (e.1, e.2)))).filter
        (fun entry => isDiscard reason entry.2) = [] := by
      rw [List.filter_eq_nil_iff]
      intro entry hentry
      rw [hfates entry hentry]
      simp [isDiscard]
    rw [hnone]
    exact counters_count_other rfl hreason

theorem chosen_accounts {p : RtpPacket} {now : Nat} {later : List Event}
    (h : Accounts created events d) (hchosen : Chosen d p now later d') :
    Accounts created (events ++ later) d' := by
  cases hchosen with
  | known =>
      rw [List.append_nil]
      exact h
  | added =>
      rw [List.append_nil]
      exact h.same (.refl _) (Nat.le_refl _) fun _ _ => rfl
  | handoff => exact handoff_accounts h p.ssrc

theorem chosen_select {p : RtpPacket} {now : Nat} {later : List Event}
    (hchosen : Chosen d p now later d') :
    d.select p now = some { selected := true, events := later, state := d' } := by
  cases hchosen with
  | known hknown => exact if_pos hknown
  | added hnew hroom =>
      rw [Depacketizer.select, if_neg hnew, if_neg (Nat.not_le.2 hroom)]
  | handoff hnew hfull hdue =>
      rw [Depacketizer.select, if_neg hnew, if_pos hfull, hdue]
      rfl

theorem select_held {p : RtpPacket} {now : Nat} (hnew : p.ssrc ∉ d.sources)
    (hfull : d.tiles ≤ d.sources.length) (hdue : d.handoffDue p now = some false)
    (hhold : d.hold p = some d') :
    d.select p now = some { selected := false, events := [], state := d' } := by
  rw [Depacketizer.select, if_neg hnew, if_pos hfull, hdue, Option.bind_some,
    if_neg Bool.false_ne_true, hhold]
  rfl

/-- The pending groups and what is counted of the reasons are the same. -/
structure Uncounted (d d' : Depacketizer) : Prop where
  groups : d'.groups = d.groups
  nextGroup : d'.nextGroup = d.nextGroup
  counters : ∀ reason, isReason reason = true → d'.counters reason = d.counters reason

theorem Uncounted.countIf (h : Uncounted d d') (c : Bool) (name : Counter)
    (hname : isReason name = false) : Uncounted d (d'.countIf c name) where
  groups := h.groups
  nextGroup := h.nextGroup
  counters reason hreason := (counters_countIf hname hreason).trans (h.counters reason hreason)

theorem Uncounted.count (h : Uncounted d d') (name : Counter) (hname : isReason name = false) :
    Uncounted d (d'.count name) :=
  h.countIf true name hname

theorem Accounts.uncounted (h : Accounts created events d) (hsame : Uncounted d d') :
    Accounts created events d' :=
  h.same (hsame.groups ▸ .refl _) hsame.nextGroup.ge hsame.counters

theorem countHeader_uncounted (d : Depacketizer) (p : RtpPacket) :
    Uncounted d (d.countHeader p) := by
  have hstart : Uncounted d d := ⟨rfl, rfl, fun _ _ => rfl⟩
  have hheader := (((hstart.count .packets rfl).countIf p.marker .markers rfl).countIf
    (p.payload.head? == some 0x92) .avcConfigMarker rfl).countIf
    (p.payload.head?.any fun b => b &&& 31 == 28) .avcFuAHeader rfl
  unfold Depacketizer.countHeader
  split
  · exact (hheader.countIf _ _ rfl).countIf _ _ rfl
  · exact hheader

theorem observe_uncounted {p : RtpPacket} {now : Nat} (h : d.observe p now = some d') :
    Uncounted d d' := by
  obtain ⟨observed, rfl⟩ := observe_frame h
  exact ⟨rfl, rfl, fun _ _ => rfl⟩

theorem hold_uncounted {p : RtpPacket} (h : d.hold p = some d') : Uncounted d d' := by
  have hstart : Uncounted d d := ⟨rfl, rfl, fun _ _ => rfl⟩
  have hcount : Uncounted d (d.count .unknownSource) := hstart.count _ rfl
  unfold Depacketizer.hold at h
  dsimp only at h
  split at h
  · split at h
    · cases h
      exact hcount
    · obtain ⟨_, _, heq⟩ := Option.map_eq_some_iff.1 h
      cases heq
      exact ⟨hcount.groups, hcount.nextGroup, hcount.counters⟩
  · cases h
    exact hcount

theorem takePrefix_uncounted (d : Depacketizer) (ssrc : UInt32) :
    Uncounted d (d.takePrefix ssrc).2 := by
  obtain ⟨observed, htaken⟩ := takePrefix_frame d ssrc
  rw [htaken]
  exact ⟨rfl, rfl, fun _ _ => rfl⟩

theorem push_accounts {tieBreak : Nat → Key} {now : Nat} (hsafe : Safe d)
    (h : Accounts created events d) {p : RtpPacket} {later : List Event}
    (hpush : d.push tieBreak p now = some (later, d')) :
    Accounts (created ++ madeByPush tieBreak d p now) (events ++ later) d' := by
  have hheader := countHeader_uncounted d p
  unfold madeByPush
  cases push_inversion hsafe hpush with
  | short hshort hsafe' hpoll =>
      rw [if_pos hshort, List.append_nil]
      exact poll_accounts hsafe' (h.uncounted (hheader.count _ rfl)) hpoll
  | held hlong hobserve hnew hfull hdue hhold hsafe' hpoll =>
      have hnone := select_held hnew hfull hdue hhold
      rw [if_neg (Nat.not_lt.2 hlong), hobserve]
      dsimp only
      rw [hnone]
      dsimp only
      rw [if_neg Bool.false_ne_true, List.append_nil]
      have hobserved := (h.uncounted hheader).uncounted (observe_uncounted hobserve)
      exact poll_accounts hsafe' (hobserved.uncounted (hold_uncounted hhold)) hpoll
  | selected hlong hobserve hchosen hsafe' hmember hqueue hall =>
      rw [if_neg (Nat.not_lt.2 hlong), hobserve]
      dsimp only
      rw [chosen_select hchosen]
      dsimp only
      rw [if_pos rfl, ← List.append_assoc]
      have hobserved := (h.uncounted hheader).uncounted (observe_uncounted hobserve)
      have hselected := chosen_accounts hobserved hchosen
      apply pushAll_accounts hsafe' (hselected.uncounted (takePrefix_uncounted _ p.ssrc)) _ hall
      intro q hq
      rw [hqueue q hq]
      exact hmember

/-! ## Runs -/

theorem accounts_new (tileCount : Nat) : Accounts [] [] (Depacketizer.new tileCount) where
  balanced := ⟨List.Pairwise.nil, .refl _⟩
  ordered := ⟨List.Pairwise.nil, nofun⟩
  numbered := nofun
  named := nofun
  counted _ _ := rfl

theorem step_accounts {tieBreak : Nat → Key} (hsafe : Safe d) (h : Accounts created events d)
    {op : Op} {later : List Event} (hstep : d.step tieBreak op = some (later, d')) :
    Accounts (created ++ madeByStep tieBreak d op) (events ++ later) d' := by
  cases op with
  | push p now => exact push_accounts hsafe h hstep
  | poll now =>
      rw [madeByStep, List.append_nil]
      exact poll_accounts hsafe h hstep

theorem run_accounts {tieBreak : Nat → Key} (hsafe : Safe d) (h : Accounts created events d)
    {ops : List Op} {later : List Event} (hrun : d.run tieBreak ops = some (later, d')) :
    Accounts (created ++ made tieBreak d ops) (events ++ later) d' := by
  induction ops generalizing created events d later with
  | nil =>
      cases hrun
      rw [made, List.append_nil, List.append_nil]
      exact h
  | cons op ops ih =>
      obtain ⟨first, m, rest, hstep, hrest, rfl⟩ := run_cons_inv hrun
      obtain ⟨_, _, hstep', _, hsafe'⟩ := step_run tieBreak hsafe op
      rw [hstep] at hstep'
      cases hstep'
      have hlast := ih hsafe' (step_accounts hsafe h hstep) hrest
      rw [List.append_assoc, List.append_assoc] at hlast
      rw [made, hstep]
      exact hlast

/-! ## A late poll -/

/-- All times that a group keeps are a second before this one. -/
structure Before (t : Nat) (g : Group) : Prop where
  first : g.first + 1000 ≤ t
  lastPacket : g.lastPacket + 1000 ≤ t
  marker : ∀ arrived, g.markerAt = some arrived → arrived + 1000 ≤ t

/-- Everything that is pending is a second old at this time, and so is the first packet. -/
structure Past (t : Nat) (d : Depacketizer) : Prop where
  group : ∀ key g, d.groups.lookup key = some g → Before t g ∧ d.first.isSome = true
  first : ∀ first, d.first = some first → first + 1000 ≤ t

theorem past_new (tileCount t : Nat) : Past t (Depacketizer.new tileCount) where
  group := nofun
  first := nofun

/-- After a second no group waits. -/
theorem Before.due {now : Nat} {g : Group} (h : Before now g) : g.waits now = false := by
  unfold Group.waits
  have hlast := h.lastPacket
  cases hmarker : g.markerAt with
  | some arrived =>
      have harrived := h.marker arrived hmarker
      rw [decide_eq_false_iff_not, holdMs]
      omega
  | none =>
      have hidle : ¬now - g.lastPacket < incompleteIdleMs := by
        rw [incompleteIdleMs]
        omega
      rw [decide_eq_false hidle]
      rfl

theorem pollLoop_drains {now : Nat} (hsafe : Safe d)
    {entries : List (Sigma fun _ : Key => Group)} (hqueue : Queue d entries)
    (hdue : ∀ e ∈ entries, e.2.waits now = false) :
    ∃ later d', d.pollLoop now (entries.map Sigma.fst) = some (later, d') ∧ d'.groups = ∅ := by
  induction entries generalizing d with
  | nil =>
      refine ⟨[], d, rfl, AList.ext ?_⟩
      exact List.nil_perm.1 hqueue.pending
  | cons e entries ih =>
      obtain ⟨key, g⟩ := e
      have hg := hqueue.head
      have hremoved := hsafe.removeGroup key
      have hlater : ∀ e ∈ entries, e.2.waits now = false :=
        fun e he => hdue e (List.mem_cons_of_mem _ he)
      rw [List.map_cons]
      unfold Depacketizer.pollLoop
      rw [hg]
      dsimp only
      split
      · obtain ⟨later, d', hloop, hempty⟩ := ih (hsafe.late key) (hqueue.tail rfl) hlater
        rw [hloop]
        exact ⟨_, d', rfl, hempty⟩
      · have hwaits : g.waits now = false := hdue _ List.mem_cons_self
        rw [hwaits, if_neg Bool.false_ne_true]
        rcases resolve_settles g hremoved.params (hsafe.groups key g hg) with
          ⟨outcome, d₁, hresolve, hsettles⟩
        rw [hresolve]
        obtain ⟨later, d', hloop, hempty⟩ :=
          ih (hremoved.settles hsettles) (hqueue.tail hsettles.groups) hlater
        dsimp only
        rw [hloop]
        exact ⟨_, d', rfl, hempty⟩

theorem poll_drains {now : Nat} (hsafe : Safe d) (h : Accounts created events d)
    (hpast : Past now d) :
    ∃ later d', d.poll now = some (later, d') ∧ d'.groups = ∅ := by
  unfold Depacketizer.poll
  split
  · rename_i hfew
    refine ⟨[], d, rfl, ?_⟩
    apply AList.ext
    apply List.eq_nil_iff_forall_not_mem.2
    intro e he
    obtain ⟨first, hfirst⟩ := Option.isSome_iff_exists.1
      (hpast.group e.1 e.2 (AList.mem_lookup_iff.2 he)).2
    have hle := hpast.first first hfirst
    rw [hfirst, Option.getD_some] at hfew
    omega
  · obtain ⟨entries, hkeys, hqueue⟩ := queue_keysByOrder h
    rw [hkeys]
    apply pollLoop_drains hsafe hqueue
    intro e he
    have hlookup : d.groups.lookup e.1 = some e.2 :=
      AList.mem_lookup_iff.2 (hqueue.pending.subset he)
    exact (hpast.group e.1 e.2 hlookup).1.due

structure Fewer (d d' : Depacketizer) : Prop where
  groups : ∀ key g, d'.groups.lookup key = some g → d.groups.lookup key = some g
  first : d'.first = d.first

theorem Fewer.of_groups (hgroups : d'.groups = d.groups) (hfirst : d'.first = d.first) :
    Fewer d d' :=
  ⟨fun _ _ hg => hgroups ▸ hg, hfirst⟩

theorem Fewer.trans {m : Depacketizer} (h : Fewer d m) (h' : Fewer m d') : Fewer d d' :=
  ⟨fun key g hg => h.groups key g (h'.groups key g hg), h'.first.trans h.first⟩

theorem fewer_removeGroup (d : Depacketizer) (key : Key) : Fewer d (d.removeGroup key) :=
  ⟨fun _ _ hg => (lookup_removeGroup hg).1, rfl⟩

theorem Past.fewer {t : Nat} (h : Past t d) (hfewer : Fewer d d') : Past t d' where
  group key g hg := by
    rw [hfewer.first]
    exact h.group key g (hfewer.groups key g hg)
  first first hfirst := h.first first (hfewer.first ▸ hfirst)

theorem settles_first {key : Key} {g : Group} {outcome : Outcome}
    (h : Settles d key g outcome d') : d'.first = d.first := by
  cases h <;> rfl

theorem pollLoop_fewer {now : Nat} (hsafe : Safe d) {keys : List Key} {later : List Event}
    (hloop : d.pollLoop now keys = some (later, d')) : Fewer d d' := by
  induction keys generalizing d later with
  | nil =>
      cases hloop
      exact .of_groups rfl rfl
  | cons key keys ih =>
      cases pollLoop_inversion hsafe hloop with
      | late _ hsafe' hrest =>
          have hlater := ih hsafe' hrest
          exact (fewer_removeGroup d key).trans ⟨hlater.groups, hlater.first⟩
      | waits => exact .of_groups rfl rfl
      | @resolved _ _ d₁ _ _ _ _ hsettles hsafe' hrest =>
          have hsettled : Fewer (d.removeGroup key) d₁ :=
            .of_groups hsettles.groups (settles_first hsettles)
          exact (fewer_removeGroup d key).trans (hsettled.trans (ih hsafe' hrest))

theorem poll_fewer {now : Nat} (hsafe : Safe d) {later : List Event}
    (hpoll : d.poll now = some (later, d')) : Fewer d d' := by
  unfold Depacketizer.poll at hpoll
  split at hpoll
  · cases hpoll
    exact .of_groups rfl rfl
  · exact pollLoop_fewer hsafe hpoll

theorem evictGroup_fewer (d : Depacketizer) (hint : Key) : Fewer d (d.evictGroup hint).2 := by
  unfold Depacketizer.evictGroup
  split
  · exact .of_groups rfl rfl
  · exact (fewer_removeGroup d _).trans (.of_groups rfl rfl)

theorem Before.add {t now : Nat} {g : Group} (h : Before t g) (hnow : now + 1000 ≤ t)
    (p : RtpPacket) : Before t (g.add p now) := by
  unfold Group.add
  split
  · exact h
  · refine ⟨h.first, hnow, ?_⟩
    intro arrived harrived
    dsimp only at harrived
    split at harrived
    · cases hold : g.markerAt with
      | none =>
          rw [hold] at harrived
          cases harrived
          exact hnow
      | some old =>
          rw [hold] at harrived
          cases harrived
          exact h.marker old hold
    · exact h.marker arrived harrived

theorem insertPacket_past {t now : Nat} (h : Past t d) (hfirst : d.first.isSome = true)
    (hnow : now + 1000 ≤ t) (p : RtpPacket) : Past t (d.insertPacket p now).2 := by
  unfold Depacketizer.insertPacket
  dsimp only
  have hstart : Before t ((d.groups.lookup (p.ssrc, p.timestamp)).getD
      (Group.new now d.nextGroup)) := by
    cases hlookup : d.groups.lookup (p.ssrc, p.timestamp) with
    | none => exact ⟨hnow, hnow, nofun⟩
    | some g => exact (h.group _ g hlookup).1
  have hadded := hstart.add hnow p
  generalize ((d.groups.lookup (p.ssrc, p.timestamp)).getD
    (Group.new now d.nextGroup)).add p now = g at hadded ⊢
  split
  · exact h.fewer ((fewer_removeGroup d _).trans (.of_groups rfl rfl))
  · refine ⟨?_, h.first⟩
    intro key g' hg'
    rcases of_lookup_insert hg' with ⟨rfl, rfl⟩ | ⟨-, hold⟩
    · exact ⟨hadded, hfirst⟩
    · exact h.group key g' hold

theorem place_past {t now : Nat} (tieBreak : Nat → Key) (h : Past t d)
    (hfirst : d.first.isSome = true) (hnow : now + 1000 ≤ t) (p : RtpPacket) :
    Past t (d.place tieBreak p now).2 := by
  unfold Depacketizer.place
  dsimp only
  split
  · exact h.fewer (.of_groups rfl rfl)
  split
  · have hevicted := evictGroup_fewer d (tieBreak d.nextGroup)
    exact insertPacket_past (h.fewer hevicted) (hevicted.first ▸ hfirst) hnow p
  · exact insertPacket_past h hfirst hnow p

theorem prepare_past {t now : Nat} (h : Past t d) (hnow : now + 1000 ≤ t) (ssrc : UInt32) :
    Past t (d.prepare ssrc now) where
  group key g hg := ⟨(h.group key g hg).1, rfl⟩
  first first hfirst := by
    have hvalue : d.first.getD now = first := Option.some.inj hfirst
    cases hold : d.first with
    | none =>
        rw [hold] at hvalue
        exact hvalue ▸ hnow
    | some old =>
        rw [hold] at hvalue
        exact hvalue ▸ h.first old hold

theorem pushAll_past {t now : Nat} {tieBreak : Nat → Key} (hsafe : Safe d) (h : Past t d)
    (hnow : now + 1000 ≤ t) {queue : List RtpPacket} (hsource : ∀ p ∈ queue, p.ssrc ∈ d.sources)
    {later : List Event} (hpush : d.pushAll tieBreak now queue = some (later, d')) :
    Past t d' := by
  induction queue generalizing d later with
  | nil =>
      cases hpush
      exact h
  | cons p rest ih =>
      rcases pushSelected_run tieBreak hsafe p now (hsource p List.mem_cons_self) with
        ⟨first, d₁, hfirst, _, hsafe₁, hsources, _, _⟩
      unfold Depacketizer.pushAll at hpush
      rw [hfirst] at hpush
      obtain ⟨⟨rest', last⟩, hrest, heq⟩ := Option.map_eq_some_iff.1 hpush
      cases heq
      obtain ⟨_, hprepared⟩ := prepare_quiet hsafe p.ssrc now
      obtain ⟨_, hplaced, _, _, _⟩ :=
        place_run tieBreak hprepared p now (hsource p List.mem_cons_self)
      obtain ⟨⟨polled, last⟩, hpoll, heq⟩ := Option.map_eq_some_iff.1 hfirst
      cases heq
      have hstep := (place_past tieBreak (prepare_past h hnow p.ssrc) rfl hnow p).fewer
        (poll_fewer hplaced hpoll)
      refine ih hsafe₁ hstep ?_ hrest
      rw [hsources]
      exact fun q hq => hsource q (List.mem_cons_of_mem _ hq)

theorem countHeader_fewer (d : Depacketizer) (p : RtpPacket) : Fewer d (d.countHeader p) := by
  obtain ⟨counters, hheader⟩ := countHeader_same d p
  rw [hheader]
  exact .of_groups rfl rfl

theorem observe_fewer {p : RtpPacket} {now : Nat} (h : d.observe p now = some d') :
    Fewer d d' := by
  obtain ⟨observed, rfl⟩ := observe_frame h
  exact .of_groups rfl rfl

theorem hold_fewer {p : RtpPacket} (h : d.hold p = some d') : Fewer d d' := by
  obtain ⟨observed, counters, rfl⟩ := hold_frame h
  exact .of_groups rfl rfl

theorem takePrefix_fewer (d : Depacketizer) (ssrc : UInt32) :
    Fewer d (d.takePrefix ssrc).2 := by
  obtain ⟨observed, htaken⟩ := takePrefix_frame d ssrc
  rw [htaken]
  exact .of_groups rfl rfl

theorem chosen_fewer {p : RtpPacket} {now : Nat} {later : List Event}
    (hchosen : Chosen d p now later d') : Fewer d d' := by
  cases hchosen with
  | known => exact .of_groups rfl rfl
  | added => exact .of_groups rfl rfl
  | handoff => exact ⟨nofun, rfl⟩

theorem push_past {t now : Nat} {tieBreak : Nat → Key} (hsafe : Safe d) (h : Past t d)
    (hnow : now + 1000 ≤ t) {p : RtpPacket} {later : List Event}
    (hpush : d.push tieBreak p now = some (later, d')) : Past t d' := by
  have hheader := h.fewer (countHeader_fewer d p)
  cases push_inversion hsafe hpush with
  | short _ hsafe' hpoll =>
      have hcount : Fewer (d.countHeader p) ((d.countHeader p).count .short) := .of_groups rfl rfl
      exact (hheader.fewer hcount).fewer (poll_fewer hsafe' hpoll)
  | held _ hobserve _ _ _ hhold hsafe' hpoll =>
      have hheld := (hheader.fewer (observe_fewer hobserve)).fewer (hold_fewer hhold)
      exact hheld.fewer (poll_fewer hsafe' hpoll)
  | selected _ hobserve hchosen hsafe' hmember hqueue hall =>
      have hselected := (hheader.fewer (observe_fewer hobserve)).fewer (chosen_fewer hchosen)
      refine pushAll_past hsafe' (hselected.fewer (takePrefix_fewer _ p.ssrc)) hnow ?_ hall
      intro q hq
      rw [hqueue q hq]
      exact hmember

theorem run_past {t : Nat} {tieBreak : Nat → Key} (hsafe : Safe d) (h : Past t d)
    {ops : List Op} (hpushed : ∀ p now, Op.push p now ∈ ops → now + 1000 ≤ t) {later : List Event}
    (hrun : d.run tieBreak ops = some (later, d')) : Past t d' := by
  induction ops generalizing d later with
  | nil =>
      cases hrun
      exact h
  | cons op ops ih =>
      obtain ⟨first, m, rest, hstep, hrest, rfl⟩ := run_cons_inv hrun
      obtain ⟨_, _, hstep', _, hsafe'⟩ := step_run tieBreak hsafe op
      rw [hstep] at hstep'
      cases hstep'
      have hpast : Past t m := by
        cases op with
        | push p now => exact push_past hsafe h (hpushed p now List.mem_cons_self) hstep
        | poll now => exact h.fewer (poll_fewer hsafe hstep)
      exact ih hsafe' hpast (fun p now hp => hpushed p now (List.mem_cons_of_mem _ hp)) hrest

/-! ## The account -/

def Fate.unit? : Fate → Option AccessUnit
  | .resolved (.emitted unit) => some unit
  | _ => none

/-- Nothing is emitted but what the ledger says. -/
theorem units_ledger (events : List Event) :
    units events = (events.flatMap closes).filterMap fun e => e.2.unit? := by
  induction events with
  | nil => rfl
  | cons event events ih =>
      have hevent : event.unit?.toList = (closes event).filterMap fun e => e.2.unit? := by
        cases event with
        | resolved key g outcome => cases outcome <;> rfl
        | refused p => rfl
        | cleared groups =>
            symm
            rw [closes, List.filterMap_map]
            exact List.filterMap_eq_nil_iff.2 fun _ _ => rfl
      have hcons : units (event :: events) = event.unit?.toList ++ units events := by
        rw [units, units, List.filterMap_cons]
        cases event.unit? <;> rfl
      rw [hcons, hevent, ih, List.flatMap_cons, List.filterMap_append]

/-- Every group that was made has one condition: it is pending, it became a picture, it
was discarded for one reason, or a source handoff cleared it. -/
structure Account (created : List Nat) (events : List Event) (d : Depacketizer) : Prop where
  made : created.Pairwise (· < ·)
  once : ∀ n ∈ created,
    (n ∈ orders d.groups ∧ (ledger created events d).fates n = []) ∨
      (n ∉ orders d.groups ∧ ∃ fate, (ledger created events d).fates n = [(n, fate)])
  pending : (orders d.groups).Nodup ∧ orders d.groups ⊆ created
  closed : (events.flatMap closes).map Prod.fst ⊆ created
  emitted : units events = (events.flatMap closes).filterMap fun e => e.2.unit?
  reasons : ∀ n reason, (n, .resolved (.discarded reason)) ∈ events.flatMap closes →
    isReason reason = true
  counted : ∀ reason, isReason reason = true →
    d.counters reason = ((ledger created events d).served (isDiscard reason)).length
  ordered : (ledger created events d).InOrder Fate.polled

theorem Accounts.account (h : Accounts created events d) : Account created events d where
  made := h.balanced.increasing
  once _ hn := h.balanced.once hn
  pending := ⟨(List.nodup_append.1 h.balanced.nodup).1,
    fun _ hn => h.balanced.account.subset (List.mem_append_left _ hn)⟩
  closed _ hn := h.balanced.account.subset (List.mem_append_right _ hn)
  emitted := units_ledger events
  reasons n reason hmem := h.named n reason hmem
  counted reason hreason := h.counted reason hreason
  ordered := h.ordered

/-- The numbers, and the counters of the reasons, stay within a bound: those below
`2 ^ 64` are what the fields of the source hold. -/
structure Within (bound : Nat) (created : List Nat) (d : Depacketizer) : Prop where
  numbers : ∀ n ∈ created, n < d.nextGroup
  nextGroup : d.nextGroup ≤ bound
  counters : ∀ reason, isReason reason = true → d.counters reason ≤ bound

theorem Accounts.within {bound : Nat} (h : Accounts created events d)
    (hnext : d.nextGroup ≤ bound) : Within bound created d where
  numbers := h.numbered
  nextGroup := hnext
  counters reason hreason := by
    have hserved := h.balanced.length_served (isDiscard reason)
    have hissued := h.balanced.length_issued h.numbered
    rw [h.counted reason hreason]
    omega

/-- After any calls every group that was made is accounted for, once, no number or
counter exceeds the pushes, and a poll a second after the last push leaves none pending. -/
theorem groups_accounted (tileCount : Nat) (tieBreak : Nat → Key) (ops : List Op) :
    ∃ events d, (Depacketizer.new tileCount).run tieBreak ops = some (events, d) ∧
      Account (made tieBreak (Depacketizer.new tileCount) ops) events d ∧
      Within (pushes ops) (made tieBreak (Depacketizer.new tileCount) ops) d ∧
      ∀ now, (∀ p t, Op.push p t ∈ ops → t + 1000 ≤ now) →
        ∃ later d', d.poll now = some (later, d') ∧ d'.groups = ∅ := by
  have hsafe := safe_new tileCount
  obtain ⟨events, d, hrun, _, hsafe'⟩ := run_trace tieBreak hsafe ops
  have haccounts := run_accounts hsafe (accounts_new tileCount) hrun
  refine ⟨events, d, hrun, haccounts.account, haccounts.within (nextGroup_le_pushes hrun), ?_⟩
  intro now hlast
  exact poll_drains hsafe' haccounts (run_past hsafe (past_new tileCount now) hlast hrun)

/-- A lone fragment is pending, and a poll a second later discards it. -/
theorem groups_accounted_fragment :
    ∃ events d, (Depacketizer.new 1).run (fun _ => (0, 0))
        [.push ⟨7, 0, 90, false, 100, [0x62, 0x01, 0x93, 0x00, 0x00, 0x00]⟩ 40] =
        some (events, d) ∧
      orders d.groups = [0] ∧
      ∃ later d', d.poll 1040 = some (later, d') ∧ d'.groups = ∅ := by
  obtain ⟨events, d, hrun, _, _, hdrains⟩ := groups_accounted 1 (fun _ => (0, 0))
    [.push ⟨7, 0, 90, false, 100, [0x62, 0x01, 0x93, 0x00, 0x00, 0x00]⟩ 40]
  have horders : ((Depacketizer.new 1).run (fun _ => (0, 0))
      [.push ⟨7, 0, 90, false, 100, [0x62, 0x01, 0x93, 0x00, 0x00, 0x00]⟩ 40]).map
      (fun result => orders result.2.groups) = some [0] := by
    decide +kernel
  rw [hrun] at horders
  refine ⟨events, d, hrun, Option.some.inj horders, hdrains 1040 ?_⟩
  intro p t hp
  cases List.mem_singleton.1 hp
  exact Nat.le_refl 1040

end MacVnc.Media.DepacketizeAccounting
