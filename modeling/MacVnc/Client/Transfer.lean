import MacVnc.Protocol.FileTransfer
/-!
# Downloads

The download of the transfer worker (`macvnc-app/src/transfer.rs`), from the
replies of the Mac to the file it publishes.  The local disk and the cancel
flag are an oracle.  A download is published exactly for the replies of one
complete regular file, with the contents of its data messages.
-/

namespace MacVnc.Client.Transfer

open MacVnc.Protocol.FileTransfer (Message MetadataError itemInfo newItem data endOfFile
  maxFileBytes)

/-! ## The worker -/

inductive DownloadError where
  | transferCancelled
  | notConfirmed
  | multipleFiles
  | metadata (error : MetadataError)
  | missingFileSize
  | changedFileSize
  | chunkLengthMismatch
  | sizeOverflow
  | exceedsDeclaredSizeOrLimit
  | cannotWrite
  | rejectedCompletion
  | incomplete
  | unsupportedResponse
  | cannotPublish
deriving DecidableEq, Repr

/-- The local variables of `download` and the contents of its temporary file. -/
structure Download where
  bytes : Nat
  total : Option Nat
  sawItem : Bool
  temporary : List UInt8
deriving DecidableEq

/-- What the user and the disk do: whether the check before each reply finds the
transfer cancelled, whether the write for it succeeds, and whether the checks,
the flush and the rename behind the last reply do. -/
structure Local where
  cancelled : Nat → Bool
  writes : Nat → Bool
  publishes : Bool

structure Local.Working (disk : Local) : Prop where
  cancelled : ∀ n, disk.cancelled n = false
  writes : ∀ n, disk.writes n = true
  publishes : disk.publishes = true

def isMetadata (m : Message) : Prop := m.kind = itemInfo ∨ m.kind = newItem

instance (m : Message) : Decidable (isMetadata m) := inferInstanceAs (Decidable (_ ∨ _))

namespace Download

def start : Download := { bytes := 0, total := none, sawItem := false, temporary := [] }

def metadata (d : Download) (m : Message) : Except DownloadError Download :=
  if m.kind = newItem ∧ (d.sawItem = true ∨ d.bytes ≠ 0) then .error .multipleFiles
  else match m.announcedSize with
    | .error e => .error (.metadata e)
    | .ok none => .error .missingFileSize
    | .ok (some announced) =>
        if d.total.any (· ≠ announced) = true ∨ announced < d.bytes then .error .changedFileSize
        else .ok
          { d with
            sawItem := d.sawItem || decide (m.kind = newItem)
            total := some announced }

def chunk (d : Download) (writes : Bool) (m : Message) : Except DownloadError Download :=
  let bytes := d.bytes + m.payload.length
  if m.argument.toNat ≠ m.payload.length then .error .chunkLengthMismatch
  else if 2 ^ 64 ≤ bytes then .error .sizeOverflow
  else if maxFileBytes < bytes ∨ d.total.any (· < bytes) = true then
    .error .exceedsDeclaredSizeOrLimit
  else if writes = false then .error .cannotWrite
  else .ok { d with bytes, temporary := d.temporary ++ m.payload }

/-- Any reply but the last. -/
def absorb (d : Download) (writes : Bool) (m : Message) : Except DownloadError Download :=
  if isMetadata m then d.metadata m
  else if m.kind = data then d.chunk writes m
  else .error .unsupportedResponse

def complete (d : Download) (m : Message) : Except DownloadError (List UInt8) :=
  if m.argument ≠ 0 ∨ m.payload ≠ [] then .error .rejectedCompletion
  else if d.total = some d.bytes ∧ d.sawItem = true then .ok d.temporary
  else .error .incomplete

/-- The loop over the replies, from the `n`-th on. -/
def receive (disk : Local) (n : Nat) (d : Download) :
    List Message → Except DownloadError (List UInt8)
  | [] => .error .notConfirmed
  | m :: rest =>
      if disk.cancelled n = true then .error .transferCancelled
      else if m.kind = endOfFile then d.complete m
      else match d.absorb (disk.writes n) m with
        | .error e => .error e
        | .ok d => d.receive disk (n + 1) rest

end Download

def download (disk : Local) (replies : List Message) : Except DownloadError (List UInt8) :=
  match Download.start.receive disk 0 replies with
  | .error e => .error e
  | .ok contents => if disk.publishes then .ok contents else .error .cannotPublish

/-! ## Complete files -/

def payloads (replies : List Message) : List UInt8 :=
  (replies.filter fun m => m.kind = data).flatMap Message.payload

structure CompleteFile (replies : List Message) (size : Nat) : Prop where
  kinds : ∀ m ∈ replies, isMetadata m ∨ m.kind = data
  sizes : ∀ m ∈ replies, isMetadata m → m.announcedSize = .ok (some size)
  oneItem : (replies.countP fun m => m.kind = newItem) = 1
  itemFirst : ∀ before item after, replies = before ++ item :: after → item.kind = newItem →
    ∀ m ∈ before, m.kind = data → m.payload = []
  arguments : ∀ m ∈ replies, m.kind = data → m.argument.toNat = m.payload.length
  total : (payloads replies).length = size

theorem payloads_append (first second : List Message) :
    payloads (first ++ second) = payloads first ++ payloads second := by
  unfold payloads
  rw [List.filter_append, List.flatMap_append]

theorem payloads_data {m : Message} (h : m.kind = data) : payloads [m] = m.payload := by
  simp [payloads, h]

theorem not_metadata_of_data {m : Message} (h : m.kind = data) : ¬isMetadata m := by
  rintro (hinfo | hitem)
  · rw [h] at hinfo
    exact absurd hinfo (by decide)
  · rw [h] at hitem
    exact absurd hitem (by decide)

theorem payloads_metadata {m : Message} (h : isMetadata m) : payloads [m] = [] := by
  have hkind : m.kind ≠ data := fun hdata => not_metadata_of_data hdata h
  simp [payloads, hkind]

/-- What the variables of the loop say about the replies absorbed so far. -/
structure Absorbed (replies : List Message) (d : Download) : Prop where
  kinds : ∀ m ∈ replies, isMetadata m ∨ m.kind = data
  sizes : ∀ m ∈ replies, isMetadata m → ∃ size, m.announcedSize = .ok (some size) ∧
    d.total = some size
  total : ∀ size, d.total = some size → ∃ m ∈ replies, isMetadata m ∧
    m.announcedSize = .ok (some size)
  items : (replies.countP fun m => m.kind = newItem) = if d.sawItem then 1 else 0
  itemFirst : ∀ before item after, replies = before ++ item :: after → item.kind = newItem →
    ∀ m ∈ before, m.kind = data → m.payload = []
  arguments : ∀ m ∈ replies, m.kind = data → m.argument.toNat = m.payload.length
  temporary : d.temporary = payloads replies
  bytes : d.bytes = (payloads replies).length

theorem absorbed_start : Absorbed [] Download.start where
  kinds m hm := by cases hm
  sizes m hm := by cases hm
  total size h := by cases h
  items := rfl
  itemFirst before item after h := by cases before <;> cases h
  arguments m hm := by cases hm
  temporary := rfl
  bytes := rfl

theorem payload_nil_of_payloads {replies : List Message} (h : payloads replies = []) :
    ∀ m ∈ replies, m.kind = data → m.payload = [] := by
  intro m hm hdata
  have hall := List.flatMap_eq_nil_iff.1 h
  exact hall m (List.mem_filter.2 ⟨hm, decide_eq_true hdata⟩)

theorem forall_mem_append_singleton {P : Message → Prop} {replies : List Message} {m : Message}
    (h : ∀ r ∈ replies, P r) (hm : P m) : ∀ r ∈ replies ++ [m], P r := by
  intro r hr
  rcases List.mem_append.1 hr with hold | hnew
  · exact h r hold
  · rw [List.mem_singleton.1 hnew]
    exact hm

theorem split_append_singleton {replies before after : List Message} {m item : Message}
    (h : replies ++ [m] = before ++ item :: after) :
    (∃ rest, replies = before ++ item :: rest) ∨ (item = m ∧ before = replies) := by
  cases hlast : after.reverse with
  | nil =>
      have hnil : after = [] := List.reverse_eq_nil_iff.1 hlast
      rw [hnil] at h
      have := List.append_inj' h rfl
      exact Or.inr ⟨(List.singleton_inj.1 this.2).symm, this.1.symm⟩
  | cons last rest =>
      have hafter : after = rest.reverse ++ [last] := by
        rw [← List.reverse_reverse after, hlast, List.reverse_cons]
      rw [hafter, ← List.cons_append, ← List.append_assoc] at h
      exact Or.inl ⟨rest.reverse, (List.append_inj' h rfl).1⟩

theorem metadata_ok {d d' : Download} {m : Message} (h : d.metadata m = .ok d') :
    ∃ size, m.announcedSize = .ok (some size) ∧
      (m.kind = newItem → d.sawItem = false ∧ d.bytes = 0) ∧
      (∀ old, d.total = some old → old = size) ∧
      d' = { d with
        sawItem := d.sawItem || decide (m.kind = newItem)
        total := some size } := by
  unfold Download.metadata at h
  by_cases hmultiple : m.kind = newItem ∧ (d.sawItem = true ∨ d.bytes ≠ 0)
  · rw [if_pos hmultiple] at h
    cases h
  rw [if_neg hmultiple] at h
  rw [not_and, not_or, Bool.not_eq_true, not_not] at hmultiple
  split at h
  · cases h
  · cases h
  rename_i size hsize
  split at h
  · cases h
  rename_i hchanged
  refine ⟨size, hsize, hmultiple, ?_, (Except.ok.inj h).symm⟩
  intro old hold
  by_contra hne
  apply hchanged
  rw [hold]
  exact Or.inl (by simpa using hne)

theorem Absorbed.metadata {replies : List Message} {d d' : Download} (h : Absorbed replies d)
    {m : Message} (hmetadata : isMetadata m) (hstep : d.metadata m = .ok d') :
    Absorbed (replies ++ [m]) d' := by
  obtain ⟨size, hsize, hfirst, hsame, rfl⟩ := metadata_ok hstep
  have hpayloads : payloads (replies ++ [m]) = payloads replies := by
    rw [payloads_append, payloads_metadata hmetadata, List.append_nil]
  constructor
  · exact forall_mem_append_singleton h.kinds (Or.inl hmetadata)
  · apply forall_mem_append_singleton
    · intro r hr hrmeta
      obtain ⟨old, hold, htotal⟩ := h.sizes r hr hrmeta
      rw [hsame old htotal] at hold
      exact ⟨size, hold, rfl⟩
    · exact fun _ => ⟨size, hsize, rfl⟩
  · intro announced htotal
    cases htotal
    exact ⟨m, by simp, hmetadata, hsize⟩
  · rw [List.countP_append, h.items]
    by_cases hitem : m.kind = newItem
    · simp [hitem, (hfirst hitem).1]
    · simp [hitem]
  · intro before item after hsplit hitem
    rcases split_append_singleton hsplit with ⟨rest, hrest⟩ | ⟨rfl, rfl⟩
    · exact h.itemFirst before item rest hrest hitem
    · have hnone := (hfirst hitem).2
      rw [h.bytes] at hnone
      exact payload_nil_of_payloads (List.length_eq_zero_iff.1 hnone)
  · apply forall_mem_append_singleton h.arguments
    exact fun hdata => absurd hmetadata (not_metadata_of_data hdata)
  · rw [hpayloads]
    exact h.temporary
  · rw [hpayloads]
    exact h.bytes

theorem Absorbed.chunk {replies : List Message} {d d' : Download} (h : Absorbed replies d)
    {m : Message} (hdata : m.kind = data) {writes : Bool} (hstep : d.chunk writes m = .ok d') :
    Absorbed (replies ++ [m]) d' := by
  unfold Download.chunk at hstep
  dsimp only at hstep
  by_cases hargument : m.argument.toNat ≠ m.payload.length
  · rw [if_pos hargument] at hstep
    cases hstep
  rw [if_neg hargument] at hstep
  split at hstep
  · cases hstep
  split at hstep
  · cases hstep
  split at hstep
  · cases hstep
  cases hstep
  have hpayloads : payloads (replies ++ [m]) = payloads replies ++ m.payload := by
    rw [payloads_append, payloads_data hdata]
  have hnotItem : m.kind ≠ newItem := fun hitem => not_metadata_of_data hdata (Or.inr hitem)
  constructor
  · exact forall_mem_append_singleton h.kinds (Or.inr hdata)
  · apply forall_mem_append_singleton h.sizes
    exact fun hmetadata => absurd hmetadata (not_metadata_of_data hdata)
  · intro size htotal
    obtain ⟨r, hr, hmetadata, hsize⟩ := h.total size htotal
    exact ⟨r, List.mem_append_left _ hr, hmetadata, hsize⟩
  · rw [List.countP_append, h.items]
    simp [hnotItem]
  · intro before item after hsplit hitem
    rcases split_append_singleton hsplit with ⟨rest, hrest⟩ | ⟨rfl, rfl⟩
    · exact h.itemFirst before item rest hrest hitem
    · exact absurd hitem hnotItem
  · exact forall_mem_append_singleton h.arguments fun _ => not_not.1 hargument
  · rw [hpayloads]
    exact congrArg (· ++ m.payload) h.temporary
  · rw [hpayloads, List.length_append]
    exact congrArg (· + m.payload.length) h.bytes

theorem Absorbed.absorb {replies : List Message} {d d' : Download} (h : Absorbed replies d)
    {m : Message} {writes : Bool} (hstep : d.absorb writes m = .ok d') :
    Absorbed (replies ++ [m]) d' := by
  unfold Download.absorb at hstep
  by_cases hmetadata : isMetadata m
  · rw [if_pos hmetadata] at hstep
    exact h.metadata hmetadata hstep
  · rw [if_neg hmetadata] at hstep
    by_cases hdata : m.kind = data
    · rw [if_pos hdata] at hstep
      exact h.chunk hdata hstep
    · rw [if_neg hdata] at hstep
      cases hstep

theorem CompleteFile.exists_item {replies : List Message} {size : Nat}
    (h : CompleteFile replies size) : ∃ item ∈ replies, isMetadata item := by
  have hcount := h.oneItem
  have hpos : 0 < replies.countP fun m => m.kind = newItem := by omega
  obtain ⟨item, hitem, hkind⟩ := List.countP_pos_iff.1 hpos
  exact ⟨item, hitem, Or.inr (of_decide_eq_true hkind)⟩

/-- The size announced before is that of the file. -/
theorem Absorbed.declared {done rest : List Message} {size : Nat} {d : Download}
    (h : Absorbed done d) (hfile : CompleteFile (done ++ rest) size) {old : Nat}
    (hold : d.total = some old) : old = size := by
  obtain ⟨r, hr, hmetadata, hannounced⟩ := h.total old hold
  have := hfile.sizes r (List.mem_append_left _ hr) hmetadata
  rw [hannounced] at this
  cases this
  rfl

theorem payloads_prefix_le (done rest : List Message) (m : Message) :
    (payloads done).length + (payloads [m]).length ≤
      (payloads (done ++ m :: rest)).length := by
  have hsplit : done ++ m :: rest = done ++ [m] ++ rest := by simp
  rw [hsplit, payloads_append, payloads_append, List.length_append, List.length_append]
  omega

theorem Absorbed.next_metadata {done rest : List Message} {m : Message} {size : Nat}
    {d : Download} (h : Absorbed done d) (hfile : CompleteFile (done ++ m :: rest) size)
    (hmetadata : isMetadata m) : ∃ d', d.metadata m = .ok d' := by
  have hannounced := hfile.sizes m (by simp) hmetadata
  have hbound : (payloads done).length ≤ size := by
    have := payloads_prefix_le done rest m
    rw [hfile.total] at this
    omega
  have hfirst : ¬(m.kind = newItem ∧ (d.sawItem = true ∨ d.bytes ≠ 0)) := by
    rintro ⟨hitem, hsaw | hbytes⟩
    · have hcount := hfile.oneItem
      rw [List.countP_append, h.items, hsaw, List.countP_cons] at hcount
      simp [hitem] at hcount
    · have hnone : payloads done = [] := by
        apply List.flatMap_eq_nil_iff.2
        intro r hr
        obtain ⟨hin, hkind⟩ := List.mem_filter.1 hr
        exact hfile.itemFirst done m rest rfl hitem r hin (of_decide_eq_true hkind)
      rw [h.bytes, hnone] at hbytes
      exact hbytes rfl
  have hsame : ¬(d.total.any (· ≠ size) = true ∨ size < d.bytes) := by
    rintro (hchanged | hless)
    · cases hold : d.total with
      | none =>
          rw [hold] at hchanged
          cases hchanged
      | some old =>
          rw [hold] at hchanged
          simp [h.declared hfile hold] at hchanged
    · rw [h.bytes] at hless
      omega
  rw [Download.metadata, if_neg hfirst, hannounced]
  dsimp only
  rw [if_neg hsame]
  exact ⟨_, rfl⟩

theorem Absorbed.next_chunk {done rest : List Message} {m : Message} {size : Nat}
    {d : Download} (h : Absorbed done d) (hfile : CompleteFile (done ++ m :: rest) size)
    (hdata : m.kind = data) : ∃ d', d.chunk true m = .ok d' := by
  have hbound := payloads_prefix_le done rest m
  rw [hfile.total, payloads_data hdata, ← h.bytes] at hbound
  have hsize : size ≤ maxFileBytes := by
    obtain ⟨item, hitem, hmetadata⟩ := hfile.exists_item
    exact Message.announcedSize_le (hfile.sizes item hitem hmetadata)
  have hlimit : maxFileBytes < 2 ^ 64 := by decide
  have hdeclared : ¬(maxFileBytes < d.bytes + m.payload.length ∨
      d.total.any (· < d.bytes + m.payload.length) = true) := by
    rintro (hlarge | hmore)
    · omega
    · cases hold : d.total with
      | none =>
          rw [hold] at hmore
          cases hmore
      | some old =>
          rw [hold, h.declared hfile hold, Option.any_some, decide_eq_true_eq] at hmore
          omega
  rw [Download.chunk, if_neg (not_not.2 (hfile.arguments m (by simp) hdata)), if_neg (by omega),
    if_neg hdeclared, if_neg (by decide)]
  exact ⟨_, rfl⟩

theorem Absorbed.next {done rest : List Message} {m : Message} {size : Nat} {d : Download}
    (h : Absorbed done d) (hfile : CompleteFile (done ++ m :: rest) size) :
    ∃ d', d.absorb true m = .ok d' := by
  unfold Download.absorb
  rcases hfile.kinds m (by simp) with hmetadata | hdata
  · rw [if_pos hmetadata]
    exact h.next_metadata hfile hmetadata
  · rw [if_neg (not_metadata_of_data hdata), if_pos hdata]
    exact h.next_chunk hfile hdata

/-- The end is accepted exactly behind a complete file. -/
theorem Absorbed.complete_ok_iff {done : List Message} {d : Download} (h : Absorbed done d)
    (m : Message) (contents : List UInt8) :
    d.complete m = .ok contents ↔ m.argument = 0 ∧ m.payload = [] ∧
      (∃ size, CompleteFile done size) ∧ contents = payloads done := by
  unfold Download.complete
  by_cases hrejected : m.argument ≠ 0 ∨ m.payload ≠ []
  · rw [if_pos hrejected]
    constructor
    · intro hok
      cases hok
    · rintro ⟨hargument, hpayload, _⟩
      rcases hrejected with hne | hne
      · exact absurd hargument hne
      · exact absurd hpayload hne
  rw [if_neg hrejected]
  rw [not_or, not_not, not_not] at hrejected
  constructor
  · intro hok
    by_cases hcomplete : d.total = some d.bytes ∧ d.sawItem = true
    · rw [if_pos hcomplete] at hok
      cases hok
      refine ⟨hrejected.1, hrejected.2, ⟨d.bytes, h.kinds, ?_, ?_, h.itemFirst, h.arguments,
        h.bytes.symm⟩, h.temporary⟩
      · intro r hr hmetadata
        obtain ⟨size, hsize, htotal⟩ := h.sizes r hr hmetadata
        rw [hcomplete.1] at htotal
        cases htotal
        exact hsize
      · rw [h.items, if_pos hcomplete.2]
    · rw [if_neg hcomplete] at hok
      cases hok
  · rintro ⟨_, _, ⟨size, hfile⟩, rfl⟩
    have hsaw : d.sawItem = true := by
      by_contra hnot
      have hcount := hfile.oneItem
      rw [h.items, if_neg hnot] at hcount
      cases hcount
    obtain ⟨item, hitem, hmetadata⟩ := hfile.exists_item
    obtain ⟨old, hold, htotal⟩ := h.sizes item hitem hmetadata
    rw [hfile.sizes item hitem hmetadata] at hold
    cases hold
    rw [if_pos ⟨by rw [htotal, h.bytes, hfile.total], hsaw⟩, h.temporary]

/-- Whatever the disk does, the loop succeeds only behind a complete file. -/
theorem receive_sound {disk : Local} {done : List Message} {d : Download} (h : Absorbed done d)
    {n : Nat} {replies : List Message} {contents : List UInt8}
    (hok : d.receive disk n replies = .ok contents) :
    ∃ before last after, replies = before ++ last :: after ∧ last.kind = endOfFile ∧
      last.argument = 0 ∧ last.payload = [] ∧ (∃ size, CompleteFile (done ++ before) size) ∧
      contents = payloads (done ++ before) := by
  induction replies generalizing done d n with
  | nil => cases hok
  | cons m rest ih =>
      unfold Download.receive at hok
      by_cases hcancelled : disk.cancelled n = true
      · rw [if_pos hcancelled] at hok
        cases hok
      rw [if_neg hcancelled] at hok
      by_cases hend : m.kind = endOfFile
      · rw [if_pos hend] at hok
        obtain ⟨hargument, hpayload, hfile, hcontents⟩ := (h.complete_ok_iff m contents).1 hok
        refine ⟨[], m, rest, rfl, hend, hargument, hpayload, ?_, ?_⟩
        · rw [List.append_nil]
          exact hfile
        · rw [List.append_nil]
          exact hcontents
      · rw [if_neg hend] at hok
        cases hstep : d.absorb (disk.writes n) m with
        | error e =>
            rw [hstep] at hok
            cases hok
        | ok d' =>
            rw [hstep] at hok
            rcases ih (h.absorb hstep) hok with
              ⟨before, last, after, hsplit, hlast, hargument, hpayload, hfile, hcontents⟩
            rw [List.append_assoc] at hfile hcontents
            exact ⟨m :: before, last, after, by rw [hsplit]; rfl, hlast, hargument, hpayload,
              hfile, hcontents⟩

/-- On a working disk the loop accepts the rest of every complete file. -/
theorem receive_complete {disk : Local} (hdisk : disk.Working) {done : List Message}
    {d : Download} (h : Absorbed done d) (n : Nat) {before after : List Message} {last : Message}
    {size : Nat} (hfile : CompleteFile (done ++ before) size) (hlast : last.kind = endOfFile)
    (hargument : last.argument = 0) (hpayload : last.payload = []) :
    d.receive disk n (before ++ last :: after) = .ok (payloads (done ++ before)) := by
  induction before generalizing done d n with
  | nil =>
      rw [List.append_nil] at hfile ⊢
      rw [List.nil_append, Download.receive, if_neg (by rw [hdisk.cancelled n]; decide),
        if_pos hlast]
      exact (h.complete_ok_iff last _).2 ⟨hargument, hpayload, ⟨size, hfile⟩, rfl⟩
  | cons m before ih =>
      have hmore : m.kind ≠ endOfFile := by
        intro hend
        rcases hfile.kinds m (by simp) with (hinfo | hitem) | hdata
        · rw [hend] at hinfo
          exact absurd hinfo (by decide)
        · rw [hend] at hitem
          exact absurd hitem (by decide)
        · rw [hend] at hdata
          exact absurd hdata (by decide)
      obtain ⟨d', hstep⟩ := h.next hfile
      have hsplit : done ++ m :: before = done ++ [m] ++ before := by simp
      rw [List.cons_append, Download.receive, if_neg (by rw [hdisk.cancelled n]; decide),
        if_neg hmore, hdisk.writes n, hstep]
      rw [hsplit] at hfile ⊢
      exact ih (h.absorb hstep) (n + 1) hfile

/-- A download is published exactly for the replies of one complete regular file
with a valid end, and its contents are then the data of that file. -/
theorem download_published_iff {disk : Local} (hdisk : disk.Working) (replies : List Message)
    (contents : List UInt8) :
    download disk replies = .ok contents ↔
      ∃ before last after, replies = before ++ last :: after ∧ last.kind = endOfFile ∧
        last.argument = 0 ∧ last.payload = [] ∧ (∃ size, CompleteFile before size) ∧
        contents = payloads before := by
  unfold download
  constructor
  · intro hok
    cases hreceive : Download.start.receive disk 0 replies with
    | error e =>
        rw [hreceive] at hok
        cases hok
    | ok received =>
        rw [hreceive] at hok
        dsimp only at hok
        rw [if_pos hdisk.publishes] at hok
        cases hok
        exact receive_sound absorbed_start hreceive
  · rintro ⟨before, last, after, rfl, hlast, hargument, hpayload, ⟨size, hfile⟩, rfl⟩
    have hreceive : Download.start.receive disk 0 (before ++ last :: after) =
        .ok (payloads before) :=
      receive_complete hdisk absorbed_start 0 (by rwa [List.nil_append]) hlast hargument hpayload
    rw [hreceive]
    dsimp only
    rw [if_pos hdisk.publishes]

/-! ## Example -/

def workingDisk : Local :=
  { cancelled := fun _ => false, writes := fun _ => true, publishes := true }

def fixtureInfo : Message :=
  { kind := itemInfo
    session := 2
    argument := 1
    payload :=
      List.replicate 8 0 ++ [0, 0, 0, 3] ++ List.replicate 4 0 ++ [0, 0, 0, 3] ++
        List.replicate 4 0 ++ [0, 0, 0, 1] ++ List.replicate 20 0 }

def fixtureItem : Message :=
  { kind := newItem
    session := 2
    argument := 0x01000000
    payload :=
      List.replicate 42 0 ++ [0, 0, 0, 3] ++ List.replicate 44 0 ++ [0x81, 0xa4] ++
        List.replicate 4 0 ++ [0, 1, 0, 0, 97] }

def fixtureReplies : List Message :=
  [fixtureInfo,
    fixtureItem,
    { kind := data, session := 2, argument := 1, payload := [7] },
    { kind := data, session := 2, argument := 2, payload := [8, 9] },
    { kind := endOfFile, session := 2, argument := 0, payload := [] }]

theorem download_published_iff_fixture :
    download workingDisk fixtureReplies = .ok [7, 8, 9] ∧
    (download workingDisk fixtureReplies = .ok [7, 8, 9] ↔
      ∃ before last after, fixtureReplies = before ++ last :: after ∧ last.kind = endOfFile ∧
        last.argument = 0 ∧ last.payload = [] ∧ (∃ size, CompleteFile before size) ∧
        [7, 8, 9] = payloads before) :=
  ⟨by decide +kernel,
    download_published_iff ⟨fun _ => rfl, fun _ => rfl, rfl⟩ fixtureReplies [7, 8, 9]⟩

end MacVnc.Client.Transfer
