import MacVnc.Updater.ExtractedPackage
import MacVnc.Updater.Releases
/-!
# Preparing an update

The check for a release, and its download into a stage (`find_release` and `prepare`,
`macvnc-app/src/updater/mod.rs`).  What the network, the disk and the clock do, and when
the user cancels, are the surroundings.
-/

namespace MacVnc.Updater.Prepare

open MacVnc.Lib (Text)
open MacVnc.Lib.Text
open MacVnc.Updater.Package (FileEntry)
open MacVnc.Updater.Install (Directory Disk Plan verifyFiles)
open MacVnc.Updater.Extract (Archive ExtractError PackageIdentity extract)
open MacVnc.Updater.ExtractedPackage (extract_staged verifyFiles_of_staged)
open MacVnc.Updater.Verification (Exact exact_of_verified)
open MacVnc.Updater.Releases

/-! ## Connections -/

structure Url where
  scheme : Text
  username : Text
  password : Option Text
  port : Option Nat
  host : Option Text
deriving DecidableEq

def trustedHosts : List Text :=
  ["api.github.com", "github.com", "release-assets.githubusercontent.com",
    "objects.githubusercontent.com"].map String.toList

def allowedUrl (url : Url) : Bool :=
  url.scheme = "https".toList && url.username = [] && url.password = none &&
    url.port = some 443 && trustedHosts.any fun host => url.host = some host

/-- Why a request ends: its future is dropped when the user has cancelled. -/
inductive Stop where
  | connection
  | cancelled
deriving DecidableEq

inductive UpdateError where
  | notPortable
  | notWritable
  | runtime
  | client
  | stopped (s : Stop)
  | redirect
  | status (code : Nat)
  | responseExceedsLimit
  | release (e : ReleaseError)
  | checksum (e : ChecksumError)
  | lengthChanged
  | exceedsDeclaredSize
  | incomplete
  | checksumMismatch
  | extract (e : ExtractError)
  | disk
  | launch

/-- What a server answers, over which other addresses, and how the body stops. -/
structure Response where
  redirects : List Url
  code : Nat
  contentLength : Option Nat
  chunks : List (List UInt8)
  ending : Option Stop

/-- The redirect policy, when so many addresses have been requested. -/
def follow (previous : Nat) : List Url → Except UpdateError Unit
  | [] => .ok ()
  | url :: rest =>
      if 5 ≤ previous ∨ allowedUrl url = false then .error .redirect
      else follow (previous + 1) rest

def send (answer : Except Stop Response) : Except UpdateError Response := do
  match answer with
  | .error s => .error (.stopped s)
  | .ok response =>
      follow 1 response.redirects
      pure response

def errorForStatus (response : Response) : Except UpdateError Response :=
  if 400 ≤ response.code ∧ response.code < 600 then .error (.status response.code)
  else .ok response

def readBounded (limit : Nat) (ending : Option Stop) (bytes : List UInt8) :
    List (List UInt8) → Except UpdateError (List UInt8)
  | [] =>
      match ending with
      | some s => .error (.stopped s)
      | none => .ok bytes
  | chunk :: rest =>
      if limit < bytes.length + chunk.length then .error .responseExceedsLimit
      else readBounded limit ending (bytes ++ chunk) rest

/-! ## The check -/

variable {V : Type} [LinearOrder V]

def findRelease (parseJson : List UInt8 → Option ApiRelease) (semver : Semver V) (current : Text)
    (runtime client : Bool) (answer : Except Stop Response) :
    Except UpdateError (Option Release) := do
  if ¬ runtime then .error .runtime
  else if ¬ client then .error .client
  else
    let response ← send answer
    if response.code = 404 then pure none
    else
      let response ← errorForStatus response
      let bytes ← readBounded (2 * 1024 * 1024) response.ending [] response.chunks
      (parseRelease parseJson semver bytes current).mapError .release

/-! ## The download -/

/-- What happens around one `prepare`. -/
structure Surroundings where
  portable : Option Text
  writable : Bool
  runtime : Bool
  client : Bool
  sums : Except Stop Response
  cancelledBetween : Bool
  archive : Except Stop Response
  created : Bool
  /-- The answers of `check` and of the disk for a chunk, and whether it is time to report. -/
  cancelled : Nat → Bool
  written : Nat → Bool
  reported : Nat → Bool
  synced : Bool
  cancelledAfter : Bool
  cancelledExtraction : Nat → Nat → Bool
  planWritten : Bool
  parentPid : Nat

/-- What a stage was prepared for and holds, without the copy of the program. -/
structure Stage where
  install : Text
  parentPid : Nat
  version : Text
  files : List FileEntry
  archive : List UInt8
  package : Directory

/-- The loop over the chunks of the archive, with what was written and reported so far. -/
def receive (s : Surroundings) (size : Nat) (ending : Option Stop) (index : Nat)
    (written : List UInt8) (reports : List Nat) :
    List (List UInt8) → Except UpdateError (List UInt8) × List Nat
  | [] =>
      match ending with
      | some stop => (.error (.stopped stop), reports)
      | none => (.ok written, reports)
  | chunk :: rest =>
      let bytes := written.length + chunk.length
      if s.cancelled index then (.error (.stopped .cancelled), reports)
      else if ¬ (bytes ≤ size ∧ bytes ≤ maxArchive) then (.error .exceedsDeclaredSize, reports)
      else if ¬ s.written index then (.error .disk, reports)
      else
        receive s size ending (index + 1) (written ++ chunk)
          (if s.reported index then reports ++ [bytes] else reports) rest

/-- The requests of `prepare`: the digest, and the response whose body follows. -/
def request (s : Surroundings) (size : Nat) : Except UpdateError (Text × Response) := do
  if s.portable = none then .error .notPortable
  else if ¬ s.writable then .error .notWritable
  else if ¬ s.runtime then .error .runtime
  else if ¬ s.client then .error .client
  else
    let sums ← send s.sums
    let sums ← errorForStatus sums
    let sums ← readBounded (64 * 1024) sums.ending [] sums.chunks
    let expected ← (checksum sums).mapError .checksum
    if s.cancelledBetween then .error (.stopped .cancelled)
    else
      let response ← send s.archive
      let response ← errorForStatus response
      if response.contentLength.all (· = size) = false then .error .lengthChanged
      else if ¬ s.created then .error .disk
      else pure (expected, response)

/-- The rest of `prepare`, when the file was written. -/
def stageArchive (hash : List UInt8 → Text) (parseIdentity : List UInt8 → Option PackageIdentity)
    (openArchive : List UInt8 → Archive) (s : Surroundings) (release : Release)
    (expected : Text) (archive : List UInt8) : Except UpdateError Stage := do
  if ¬ s.synced then .error .disk
  else if archive.length ≠ release.size then .error .incomplete
  else if hash archive ≠ expected then .error .checksumMismatch
  else if s.cancelledAfter then .error (.stopped .cancelled)
  else
    let (files, package) ← (extract hash parseIdentity s.cancelledExtraction
      (openArchive archive) false release.version).mapError .extract
    if ¬ s.planWritten then .error .disk
    else
      pure
        { install := s.portable.getD []
          parentPid := s.parentPid
          version := release.version
          files
          archive
          package }

/-- The stage and the numbers of bytes that were reported, or the error. -/
def prepare (hash : List UInt8 → Text) (parseIdentity : List UInt8 → Option PackageIdentity)
    (openArchive : List UInt8 → Archive) (s : Surroundings) (release : Release) :
    Except UpdateError Stage × List Nat :=
  match request s release.size with
  | .error e => (.error e, [])
  | .ok (expected, response) =>
      match receive s release.size response.ending 0 [] [] response.chunks with
      | (.error e, reports) => (.error e, reports)
      | (.ok archive, reports) =>
          let result :=
            stageArchive hash parseIdentity openArchive s release expected archive
          (result,
            if s.synced ∧ archive.length = release.size ∧ hash archive = expected ∧
                ¬ s.cancelledAfter then reports ++ [archive.length]
            else reports)

/-! ## What a stage is -/

theorem ok_of_mapError {ε ε' α : Type} {x : Except ε α} {f : ε → ε'} {a : α}
    (h : x.mapError f = .ok a) : x = .ok a := by
  cases x with
  | ok a' =>
      cases h
      rfl
  | error e => cases h

theorem ok_of_bind {ε α β : Type} {x : Except ε α} {f : α → Except ε β} {b : β}
    (h : x >>= f = .ok b) : ∃ a, x = .ok a ∧ f a = .ok b := by
  cases x with
  | ok a => exact ⟨a, rfl, h⟩
  | error e => cases h

theorem ok_of_guard {ε α : Type} {p : Prop} [Decidable p] {e : ε} {x : Except ε α} {a : α}
    (h : (if p then .error e else x) = .ok a) : ¬ p ∧ x = .ok a := by
  split at h
  · cases h
  · exact ⟨‹_›, h⟩

/-- Each of these was requested because the policy allows it. -/
theorem of_follow {previous : Nat} {urls : List Url} (h : follow previous urls = .ok ()) :
    previous + urls.length ≤ max previous 5 ∧ ∀ url ∈ urls, allowedUrl url = true := by
  induction urls generalizing previous with
  | nil => exact ⟨by rw [List.length_nil]; omega, fun _ hmem => (List.not_mem_nil hmem).elim⟩
  | cons url rest ih =>
      obtain ⟨hallowed, hrest⟩ := ok_of_guard h
      rw [not_or, Bool.not_eq_false] at hallowed
      obtain ⟨hlength, hurls⟩ := ih hrest
      exact ⟨by rw [List.length_cons]; omega, List.forall_mem_cons.2 ⟨hallowed.2, hurls⟩⟩

theorem of_send {answer : Except Stop Response} {response : Response}
    (h : send answer = .ok response) :
    answer = .ok response ∧ response.redirects.length ≤ 4 ∧
      ∀ url ∈ response.redirects, allowedUrl url = true := by
  cases answer with
  | error s => cases h
  | ok response' =>
      obtain ⟨⟨⟩, hfollow, h⟩ := ok_of_bind h
      cases h
      obtain ⟨hlength, hurls⟩ := of_follow hfollow
      exact ⟨rfl, by omega, hurls⟩

theorem of_readBounded {limit : Nat} {ending : Option Stop} {bytes all : List UInt8}
    {chunks : List (List UInt8)} (h : readBounded limit ending bytes chunks = .ok all)
    (hbytes : bytes.length ≤ limit) : all = bytes ++ chunks.flatten ∧ all.length ≤ limit := by
  induction chunks generalizing bytes with
  | nil =>
      cases ending with
      | some s => cases h
      | none =>
          cases h
          exact ⟨by rw [List.flatten_nil, List.append_nil], hbytes⟩
  | cons chunk rest ih =>
      obtain ⟨hlimit, hrest⟩ := ok_of_guard h
      obtain ⟨hall, hlength⟩ := ih hrest (by rw [List.length_append]; omega)
      exact ⟨by rw [hall, List.flatten_cons, List.append_assoc], hlength⟩

/-- The reports of a download that has written so much: they never go back. -/
structure Progress (size written : Nat) (reports : List Nat) : Prop where
  sorted : reports.Pairwise (· ≤ ·)
  reached : ∀ r ∈ reports, r ≤ written
  within : written ≤ size

theorem Progress.report {size written : Nat} {reports : List Nat}
    (h : Progress size written reports) : Progress size written (reports ++ [written]) where
  sorted := by
    rw [List.pairwise_append]
    refine ⟨h.sorted, List.pairwise_singleton _ _, fun r hr r' hr' => ?_⟩
    rw [List.mem_singleton.1 hr']
    exact h.reached r hr
  reached := by
    rw [List.forall_mem_append]
    exact ⟨h.reached, fun r hr => (List.mem_singleton.1 hr).le⟩
  within := h.within

theorem Progress.more {size written more : Nat} {reports : List Nat}
    (h : Progress size written reports) (hle : written ≤ more) (hwithin : more ≤ size) :
    Progress size more reports where
  sorted := h.sorted
  reached := fun r hr => (h.reached r hr).trans hle
  within := hwithin

theorem receive_progress {s : Surroundings} {size : Nat} {ending : Option Stop} {index : Nat}
    {written : List UInt8} {reports : List Nat} {chunks : List (List UInt8)}
    (h : Progress size written.length reports) :
    ∃ total, Progress size total (receive s size ending index written reports chunks).2 ∧
      ∀ archive, (receive s size ending index written reports chunks).1 = .ok archive →
        archive = written ++ chunks.flatten ∧ total = archive.length := by
  induction chunks generalizing index written reports with
  | nil =>
      cases ending with
      | some stop => exact ⟨_, h, fun archive harchive => nomatch harchive⟩
      | none =>
          refine ⟨_, h, fun archive harchive => ?_⟩
          cases harchive
          exact ⟨by rw [List.flatten_nil, List.append_nil], rfl⟩
  | cons chunk rest ih =>
      rw [receive]
      split
      · exact ⟨_, h, fun archive harchive => nomatch harchive⟩
      split
      · exact ⟨_, h, fun archive harchive => nomatch harchive⟩
      split
      · exact ⟨_, h, fun archive harchive => nomatch harchive⟩
      rename_i hsize _
      rw [not_not] at hsize
      have hmore : Progress size (written ++ chunk).length reports := by
        rw [List.length_append]
        exact h.more (Nat.le_add_right _ _) hsize.1
      have hnext : Progress size (written ++ chunk).length
          (if s.reported index then reports ++ [written.length + chunk.length] else reports) := by
        split
        · rw [← List.length_append]
          exact hmore.report
        · exact hmore
      obtain ⟨total, hprogress, hall⟩ := @ih (index + 1) _ _ hnext
      refine ⟨total, hprogress, fun archive harchive => ?_⟩
      obtain ⟨hflatten, htotal⟩ := hall archive harchive
      exact ⟨by rw [hflatten, List.flatten_cons, List.append_assoc], htotal⟩

theorem download_progress (s : Surroundings) (size : Nat) (response : Response) :
    ∃ total, Progress size total (receive s size response.ending 0 [] [] response.chunks).2 ∧
      ∀ archive, (receive s size response.ending 0 [] [] response.chunks).1 = .ok archive →
        archive = response.chunks.flatten ∧ total = archive.length :=
  receive_progress ⟨List.Pairwise.nil, fun _ hmem => (List.not_mem_nil hmem).elim, Nat.zero_le _⟩

/-- A response came over allowed addresses only. -/
structure Received (answer : Except Stop Response) (body : List UInt8) : Prop where
  response : ∃ response, answer = .ok response ∧ response.chunks.flatten = body ∧
    response.redirects.length ≤ 4 ∧ ∀ url ∈ response.redirects, allowedUrl url = true

theorem of_errorForStatus {response response' : Response}
    (h : errorForStatus response = .ok response') : response' = response := by
  obtain ⟨-, h⟩ := ok_of_guard h
  exact (Except.ok.inj h).symm

theorem of_request {s : Surroundings} {size : Nat} {expected : Text} {response : Response}
    (h : request s size = .ok (expected, response)) :
    s.portable.isSome ∧
      (∃ sums, Received s.sums sums ∧ sums.length ≤ 64 * 1024 ∧ Identifies sums expected) ∧
      Received s.archive response.chunks.flatten := by
  obtain ⟨hportable, h⟩ := ok_of_guard h
  obtain ⟨-, h⟩ := ok_of_guard h
  obtain ⟨-, h⟩ := ok_of_guard h
  obtain ⟨-, h⟩ := ok_of_guard h
  obtain ⟨first, hfirst, h⟩ := ok_of_bind h
  obtain ⟨first', hstatus, h⟩ := ok_of_bind h
  rw [of_errorForStatus hstatus] at h
  obtain ⟨sums, hsums, h⟩ := ok_of_bind h
  obtain ⟨digest, hdigest, h⟩ := ok_of_bind h
  obtain ⟨-, h⟩ := ok_of_guard h
  obtain ⟨second, hsecond, h⟩ := ok_of_bind h
  obtain ⟨second', hstatus', h⟩ := ok_of_bind h
  rw [of_errorForStatus hstatus'] at h
  obtain ⟨-, h⟩ := ok_of_guard h
  obtain ⟨-, h⟩ := ok_of_guard h
  cases h
  obtain ⟨hfirst, hfollow⟩ := of_send hfirst
  obtain ⟨hsecond, hfollow'⟩ := of_send hsecond
  obtain ⟨hbody, hlength⟩ := of_readBounded hsums (Nat.zero_le _)
  rw [List.nil_append] at hbody
  exact ⟨Option.isSome_iff_ne_none.2 hportable,
    ⟨sums, ⟨_, hfirst, hbody.symm, hfollow⟩, hlength, checksum_ok_iff.1 (ok_of_mapError hdigest)⟩,
    ⟨_, hsecond, rfl, hfollow'⟩⟩

section Stages

variable {hash : List UInt8 → Text} {parseIdentity : List UInt8 → Option PackageIdentity}
  {openArchive : List UInt8 → Archive} {s : Surroundings} {release : Release}

/-- What is handed over: the archive is the published one, and the helper will find the
package to be what it contained. -/
structure Verified (hash : List UInt8 → Text) (s : Surroundings) (release : Release)
    (stage : Stage) : Prop where
  portable : s.portable = some stage.install
  sums : ∃ sums, Received s.sums sums ∧ sums.length ≤ 64 * 1024 ∧
    Identifies sums (hash stage.archive)
  archive : Received s.archive stage.archive
  size : stage.archive.length = release.size
  version : stage.version = release.version
  files : Exact hash stage.package stage.files
  accepted : ∀ d : Disk,
    verifyFiles hash { d with packagePlain := true, package := stage.package } ⟨stage.files⟩ =
      .ok ()

theorem of_stageArchive {expected : Text} {archive : List UInt8} {stage : Stage}
    (h : stageArchive hash parseIdentity openArchive s release expected archive = .ok stage) :
    archive.length = release.size ∧ hash archive = expected ∧ stage.archive = archive ∧
      stage.install = s.portable.getD [] ∧ stage.version = release.version ∧
      Exact hash stage.package stage.files ∧ ∀ d : Disk,
        verifyFiles hash { d with packagePlain := true, package := stage.package }
          ⟨stage.files⟩ = .ok () := by
  obtain ⟨-, h⟩ := ok_of_guard h
  obtain ⟨hsize, h⟩ := ok_of_guard h
  obtain ⟨hdigest, h⟩ := ok_of_guard h
  obtain ⟨-, h⟩ := ok_of_guard h
  obtain ⟨⟨files, package⟩, hextract, h⟩ := ok_of_bind h
  obtain ⟨-, h⟩ := ok_of_guard h
  cases h
  obtain ⟨extraction, rfl, rfl, hstaged⟩ := extract_staged (ok_of_mapError hextract)
  have haccepted := verifyFiles_of_staged hstaged
  exact ⟨not_not.1 hsize, not_not.1 hdigest, rfl, rfl, rfl,
    exact_of_verified (haccepted ⟨∅, true, ∅, none, none⟩), haccepted⟩

theorem prepare_verified {stage : Stage} {reports : List Nat}
    (h : prepare hash parseIdentity openArchive s release = (.ok stage, reports)) :
    Verified hash s release stage := by
  unfold prepare at h
  split at h
  · cases h
  rename_i expected response hrequest
  obtain ⟨_, -, hall⟩ := download_progress s release.size response
  split at h
  · cases h
  rename_i archive reports' harchive
  obtain ⟨hbody, -⟩ := hall archive (congrArg Prod.fst harchive)
  obtain ⟨hstage, -⟩ := Prod.mk.inj h
  obtain ⟨hsize, hdigest, rfl, hinstall, hversion, hexact, haccepted⟩ := of_stageArchive hstage
  obtain ⟨hportable, hsums, hreceived⟩ := of_request hrequest
  obtain ⟨install, hsome⟩ := Option.isSome_iff_exists.1 hportable
  refine ⟨?_, hdigest ▸ hsums, hbody ▸ hreceived, hsize, hversion, hexact, haccepted⟩
  rw [hinstall, hsome]
  rfl

/-- The progress never goes back, and not beyond the declared size. -/
theorem prepare_progress (hash : List UInt8 → Text)
    (parseIdentity : List UInt8 → Option PackageIdentity) (openArchive : List UInt8 → Archive)
    (s : Surroundings) (release : Release) :
    ∃ total, Progress release.size total (prepare hash parseIdentity openArchive s release).2 := by
  unfold prepare
  split
  · exact ⟨0, List.Pairwise.nil, fun _ hmem => (List.not_mem_nil hmem).elim, Nat.zero_le _⟩
  rename_i expected response hrequest
  obtain ⟨total, hprogress, hall⟩ := download_progress s release.size response
  split
  · rename_i e reports hreceive
    rw [hreceive] at hprogress
    exact ⟨total, hprogress⟩
  · rename_i archive reports hreceive
    rw [hreceive] at hprogress
    obtain ⟨-, htotal⟩ := hall archive (congrArg Prod.fst hreceive)
    refine ⟨total, ?_⟩
    dsimp only
    split
    · rw [← htotal]
      exact hprogress.report
    · exact hprogress

end Stages

end MacVnc.Updater.Prepare
