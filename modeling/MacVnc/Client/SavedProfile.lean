import MacVnc.Lib.Json
/-!
# The saved profile

Saving and loading the connection profile (`macvnc-app/src/profile.rs`).  The
password is sealed for the account of the operating system together with the
destination it belongs to; two older formats, told apart by their first bytes,
hold a password alone.  The operating system's protection, base64, the JSON
parser and AES-256-GCM are parameters.
-/

namespace MacVnc.Client.SavedProfile

open MacVnc.Lib.Text
open MacVnc.Lib

def maxProfileBytes : Nat := 64 * 1024

def maxStateBytes : Nat := 1024 * 1024

/-- `MACVNC1` and a zero byte. -/
def boundPrefix : List UInt8 := [0x4d, 0x41, 0x43, 0x56, 0x4e, 0x43, 0x31, 0]

def v10 : List UInt8 := [0x76, 0x31, 0x30]

def dpapi : List UInt8 := [0x44, 0x50, 0x41, 0x50, 0x49]

structure BoundSecret where
  host : Text
  port : UInt16
  username : Text
  password : Text
deriving DecidableEq

structure Stored where
  host : Text
  port : UInt16
  username : Text
  profile : Text
  autoConnect : Bool
  enc : Text
deriving DecidableEq

structure Profile extends Stored where
  password : Text
  legacyPassword : Bool
deriving DecidableEq

abbrev Path := List Text

inductive ReadError where
  | notFound
  | invalidData
  | other
deriving DecidableEq

abbrev Files := Path → Except ReadError (List UInt8)

structure Services where
  encode : List UInt8 → Text
  decode : Text → Option (List UInt8)
  protect : List UInt8 → Except String (List UInt8)
  unprotect : List UInt8 → Except String (List UInt8)
  profileFromSlice : List UInt8 → Option Stored
  secretFromSlice : List UInt8 → Option BoundSecret
  /-- `os_crypt.encrypted_key` of the encryption state, where that is a string. -/
  encryptedKey : List UInt8 → Option (Option Text)
  decrypt : (key nonce ciphertext : List UInt8) → Option (List UInt8)

/-! ## Encoding -/

def secretToVec (secret : BoundSecret) : List UInt8 :=
  toUtf8 <| Json.object
    [(['h', 'o', 's', 't'], Json.string secret.host),
      (['p', 'o', 'r', 't'], Json.number secret.port.toNat),
      (['u', 's', 'e', 'r', 'n', 'a', 'm', 'e'], Json.string secret.username),
      (['p', 'a', 's', 's', 'w', 'o', 'r', 'd'], Json.string secret.password)]

def profileToVec (stored : Stored) : List UInt8 :=
  toUtf8 <| Json.object
    [(['h', 'o', 's', 't'], Json.string stored.host),
      (['p', 'o', 'r', 't'], Json.number stored.port.toNat),
      (['u', 's', 'e', 'r', 'n', 'a', 'm', 'e'], Json.string stored.username),
      (['p', 'r', 'o', 'f', 'i', 'l', 'e'], Json.string stored.profile),
      (['a', 'u', 't', 'o', 'C', 'o', 'n', 'n', 'e', 'c', 't'], Json.bool stored.autoConnect),
      (['e', 'n', 'c'], Json.string stored.enc)]

/-! ## Loading -/

def stripPrefix (tag bytes : List UInt8) : Option (List UInt8) :=
  if tag <+: bytes then some (bytes.drop tag.length) else none

def readBounded (files : Files) (path : Path) (limit : Nat) : Except ReadError (List UInt8) :=
  match files path with
  | .error e => .error e
  | .ok content =>
      let bytes := content.take (limit + 1)
      if limit < bytes.length then .error .invalidData else .ok bytes

def decryptBound (services : Services) (encrypted : List UInt8) (profile : Profile) :
    Except String Text :=
  match services.unprotect encrypted with
  | .error e => .error e
  | .ok plain =>
      match services.secretFromSlice plain with
      | none => .error "Invalid saved secret."
      | some secret =>
          if secret.host ≠ profile.host ∨ secret.port ≠ profile.port ∨
              secret.username ≠ profile.username then
            .error "Saved connection identity changed."
          else .ok secret.password

/-- The key that the encryption state beside a profile holds. -/
def savedKey (services : Services) (files : Files) (directory : Path) :
    Except String (List UInt8) :=
  match readBounded files (directory ++ [['L', 'o', 'c', 'a', 'l', ' ', 'S', 't', 'a', 't', 'e']])
      maxStateBytes with
  | .error _ => .error "Saved encryption key is unavailable."
  | .ok bytes =>
      match services.encryptedKey bytes with
      | none => .error "Invalid saved encryption state."
      | some none => .error "Saved encryption key is unavailable."
      | some (some text) =>
          match services.decode text with
          | none => .error "Invalid saved encryption key."
          | some encrypted =>
              match stripPrefix dpapi encrypted with
              | none => .error "Unknown saved encryption provider."
              | some encrypted => services.unprotect encrypted

def decryptSaved (services : Services) (files : Files) (bytes : List UInt8) (directory : Path) :
    Except String (List UInt8) :=
  if v10 <+: bytes then
    -- v10, a nonce of 12 bytes, the ciphertext and a tag of 16 bytes
    if bytes.length < 31 then .error "Invalid encrypted password."
    else
      match savedKey services files directory with
      | .error e => .error e
      | .ok key =>
          if key.length ≠ 32 then .error "Invalid saved encryption key."
          else
            match services.decrypt key ((bytes.drop 3).take 12) (bytes.drop 15) with
            | none => .error "Cannot decrypt saved password."
            | some plain => .ok plain
  else services.unprotect ((stripPrefix dpapi bytes).getD bytes)

def parent (path : Path) : Path := if path = [] then [['.']] else path.dropLast

def restore (services : Services) (files : Files) (path : Path) (p : Profile) : Profile :=
  if p.enc = [] then p
  else
    match services.decode p.enc with
    | none => p
    | some bytes =>
        match stripPrefix boundPrefix bytes with
        | some encrypted =>
            { p with password := (decryptBound services encrypted p).toOption.getD [] }
        | none =>
            -- Older formats cannot authenticate the destination fields.
            match decryptSaved services files bytes (parent path) with
            | .error _ => { p with autoConnect := false }
            | .ok plain =>
                let password := (fromUtf8 plain).getD []
                { p with autoConnect := false, password, legacyPassword := decide (password ≠ []) }

def load (services : Services) (files : Files) (path : Path) (stored : Stored) : Profile :=
  let p := restore services files path { stored with password := [], legacyPassword := false }
  { p with
    autoConnect :=
      p.autoConnect && decide (p.password ≠ []) && decide (p.host ≠ []) &&
        decide (p.username ≠ []) }

def loadFrom (services : Services) (files : Files) : List Path → Except String (Option Profile)
  | [] => .ok none
  | path :: rest =>
      match readBounded files path maxProfileBytes with
      | .error e =>
          if e = .notFound then loadFrom services files rest
          else .error "Saved connection cannot be read."
      | .ok bytes =>
          match services.profileFromSlice bytes with
          | none => .error "Saved connection is invalid."
          | some stored => .ok (some (load services files path stored))

/-! ## Saving -/

def secretOf (p : Profile) : BoundSecret :=
  { host := p.host, port := p.port, username := p.username, password := p.password }

def protectSecret (services : Services) (p : Profile) : Except String (List UInt8) :=
  let plain := secretToVec (secretOf p)
  if maxProfileBytes / 2 < plain.length then .error "Saved connection exceeds size limit."
  else services.protect plain

def savedEnc (services : Services) (p : Profile) : Except String Text :=
  if p.password = [] then .ok []
  else
    match protectSecret services p with
    | .error e => .error e
    | .ok encrypted => .ok (services.encode (boundPrefix ++ encrypted))

/-- What can fail while the file is written. -/
structure Writes where
  createDirectory : Bool
  createTemporary : Bool
  writeTemporary : Bool
  persist : Bool

def replaceFile (files : Files) (path : Path) (bytes : List UInt8) : Files := fun other =>
  if other = path then .ok bytes else files other

def saveTo (services : Services) (disk : Writes) (files : Files) (path : Path) (p : Profile) :
    Except String Files :=
  match savedEnc services p with
  | .error e => .error e
  | .ok enc =>
      let bytes := profileToVec
        { host := p.host, port := p.port, username := p.username, profile := p.profile
          autoConnect := p.autoConnect && decide (p.password ≠ []), enc }
      if maxProfileBytes < bytes.length then .error "Saved connection exceeds size limit."
      else if path = [] then .error "Invalid profile directory."
      else if disk.createDirectory = false then .error "Could not create profile directory."
      else if disk.createTemporary = false then .error "Could not create profile file."
      else if disk.writeTemporary = false then .error "Could not save connection."
      else if disk.persist = false then .error "Could not replace saved connection."
      else .ok (replaceFile files path bytes)

theorem readBounded_replaceFile {files : Files} {path : Path} {bytes : List UInt8} {limit : Nat}
    (h : bytes.length ≤ limit) :
    readBounded (replaceFile files path bytes) path limit = .ok bytes := by
  rw [readBounded, replaceFile, if_pos rfl]
  dsimp only
  rw [List.take_of_length_le (by omega), if_neg (by omega)]

/-! ## What the formats make of one protected secret -/

theorem stripPrefix_append (tag bytes : List UInt8) :
    stripPrefix tag (tag ++ bytes) = some bytes := by
  rw [stripPrefix, if_pos (List.prefix_append tag bytes), List.drop_left]

theorem stripPrefix_eq_some {tag bytes rest : List UInt8} (h : stripPrefix tag bytes = some rest) :
    bytes = tag ++ rest := by
  unfold stripPrefix at h
  split at h
  · rename_i hprefix
    obtain ⟨tail, rfl⟩ := hprefix
    rw [List.drop_left] at h
    rw [Option.some.inj h]
  · cases h

theorem stripPrefix_eq_none {tag bytes : List UInt8} :
    stripPrefix tag bytes = none ↔ ¬ tag <+: bytes := by
  unfold stripPrefix
  split
  · rename_i hprefix
    exact ⟨nofun, fun h => absurd hprefix h⟩
  · rename_i hprefix
    exact ⟨fun _ => hprefix, fun _ => rfl⟩

/-- The protection gave `encrypted` for the password of `p`, with `plain` inside. -/
structure Sealed (services : Services) (p : Profile) (encrypted plain : List UInt8) : Prop where
  password : p.password ≠ []
  encrypted : protectSecret services p = .ok encrypted
  plain : plain = secretToVec (secretOf p)

theorem length_le_toUtf8 (text : Text) : text.length ≤ (toUtf8 text).length := by
  rw [length_toUtf8, byteLength]
  induction text with
  | nil => exact Nat.le_refl _
  | cons c rest ih =>
      have hfirst := Char.utf8Size_pos c
      rw [List.map_cons, List.sum_cons, List.length_cons]
      omega

theorem lt_length_secretToVec (secret : BoundSecret) : 32 < (secretToVec secret).length := by
  refine Nat.lt_of_lt_of_le ?_ (length_le_toUtf8 _)
  refine Nat.lt_of_lt_of_le ?_ (Json.length_object _)
  show 32 < 38
  omega

theorem secretText_ne_nil (secret : BoundSecret) :
    ∃ text, fromUtf8 (secretToVec secret) = some text ∧ text ≠ [] :=
  ⟨_, fromUtf8_toUtf8 _, nofun⟩

/-- The key that the encryption state holds came out of the protection. -/
theorem savedKey_unprotect {services : Services} {files : Files} {directory : Path}
    {key : List UInt8} (h : savedKey services files directory = .ok key) :
    ∃ encrypted, services.unprotect encrypted = .ok key := by
  unfold savedKey at h
  split at h
  · cases h
  split at h
  · cases h
  · cases h
  split at h
  · cases h
  split at h
  · cases h
  · exact ⟨_, h⟩

section Bound

variable {services : Services} {p : Profile}

/-- The only ciphertext that the protection accepts is the one it made for `p`. -/
def OnlySealed (services : Services) (p : Profile) : Prop :=
  ∀ encrypted plain, services.unprotect encrypted = .ok plain ↔ Sealed services p encrypted plain

/-- No key of the older encryption state comes out of the secret. -/
theorem decryptSaved_v10 (hsealed : OnlySealed services p) {files : Files} {bytes : List UInt8}
    {directory : Path} (hv10 : v10 <+: bytes) (plain : List UInt8) :
    decryptSaved services files bytes directory ≠ .ok plain := by
  rw [decryptSaved, if_pos hv10]
  split
  · exact nofun
  split
  · exact nofun
  · rename_i key hkey
    obtain ⟨encrypted, hencrypted⟩ := savedKey_unprotect hkey
    have hplain := ((hsealed encrypted key).1 hencrypted).plain
    have hlength := lt_length_secretToVec (secretOf p)
    rw [if_pos (by rw [hplain]; omega)]
    exact nofun

theorem decryptSaved_iff (hsealed : OnlySealed services p) {files : Files} {bytes : List UInt8}
    {directory : Path} {plain : List UInt8} :
    decryptSaved services files bytes directory = .ok plain ↔
      ¬ v10 <+: bytes ∧ Sealed services p ((stripPrefix dpapi bytes).getD bytes) plain := by
  by_cases hv10 : v10 <+: bytes
  · exact ⟨fun h => absurd h (decryptSaved_v10 hsealed hv10 plain), fun h => absurd hv10 h.1⟩
  · rw [decryptSaved, if_neg hv10, hsealed]
    exact ⟨fun h => ⟨hv10, h⟩, And.right⟩

/-- Under the prefix of the bound format no other destination gets the password. -/
theorem decryptBound_of_ne (hsealed : OnlySealed services p)
    (hsecret : services.secretFromSlice (secretToVec (secretOf p)) = some (secretOf p))
    {profile : Profile}
    (hdestination : p.host ≠ profile.host ∨ p.port ≠ profile.port ∨ p.username ≠ profile.username)
    (encrypted : List UInt8) :
    (decryptBound services encrypted profile).toOption = none := by
  unfold decryptBound
  split
  · rfl
  · rename_i plain hplain
    rw [((hsealed encrypted plain).1 hplain).plain, hsecret]
    dsimp only
    rw [if_pos (show (secretOf p).host ≠ profile.host ∨ (secretOf p).port ≠ profile.port ∨
      (secretOf p).username ≠ profile.username from hdestination)]
    rfl

/-- The secret of `p` under the tag of the older format, or without any tag. -/
def Retagged (services : Services) (p : Profile) (enc : Text) : Prop :=
  enc ≠ [] ∧ ∃ encrypted, (∃ plain, Sealed services p encrypted plain) ∧
    (services.decode enc = some (dpapi ++ encrypted) ∨
      services.decode enc = some encrypted ∧
        ¬ boundPrefix <+: encrypted ∧ ¬ v10 <+: encrypted ∧ ¬ dpapi <+: encrypted)

theorem not_prefix_dpapi (bytes : List UInt8) :
    ¬ boundPrefix <+: dpapi ++ bytes ∧ ¬ v10 <+: dpapi ++ bytes := by
  constructor
  · rintro ⟨rest, hrest⟩
    exact absurd (List.cons.inj hrest).1 (by decide)
  · rintro ⟨rest, hrest⟩
    exact absurd (List.cons.inj hrest).1 (by decide)

theorem sealed_stripped_iff {bytes plain : List UInt8} (hbound : ¬ boundPrefix <+: bytes)
    (hv10 : ¬ v10 <+: bytes) :
    Sealed services p ((stripPrefix dpapi bytes).getD bytes) plain ↔
      ∃ encrypted, Sealed services p encrypted plain ∧
        (bytes = dpapi ++ encrypted ∨
          bytes = encrypted ∧ ¬ boundPrefix <+: encrypted ∧ ¬ v10 <+: encrypted ∧
            ¬ dpapi <+: encrypted) := by
  constructor
  · intro h
    cases hstrip : stripPrefix dpapi bytes with
    | some rest =>
        rw [hstrip] at h
        exact ⟨rest, h, Or.inl (stripPrefix_eq_some hstrip)⟩
    | none =>
        rw [hstrip] at h
        exact ⟨bytes, h, Or.inr ⟨rfl, hbound, hv10, stripPrefix_eq_none.1 hstrip⟩⟩
  · rintro ⟨encrypted, h, rfl | ⟨rfl, -, -, hdpapi⟩⟩
    · rwa [stripPrefix_append]
    · rwa [stripPrefix_eq_none.2 hdpapi]

/-- The password of a profile for another destination. -/
theorem restore_password_iff (hsealed : OnlySealed services p)
    (hsecret : services.secretFromSlice (secretToVec (secretOf p)) = some (secretOf p))
    {files : Files} {path : Path} {stored : Profile} (hempty : stored.password = [])
    (hdestination : p.host ≠ stored.host ∨ p.port ≠ stored.port ∨ p.username ≠ stored.username) :
    (restore services files path stored).password = [] ↔ ¬ Retagged services p stored.enc := by
  unfold restore
  by_cases henc : stored.enc = []
  · rw [if_pos henc]
    exact ⟨fun _ h => h.1 henc, fun _ => hempty⟩
  rw [if_neg henc]
  cases hdecode : services.decode stored.enc with
  | none =>
      refine ⟨fun _ h => ?_, fun _ => hempty⟩
      obtain ⟨-, encrypted, -, hbytes | ⟨hbytes, -⟩⟩ := h
      · rw [hdecode] at hbytes
        cases hbytes
      · rw [hdecode] at hbytes
        cases hbytes
  | some bytes =>
      dsimp only
      cases hstrip : stripPrefix boundPrefix bytes with
      | some encrypted =>
          dsimp only
          rw [decryptBound_of_ne hsealed hsecret hdestination]
          refine ⟨fun _ h => ?_, fun _ => rfl⟩
          obtain ⟨-, other, -, hbytes | ⟨hbytes, hbound, -⟩⟩ := h
          · rw [hdecode] at hbytes
            apply (not_prefix_dpapi other).1
            rw [← Option.some.inj hbytes, stripPrefix_eq_some hstrip]
            exact List.prefix_append _ _
          · rw [hdecode] at hbytes
            apply hbound
            rw [← Option.some.inj hbytes, stripPrefix_eq_some hstrip]
            exact List.prefix_append _ _
      | none =>
          have hbound := stripPrefix_eq_none.1 hstrip
          have hretagged : Retagged services p stored.enc ↔
              ∃ plain, decryptSaved services files bytes (parent path) = .ok plain := by
            constructor
            · rintro ⟨-, encrypted, ⟨plain, hplain⟩, hbytes⟩
              rw [hdecode, Option.some.injEq, Option.some.injEq] at hbytes
              refine ⟨plain, (decryptSaved_iff hsealed).2 ?_⟩
              have hv10 : ¬ v10 <+: bytes := by
                rcases hbytes with rfl | ⟨rfl, -, hv10, -⟩
                · exact (not_prefix_dpapi encrypted).2
                · exact hv10
              exact ⟨hv10, (sealed_stripped_iff hbound hv10).2 ⟨encrypted, hplain, hbytes⟩⟩
            · rintro ⟨plain, hplain⟩
              obtain ⟨hv10, hstripped⟩ := (decryptSaved_iff hsealed).1 hplain
              obtain ⟨encrypted, hencrypted, hbytes⟩ :=
                (sealed_stripped_iff hbound hv10).1 hstripped
              refine ⟨henc, encrypted, ⟨plain, hencrypted⟩, ?_⟩
              rwa [hdecode, Option.some.injEq, Option.some.injEq]
          dsimp only
          cases hplain : decryptSaved services files bytes (parent path) with
          | error e =>
              refine ⟨fun _ h => ?_, fun _ => hempty⟩
              obtain ⟨plain, h⟩ := hretagged.1 h
              rw [hplain] at h
              cases h
          | ok plain =>
              have hinside := ((decryptSaved_iff hsealed).1 hplain).2.plain
              obtain ⟨text, htext, hne⟩ := secretText_ne_nil (secretOf p)
              refine ⟨fun h => ?_, fun h => absurd (hretagged.2 ⟨plain, hplain⟩) h⟩
              dsimp only at h
              rw [hinside, htext] at h
              exact absurd h hne

/-- The first path that names a file decides. -/
theorem loadFrom_read {files : Files} {before after : List Path} {path : Path}
    {bytes : List UInt8} {stored : Stored}
    (hbefore : ∀ other ∈ before, readBounded files other maxProfileBytes = .error .notFound)
    (hread : readBounded files path maxProfileBytes = .ok bytes)
    (hparse : services.profileFromSlice bytes = some stored) :
    loadFrom services files (before ++ path :: after) =
      .ok (some (load services files path stored)) := by
  induction before with
  | nil => simp only [List.nil_append, loadFrom, hread, hparse]
  | cons other rest ih =>
      rw [List.cons_append, loadFrom, hbefore other List.mem_cons_self]
      exact ih fun next hmem => hbefore next (List.mem_cons_of_mem _ hmem)

/-- A file with another destination gives no password exactly if its `enc` is not the secret
of `p` in an older format. -/
theorem password_bound_iff (hsealed : OnlySealed services p)
    (hsecret : services.secretFromSlice (secretToVec (secretOf p)) = some (secretOf p))
    {files : Files} {before after : List Path} {path : Path} {bytes : List UInt8}
    {stored : Stored}
    (hbefore : ∀ other ∈ before, readBounded files other maxProfileBytes = .error .notFound)
    (hread : readBounded files path maxProfileBytes = .ok bytes)
    (hparse : services.profileFromSlice bytes = some stored)
    (hdestination : p.host ≠ stored.host ∨ p.port ≠ stored.port ∨ p.username ≠ stored.username) :
    (∃ loaded, loadFrom services files (before ++ path :: after) = .ok (some loaded) ∧
      loaded.password = []) ↔ ¬ Retagged services p stored.enc := by
  have hrestore := @restore_password_iff services p hsealed hsecret files path
    { stored with password := [], legacyPassword := false } rfl hdestination
  rw [loadFrom_read hbefore hread hparse, ← hrestore]
  constructor
  · rintro ⟨loaded, hsome, hempty⟩
    cases hsome
    exact hempty
  · exact fun hempty => ⟨_, rfl, hempty⟩

end Bound

/-! A secret that the protection gave as four bytes, under both tags. -/

def fixtureProfile : Profile :=
  { host := ['m', 'a', 'c'], port := 5900, username := ['u'], profile := ['c'], autoConnect := true
    enc := [], password := ['p', 'w'], legacyPassword := false }

def fixtureSealed : List UInt8 := [1, 0, 0, 0]

def fixtureSecret : List UInt8 := secretToVec (secretOf fixtureProfile)

def boundEnc : Text :=
  ['T', 'U', 'F', 'D', 'V', 'k', '5', 'D', 'M', 'Q', 'A', 'B', 'A', 'A', 'A', 'A']

def legacyEnc : Text := ['R', 'F', 'B', 'B', 'U', 'E', 'k', 'B', 'A', 'A', 'A', 'A']

def editedStored (enc : Text) : Stored :=
  { host := ['e', 'v', 'i', 'l'], port := 5900, username := ['u'], profile := ['c']
    autoConnect := true, enc }

def fixtureServices : Services where
  encode bytes := if bytes = boundPrefix ++ fixtureSealed then boundEnc else legacyEnc
  decode text :=
    if text = boundEnc then some (boundPrefix ++ fixtureSealed)
    else if text = legacyEnc then some (dpapi ++ fixtureSealed)
    else none
  protect plain :=
    if plain = fixtureSecret then .ok fixtureSealed
    else .error "Windows secure password storage is unavailable."
  unprotect encrypted :=
    if encrypted = fixtureSealed then .ok fixtureSecret
    else .error "Windows secure password storage is unavailable."
  profileFromSlice bytes :=
    if bytes = profileToVec (editedStored boundEnc) then some (editedStored boundEnc)
    else if bytes = profileToVec (editedStored legacyEnc) then some (editedStored legacyEnc)
    else none
  secretFromSlice bytes := if bytes = fixtureSecret then some (secretOf fixtureProfile) else none
  encryptedKey _ := none
  decrypt _ _ _ := none

def fixturePath : Path := [['m', 'a', 'c', 'v', 'n', 'c'], ['p']]

def noFiles : Files := fun _ => .error .notFound

def editedFiles (enc : Text) : Files :=
  replaceFile noFiles fixturePath (profileToVec (editedStored enc))

theorem fixture_protect : protectSecret fixtureServices fixtureProfile = .ok fixtureSealed := by
  decide

theorem fixture_onlySealed : OnlySealed fixtureServices fixtureProfile := by
  intro encrypted plain
  show (if encrypted = fixtureSealed then Except.ok fixtureSecret else .error _) = .ok plain ↔ _
  constructor
  · intro h
    split at h
    · rename_i hsame
      cases h
      exact ⟨nofun, by rw [hsame]; exact fixture_protect, rfl⟩
    · cases h
  · rintro ⟨-, hencrypted, rfl⟩
    rw [fixture_protect, Except.ok.injEq] at hencrypted
    rw [if_pos hencrypted.symm]
    rfl

theorem fixture_secretFromSlice :
    fixtureServices.secretFromSlice (secretToVec (secretOf fixtureProfile)) =
      some (secretOf fixtureProfile) := by
  show (if fixtureSecret = fixtureSecret then some (secretOf fixtureProfile) else none) = _
  exact if_pos rfl

theorem editedFiles_read {enc : Text} (h : enc = boundEnc ∨ enc = legacyEnc) :
    readBounded (editedFiles enc) fixturePath maxProfileBytes =
        .ok (profileToVec (editedStored enc)) ∧
      fixtureServices.profileFromSlice (profileToVec (editedStored enc)) =
        some (editedStored enc) := by
  rcases h with rfl | rfl
  · exact ⟨readBounded_replaceFile (by decide), by decide⟩
  · exact ⟨readBounded_replaceFile (by decide), by decide⟩

/-- Editing the visible fields alone gives no password. -/
theorem password_bound_iff_fixture :
    (∃ loaded, loadFrom fixtureServices (editedFiles boundEnc) [fixturePath] = .ok (some loaded) ∧
      loaded.password = []) ↔ ¬ Retagged fixtureServices fixtureProfile boundEnc := by
  obtain ⟨hread, hparse⟩ := editedFiles_read (Or.inl rfl)
  exact @password_bound_iff fixtureServices fixtureProfile fixture_onlySealed
    fixture_secretFromSlice (editedFiles boundEnc) [] [] fixturePath _ _ nofun hread hparse
    (Or.inl (by decide))

/-- With the tag of the older format the secret opens for any host. -/
theorem retagged_secret_opens :
    ¬ ∀ (services : Services) (p : Profile) (disk : Writes) (files written edited : Files)
        (path : Path) (bytes : List UInt8) (stored : Stored),
      saveTo services disk files path p = .ok written → OnlySealed services p →
      services.secretFromSlice (secretToVec (secretOf p)) = some (secretOf p) →
      readBounded edited path maxProfileBytes = .ok bytes →
      services.profileFromSlice bytes = some stored →
      (p.host ≠ stored.host ∨ p.port ≠ stored.port ∨ p.username ≠ stored.username) →
      ∃ loaded, loadFrom services edited [path] = .ok (some loaded) ∧ loaded.password = [] := by
  intro hclaim
  obtain ⟨hread, hparse⟩ := editedFiles_read (Or.inr rfl)
  have hsave : ∃ written, saveTo fixtureServices ⟨true, true, true, true⟩ noFiles fixturePath
      fixtureProfile = .ok written := ⟨_, rfl⟩
  obtain ⟨written, hwritten⟩ := hsave
  obtain ⟨loaded, hloaded, hempty⟩ := hclaim fixtureServices fixtureProfile _ _ written
    (editedFiles legacyEnc) fixturePath _ _ hwritten fixture_onlySealed fixture_secretFromSlice
    hread hparse (Or.inl (by decide))
  have hnone : ∀ other ∈ ([] : List Path),
      readBounded (editedFiles legacyEnc) other maxProfileBytes = .error .notFound := nofun
  rw [show [fixturePath] = [] ++ fixturePath :: [] from rfl, loadFrom_read hnone hread hparse]
    at hloaded
  cases hloaded
  have hretagged : Retagged fixtureServices fixtureProfile legacyEnc :=
    ⟨nofun, fixtureSealed, ⟨fixtureSecret, nofun, fixture_protect, rfl⟩, Or.inl rfl⟩
  have hrestore := @restore_password_iff fixtureServices fixtureProfile fixture_onlySealed
    fixture_secretFromSlice (editedFiles legacyEnc) fixturePath
    { editedStored legacyEnc with password := [], legacyPassword := false } rfl
    (Or.inl (by decide))
  exact hrestore.1 hempty hretagged

/-! ## Saving and loading -/

theorem saveTo_read {services : Services} {disk : Writes} {files written : Files} {path : Path}
    {p : Profile} (h : saveTo services disk files path p = .ok written) :
    ∃ enc, savedEnc services p = .ok enc ∧
      readBounded written path maxProfileBytes =
        .ok (profileToVec
          { host := p.host, port := p.port, username := p.username, profile := p.profile
            autoConnect := p.autoConnect && decide (p.password ≠ []), enc }) := by
  unfold saveTo at h
  split at h
  · cases h
  · rename_i enc henc
    refine ⟨enc, henc, ?_⟩
    dsimp only at h
    split at h
    · cases h
    rename_i hsize
    repeat' split at h
    all_goals cases h
    exact readBounded_replaceFile (by omega)

/-- A profile that was saved is loaded with its password. -/
theorem saved_password_loads {services : Services} {disk : Writes} {files written : Files}
    {path : Path} {p : Profile} (hsave : saveTo services disk files path p = .ok written)
    (hdecode : ∀ bytes, services.decode (services.encode bytes) = some bytes)
    (hempty : services.decode [] = some [])
    (hprotect : ∀ plain encrypted, services.protect plain = .ok encrypted →
      services.unprotect encrypted = .ok plain)
    (hprofile : ∀ stored, services.profileFromSlice (profileToVec stored) = some stored)
    (hsecret : ∀ secret, services.secretFromSlice (secretToVec secret) = some secret) :
    ∃ loaded, loadFrom services written [path] = .ok (some loaded) ∧
      loaded.password = p.password := by
  obtain ⟨enc, henc, hread⟩ := saveTo_read hsave
  have hnone : ∀ other ∈ ([] : List Path),
      readBounded written other maxProfileBytes = .error .notFound := nofun
  refine ⟨_, loadFrom_read hnone hread (hprofile _), ?_⟩
  show (restore services written path _).password = p.password
  unfold savedEnc at henc
  split at henc
  · rename_i hpassword
    cases henc
    rw [restore, if_pos rfl, hpassword]
  · split at henc
    · cases henc
    · rename_i encrypted hencrypted
      cases henc
      have hne : services.encode (boundPrefix ++ encrypted) ≠ [] := by
        intro hnil
        have hbytes := hdecode (boundPrefix ++ encrypted)
        rw [hnil, hempty] at hbytes
        cases hbytes
      have hplain : services.unprotect encrypted = .ok (secretToVec (secretOf p)) := by
        unfold protectSecret at hencrypted
        dsimp only at hencrypted
        split at hencrypted
        · cases hencrypted
        · exact hprotect _ _ hencrypted
      rw [restore, if_neg hne]
      simp only [hdecode, stripPrefix_append, decryptBound, hplain, hsecret]
      simp [secretOf, Except.toOption]

/-! ## Connecting without the user -/

/-- The `enc` of a file opens as a secret for the destination that the file names. -/
def OpensAs (services : Services) (stored : Stored) (secret : BoundSecret) : Prop :=
  ∃ encrypted plain, services.decode stored.enc = some (boundPrefix ++ encrypted) ∧
    services.unprotect encrypted = .ok plain ∧ services.secretFromSlice plain = some secret ∧
    secret.host = stored.host ∧ secret.port = stored.port ∧ secret.username = stored.username

/-- The first of the candidates that exists. -/
def FirstExisting (files : Files) (paths : List Path) (path : Path) : Prop :=
  ∃ before after, paths = before ++ path :: after ∧ files path ≠ .error .notFound ∧
    ∀ other ∈ before, files other = .error .notFound

/-- The profile that a file holds, where it can be read, is not too long and is one. -/
def Holds (services : Services) (files : Files) (path : Path) (stored : Stored) : Prop :=
  ∃ content, files path = .ok content ∧ content.length ≤ maxProfileBytes ∧
    services.profileFromSlice content = some stored

theorem readBounded_notFound {files : Files} {path : Path} {limit : Nat} :
    readBounded files path limit = .error .notFound ↔ files path = .error .notFound := by
  unfold readBounded
  split
  · rename_i e hfile
    rw [hfile]
  · rename_i content hfile
    rw [hfile]
    dsimp only
    constructor
    · intro h
      split at h
      all_goals cases h
    · exact nofun

theorem readBounded_ok {files : Files} {path : Path} {limit : Nat} {bytes : List UInt8}
    (h : readBounded files path limit = .ok bytes) :
    files path = .ok bytes ∧ bytes.length ≤ limit := by
  unfold readBounded at h
  split at h
  · cases h
  rename_i content hfile
  dsimp only at h
  split at h
  · cases h
  rename_i hlength
  cases h
  rw [List.length_take] at hlength
  have hwhole : content.length ≤ limit := by omega
  rw [List.take_of_length_le (by omega)]
  exact ⟨hfile, hwhole⟩

section Automatic

variable {services : Services} {files : Files}

theorem decryptBound_ok {encrypted : List UInt8} {p : Profile} {password : Text}
    (h : decryptBound services encrypted p = .ok password) :
    ∃ plain secret, services.unprotect encrypted = .ok plain ∧
      services.secretFromSlice plain = some secret ∧ secret.host = p.host ∧
      secret.port = p.port ∧ secret.username = p.username ∧ password = secret.password := by
  unfold decryptBound at h
  split at h
  · cases h
  rename_i plain hplain
  split at h
  · cases h
  rename_i secret hsecret
  split at h
  · cases h
  rename_i hsame
  push Not at hsame
  obtain ⟨hhost, hport, husername⟩ := hsame
  cases h
  exact ⟨plain, secret, hplain, hsecret, hhost, hport, husername, rfl⟩

/-- A password that comes with the flag is the one of the bound format. -/
theorem restore_automatic {path : Path} {stored : Stored} {p : Profile}
    (hrestore : restore services files path
      { stored with password := [], legacyPassword := false } = p)
    (hauto : p.autoConnect = true) (hpassword : p.password ≠ []) :
    ∃ secret, OpensAs services stored secret ∧ p.toStored = stored ∧
      p.password = secret.password := by
  unfold restore at hrestore
  split at hrestore
  · subst hrestore
    exact absurd rfl hpassword
  split at hrestore
  · subst hrestore
    exact absurd rfl hpassword
  rename_i bytes hdecode
  split at hrestore
  · rename_i encrypted hstrip
    subst hrestore
    dsimp only at hpassword
    cases hbound : decryptBound services encrypted
        { stored with password := [], legacyPassword := false } with
    | error e =>
        rw [hbound] at hpassword
        exact absurd rfl hpassword
    | ok password =>
        obtain ⟨plain, secret, hplain, hsecret, hhost, hport, husername, rfl⟩ :=
          decryptBound_ok hbound
        rw [stripPrefix_eq_some hstrip] at hdecode
        exact ⟨secret, ⟨encrypted, plain, hdecode, hplain, hsecret, hhost, hport, husername⟩,
          rfl, rfl⟩
  · -- every older format clears the flag
    split at hrestore
    · subst hrestore
      cases hauto
    · subst hrestore
      cases hauto

theorem load_automatic {path : Path} {stored : Stored}
    (hauto : (load services files path stored).autoConnect = true) :
    ∃ secret, OpensAs services stored secret ∧ (load services files path stored).toStored = stored ∧
      (load services files path stored).password = secret.password ∧
      (load services files path stored).password ≠ [] ∧
      (load services files path stored).host ≠ [] ∧
      (load services files path stored).username ≠ [] := by
  have hall := hauto
  simp only [load, Bool.and_eq_true, decide_eq_true_eq] at hall
  obtain ⟨⟨⟨hrestored, hpassword⟩, hhost⟩, husername⟩ := hall
  obtain ⟨secret, hopens, hstored, hsecret⟩ := restore_automatic rfl hrestored hpassword
  refine ⟨secret, hopens, ?_, hsecret, hpassword, hhost, husername⟩
  have hflag : stored.autoConnect = true := by
    rw [← hstored]
    exact hrestored
  show { (restore services files path _).toStored with
    autoConnect := (load services files path stored).autoConnect } = stored
  rw [hauto, hstored, ← hflag]

theorem loadFrom_some {paths : List Path} {p : Profile}
    (h : loadFrom services files paths = .ok (some p)) :
    ∃ path stored, FirstExisting files paths path ∧ Holds services files path stored ∧
      p = load services files path stored := by
  induction paths with
  | nil => cases h
  | cons path rest ih =>
      rw [loadFrom] at h
      split at h
      · rename_i e hread
        split at h
        · rename_i hmissing
          rw [hmissing] at hread
          obtain ⟨found, stored, ⟨before, after, rfl, hfound, hbefore⟩, hholds, hp⟩ := ih h
          refine ⟨found, stored, ⟨path :: before, after, rfl, hfound, ?_⟩, hholds, hp⟩
          rintro other (_ | ⟨_, hmem⟩)
          · exact readBounded_notFound.1 hread
          · exact hbefore other hmem
        · cases h
      · rename_i bytes hread
        split at h
        · cases h
        · rename_i stored hparse
          cases h
          obtain ⟨hfile, hlength⟩ := readBounded_ok hread
          exact ⟨path, stored, ⟨[], rest, rfl, by rw [hfile]; exact nofun, nofun⟩,
            ⟨bytes, hfile, hlength, hparse⟩, rfl⟩

theorem loadFrom_unusable {paths : List Path} {path : Path}
    (hfirst : FirstExisting files paths path)
    (hunusable : ¬ ∃ stored, Holds services files path stored) :
    ∃ message, loadFrom services files paths = .error message := by
  obtain ⟨before, after, rfl, hexists, hbefore⟩ := hfirst
  induction before with
  | nil =>
      rw [List.nil_append, loadFrom]
      split
      · rename_i e hread
        have hother : e ≠ .notFound := by
          rintro rfl
          exact hexists (readBounded_notFound.1 hread)
        rw [if_neg hother]
        exact ⟨_, rfl⟩
      · rename_i bytes hread
        split
        · exact ⟨_, rfl⟩
        · rename_i stored hparse
          obtain ⟨hfile, hlength⟩ := readBounded_ok hread
          exact absurd ⟨stored, bytes, hfile, hlength, hparse⟩ hunusable
  | cons other rest ih =>
      have hmissing := hbefore other List.mem_cons_self
      rw [List.cons_append, loadFrom, readBounded_notFound.2 hmissing]
      exact ih fun next hmem => hbefore next (List.mem_cons_of_mem _ hmem)

/-- A profile connects by itself only with a password sealed for the destination it names, and a
candidate that exists but cannot be used is never passed over. -/
theorem automatic_only_sealed (services : Services) (files : Files) (paths : List Path) :
    (∀ p, loadFrom services files paths = .ok (some p) → p.autoConnect = true →
      ∃ path stored secret, FirstExisting files paths path ∧ Holds services files path stored ∧
        OpensAs services stored secret ∧ p.toStored = stored ∧ p.password = secret.password ∧
        p.password ≠ [] ∧ p.host ≠ [] ∧ p.username ≠ []) ∧
    ∀ path, FirstExisting files paths path → (¬ ∃ stored, Holds services files path stored) →
      ∃ message, loadFrom services files paths = .error message := by
  refine ⟨fun p hload hauto => ?_, fun path => loadFrom_unusable⟩
  obtain ⟨path, stored, hfirst, hholds, rfl⟩ := loadFrom_some hload
  obtain ⟨secret, hopens, hstored, hpassword⟩ := load_automatic hauto
  exact ⟨path, stored, secret, hfirst, hholds, hopens, hstored, hpassword⟩

end Automatic

/-- The file with the destination that the secret was sealed for. -/
def sealedStored : Stored := { editedStored boundEnc with host := ['m', 'a', 'c'] }

def sealedServices : Services :=
  { fixtureServices with
    profileFromSlice := fun bytes =>
      if bytes = profileToVec sealedStored then some sealedStored else none }

def sealedFiles : Files := replaceFile noFiles fixturePath (profileToVec sealedStored)

/-- The second candidate connects by itself, and a current file that is no profile hides it. -/
theorem automatic_only_sealed_fixture :
    (∃ p path stored secret,
      loadFrom sealedServices sealedFiles [[['n', 'o', 'n', 'e']], fixturePath] = .ok (some p) ∧
      FirstExisting sealedFiles [[['n', 'o', 'n', 'e']], fixturePath] path ∧
      OpensAs sealedServices stored secret ∧ p.toStored = stored ∧
      p.password = secret.password ∧ p.password ≠ []) ∧
    ∃ message, loadFrom sealedServices (replaceFile sealedFiles [['b', 'a', 'd']] [1])
      [[['b', 'a', 'd']], fixturePath] = .error message := by
  constructor
  · have hload : loadFrom sealedServices sealedFiles [[['n', 'o', 'n', 'e']], fixturePath] =
        .ok (some { sealedStored with password := ['p', 'w'], legacyPassword := false }) := by
      decide +kernel
    obtain ⟨path, stored, secret, hfirst, -, hopens, hstored, hpassword, hne, -⟩ :=
      (automatic_only_sealed sealedServices sealedFiles _).1 _ hload (by decide)
    exact ⟨_, path, stored, secret, hload, hfirst, hopens, hstored, hpassword, hne⟩
  · apply (automatic_only_sealed sealedServices _ _).2 [['b', 'a', 'd']]
    · refine ⟨[], _, rfl, ?_, nofun⟩
      rw [replaceFile, if_pos rfl]
      exact nofun
    · rintro ⟨stored, content, hfile, -, hparse⟩
      rw [replaceFile, if_pos rfl] at hfile
      cases hfile
      revert hparse
      rw [show sealedServices.profileFromSlice [1] = none by decide +kernel]
      exact nofun

end MacVnc.Client.SavedProfile
