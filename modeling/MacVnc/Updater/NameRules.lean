import MacVnc.Protocol.FileTransfer
import MacVnc.Updater.Package
/-!
# Two rules for names

The names of transferred files and the components of package paths are both checked
for what Windows does with them (`validate_name`, `hp-protocol/src/file_transfer.rs`,
and `safe_component`, `macvnc-app/src/updater/package.rs`).  They differ in the names
of devices.
-/

namespace MacVnc.Updater.NameRules

open MacVnc.Lib (Text)
open MacVnc.Lib.Text
open MacVnc.Protocol

/-- What both of them ask for. -/
structure WellFormed (name : Text) : Prop where
  size : name ≠ [] ∧ byteLength name ≤ 255
  special : name ≠ ['.'] ∧ name ≠ ['.', '.']
  chars : ∀ c ∈ name, isControl c = false ∧ c.toNat ∉ FileTransfer.forbiddenChars
  suffix : name.getLast? ≠ some ' ' ∧ name.getLast? ≠ some '.'

def Reserved (device : Text) : Prop :=
  device ∈ FileTransfer.deviceNames ∨ FileTransfer.numberedDevice device = true

def Device (device : Text) : Prop :=
  device ∈ Package.deviceNames ∨ Package.numberedDevice device = true

theorem wellFormed_iff (name : Text) :
    WellFormed name ↔
      ¬(name = [] ∨ 255 < byteLength name) ∧ ¬(name = ['.'] ∨ name = ['.', '.']) ∧
        ¬name.any (fun c => isControl c || c.toNat ∈ FileTransfer.forbiddenChars) = true ∧
          ¬(name.getLast? = some ' ' ∨ name.getLast? = some '.') := by
  simp only [not_or, Nat.not_lt, Bool.not_eq_true, List.any_eq_false, Bool.or_eq_true,
    decide_eq_true_eq]
  constructor
  · intro h
    exact ⟨h.size, h.special, h.chars, h.suffix⟩
  · rintro ⟨hsize, hspecial, hchars, hsuffix⟩
    exact ⟨hsize, hspecial, hchars, hsuffix⟩

theorem refuse_iff {p : Prop} [Decidable p] {e : FileTransfer.NameError}
    {later : Except FileTransfer.NameError Unit} :
    (if p then .error e else later) = .ok () ↔ ¬p ∧ later = .ok () := by
  by_cases h : p
  · rw [if_pos h]
    exact ⟨nofun, fun hne => absurd h hne.1⟩
  · rw [if_neg h]
    exact (and_iff_right h).symm

theorem validateName_iff (name : Text) :
    FileTransfer.validateName name = .ok () ↔
      WellFormed name ∧ ¬Reserved (FileTransfer.stem name) := by
  rw [wellFormed_iff]
  unfold FileTransfer.validateName
  rw [refuse_iff, refuse_iff, refuse_iff, refuse_iff, refuse_iff, and_iff_left rfl]
  rw [and_assoc, and_assoc, and_assoc]
  rfl

theorem safeComponent_iff (name : Text) :
    Package.safeComponent name = true ↔ WellFormed name ∧ ¬Device (Package.stem name) := by
  have hchecks : WellFormed name ↔
      ¬(name = [] ∨ 255 < byteLength name ∨ name = ['.'] ∨ name = ['.', '.'] ∨
        name.getLast? = some ' ' ∨ name.getLast? = some '.' ∨
        name.any (fun c => isControl c || c.toNat ∈ Package.forbiddenChars) = true) := by
    rw [wellFormed_iff]
    simp only [not_or, and_assoc]
    constructor
    · rintro ⟨hne, hshort, hdot, hdots, hchars, hspace, hperiod⟩
      exact ⟨hne, hshort, hdot, hdots, hspace, hperiod, hchars⟩
    · rintro ⟨hne, hshort, hdot, hdots, hspace, hperiod, hchars⟩
      exact ⟨hne, hshort, hdot, hdots, hchars, hspace, hperiod⟩
  rw [hchecks]
  unfold Package.safeComponent Device
  split
  · rename_i hbad
    exact ⟨nofun, fun h => absurd hbad h.1⟩
  · rename_i hgood
    rw [Bool.not_eq_true', Bool.or_eq_false_iff, decide_eq_false_iff_not, and_iff_right hgood,
      not_or, Bool.not_eq_true]

/-! ## Devices -/

theorem numberedDevice_imp {device : Text} (h : FileTransfer.numberedDevice device = true) :
    Package.numberedDevice device = true := by
  unfold FileTransfer.numberedDevice at h
  unfold Package.numberedDevice
  rw [List.any_eq_true] at h ⊢
  obtain ⟨n, hn, hdevice⟩ := h
  exact ⟨n, List.mem_append_left _ hn, hdevice⟩

/-- The updater knows every device that file transfers know. -/
theorem device_of_reserved {device : Text} (h : Reserved device) : Device device := by
  rcases h with hnamed | hnumbered
  · exact .inl (List.mem_append_left _ hnamed)
  · exact .inr (numberedDevice_imp hnumbered)

/-- Neither white space nor a period. -/
def isSolid (c : Char) : Bool := !isWhitespace c && c != '.'

theorem isSolid_iff (c : Char) : isSolid c = true ↔ isWhitespace c = false ∧ c ≠ '.' := by
  unfold isSolid
  rw [Bool.and_eq_true, Bool.not_eq_true', bne_iff_ne]

theorem device_chars {device : Text} (h : Device device) {c : Char} (hc : c ∈ device) :
    isWhitespace c = false ∧ c ≠ '.' := by
  rw [← isSolid_iff]
  rcases h with hnamed | hnumbered
  · have hall : Package.deviceNames.all (List.all · isSolid) = true := by decide
    exact List.all_eq_true.1 (List.all_eq_true.1 hall device hnamed) c hc
  · unfold Package.numberedDevice at hnumbered
    obtain ⟨n, hn, hdevice⟩ := List.any_eq_true.1 hnumbered
    have hdigits : ['1', '2', '3', '4', '5', '6', '7', '8', '9', Char.ofNat 0xb9, Char.ofNat 0xb2,
        Char.ofNat 0xb3].all isSolid = true := by decide
    have hsolid : isSolid n = true := List.all_eq_true.1 hdigits n hn
    rw [Bool.or_eq_true, decide_eq_true_eq, decide_eq_true_eq] at hdevice
    have hall : device.all isSolid = true := by
      rcases hdevice with rfl | rfl
      · simp only [List.all_cons, hsolid, List.all_nil]
        decide
      · simp only [List.all_cons, hsolid, List.all_nil]
        decide
    exact List.all_eq_true.1 hall c hc

theorem chars_of_device {base : Text} (h : Device (base.map toAsciiUppercase)) {c : Char}
    (hc : c ∈ base) : isWhitespace c = false ∧ c ≠ '.' := by
  have hupper := device_chars h (List.mem_map_of_mem hc)
  constructor
  · by_contra hspace
    rw [Bool.not_eq_false] at hspace
    rw [toAsciiUppercase_of_isWhitespace hspace] at hupper
    rw [hspace] at hupper
    exact nomatch hupper.1
  · rintro rfl
    exact hupper.2 rfl

/-- The name of a device with white space and an extension behind it; without the white
space, of a device that file transfers do not know. -/
structure Alias (name device pad extension : Text) : Prop where
  parts : name = device ++ pad ++ extension
  ending : extension = [] ∨ extension.head? = some '.'
  blank : ∀ c ∈ pad, isWhitespace c = true
  known : Device (device.map toAsciiUppercase)
  unknown : pad = [] → ¬Reserved (device.map toAsciiUppercase)

theorem takeWhile_parts {front extension : Text} (hfront : ∀ c ∈ front, c ≠ '.')
    (hextension : extension = [] ∨ extension.head? = some '.') :
    (front ++ extension).takeWhile (· ≠ '.') = front := by
  rw [List.takeWhile_append_of_pos (by simpa using hfront)]
  rcases hextension with rfl | hhead
  · rw [List.takeWhile_nil, List.append_nil]
  · cases extension with
    | nil => cases hhead
    | cons c rest =>
        cases hhead
        rw [List.takeWhile_cons_of_neg (by simp), List.append_nil]

theorem Alias.stems {name device pad extension : Text} (h : Alias name device pad extension) :
    FileTransfer.stem name = (device ++ pad).map toAsciiUppercase ∧
      Package.stem name = device.map toAsciiUppercase := by
  have hfront : ∀ c ∈ device ++ pad, c ≠ '.' := by
    intro c hc
    rcases List.mem_append.1 hc with hdevice | hpad
    · exact (chars_of_device h.known hdevice).2
    · rintro rfl
      exact absurd (h.blank _ hpad) (by decide)
  have htake : name.takeWhile (· ≠ '.') = device ++ pad := by
    rw [h.parts, takeWhile_parts hfront h.ending]
  unfold FileTransfer.stem Package.stem
  rw [htake, trimEnd_append h.blank fun c hc => (chars_of_device h.known hc).1]
  exact ⟨rfl, rfl⟩

theorem stem_parts (name : Text) :
    ∃ extension, name = name.takeWhile (· ≠ '.') ++ extension ∧
      (extension = [] ∨ extension.head? = some '.') := by
  refine ⟨name.dropWhile (· ≠ '.'), List.takeWhile_append_dropWhile.symm, ?_⟩
  cases hdrop : name.dropWhile (· ≠ '.') with
  | nil => exact .inl rfl
  | cons c rest =>
      have hperiod := List.head?_dropWhile_not (· ≠ '.') name
      rw [hdrop] at hperiod
      exact .inr (congrArg some (not_not.1 (of_decide_eq_false hperiod)))

/-- File transfers take a name that the updater refuses exactly where it is an alias. -/
theorem taken_and_refused_iff (name : Text) :
    FileTransfer.validateName name = .ok () ∧ Package.safeComponent name = false ↔
      WellFormed name ∧ ∃ device pad extension, Alias name device pad extension := by
  rw [← Bool.not_eq_true, safeComponent_iff, validateName_iff]
  constructor
  · rintro ⟨⟨hwell, hfree⟩, hrefused⟩
    have hdevice : Device (Package.stem name) := by
      by_contra hnone
      exact hrefused ⟨hwell, hnone⟩
    obtain ⟨extension, hname, hextension⟩ := stem_parts name
    obtain ⟨pad, hfront, hpad⟩ := exists_trimEnd (name.takeWhile (· ≠ '.'))
    refine ⟨hwell, trimEnd (name.takeWhile (· ≠ '.')), pad, extension, ?_, hextension, hpad,
      hdevice, ?_⟩
    · rw [← hfront, ← hname]
    · rintro rfl
      rw [List.append_nil] at hfront
      rw [← hfront]
      exact hfree
  · rintro ⟨hwell, device, pad, extension, halias⟩
    obtain ⟨hplain, htrimmed⟩ := halias.stems
    refine ⟨⟨hwell, ?_⟩, ?_⟩
    · intro hreserved
      rw [hplain] at hreserved
      -- No reserved name ends with white space.
      have hpad : pad = [] := by
        rw [List.eq_nil_iff_forall_not_mem]
        intro c hc
        have hchar := chars_of_device (device_of_reserved hreserved) (List.mem_append_right _ hc)
        rw [halias.blank c hc] at hchar
        exact nomatch hchar.1
      rw [hpad, List.append_nil] at hreserved
      exact halias.unknown hpad hreserved
    · rintro ⟨_, hfree⟩
      rw [htrimmed] at hfree
      exact hfree halias.known

/-- What the updater takes, file transfers take. -/
theorem validateName_of_safeComponent {name : Text} (h : Package.safeComponent name = true) :
    FileTransfer.validateName name = .ok () := by
  rw [safeComponent_iff] at h
  rw [validateName_iff]
  refine ⟨h.1, fun hreserved => h.2 ?_⟩
  have hchars : ∀ c ∈ name.takeWhile (· ≠ '.'), isWhitespace c = false :=
    fun c hc => (chars_of_device (device_of_reserved hreserved) hc).1
  have hwhole : trimEnd (name.takeWhile (· ≠ '.') ++ []) = name.takeWhile (· ≠ '.') :=
    trimEnd_append nofun hchars
  rw [List.append_nil] at hwhole
  unfold Package.stem
  rw [hwhole]
  exact device_of_reserved hreserved

/-- The two agree on a name exactly where it is no alias. -/
theorem validators_agree_iff (name : Text) :
    (FileTransfer.validateName name = .ok () ↔ Package.safeComponent name = true) ↔
      ¬(WellFormed name ∧ ∃ device pad extension, Alias name device pad extension) := by
  rw [← taken_and_refused_iff]
  constructor
  · rintro hagree ⟨htaken, hrefused⟩
    rw [hagree.1 htaken] at hrefused
    cases hrefused
  · intro hnone
    constructor
    · intro htaken
      by_contra hrefused
      exact hnone ⟨htaken, Bool.eq_false_iff.2 hrefused⟩
    · exact validateName_of_safeComponent

/-- A blank before the extension, a console by its other name, and a superscript. -/
theorem aliases_taken :
    (FileTransfer.validateName "CON .txt".toList = .ok () ∧
        Package.safeComponent "CON .txt".toList = false) ∧
      (FileTransfer.validateName "CONIN$".toList = .ok () ∧
        Package.safeComponent "CONIN$".toList = false) ∧
      (FileTransfer.validateName ['C', 'O', 'M', Char.ofNat 0xb9] = .ok () ∧
        Package.safeComponent ['C', 'O', 'M', Char.ofNat 0xb9] = false) := by
  decide

end MacVnc.Updater.NameRules
