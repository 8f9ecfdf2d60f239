import MacVnc.Lib.Text
/-!
# JSON text

Objects as the compact formatter writes them: no white space, strings with the
short escapes and `\u00xx` for the other control characters.
-/

namespace MacVnc.Lib.Json

open Text

def hexDigit (n : Nat) : Char := if n < 10 then Char.ofNat (48 + n) else Char.ofNat (87 + n)

def escape (c : Char) : Text :=
  if c.toNat = 0x08 then ['\\', 'b']
  else if c.toNat = 0x09 then ['\\', 't']
  else if c.toNat = 0x0a then ['\\', 'n']
  else if c.toNat = 0x0c then ['\\', 'f']
  else if c.toNat = 0x0d then ['\\', 'r']
  else if c.toNat = 0x22 ∨ c.toNat = 0x5c then ['\\', c]
  else if c.toNat < 0x20 then
    ['\\', 'u', '0', '0', hexDigit (c.toNat / 16), hexDigit (c.toNat % 16)]
  else [c]

def string (text : Text) : Text := '\x22' :: text.flatMap escape ++ ['\x22']

def number (n : Nat) : Text := Nat.toDigits 10 n

def bool (b : Bool) : Text := if b then ['t', 'r', 'u', 'e'] else ['f', 'a', 'l', 's', 'e']

def member (key value : Text) : Text := string key ++ ':' :: value

def members : List (Text × Text) → Text
  | [] => []
  | [(key, value)] => member key value
  | (key, value) :: rest => member key value ++ ',' :: members rest

def object (fields : List (Text × Text)) : Text := '\x7b' :: members fields ++ ['\x7d']

theorem length_escape_pos (c : Char) : 0 < (escape c).length := by
  unfold escape
  repeat' split
  all_goals exact Nat.succ_pos _

theorem length_string (text : Text) : text.length + 2 ≤ (string text).length := by
  have hescaped : text.length ≤ (text.flatMap escape).length := by
    induction text with
    | nil => exact Nat.le_refl _
    | cons c rest ih =>
        have hfirst := length_escape_pos c
        rw [List.flatMap_cons, List.length_cons, List.length_append]
        omega
  simp only [string, List.length_cons, List.length_append, List.length_nil]
  omega

theorem length_member (key value : Text) : key.length + 3 ≤ (member key value).length := by
  have hkey := length_string key
  simp only [member, List.length_append, List.length_cons]
  omega

theorem length_members (fields : List (Text × Text)) :
    (fields.map fun field => field.1.length + 3).sum ≤ (members fields).length := by
  induction fields with
  | nil => exact Nat.le_refl _
  | cons field rest ih =>
      obtain ⟨key, value⟩ := field
      have hfirst := length_member key value
      cases rest with
      | nil =>
          simp only [members, List.map_cons, List.map_nil, List.sum_cons, List.sum_nil]
          omega
      | cons next rest =>
          rw [members, List.map_cons, List.sum_cons, List.length_append, List.length_cons]
          · dsimp only
            omega
          · exact nofun

/-- Every key of an object is spelled out in its text. -/
theorem length_object (fields : List (Text × Text)) :
    (fields.map fun field => field.1.length + 3).sum + 2 ≤ (object fields).length := by
  have hmembers := length_members fields
  simp only [object, List.length_cons, List.length_append, List.length_nil]
  omega

end MacVnc.Lib.Json
