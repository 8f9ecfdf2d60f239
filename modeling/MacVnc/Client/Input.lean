import MacVnc.Client.Commands
/-!
# Keys and keysyms

The keyboard tables of the client (`macvnc-app/src/input.rs`).  The name that
the toolkit gives a key is a parameter.
-/

namespace MacVnc.Client.Input

/-- The keys that the source names; `other` stands for the letters, the digits
and the rest. -/
inductive Key where
  | arrowDown | arrowUp | arrowLeft | arrowRight | escape | tab | backspace | enter
  | insert | delete | home | endKey | pageUp | pageDown
  | f1 | f2 | f3 | f4 | f5 | f6 | f7 | f8 | f9 | f10 | f11 | f12
  | space | exclamationmark | plus | questionmark | openCurlyBracket | closeCurlyBracket
  | colon | pipe | minus | equals | openBracket | closeBracket | backslash | semicolon
  | quote | comma | period | slash | backtick
  | other (code : Nat)
deriving DecidableEq, Repr

structure Modifiers where
  alt : Bool
  ctrl : Bool
  shift : Bool
  macCmd : Bool
deriving DecidableEq

def Modifiers.none : Modifiers := { alt := false, ctrl := false, shift := false, macCmd := false }

def modifiers (m : Modifiers) (native : Bool) : List UInt32 :=
  (if m.shift then [0xffe1] else []) ++
  (if m.ctrl then [if native then 0xffe3 else 0xffeb] else []) ++
  (if m.alt then [0xffe7] else []) ++
  (if m.macCmd then [if native then 0xffeb else 0xffe3] else [])

def named : Key → UInt32
  | .arrowDown => 0xff54
  | .arrowUp => 0xff52
  | .arrowLeft => 0xff51
  | .arrowRight => 0xff53
  | .escape => 0xff1b
  | .tab => 0xff09
  | .backspace => 0xff08
  | .enter => 0xff0d
  | .insert => 0xff63
  | .delete => 0xffff
  | .home => 0xff50
  | .endKey => 0xff57
  | .pageUp => 0xff55
  | .pageDown => 0xff56
  | .f1 => 0xffbe
  | .f2 => 0xffbf
  | .f3 => 0xffc0
  | .f4 => 0xffc1
  | .f5 => 0xffc2
  | .f6 => 0xffc3
  | .f7 => 0xffc4
  | .f8 => 0xffc5
  | .f9 => 0xffc6
  | .f10 => 0xffc7
  | .f11 => 0xffc8
  | .f12 => 0xffc9
  | _ => 0

/-- `b")!@#$%^&*("`. -/
def shiftedDigits : List UInt8 := [41, 33, 64, 35, 36, 37, 94, 38, 42, 40]

/-- The keysym of a key whose name is one letter or digit. -/
def letterOrDigit (name : List UInt8) (shift : Bool) : Option UInt32 :=
  match name with
  | [c] =>
      if 65 ≤ c ∧ c ≤ 90 ∨ 97 ≤ c ∧ c ≤ 122 then
        some (if shift then c &&& 0xdf else c ||| 0x20).toUInt32
      else if 48 ≤ c ∧ c ≤ 57 then
        (if shift then shiftedDigits[(c - 48).toNat]? else some c).map UInt8.toUInt32
      else none
  | _ => none

/-- The characters on the other keys; 34, 39 and 92 are the quotes and the backslash. -/
def symbol (key : Key) (shift : Bool) : Option UInt32 :=
  match key with
  | .space => some ' '.val
  | .exclamationmark => some '!'.val
  | .plus => some '+'.val
  | .questionmark => some '?'.val
  | .openCurlyBracket => some 123
  | .closeCurlyBracket => some 125
  | .colon => some ':'.val
  | .pipe => some '|'.val
  | .minus => some (if shift then '_'.val else '-'.val)
  | .equals => some (if shift then '+'.val else '='.val)
  | .openBracket => some (if shift then 123 else '['.val)
  | .closeBracket => some (if shift then 125 else ']'.val)
  | .backslash => some (if shift then '|'.val else 92)
  | .semicolon => some (if shift then ':'.val else ';'.val)
  | .quote => some (if shift then 34 else 39)
  | .comma => some (if shift then '<'.val else ','.val)
  | .period => some (if shift then '>'.val else '.'.val)
  | .slash => some (if shift then '?'.val else '/'.val)
  | .backtick => some (if shift then '~'.val else 96)
  | _ => none

def keysym (name : Key → List UInt8) (key : Key) (shift : Bool) : Option UInt32 :=
  if named key ≠ 0 then some (named key)
  else (letterOrDigit (name key) shift).or (symbol key shift)

end MacVnc.Client.Input
