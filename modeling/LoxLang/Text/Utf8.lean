set_option autoImplicit false

namespace LoxLang

structure Utf8Error where
  /-- The number of bytes before the faulty sequence, all well-formed. -/
  index : Nat
  /-- The length of the faulty sequence, absent if the bytes end inside it. -/
  length : Option Nat
  deriving DecidableEq, Repr

def Utf8Error.message (e : Utf8Error) : String :=
  match e.length with
  | some length =>
    "invalid utf-8 sequence of " ++ toString length ++ " bytes from index " ++ toString e.index
  | none => "incomplete utf-8 byte sequence from index " ++ toString e.index

namespace Utf8

/-- A character whose first bytes have been read: where it starts, how many bytes it has so far, how
many are to follow, the range for the next one, and the bits collected. -/
structure Partial where
  start : Nat
  seen : Nat
  missing : Nat
  low : Nat
  high : Nat
  bits : Nat

/-- What a first byte announces: the number of bytes that follow, the range of the first of them and
the leading bits. The narrow ranges keep out overlong forms, surrogates and what lies beyond the
last code point. -/
def announced (byte : Nat) : Option (Nat × Nat × Nat × Nat) :=
  if byte < 0xC2 then none
  else if byte < 0xE0 then some (1, 0x80, 0xBF, byte - 0xC0)
  else if byte = 0xE0 then some (2, 0xA0, 0xBF, 0)
  else if byte = 0xED then some (2, 0x80, 0x9F, 0xD)
  else if byte < 0xF0 then some (2, 0x80, 0xBF, byte - 0xE0)
  else if byte = 0xF0 then some (3, 0x90, 0xBF, 0)
  else if byte < 0xF4 then some (3, 0x80, 0xBF, byte - 0xF0)
  else if byte = 0xF4 then some (3, 0x80, 0x8F, 4)
  else none

def decodeFrom (index : Nat) (begun : Option Partial) (text : List Char) :
    List UInt8 → Except Utf8Error String
  | [] =>
    match begun with
    | none => .ok (String.ofList text.reverse)
    | some p => .error ⟨p.start, none⟩
  | byte :: rest =>
    match begun with
    | none =>
      if byte.toNat < 0x80 then
        decodeFrom (index + 1) none (Char.ofNat byte.toNat :: text) rest
      else
        match announced byte.toNat with
        | none => .error ⟨index, some 1⟩
        | some (missing, low, high, bits) =>
          decodeFrom (index + 1) (some ⟨index, 1, missing, low, high, bits⟩) text rest
    | some p =>
      if byte.toNat < p.low || p.high < byte.toNat then .error ⟨p.start, some p.seen⟩
      else
        let bits := p.bits * 64 + (byte.toNat - 0x80)
        if p.missing = 1 then decodeFrom (index + 1) none (Char.ofNat bits :: text) rest
        else
          decodeFrom (index + 1) (some ⟨p.start, p.seen + 1, p.missing - 1, 0x80, 0xBF, bits⟩) text
            rest

def decode (bytes : List UInt8) : Except Utf8Error String := decodeFrom 0 none [] bytes

end Utf8

end LoxLang
