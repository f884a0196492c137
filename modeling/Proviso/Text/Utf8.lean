/-
  Text as bytes in UTF-8.

  `decode` is strict: it names the first byte at which the bytes stop being UTF-8, how many
  bytes the broken sequence takes up, and why it is broken. `decodeFile` is the reader for
  stored files, which lets one byte order mark stand in front of the text.
-/
import Proviso.Text.Basic

namespace Proviso

/-- What is wrong with a sequence of bytes. -/
inductive Utf8.Reason where
  /-- The first byte begins no sequence. -/
  | invalidStart
  /-- A later byte does not continue the sequence. -/
  | invalidContinuation
  /-- The bytes end inside the sequence. -/
  | unexpectedEnd
  deriving DecidableEq, Repr

/-- The first place at which bytes are not UTF-8. -/
structure Utf8.Fault where
  /-- The index of the first byte of the broken sequence. -/
  position : Nat
  /-- That byte. -/
  byte : UInt8
  /-- How many bytes the broken sequence takes up. -/
  length : Nat
  reason : Utf8.Reason
  deriving DecidableEq, Repr

namespace Utf8

/-- The wording of a reason. -/
def Reason.message : Reason → Text
  | .invalidStart => "invalid start byte".toList
  | .invalidContinuation => "invalid continuation byte".toList
  | .unexpectedEnd => "unexpected end of data".toList

/-- The wording of a fault: a single byte is shown, a longer sequence is located only. -/
def Fault.message (f : Fault) : Text :=
  let place :=
    if f.length = 1 then
      "byte 0x".toList ++ Text.ofHex 2 f.byte.toNat ++ " in position ".toList
        ++ Text.ofNat f.position
    else
      "bytes in position ".toList ++ Text.ofNat f.position ++ ['-']
        ++ Text.ofNat (f.position + f.length - 1)
  "'utf-8' codec can't decode ".toList ++ place ++ ": ".toList ++ f.reason.message

/-- The payload of a continuation byte. -/
def tail? (b : UInt8) : Option Nat :=
  if 0x80 ≤ b ∧ b ≤ 0xBF then some (b.toNat - 0x80) else none

/-- The payload of the byte after `lead`. Four leading bytes narrow its range, which keeps out
overlong forms, surrogates and numbers above U+10FFFF. -/
def second? (lead b : UInt8) : Option Nat :=
  if lead = 0xE0 ∧ b < 0xA0 ∨ lead = 0xED ∧ 0x9F < b
      ∨ lead = 0xF0 ∧ b < 0x90 ∨ lead = 0xF4 ∧ 0x8F < b then none
  else tail? b

/-- The bytes of a text. -/
def encode (t : Text) : List UInt8 := t.flatMap String.utf8EncodeChar

/-- The text of bytes whose first one has index `position`. -/
def decodeFrom (position : Nat) : List UInt8 → Except Fault Text
  | [] => .ok []
  | a :: rest =>
    let fail (length : Nat) (reason : Reason) : Except Fault Text :=
      .error ⟨position, a, length, reason⟩
    if a < 0x80 then
      (decodeFrom (position + 1) rest).map (Char.ofNat a.toNat :: ·)
    else if a < 0xC2 ∨ 0xF4 < a then fail 1 .invalidStart
    else
      match rest with
      | [] => fail 1 .unexpectedEnd
      | b :: rest =>
        match second? a b with
        | none => fail 1 .invalidContinuation
        | some y =>
          if a < 0xE0 then
            (decodeFrom (position + 2) rest).map
              (Char.ofNat ((a.toNat - 0xC0) * 0x40 + y) :: ·)
          else
            match rest with
            | [] => fail 2 .unexpectedEnd
            | c :: rest =>
              match tail? c with
              | none => fail 2 .invalidContinuation
              | some z =>
                if a < 0xF0 then
                  (decodeFrom (position + 3) rest).map
                    (Char.ofNat ((a.toNat - 0xE0) * 0x1000 + y * 0x40 + z) :: ·)
                else
                  match rest with
                  | [] => fail 3 .unexpectedEnd
                  | d :: rest =>
                    match tail? d with
                    | none => fail 3 .invalidContinuation
                    | some w =>
                      (decodeFrom (position + 4) rest).map
                        (Char.ofNat
                          ((a.toNat - 0xF0) * 0x40000 + y * 0x1000 + z * 0x40 + w) :: ·)

/-- The text of bytes. -/
def decode (bytes : List UInt8) : Except Fault Text := decodeFrom 0 bytes

/-- The text of a stored file. A byte order mark in front is dropped, and bytes behind it are
counted from there; a file that is nothing but the beginning of a mark is empty. -/
def decodeFile : List UInt8 → Except Fault Text
  | [0xEF] => .ok []
  | [0xEF, 0xBB] => .ok []
  | 0xEF :: 0xBB :: 0xBF :: rest => decode rest
  | bytes => decode bytes

end Utf8

end Proviso
