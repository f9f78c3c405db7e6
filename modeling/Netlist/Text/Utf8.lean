/-!
# Text as bytes

Files and binary formats hold text as UTF-8. `decode` reads it, and names the
first fault when the bytes are no text: how many bytes before it are valid, and
how many bytes the invalid sequence has, if the bytes do not simply end within
a character. Reading gives back what was written (`decode_encode`), and only
that (`encode_of_decode`).
-/

namespace Netlist.Text.Utf8

/-- The bytes are not text. -/
structure Fault where
  /-- How many bytes are valid text before the fault. -/
  validBytes : Nat
  /-- Length of the invalid sequence; none when the bytes end within a character. -/
  invalidBytes : Option Nat
  deriving DecidableEq, Repr

/-- The text that tells of the fault. -/
def Fault.message (fault : Fault) : String :=
  match fault.invalidBytes with
  | some count => s!"invalid utf-8 sequence of {count} bytes from index {fault.validBytes}"
  | none => s!"incomplete utf-8 byte sequence from index {fault.validBytes}"

/-- The byte lies in a range, ends included. -/
def within (low high byte : UInt8) : Bool :=
  low ≤ byte && byte ≤ high

/-- The byte continues a character. -/
def isContinuation (byte : UInt8) : Bool :=
  within 0x80 0xbf byte

/-- What stands at the start of some bytes. -/
inductive Sequence where
  /-- A character of this many bytes. -/
  | character (length : Nat)
  /-- This many bytes that no valid text has here. -/
  | invalid (length : Nat)
  /-- The beginning of a character whose other bytes are missing. -/
  | incomplete
  deriving DecidableEq, Repr

/-- The bytes after the first, each checked in turn: a missing one leaves the
character incomplete, a wrong one makes the bytes before it invalid. -/
def Sequence.ofTail (length : Nat) : List (UInt8 → Bool) → List UInt8 → Sequence
  | [], _ => character length
  | _ :: _, [] => incomplete
  | check :: checks, byte :: bytes =>
    if check byte then ofTail (length + 1) checks bytes else invalid length

/-- The checks on the bytes that follow a first byte, if it can start a
character. The second byte is restricted so that no character has two forms,
no surrogate is a character, and the last one is U+10FFFF. -/
def tailChecks (first : UInt8) : Option (List (UInt8 → Bool)) :=
  if first < 0x80 then some []
  else if within 0xc2 0xdf first then some [isContinuation]
  else if first = 0xe0 then some [within 0xa0 0xbf, isContinuation]
  else if first = 0xed then some [within 0x80 0x9f, isContinuation]
  else if within 0xe1 0xef first then some [isContinuation, isContinuation]
  else if first = 0xf0 then some [within 0x90 0xbf, isContinuation, isContinuation]
  else if within 0xf1 0xf3 first then some [isContinuation, isContinuation, isContinuation]
  else if first = 0xf4 then some [within 0x80 0x8f, isContinuation, isContinuation]
  else none

/-- What stands at the start of the bytes `first :: rest`. -/
def Sequence.ofBytes (first : UInt8) (rest : List UInt8) : Sequence :=
  match tailChecks first with
  | none => invalid 1
  | some checks => ofTail 1 checks rest

/-- The first fault at or after a position, in the bytes from there on. The
count says how many of them belong to a character that was found valid. -/
def firstFault (position : Nat) : Nat → List UInt8 → Fault
  | _, [] => ⟨position, none⟩
  | skip + 1, _ :: rest => firstFault (position + 1) skip rest
  | 0, first :: rest =>
    match Sequence.ofBytes first rest with
    | .character length => firstFault (position + 1) (length - 1) rest
    | .invalid length => ⟨position, some length⟩
    | .incomplete => ⟨position, none⟩

/-- The bytes of a text. -/
def encode (text : String) : List UInt8 :=
  text.toByteArray.data.toList

/-- The text that the bytes hold. -/
def decode (bytes : List UInt8) : Except Fault String :=
  match String.fromUTF8? bytes.toByteArray with
  | some text => .ok text
  | none => .error (firstFault 0 0 bytes)

theorem encode_of_decode {bytes : List UInt8} {text : String} (decoded : decode bytes = .ok text) :
    encode text = bytes := by
  unfold decode at decoded
  split at decoded
  · rename_i valid
    cases decoded
    unfold String.fromUTF8? at valid
    split at valid
    · cases valid
      simp [encode, String.fromUTF8]
    · cases valid
  · cases decoded

theorem decode_encode (text : String) : decode (encode text) = .ok text := by
  have bytes : (encode text).toByteArray = text.toByteArray := by
    apply ByteArray.ext
    simp [encode]
  simp [decode, bytes, String.fromUTF8?, text.isValidUTF8, String.fromUTF8]

end Netlist.Text.Utf8
