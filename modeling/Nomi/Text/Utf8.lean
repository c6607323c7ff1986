/-!
# Strict UTF-8

Bytes are read as code points of one to four bytes.  Overlong forms, surrogates
and numbers past the last code point are refused by the range of the second
byte.  A refusal names the first byte of the sequence that it is about.
-/

namespace Nomi.Utf8

inductive FaultKind where
  | invalidStart
  | invalidContinuation
  | unexpectedEnd
  deriving DecidableEq, Repr

def FaultKind.message : FaultKind → String
  | .invalidStart => "invalid start byte"
  | .invalidContinuation => "invalid continuation byte"
  | .unexpectedEnd => "unexpected end of data"

/-- A fault and the number of bytes before the sequence. -/
structure Fault where
  kind : FaultKind
  offset : Nat
  deriving DecidableEq, Repr

/-- What a first byte announces: the value of its own bits, the range of the
second byte, and how many bytes follow. -/
structure Lead where
  value : Nat
  low : Nat
  high : Nat
  following : Nat

def lead? (byte : Nat) : Option Lead :=
  if byte < 0xC2 then none
  else if byte < 0xE0 then some ⟨byte - 0xC0, 0x80, 0xBF, 1⟩
  else if byte = 0xE0 then some ⟨0, 0xA0, 0xBF, 2⟩
  else if byte = 0xED then some ⟨0xD, 0x80, 0x9F, 2⟩
  else if byte < 0xF0 then some ⟨byte - 0xE0, 0x80, 0xBF, 2⟩
  else if byte = 0xF0 then some ⟨0, 0x90, 0xBF, 3⟩
  else if byte < 0xF4 then some ⟨byte - 0xF0, 0x80, 0xBF, 3⟩
  else if byte = 0xF4 then some ⟨4, 0x80, 0x8F, 3⟩
  else none

/-- Reads the bytes after a first one.  The value so far is that of the bits
before them; only the first of these bytes has a range of its own. -/
def tail (value low high : Nat) : Nat → List UInt8 → Except FaultKind Nat
  | 0, _ => .ok value
  | _ + 1, [] => .error .unexpectedEnd
  | following + 1, byte :: rest =>
      if low ≤ byte.toNat ∧ byte.toNat ≤ high then
        tail (value * 64 + (byte.toNat - 0x80)) 0x80 0xBF following rest
      else
        .error .invalidContinuation

/-- The code point at the front of the bytes and how many bytes after the first
it takes. -/
def sequence (byte : Nat) (rest : List UInt8) : Except FaultKind (Nat × Nat) :=
  if byte < 0x80 then .ok (byte, 0)
  else
    match lead? byte with
    | none => .error .invalidStart
    | some lead =>
        (tail lead.value lead.low lead.high lead.following rest).map (·, lead.following)

def decodeFrom (offset : Nat) : List UInt8 → Except Fault (List Char)
  | [] => .ok []
  | byte :: rest =>
      match sequence byte.toNat rest with
      | .error kind => .error ⟨kind, offset⟩
      | .ok (point, following) =>
          (decodeFrom (offset + following + 1) (rest.drop following)).map (Char.ofNat point :: ·)
termination_by bytes => bytes.length

def decode (bytes : List UInt8) : Except Fault (List Char) :=
  decodeFrom 0 bytes

end Nomi.Utf8
