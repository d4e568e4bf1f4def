import SourceScan.Text.Unit

/-!
# UTF-8

Texts as bytes. The strict reader stops at the first byte that begins no
character and says why; the lenient one keeps such bytes as stray units. Writing
fails only at a stray unit.
-/

namespace SourceScan

abbrev Bytes := List UInt8

namespace Utf8

inductive Fault where
  | badStart
  | badContinuation
  | cutOff
  deriving DecidableEq, Repr

def Fault.message : Fault → Text
  | .badStart => "invalid start byte"
  | .badContinuation => "invalid continuation byte"
  | .cutOff => "unexpected end of data"

/-- What stands at the front of the bytes: a character and the rest, or a fault and the number of
bytes it spans. -/
inductive Front where
  | char (c : Char) (rest : Bytes)
  | fault (why : Fault) (width : Nat)
  deriving Repr

def isContinuation (b : UInt8) : Bool := 0x80 ≤ b && b < 0xC0

def payload (b : UInt8) : Nat := b.toNat % 64

/-- Whether the second byte keeps a sequence out of the overlong, surrogate and too large codes. -/
def secondFits (lead second : UInt8) : Bool :=
  isContinuation second &&
    (lead != 0xE0 || 0xA0 ≤ second) && (lead != 0xED || second < 0xA0) &&
    (lead != 0xF0 || 0x90 ≤ second) && (lead != 0xF4 || second < 0x90)

def front (lead : UInt8) (rest : Bytes) : Front :=
  if lead < 0x80 then .char (Char.ofNat lead.toNat) rest
  else if lead < 0xC2 || 0xF4 < lead then .fault .badStart 1
  else
    match rest with
    | [] => .fault .cutOff 1
    | b :: rest =>
        if !secondFits lead b then .fault .badContinuation 1
        else if lead < 0xE0 then
          .char (Char.ofNat ((lead.toNat - 0xC0) * 64 + payload b)) rest
        else
          match rest with
          | [] => .fault .cutOff 2
          | c :: rest =>
              if !isContinuation c then .fault .badContinuation 2
              else if lead < 0xF0 then
                .char (Char.ofNat ((lead.toNat - 0xE0) * 4096 + payload b * 64 + payload c)) rest
              else
                match rest with
                | [] => .fault .cutOff 3
                | d :: rest =>
                    if !isContinuation d then .fault .badContinuation 3
                    else
                      .char (Char.ofNat ((lead.toNat - 0xF0) * 262144 + payload b * 4096 +
                        payload c * 64 + payload d)) rest

theorem length_of_front {lead : UInt8} {bytes rest : Bytes} {c : Char}
    (h : front lead bytes = .char c rest) : rest.length ≤ bytes.length := by
  unfold front at h
  repeat' split at h
  all_goals simp_all
  all_goals omega

structure DecodeError where
  fault : Fault
  byte : UInt8
  first : Nat
  width : Nat
  deriving DecidableEq, Repr

def decode (bytes : Bytes) : Except DecodeError Text := go bytes 0 []
where
  go (bytes : Bytes) (position : Nat) (out : Text) : Except DecodeError Text :=
    match bytes with
    | [] => .ok out.reverse
    | lead :: rest =>
        match _h : front lead rest with
        | .char c rest' => go rest' (position + (rest.length + 1 - rest'.length)) (c :: out)
        | .fault why width => .error ⟨why, lead, position, width⟩
  termination_by bytes.length
  decreasing_by
    have := length_of_front _h
    simp
    omega

/-- Reads all bytes, keeping those that begin no character as stray units. -/
def decodeLenient (bytes : Bytes) : RawText := go bytes []
where
  go (bytes : Bytes) (out : RawText) : RawText :=
    match bytes with
    | [] => out.reverse
    | lead :: rest =>
        match _h : front lead rest with
        | .char c rest' => go rest' (.char c :: out)
        | .fault _ _ => go rest (.stray lead :: out)
  termination_by bytes.length
  decreasing_by
    · have := length_of_front _h
      simp
      omega
    · simp

def encodeChar (c : Char) : Bytes :=
  let n := c.toNat
  if n < 0x80 then [n.toUInt8]
  else if n < 0x800 then [(0xC0 + n / 64).toUInt8, (0x80 + n % 64).toUInt8]
  else if n < 0x10000 then
    [(0xE0 + n / 4096).toUInt8, (0x80 + n / 64 % 64).toUInt8, (0x80 + n % 64).toUInt8]
  else
    [(0xF0 + n / 262144).toUInt8, (0x80 + n / 4096 % 64).toUInt8, (0x80 + n / 64 % 64).toUInt8,
     (0x80 + n % 64).toUInt8]

def encode (s : Text) : Bytes := s.flatMap encodeChar

def encodeLenient (s : RawText) : Bytes :=
  s.flatMap fun
    | .char c => encodeChar c
    | .stray b => [b]

/-- A text that cannot be written, with the place of its first stray unit and the number of stray
units in a row there. -/
structure EncodeError where
  byte : UInt8
  position : Nat
  width : Nat
  deriving DecidableEq, Repr

def encodeStrict (s : RawText) : Except EncodeError Bytes :=
  match Text.cutWhere (·.char?.isNone) s with
  | some (before, .stray b, after) =>
      .error ⟨b, before.length, 1 + (after.takeWhile (·.char?.isNone)).length⟩
  | _ => .ok (encodeLenient s)

def DecodeError.message (e : DecodeError) : Text :=
  let place : Text :=
    if e.width = 1 then
      ("byte 0x" : Text) ++ Text.ofNatPadded 16 2 e.byte.toNat ++ (" in position " : Text) ++
        Text.ofNat e.first
    else
      ("bytes in position " : Text) ++ Text.ofNat e.first ++ ("-" : Text) ++
        Text.ofNat (e.first + e.width - 1)
  ("'utf-8' codec can't decode " : Text) ++ place ++ (": " : Text) ++ e.fault.message

def EncodeError.message (e : EncodeError) : Text :=
  let place : Text :=
    if e.width = 1 then
      ("character '" : Text) ++ Text.codeEscape (TextUnit.stray e.byte).code ++
        ("' in position " : Text) ++
        Text.ofNat e.position
    else
      ("characters in position " : Text) ++ Text.ofNat e.position ++ ("-" : Text) ++
        Text.ofNat (e.position + e.width - 1)
  ("'utf-8' codec can't encode " : Text) ++ place ++ (": surrogates not allowed" : Text)

end Utf8

end SourceScan
