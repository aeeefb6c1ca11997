/-! # Strict UTF-8

Octets are read as characters, and the first octets that cannot be read are reported: which ones,
and in what way they are wrong. Overlong forms, surrogates and code points above the last are
refused at the octet that rules them out. -/

namespace TraitMarkup.Text

/-- Why octets are no character. -/
inductive OctetFault where
  /-- No character starts with this octet. -/
  | start
  /-- The octet after the run does not continue it. -/
  | continuation
  /-- The octets end inside a character. -/
  | ending
  deriving DecidableEq

/-- The octets from offset `first` up to but not including offset `stop` are no character. -/
structure DecodeError where
  fault : OctetFault
  lead : UInt8
  first : Nat
  stop : Nat
  deriving DecidableEq

/-- What is wrong with the octets. -/
def OctetFault.reason : OctetFault → String
  | .start => "invalid start byte"
  | .continuation => "invalid continuation byte"
  | .ending => "unexpected end of data"

/-- The message names the octet, or the first and the last of several. -/
def DecodeError.message (e : DecodeError) : String :=
  if e.stop = e.first + 1 then
    let octet := String.ofList ((Nat.toDigits 16 e.lead.toNat).leftpad 2 '0')
    s!"'utf-8' codec can't decode byte 0x{octet} in position {e.first}: {e.fault.reason}"
  else
    s!"'utf-8' codec can't decode bytes in position {e.first}-{e.stop - 1}: {e.fault.reason}"

/-- What a lead octet announces: its own bits, and the range allowed for each octet to come. -/
structure Lead where
  bits : Nat
  tail : List (Nat × Nat)

/-- The lead octets. The range of the second octet rules out overlong forms, surrogates and code
points above the last. -/
def Lead.of? (octet : Nat) : Option Lead :=
  if octet < 0x80 then some ⟨octet, []⟩
  else if octet < 0xC2 then none
  else if octet < 0xE0 then some ⟨octet - 0xC0, [(0x80, 0xBF)]⟩
  else if octet < 0xF0 then
    let second := if octet = 0xE0 then (0xA0, 0xBF) else if octet = 0xED then (0x80, 0x9F) else (0x80, 0xBF)
    some ⟨octet - 0xE0, [second, (0x80, 0xBF)]⟩
  else if octet < 0xF5 then
    let second := if octet = 0xF0 then (0x90, 0xBF) else if octet = 0xF4 then (0x80, 0x8F) else (0x80, 0xBF)
    some ⟨octet - 0xF0, [second, (0x80, 0xBF), (0x80, 0xBF)]⟩
  else none

/-- What becomes of the octets after a lead. -/
inductive Tail where
  | read (code : Nat)
  /-- The octets disagree after this many. -/
  | broken (count : Nat)
  | short

/-- Reads the octets that follow a lead, `count` of them having been read. -/
def readTail (code count : Nat) : List (Nat × Nat) → List UInt8 → Tail
  | [], _ => .read code
  | _ :: _, [] => .short
  | (low, high) :: ranges, o :: octets =>
    if low ≤ o.toNat ∧ o.toNat ≤ high then
      readTail (code * 64 + (o.toNat - 0x80)) (count + 1) ranges octets
    else .broken count

/-- Reads octets from the given offset on, the characters read so far standing in reverse in `read`. -/
def decodeFrom (offset : Nat) (read : List Char) : List UInt8 → Except DecodeError (List Char)
  | [] => .ok read.reverse
  | o :: octets =>
    match Lead.of? o.toNat with
    | none => .error ⟨.start, o, offset, offset + 1⟩
    | some lead =>
      match readTail lead.bits 0 lead.tail octets with
      | .read code =>
        decodeFrom (offset + 1 + lead.tail.length) (Char.ofNat code :: read)
          (octets.drop lead.tail.length)
      | .broken count => .error ⟨.continuation, o, offset, offset + 1 + count⟩
      | .short => .error ⟨.ending, o, offset, offset + 1 + octets.length⟩
  termination_by octets => octets.length
  decreasing_by
    simp only [List.length_drop, List.length_cons]
    omega

/-- The characters that the octets encode. -/
def decode (octets : List UInt8) : Except DecodeError (List Char) := decodeFrom 0 [] octets

end TraitMarkup.Text
