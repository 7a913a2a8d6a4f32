import ResumableCsv.Gzip.Inflate

/-!
Compressed files: one or more members, each a header, a deflate stream, a checksum and a length.
What is written is a single member of stored blocks.
-/

namespace ResumableCsv

/-- Bytes to be read, and the fault that reading meets after them, if any. -/
structure Input where
  content : Bytes
  fault : Option IoFault
deriving DecidableEq, Repr

namespace Gzip

def dropText : Bytes → Except IoFault Bytes
  | [] => .error .unexpectedEnd
  | byte :: rest => if byte = 0 then .ok rest else dropText rest

def dropCount (count : Nat) (content : Bytes) : Except IoFault Bytes :=
  if count ≤ content.length then .ok (content.drop count) else .error .unexpectedEnd

def dropHeader (content : Bytes) : Except IoFault Bytes :=
  match content with
  | id1 :: id2 :: kind :: flags :: _ :: _ :: _ :: _ :: _ :: _ :: rest =>
    if id1 = 0x1F ∧ id2 = 0x8B ∧ kind = 8 then do
      let rest ←
        if flags &&& 4 = 0 then pure rest
        else
          let size ← dropCount 2 rest
          dropCount (ofLittleEndian (rest.take 2)) size
      let rest ← if flags &&& 8 = 0 then pure rest else dropText rest
      let rest ← if flags &&& 16 = 0 then pure rest else dropText rest
      if flags &&& 2 = 0 then pure rest else dropCount 2 rest
    else .error .invalidGzipHeader
  | _ => .error .unexpectedEnd

/-- The members of a compressed file in order; every member is at least eighteen bytes long. -/
def decodeMembers : Nat → Bytes → Input
  | 0, _ => ⟨[], none⟩
  | members + 1, content =>
    match dropHeader content with
    | .error fault => ⟨[], some fault⟩
    | .ok body =>
      match inflate body with
      | (text, .error fault) => ⟨text, some fault⟩
      | (text, .ok trailer) =>
        if trailer.length < 8 then ⟨text, some .unexpectedEnd⟩
        else if ofLittleEndian (trailer.take 4) ≠ (checksum text).toNat ∨
            ofLittleEndian ((trailer.drop 4).take 4) ≠ text.length % UInt32.size then
          ⟨text, some .checksumMismatch⟩
        else if (trailer.drop 8).isEmpty then ⟨text, none⟩
        else
          let next := decodeMembers members (trailer.drop 8)
          ⟨text ++ next.content, next.fault⟩

def decode (content : Bytes) : Input := decodeMembers (content.length + 1) content

def storedBlock (last : Bool) (content : Bytes) : Bytes :=
  UInt8.ofNat last.toNat ::
    (littleEndian 2 content.length ++ littleEndian 2 (0xFFFF - content.length) ++ content)

def storedBlocks (content : Bytes) : Bytes :=
  if _h : 0xFFFF < content.length then
    storedBlock false (content.take 0xFFFF) ++ storedBlocks (content.drop 0xFFFF)
  else storedBlock true content
termination_by content.length
decreasing_by
  simp only [List.length_drop]
  omega

def encode (content : Bytes) : Bytes :=
  [0x1F, 0x8B, 8, 0, 0, 0, 0, 0, 0, 0xFF] ++ storedBlocks content ++
    littleEndian 4 (checksum content).toNat ++ littleEndian 4 content.length

end Gzip

end ResumableCsv
