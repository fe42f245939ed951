import Sprawling.Base.Text
import Sprawling.Base.Utf8
import Sprawling.Base.Word
import Sprawling.Kernel.Error

/-! Which characters a document version's bytes spell. A byte-order mark decides first; without one
the bytes are UTF-8 or nothing. -/

namespace Sprawling.Documents

abbrev Bytes := List UInt8

def utf8Mark : Bytes := [0xEF, 0xBB, 0xBF]

def utf16LeMark : Bytes := [0xFF, 0xFE]

def utf16BeMark : Bytes := [0xFE, 0xFF]

/-- The character encoding one document version is read in. -/
inductive Encoding where
  | utf8
  | utf8Bom
  | utf16Le
  | utf16Be
deriving DecidableEq

/-- What one version's bytes are to a reader: text, every byte of it, or not text in any encoding
the city reads. -/
inductive Reading where
  | text (encoding : Encoding)
  | notText
deriving DecidableEq

/-- The bytes two by two, when none is left over. -/
def pairs : Bytes → Option (List (UInt8 × UInt8))
  | [] => some []
  | [_] => none
  | first :: second :: rest => (pairs rest).map ((first, second) :: ·)

/-- The characters UTF-16 units spell, unless a surrogate stands without its other half. -/
def decodeUtf16 : List Nat → Option (List Char)
  | [] => some []
  | unit :: rest =>
    if unit < 0xD800 ∨ 0xDFFF < unit then (decodeUtf16 rest).map (Char.ofNat unit :: ·)
    else if 0xDC00 ≤ unit then none
    else
      match rest with
      | [] => none
      | low :: rest =>
        if 0xDC00 ≤ low ∧ low ≤ 0xDFFF then
          (decodeUtf16 rest).map
            (Char.ofNat (0x10000 + (unit - 0xD800) * 0x400 + (low - 0xDC00)) :: ·)
        else none

/-- The UTF-16 units of a character. -/
def encodeUtf16 (character : Char) : List Nat :=
  if character.toNat < 0x10000 then [character.toNat]
  else [0xD800 + (character.toNat - 0x10000) / 0x400, 0xDC00 + (character.toNat - 0x10000) % 0x400]

namespace Encoding

def debug : Encoding → String
  | utf8 => "Utf8"
  | utf8Bom => "Utf8Bom"
  | utf16Le => "Utf16Le"
  | utf16Be => "Utf16Be"

/-- The encoding the mark at the front of a version names, and UTF-8 when there is none. -/
def ofMark (front : Bytes) : Encoding :=
  if utf8Mark.isPrefixOf front then .utf8Bom
  else if utf16LeMark.isPrefixOf front then .utf16Le
  else if utf16BeMark.isPrefixOf front then .utf16Be
  else .utf8

def unit (encoding : Encoding) (pair : UInt8 × UInt8) : Nat :=
  match encoding with
  | utf16Be => pair.1.toNat * 256 + pair.2.toNat
  | utf8 | utf8Bom | utf16Le => pair.2.toNat * 256 + pair.1.toNat

/-- The characters of UTF-16 bytes. -/
def wide (encoding : Encoding) (bytes : Bytes) : Option (List Char) :=
  (pairs bytes).bind fun found => decodeUtf16 (found.map encoding.unit)

/-- Whether bytes spell text in the encoding. -/
def spells (encoding : Encoding) (bytes : Bytes) : Bool :=
  match encoding with
  | utf8 => !bytes.contains 0 && (Utf8.decode bytes).isSome
  | utf8Bom => (Utf8.decode bytes).isSome
  | utf16Le | utf16Be => (encoding.wide bytes).isSome

/-- The characters a stretch cut at character boundaries spells. -/
def decode (encoding : Encoding) (bytes : Bytes) : Except AxError (List Char) :=
  let text :=
    match encoding with
    | utf8 => (Utf8.decode bytes).filter fun text => !text.contains (Char.ofNat 0)
    | utf8Bom => Utf8.decode bytes
    | utf16Le | utf16Be => encoding.wide bytes
  match text with
  | some text => .ok text
  | none => .error (AxError.failure .invalidArgs "read a document window"
      (String.ofList (Text.decimal bytes.length) ++ " bytes that are not " ++ encoding.debug
        ++ " text")
      "open the document again: its answer says whether it reads as text")

/-- Whether a character begins at byte `index`, where the first byte is byte `origin` of the
version. -/
def beginsAt (encoding : Encoding) (bytes : Bytes) (index origin : Nat) : Bool :=
  match encoding with
  | utf8 | utf8Bom => bytes[index]?.any fun byte => byte &&& 0xC0 != 0x80
  | utf16Le | utf16Be =>
    Word.saturatingAdd Word.u64Values origin index % 2 == 0 &&
      match bytes.drop index with
      | first :: second :: _ =>
        let unit := encoding.unit (first, second)
        !(0xDC00 ≤ unit && unit ≤ 0xDFFF)
      | _ => false

/-- The bytes a text is spelled in. -/
def encode (encoding : Encoding) (text : List Char) : Bytes :=
  match encoding with
  | utf8 | utf8Bom => Utf8.encode text
  | utf16Le => (text.flatMap encodeUtf16).flatMap fun unit =>
    [UInt8.ofNat (unit % 256), UInt8.ofNat (unit / 256)]
  | utf16Be => (text.flatMap encodeUtf16).flatMap fun unit =>
    [UInt8.ofNat (unit / 256), UInt8.ofNat (unit % 256)]

end Encoding

/-- Judges one whole version. -/
def Reading.of (bytes : Bytes) : Reading :=
  if (Encoding.ofMark bytes).spells bytes then .text (Encoding.ofMark bytes) else .notText

end Sprawling.Documents
