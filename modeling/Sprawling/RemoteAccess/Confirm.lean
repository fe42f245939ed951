import Sprawling.Base.Lines
import Sprawling.Base.Since
import Sprawling.Base.Text
import Sprawling.Base.Utf8
import Sprawling.Base.Word
import Sprawling.Kernel.Digest
import Sprawling.Kernel.Error

/-! The one request that waits for the city's console: a page asks for a verb, the console shows a code,
and the person types it back. -/

namespace Sprawling

namespace RemoteAccess

/-! ### Codes as a person types them -/

def alphabet : List Char := "abcdefghijklmnopqrstuvwxyz234567".toList

def symbol (value : UInt32) : List Char := alphabet[(value &&& 0x1f).toNat]?.toList

/-- Every symbol the held bits fill, the first ones first, and how many bits are left. -/
def drain (buffer : UInt32) : Nat → List Char × Nat
  | held + 5 =>
    let (rest, left) := drain buffer held
    (symbol (buffer >>> UInt32.ofNat held) ++ rest, left)
  | held => ([], held)

/-- The symbols pushed, the bits held back, and how many they are. -/
structure Encoder where
  out : List Char
  buffer : UInt32
  held : Nat

def Encoder.push (encoder : Encoder) (byte : UInt8) : Encoder :=
  let buffer := encoder.buffer <<< 8 ||| byte.toUInt32
  let (symbols, held) := drain buffer (encoder.held + 8)
  { out := encoder.out ++ symbols, buffer := buffer &&& ((1 <<< UInt32.ofNat held) - 1), held }

/-- Base32 without padding; the last symbol carries the leftover bits in its high end. -/
def encode (bytes : List UInt8) : List Char :=
  let encoder := bytes.foldl Encoder.push ⟨[], 0, 0⟩
  if 0 < encoder.held then encoder.out ++ symbol (encoder.buffer <<< UInt32.ofNat (5 - encoder.held))
  else encoder.out

/-- A code in the one form it was minted in: case, spaces and dashes removed. The lower case of a
character is one or more characters. -/
def canonical (lower : Char → List Char) (typed : List Char) : List Char :=
  (typed.filter fun c => !Text.isWhitespace c && c ≠ '-').flatMap lower

/-! ### The guard -/

def groupLen : Nat := 4

def confirmSpacingMs : Nat := 1000

/-- How many read answers may miss, since the last one that did its verb, before the guard locks. -/
def confirmMissesMax : Nat := 10

/-- The request that waits: a verb, the digest of the code shown for it, and until when. -/
structure Confirm.Pending (υ : Type) where
  verb : υ
  code : B3Hash
  expires : Nat

/-- The request that waits, if any, behind the guard that spaces and counts the answers. -/
structure Confirm (υ : Type) where
  pending : Option (Confirm.Pending υ)
  last : Option Nat
  misses : Nat

/-- Why an answer did no verb. -/
inductive Miss where
  | wrong
  | tooSoon
  | locked
deriving DecidableEq

/-- What the page that sent the answer reads. -/
def Miss.refusal : Miss → AxError
  | .wrong => .failure .gateDenied "confirm a remote door verb"
      ("no code is waiting, the code is not the one the city's console printed, or it expired")
      ("press the control on the page again, then type the new code the city's console prints")
  | .tooSoon => .failure .gateDenied "confirm a remote door verb"
      "this answer came within a second of the last one, so it was not read"
      "wait a second, then type the same code again"
  | .locked => .failure .gateDenied "confirm a remote door verb"
      ("ten wrong codes were typed since the last right one, so the page's remote-door "
        ++ "controls are off until the city restarts")
      "use /remote at the city's console, the terminal running `sprawling serve`"

namespace Confirm

variable {υ : Type}

def new : Confirm υ where
  pending := none
  last := none
  misses := 0

def locked (guard : Confirm υ) : Bool := confirmMissesMax ≤ guard.misses

/-- A code as the console prints it, in groups joined by dashes. -/
def shown (entropy : Vector UInt8 5) : List Char :=
  let code := encode entropy.toList
  ['-'].intercalate (Lines.chunks groupLen (code.length + 1) code)

variable (hash : List UInt8 → B3Hash) (lower : Char → List Char)

/-- Waits for a verb in place of any request before it, and answers the code to print. -/
def request (guard : Confirm υ) (verb : υ) (entropy : Vector UInt8 5) (expires : Nat) :
    Except AxError (List Char) × Confirm υ :=
  if guard.locked then (.error Miss.locked.refusal, guard)
  else
    let code := hash (Utf8.encode (encode entropy.toList))
    (.ok (shown entropy), { guard with pending := some { verb, code, expires } })

/-- An answer this long after the last one read is read. A clock set back counts as spaced. -/
def spaced (guard : Confirm υ) (now : Nat) : Bool :=
  guard.last.all fun last =>
    now < last || Word.saturatingAdd Word.u64Values last confirmSpacingMs ≤ now

/-- Answers the request that waits. -/
def confirm (guard : Confirm υ) (answer : List Char) (now : Nat) : Except Miss υ × Confirm υ :=
  if guard.locked then (.error .locked, guard)
  else if ¬guard.spaced now then (.error .tooSoon, guard)
  else
    let typed := hash (Utf8.encode (canonical lower answer))
    let missed : Except Miss υ × Confirm υ := (.error .wrong,
      { pending := none, last := some now, misses := Word.saturatingAdd Word.u32Values guard.misses 1 })
    match guard.pending with
    | some pending =>
      if pending.code = typed ∧ now < pending.expires then
        (.ok pending.verb, { pending := none, last := some now, misses := 0 })
      else missed
    | none => missed

/-- What is done to a guard. -/
inductive Operation (υ : Type) where
  | request (verb : υ) (entropy : Vector UInt8 5) (expires : Nat)
  | confirm (answer : List Char) (now : Nat)

def step (guard : Confirm υ) : Operation υ → Confirm υ
  | .request verb entropy expires => (guard.request hash verb entropy expires).2
  | .confirm answer now => (guard.confirm hash lower answer now).2

def Reads (guard : Confirm υ) (now : Nat) : Prop := guard.locked = false ∧ guard.spaced now = true

end Confirm

end RemoteAccess

end Sprawling
