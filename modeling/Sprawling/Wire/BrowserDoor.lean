import Sprawling.Base.Text
import Sprawling.Wire.Sessions

/-! This machine's door for a browser: the pairing code the terminal shows, one guess at a time, the
open codes, the nonces a session is signed over, the paired device keys, and the session tokens. -/

namespace Sprawling

open Digest

namespace Reception

def guessIntervalMs : Nat := 1000

def openCodeLifetimeMs : Nat := 120000

def openCodesMax : Nat := 4

def nonceLifetimeMs : Nat := 60000

def noncesMax : Nat := 16

/-- Digits and letters that survive being read aloud and typed back. -/
def alphabet : List Char := "2346789abcdefghjkmnpqrtuvwxyz".toList

/-- Entropy spelled in groups of symbols joined by dashes, one symbol a byte. -/
def spell (entropy : List UInt8) (groupLen groups : Nat) : List Char :=
  (entropy.take (groupLen * groups)).zipIdx.flatMap fun entry =>
    (if entry.2 ≠ 0 ∧ entry.2 % groupLen = 0 then ['-'] else []) ++
      alphabet[entry.1.toNat % alphabet.length]?.toList

/-- The pairing code that entropy spells: two groups of four symbols. -/
def codeOf (entropy : Vector UInt8 32) : List Char := spell entropy.toList 4 2

/-- Whether a presented token has the digest expected; every byte is compared. -/
def verify (hash : List UInt8 → B3Hash) (presented : Option (List Char)) (expected : B3Hash) : Bool :=
  match presented with
  | none => false
  | some presented =>
    let offered := hash (Utf8.encode presented)
    (offered.bytes.zip expected.bytes).foldl
      (fun difference pair => difference ||| (pair.1 ^^^ pair.2)) 0 = 0

/-- What a guess of the pairing code came to. -/
inductive Guess where
  | paired
  | wrong
  | tooSoon
deriving DecidableEq

/-- The public half of a browser's device key. -/
structure DeviceKey where
  bytes : Vector UInt8 32

/-- One paired browser, as the city keeps it. -/
structure PairedBrowser where
  id : DeviceId
  label : List Char
  key : DeviceKey
  pairedAt : Nat
  lastSeen : Option Nat

namespace DeviceId

theorem ext_text {first second : DeviceId} (same : first.text = second.text) : first = second := by
  cases first
  cases second
  cases same
  rfl

instance : Ord DeviceId := ⟨fun first second => compare first.text second.text⟩

theorem compare_def (first second : DeviceId) :
    compare first second = compare first.text second.text := rfl

instance : Std.TransOrd DeviceId := OrdMap.transOrd_of_key compare_def

instance : Std.LawfulEqOrd DeviceId := OrdMap.lawfulEqOrd_of_key compare_def fun _ _ => ext_text

end DeviceId

/-- The door's whole state. -/
structure BrowserDoor where
  code : List Char
  nextGuess : Nat
  openCodes : Tickets B3Hash
  nonces : Tickets (List Char)
  browsers : OrdMap DeviceId PairedBrowser
  sessions : Sessions

namespace BrowserDoor

/-- A door that knows some browsers and shows a code made of entropy. -/
def new (browsers : List PairedBrowser) (entropy : Vector UInt8 32) : BrowserDoor where
  code := codeOf entropy
  nextGuess := 0
  openCodes := ∅
  nonces := ∅
  browsers := browsers.foldl (fun known browser => known.insert browser.id browser) ∅
  sessions := .empty

variable (hash : List UInt8 → B3Hash)

/-- Judges one guess. A judged guess, right or wrong, replaces the code; one that comes too soon is
not judged at all. -/
def guess (door : BrowserDoor) (word : List Char) (now : Nat) (entropy : Vector UInt8 32) :
    Guess × BrowserDoor :=
  if now < door.nextGuess then (.tooSoon, door)
  else
    let paired := verify hash (some (Text.trim word)) (hash (Utf8.encode door.code))
    (if paired then .paired else .wrong, { door with
      code := codeOf entropy
      nextGuess := Word.saturatingAdd Word.u64Values now guessIntervalMs })

/-- Mints an open code; only its digest is kept. -/
def issueOpenCode (door : BrowserDoor) (entropy : Vector UInt8 16) (now : Nat) :
    List Char × BrowserDoor :=
  let code := writeHex entropy.toList
  (code, { door with openCodes :=
    door.openCodes.issue openCodesMax openCodeLifetimeMs (hash (Utf8.encode code)) now })

/-- Redeems an open code, once, while it lives. -/
def redeemOpenCode (door : BrowserDoor) (code : List Char) (now : Nat) :
    Option B3Hash × BrowserDoor :=
  let digest := hash (Utf8.encode (Text.trim code))
  let (honoured, openCodes) := door.openCodes.redeem digest now
  (if honoured then some digest else none, { door with openCodes })

/-- Registers a browser, in place of the line of the same id. -/
def pair (door : BrowserDoor) (line : PairedBrowser) : DeviceId × BrowserDoor :=
  (line.id, { door with browsers := door.browsers.insert line.id line })

/-- A nonce made of entropy, answerable once. -/
def challenge (door : BrowserDoor) (entropy : Vector UInt8 32) (now : Nat) :
    List Char × BrowserDoor :=
  let nonce := writeHex entropy.toList
  (nonce, { door with nonces := door.nonces.issue noncesMax nonceLifetimeMs nonce now })

/-- Spends a nonce: whether it was issued and is still alive. -/
def takeNonce (door : BrowserDoor) (nonce : List Char) (now : Nat) : Bool × BrowserDoor :=
  let (honoured, nonces) := door.nonces.redeem nonce now
  (honoured, { door with nonces })

/-- Opens a session for a paired browser: a token made of entropy, whose digest alone is kept. -/
def openSession (door : BrowserDoor) (device : DeviceId) (entropy : Vector UInt8 32) (now : Nat) :
    Option (List Char) × BrowserDoor :=
  match door.browsers[device]? with
  | none => (none, door)
  | some browser =>
    let token := writeHex entropy.toList
    (some token, { door with
      browsers := door.browsers.insert device { browser with lastSeen := some now }
      sessions := door.sessions.mint hash device token now })

/-- Forgets a browser and ends its sessions. -/
def forget (door : BrowserDoor) (device : DeviceId) : Bool × BrowserDoor :=
  (door.browsers.contains device, { door with
    browsers := door.browsers.erase device
    sessions := door.sessions.endDevice device })

/-- What is done to a door. -/
inductive Move where
  | guess (word : List Char) (now : Nat) (entropy : Vector UInt8 32)
  | issueOpenCode (entropy : Vector UInt8 16) (now : Nat)
  | redeemOpenCode (code : List Char) (now : Nat)
  | pair (line : PairedBrowser)
  | challenge (entropy : Vector UInt8 32) (now : Nat)
  | takeNonce (nonce : List Char) (now : Nat)
  | openSession (device : DeviceId) (entropy : Vector UInt8 32) (now : Nat)
  | seat (presented : List Char) (now : Nat)
  | unseat (token : B3Hash) (now : Nat)
  | ends (token : B3Hash)
  | forget (device : DeviceId)

/-- The door after one move more. -/
def step (door : BrowserDoor) : Move → BrowserDoor
  | .guess word now entropy => (door.guess hash word now entropy).2
  | .issueOpenCode entropy now => (door.issueOpenCode hash entropy now).2
  | .redeemOpenCode code now => (door.redeemOpenCode hash code now).2
  | .pair line => (door.pair line).2
  | .challenge entropy now => (door.challenge entropy now).2
  | .takeNonce nonce now => (door.takeNonce nonce now).2
  | .openSession device entropy now => (door.openSession hash device entropy now).2
  | .seat presented now => { door with sessions := (door.sessions.seat hash presented now).2 }
  | .unseat token now => { door with sessions := door.sessions.unseat token now }
  | .ends token => { door with sessions := door.sessions.ends token }
  | .forget device => (door.forget device).2

/-- When a move is made, if it reads the clock. -/
def Move.time : Move → Option Nat
  | .guess _ now _ | .issueOpenCode _ now | .redeemOpenCode _ now | .challenge _ now
  | .takeNonce _ now | .openSession _ _ now | .seat _ now | .unseat _ now => some now
  | .pair _ | .ends _ | .forget _ => none

end BrowserDoor

theorem foldl_or_eq_zero {pairs : List (UInt8 × UInt8)} (start : UInt8) :
    pairs.foldl (fun difference pair => difference ||| (pair.1 ^^^ pair.2)) start = 0 ↔
      start = 0 ∧ ∀ pair ∈ pairs, pair.1 = pair.2 := by
  induction pairs generalizing start with
  | nil => simp
  | cons pair pairs ih =>
    rw [List.foldl_cons, ih, UInt8.or_eq_zero_iff, UInt8.xor_eq_zero_iff, List.forall_mem_cons,
      and_assoc]

theorem zip_same_iff {first second : List UInt8} (sized : first.length = second.length) :
    (∀ pair ∈ first.zip second, pair.1 = pair.2) ↔ first = second := by
  induction first generalizing second with
  | nil =>
    cases List.length_eq_zero_iff.mp sized.symm
    simp
  | cons byte first ih =>
    cases second with
    | nil => cases sized
    | cons other second =>
      rw [List.zip_cons_cons, List.forall_mem_cons, ih (Nat.succ.inj sized), List.cons.injEq]

theorem verify_some {hash : List UInt8 → B3Hash} {presented : List Char} {expected : B3Hash} :
    verify hash (some presented) expected = true ↔ hash (Utf8.encode presented) = expected := by
  have sized := (hash (Utf8.encode presented)).sized.trans expected.sized.symm
  rw [verify, decide_eq_true_iff, foldl_or_eq_zero, zip_same_iff sized]
  constructor
  · rintro ⟨-, same⟩
    exact ext_bytes same
  · rintro rfl
    exact ⟨rfl, rfl⟩

end Reception

end Sprawling
