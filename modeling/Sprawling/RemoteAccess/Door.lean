import Mathlib.Data.List.Nodup
import Mathlib.Data.List.Perm.Basic
import Sprawling.Base.Text
import Sprawling.Kernel.Digest
import Sprawling.Kernel.Error

/-! The state of a city's remote door: open or closed and in which epoch, the pairings it waits for,
the devices paired, and the sessions they hold. -/

namespace Sprawling


namespace RemoteAccess

/-- Drawn fresh each time the door opens. -/
structure Epoch where
  bytes : Vector UInt8 16
deriving DecidableEq

/-- A paired device, by the id the city gave it at pairing. -/
structure DeviceId where
  bytes : Vector UInt8 16
deriving DecidableEq

/-- One session a paired device holds after its handshake. -/
structure SessionId where
  bytes : Vector UInt8 16
deriving DecidableEq

/-- The public half of a device's key, as the device sent it. -/
structure DeviceKey where
  bytes : List UInt8

/-- A pairing code, held as the digest of its text. -/
structure PairingCode where
  digest : B3Hash
deriving DecidableEq

/-- What the person called a device: one to sixty-four characters with no blanks around them. -/
structure DeviceName where
  text : List Char
  trimmed : Text.Trimmed text
  some_chars : text ≠ []
  short : text.length ≤ 64

def DeviceName.parse (raw : List Char) : Except AxError DeviceName :=
  let text := Text.trim raw
  if named : text ≠ [] ∧ text.length ≤ 64 then
    .ok ⟨text, Text.trimmed_trim raw, named.1, named.2⟩
  else
    .error (.failure .invalidArgs "name a device" (String.ofList text)
      "give the device a name of 1 to 64 characters, such as `phone`")

/-- What a paired device may do once it holds a session. -/
inductive Authority where
  | watch
  | act

/-- The kinds of verb a frame can carry, as the door judges them. -/
inductive VerbClass where
  | read
  | act
  | localOnly

/-- Whether a remote session may carry a verb; a local-only one is refused whatever the authority. -/
def permits : Authority → VerbClass → Bool
  | .watch, .read | .act, .read | .act, .act => true
  | .watch, .act | .watch, .localOnly | .act, .localOnly => false

structure Device where
  id : DeviceId
  name : DeviceName
  authority : Authority
  key : DeviceKey

inductive Phase where
  | closed
  | opened (closesAt : Nat)

/-- A code the door waits for. -/
structure Pending where
  code : PairingCode
  epoch : Epoch
  expires : Nat
  authority : Authority
  name : DeviceName

structure Session where
  id : SessionId
  device : DeviceId
  epoch : Epoch
  expires : Nat

/-- Takes the item at a place out of a list; the last one moves there. -/
def swapRemove {α : Type} (items : List α) (at_ : Nat) : List α :=
  match items.getLast? with
  | none => []
  | some last => (items.set at_ last).dropLast

/-- Taking an item out leaves the others, in some order. -/
theorem perm_swapRemove {α : Type} {items : List α} {at_ : Nat} {item : α}
    (found : items[at_]? = some item) : (item :: swapRemove items at_).Perm items := by
  obtain ⟨inside, here⟩ := List.getElem?_eq_some_iff.mp found
  obtain ⟨front, last, rfl⟩ := (List.eq_nil_or_concat' items).resolve_left
    (List.ne_nil_of_length_pos (Nat.zero_lt_of_lt inside))
  rw [List.length_append, List.length_singleton] at inside
  rw [swapRemove, List.getLast?_concat]
  by_cases place : at_ < front.length
  · rw [List.getElem_append_left place] at here
    have kept : (front ++ [last]).set at_ last = front.set at_ last ++ [last] :=
      List.set_append_left at_ last place
    simp only [kept, List.dropLast_concat]
    calc List.Perm (item :: front.set at_ last) (item :: last :: front.eraseIdx at_) :=
          (List.set_perm_cons_eraseIdx place last).cons item
      List.Perm _ (last :: item :: front.eraseIdx at_) := List.Perm.swap ..
      List.Perm _ (last :: front) := by
          rw [← here]
          exact (List.getElem_cons_eraseIdx_perm place).cons last
      List.Perm _ (front ++ [last]) := (List.perm_append_singleton last front).symm
  · have same : at_ = front.length := by omega
    subst same
    rw [List.getElem_concat_length rfl] at here
    have kept : (front ++ [last]).set front.length last = front ++ [last] := by
      rw [List.set_append_right _ _ le_rfl, Nat.sub_self, List.set_cons_zero]
    simp only [kept, List.dropLast_concat]
    rw [← here]
    exact (List.perm_append_singleton last front).symm

structure Door where
  epoch : Epoch
  phase : Phase
  pending : List Pending
  devices : List Device
  sessions : List Session

namespace Door

/-- The door a city starts with: closed, holding the devices it paired before. -/
def start (devices : List Device) (epoch : Epoch) : Door where
  epoch
  phase := .closed
  pending := []
  devices
  sessions := []

/-- Opens the door in a new epoch, which nothing pending and no session survives into. -/
def opens (door : Door) (epoch : Epoch) (closesAt : Nat) : Except AxError Unit × Door :=
  if epoch = door.epoch then
    (.error (.failure .invalidArgs "open the remote door" "a reused epoch"
      "draw a new epoch from the system's random source and open again"), door)
  else
    (.ok (), { epoch, phase := .opened closesAt, pending := [], devices := door.devices, sessions := [] })

def close (door : Door) : Door :=
  { door with phase := .closed, pending := [], sessions := [] }

/-- The door once its time is judged: closed when that is up. -/
def timed (door : Door) (now : Nat) : Door :=
  match door.phase with
  | .closed => door
  | .opened closesAt => if closesAt ≤ now then door.close else door

/-- Closes the door once its time is up, and forgets what expired. -/
def tick (door : Door) (now : Nat) : Door :=
  let door := door.timed now
  { door with
    pending := door.pending.filter fun pending => now < pending.expires
    sessions := door.sessions.filter fun session => now < session.expires }

/-- When the door closes by itself. -/
def closesAt (door : Door) : Option Nat :=
  match door.phase with
  | .closed => none
  | .opened closesAt => some closesAt

def requireOpen (door : Door) (action : String) : Except AxError Nat :=
  match door.closesAt with
  | some closesAt => .ok closesAt
  | none => .error (.failure .gateDenied action "the remote door is closed"
      "open it on the city's console with `/remote open`")

def expectPairing (door : Door) (code : PairingCode) (name : DeviceName) (authority : Authority)
    (expires : Nat) : Except AxError Unit × Door :=
  match door.requireOpen "mint a pairing code" with
  | .error refused => (.error refused, door)
  | .ok _ =>
    let waiting : Pending := { code, epoch := door.epoch, expires, authority, name }
    (.ok (), { door with pending := door.pending ++ [waiting] })

def unknownCode : AxError :=
  .failure .gateDenied "pair a device" "the pairing code"
    "mint a new pairing code on the city's console with `/remote pair <name>`"

/-- The place of a code among those waited for. -/
def placeOf (door : Door) (code : PairingCode) : Nat :=
  door.pending.findIdx fun pending => pending.code = code

/-- Pairs the device that presented a code. The code is taken out whether or not it was still good. -/
def pair (door : Door) (code : PairingCode) (id : DeviceId) (key : DeviceKey) (now : Nat) :
    Except AxError Unit × Door :=
  match door.requireOpen "pair a device" with
  | .error refused => (.error refused, door)
  | .ok _ =>
    match door.pending[door.placeOf code]? with
    | none => (.error unknownCode, door)
    | some pending =>
      let door := { door with pending := swapRemove door.pending (door.placeOf code) }
      if pending.epoch = door.epoch ∧ now < pending.expires then
        (.ok (), { door with
          devices := door.devices ++ [⟨id, pending.name, pending.authority, key⟩] })
      else (.error unknownCode, door)

/-- Forgets a paired device and ends every session it holds. -/
def revoke (door : Door) (id : DeviceId) : Except AxError Unit × Door :=
  if door.devices.any fun device => device.id = id then
    (.ok (), { door with
      devices := door.devices.filter fun device => device.id ≠ id
      sessions := door.sessions.filter fun session => session.device ≠ id })
  else
    (.error (.failure .invalidArgs "revoke a device" "an unknown device"
      "list the paired devices with `/remote devices` and name one of them"), door)

/-- Opens a session for a paired device, until it expires or the door closes. -/
def admitSession (door : Door) (session : SessionId) (device : DeviceId) (expires : Nat) :
    Except AxError Unit × Door :=
  match door.requireOpen "open a remote session" with
  | .error refused => (.error refused, door)
  | .ok closesAt =>
    if door.devices.any fun known => known.id = device then
      let held : Session := { id := session, device, epoch := door.epoch, expires := min expires closesAt }
      (.ok (), { door with sessions := door.sessions ++ [held] })
    else
      (.error (.failure .gateDenied "open a remote session" "an unpaired device"
        "pair this device again from the city's console"), door)

/-- The authority a session carries, or none when it is no longer valid. -/
def authority (door : Door) (session : SessionId) (now : Nat) : Option Authority :=
  match door.phase with
  | .closed => none
  | .opened _ => do
      let held ← door.sessions.find? fun held =>
        held.id = session ∧ held.epoch = door.epoch ∧ now < held.expires
      let device ← door.devices.find? fun device => device.id = held.device
      return device.authority

/-- What is done to a door, in the order of its methods. -/
inductive Operation where
  | opens (epoch : Epoch) (closesAt : Nat)
  | close
  | tick (now : Nat)
  | expectPairing (code : PairingCode) (name : DeviceName) (authority : Authority) (expires : Nat)
  | pair (code : PairingCode) (id : DeviceId) (key : DeviceKey) (now : Nat)
  | revoke (id : DeviceId)
  | admitSession (session : SessionId) (device : DeviceId) (expires : Nat)

def perform (door : Door) : Operation → Except AxError Unit × Door
  | .opens epoch closesAt => door.opens epoch closesAt
  | .close => (.ok (), door.close)
  | .tick now => (.ok (), door.tick now)
  | .expectPairing code name authority expires => door.expectPairing code name authority expires
  | .pair code id key now => door.pair code id key now
  | .revoke id => door.revoke id
  | .admitSession session device expires => door.admitSession session device expires

def Accepts (door : Door) (op : Operation) : Prop := (door.perform op).1 = .ok ()

def step (door : Door) (op : Operation) : Door := (door.perform op).2

end Door

end RemoteAccess

end Sprawling
