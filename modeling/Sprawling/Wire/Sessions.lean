import Sprawling.Base.Tickets
import Sprawling.Base.Utf8
import Sprawling.Kernel.Digest

/-! The live session tokens of this machine's door for a browser: whose each token is, how many
sockets hold it, and when one that no socket holds lapses. -/

namespace Sprawling

open Std.ExtTreeMap OrdMap Word

namespace Digest

instance (width : Nat) : Ord (Digest width) := ⟨fun first second => compare first.bytes second.bytes⟩

theorem compare_def {width : Nat} (first second : Digest width) :
    compare first second = compare first.bytes second.bytes := rfl

instance (width : Nat) : Std.TransOrd (Digest width) := transOrd_of_key compare_def

instance : Std.TransOrd B3Hash := inferInstance

instance (width : Nat) : Std.LawfulEqOrd (Digest width) :=
  lawfulEqOrd_of_key compare_def fun _ _ => ext_bytes

end Digest

namespace Reception

/-- The id of a paired browser. -/
structure DeviceId where
  text : List Char
deriving DecidableEq

def sessionsMax : Nat := 64

def sessionIdleMs : Nat := 60000

/-- Whether sockets hold a token now, or since when none has. -/
inductive Hold where
  | seated (sockets : Nat) (some_sockets : 0 < sockets)
  | idle (since : Nat)

/-- One token: the device that signed for it, its place in the order of minting, and who holds it. -/
structure Session where
  device : DeviceId
  minted : Nat
  hold : Hold

namespace Hold

/-- One socket more. -/
def sit : Hold → Hold
  | .seated sockets some_sockets =>
    .seated (Word.saturatingAdd u64Values sockets 1) (by
      have more : 0 < u64Values - 1 := by decide
      exact lt_min (Nat.add_pos_left some_sockets 1) more)
  | .idle _ => .seated 1 Nat.one_pos

/-- One socket less; when it was the last, nobody holds the token from now. -/
def leave (now : Nat) : Hold → Hold
  | .seated sockets _ =>
    if more : 0 < sockets - 1 then .seated (sockets - 1) more else .idle now
  | .idle since => .idle since

end Hold

namespace Session

/-- No socket holds the token. -/
def idle (session : Session) : Bool :=
  match session.hold with
  | .seated .. => false
  | .idle _ => true

/-- The token still admits. -/
def live (session : Session) (now : Nat) : Bool :=
  match session.hold with
  | .seated .. => true
  | .idle since => now < Word.saturatingAdd u64Values since sessionIdleMs

end Session

/-- The live session tokens, by digest. -/
structure Sessions where
  live : OrdMap B3Hash Session
  minted : Nat

namespace Sessions

def empty : Sessions where
  live := ∅
  minted := 0

/-- The entry minted first among those counted. -/
def oldest (counted : Session → Bool) (live : OrdMap B3Hash Session) : Option B3Hash :=
  leastBy Session.minted (live.toList.filter fun entry => counted entry.2)

/-- The oldest idle token, or the oldest of all when sockets hold every one. -/
def evicted (live : OrdMap B3Hash Session) : Option B3Hash :=
  (oldest Session.idle live).or (oldest (fun _ => true) live)

variable (hash : List UInt8 → B3Hash)

def digest (text : List Char) : B3Hash := hash (Utf8.encode text)

/-- Whether a presented token admits. -/
def holds (sessions : Sessions) (presented : List Char) (now : Nat) : Bool :=
  match sessions.live[digest hash presented]? with
  | some session => session.live now
  | none => false

/-- Keeps a token for a device, idle from now, after the lapsed tokens are cleared and, while the
table is full, the oldest idle one. -/
def mint (sessions : Sessions) (device : DeviceId) (token : List Char) (now : Nat) : Sessions :=
  let kept := OrdMap.evict evicted sessionsMax
    (sessions.live.filter fun _ session => session.live now)
  let minted := Word.saturatingAdd u64Values sessions.minted 1
  { live := kept.insert (digest hash token) { device, minted, hold := .idle now }, minted }

/-- Seats one socket on a presented token that admits, and names the token. -/
def seat (sessions : Sessions) (presented : List Char) (now : Nat) : Option B3Hash × Sessions :=
  let token := digest hash presented
  match sessions.live[token]? with
  | none => (none, sessions)
  | some session =>
    if session.live now then
      let live := sessions.live.modify token fun session => { session with hold := session.hold.sit }
      (some token, { sessions with live })
    else (none, sessions)

/-- One socket seated on a token has ended; the last one to leave starts the idle allowance. -/
def unseat (sessions : Sessions) (token : B3Hash) (now : Nat) : Sessions :=
  let live := sessions.live.modify token fun session => { session with hold := session.hold.leave now }
  { sessions with live }

/-- Ends a token at once, whoever holds it. -/
def ends (sessions : Sessions) (token : B3Hash) : Sessions :=
  { sessions with live := sessions.live.erase token }

/-- Ends every token a device signed for. -/
def endDevice (sessions : Sessions) (device : DeviceId) : Sessions :=
  { sessions with live := sessions.live.filter fun _ session => session.device ≠ device }

/-! ### What each of them leaves of a token -/

variable {hash : List UInt8 → B3Hash} {sessions : Sessions} {token : B3Hash} {session : Session}

variable {now : Nat}

variable {presented : List Char}

theorem holds_iff :
    sessions.holds hash presented now = true ↔
      ∃ session, sessions.live[digest hash presented]? = some session ∧ session.live now = true := by
  rw [holds]
  cases sessions.live[digest hash presented]? with
  | none => simp
  | some session => simp

variable {device : DeviceId}

theorem get_mint {minted : List Char}
    (held : (sessions.mint hash device minted now).live[token]? = some session) :
    (token = digest hash minted ∧ session.device = device ∧ session.hold = .idle now) ∨
      token ≠ digest hash minted ∧ sessions.live[token]? = some session := by
  rw [mint, OrdMap.get_insert] at held
  split at held
  · rename_i same
    cases held
    exact .inl ⟨same.symm, rfl, rfl⟩
  · rename_i apart
    have kept := get_evict held
    rw [getElem?_filter'] at kept
    exact .inr ⟨Ne.symm apart, Option.eq_some_of_filter_eq_some kept⟩

/-- After a socket asked for a seat an entry is as it was, or it has one socket more. -/
theorem get_seat (held : (sessions.seat hash presented now).2.live[token]? = some session) :
    ((sessions.seat hash presented now).1 ≠ some token ∧ sessions.live[token]? = some session) ∨
      (sessions.seat hash presented now).1 = some token ∧
      ∃ before, sessions.live[token]? = some before ∧ before.live now = true ∧
        session.device = before.device ∧ session.hold = before.hold.sit := by
  rw [seat] at held ⊢
  cases found : sessions.live[digest hash presented]? with
  | none =>
    rw [found] at held
    exact .inl ⟨nofun, held⟩
  | some before =>
    rw [found] at held
    by_cases lives : before.live now = true
    · simp only [if_pos lives] at held ⊢
      rw [Std.ExtTreeMap.getElem?_modify] at held
      split at held
      · rename_i same
        have same := Std.LawfulEqCmp.eq_of_compare same
        subst same
        rw [found] at held
        cases held
        exact .inr ⟨rfl, before, found, lives, rfl, rfl⟩
      · rename_i apart
        refine .inl ⟨fun same => apart ?_, held⟩
        rw [Option.some.inj same]
        exact Std.ReflCmp.compare_self
    · simp only [if_neg lives] at held ⊢
      exact .inl ⟨nofun, held⟩

/-- After a socket left a token an entry is as it was, or it is that token's with one socket less. -/
theorem get_unseat {left : B3Hash}
    (held : (sessions.unseat left now).live[token]? = some session) :
    ((left = token → session.idle = true) ∧ sessions.live[token]? = some session) ∨
      left = token ∧ ∃ before, sessions.live[token]? = some before ∧ before.idle = false ∧
        session.device = before.device ∧ session.hold = before.hold.leave now := by
  rw [unseat, Std.ExtTreeMap.getElem?_modify] at held
  split at held
  · rename_i same
    have same := Std.LawfulEqCmp.eq_of_compare same
    subst same
    obtain ⟨before, found, made⟩ := Option.map_eq_some_iff.mp held
    cases vacant : before.idle with
    | false => exact .inr ⟨rfl, before, found, vacant, by rw [← made], by rw [← made]⟩
    | true =>
      have unchanged : session = before := by
        rw [← made]
        cases before with
        | mk device minted hold =>
          cases hold with
          | seated => cases vacant
          | idle => rfl
      exact .inl ⟨fun _ => unchanged ▸ vacant, unchanged ▸ found⟩
  · rename_i apart
    refine .inl ⟨fun same => absurd ?_ apart, held⟩
    rw [same]
    exact Std.ReflCmp.compare_self

theorem get_ends {ended : B3Hash} (held : (sessions.ends ended).live[token]? = some session) :
    ended ≠ token ∧ sessions.live[token]? = some session := by
  rw [ends, get_erase] at held
  split at held
  · cases held
  · rename_i apart
    exact ⟨apart, held⟩

theorem get_endDevice (held : (sessions.endDevice device).live[token]? = some session) :
    session.device ≠ device ∧ sessions.live[token]? = some session := by
  rw [endDevice, getElem?_filter'] at held
  have kept := Option.filter_eq_some_iff.mp held
  exact ⟨of_decide_eq_true kept.2, kept.1⟩

variable {live : OrdMap B3Hash Session}

theorem mem_of_oldest {counted : Session → Bool} {key : B3Hash}
    (found : oldest counted live = some key) : key ∈ live := by
  rw [oldest] at found
  by_cases none_ : live.toList.filter (fun entry => counted entry.2) = []
  · rw [none_] at found
    cases found
  · obtain ⟨⟨other, session⟩, member, picked⟩ := leastBy_mem Session.minted none_
    have same := Option.some.inj (picked.symm.trans found)
    have held := mem_toList_iff_getElem?_eq_some.mp (List.mem_filter.mp member).1
    exact (OrdMap.mem_iff_get live key).mpr ⟨session, same ▸ held⟩

theorem evicted_eq_some (nonempty : live.size ≠ 0) :
    ∃ key ∈ live, evicted live = some key := by
  have some_entries : live.toList.filter (fun _ => true) ≠ [] := by
    rw [List.filter_true]
    intro empty
    rw [← length_toList, empty] at nonempty
    exact nonempty rfl
  obtain ⟨entry, -, first⟩ := leastBy_mem Session.minted some_entries
  have any : oldest (fun _ => true) live = some entry.1 := first
  cases vacant : oldest Session.idle live with
  | some key => exact ⟨key, mem_of_oldest vacant, by rw [evicted, vacant, Option.some_or]⟩
  | none => exact ⟨entry.1, mem_of_oldest any, by rw [evicted, vacant, Option.none_or, any]⟩

theorem size_mint_le (sessions : Sessions) (device : DeviceId) (minted : List Char) (now : Nat) :
    (sessions.mint hash device minted now).live.size ≤ sessionsMax := by
  have room := size_evict_lt (by decide : 0 < sessionsMax) (fun _ => evicted_eq_some)
    (sessions.live.filter fun _ session => session.live now)
  have grown := size_insert_le (OrdMap.evict evicted sessionsMax
    (sessions.live.filter fun _ session => session.live now)) (digest hash minted)
    { device, minted := Word.saturatingAdd u64Values sessions.minted 1, hold := .idle now }
  exact Nat.le_trans grown room

theorem size_seat (sessions : Sessions) (presented : List Char) (now : Nat) :
    (sessions.seat hash presented now).2.live.size = sessions.live.size := by
  rw [seat]
  cases sessions.live[digest hash presented]? with
  | none => rfl
  | some session =>
    by_cases lives : session.live now = true
    · simp only [if_pos lives]
      exact size_modify
    · simp only [if_neg lives]

end Sessions

end Reception

end Sprawling
