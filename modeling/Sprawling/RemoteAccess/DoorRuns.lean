import Sprawling.Base.Since
import Sprawling.RemoteAccess.Door

/-! What a remote door keeps over every run of its operations: whose authority a session carries and
until when, and which codes pair devices. -/

namespace Sprawling

open Since

open List (any_eq_true mem_filter mem_append mem_singleton map_cons nodup_cons mem_cons_self
  filterMap_append nodup_append append_assoc mem_cons)

namespace RemoteAccess

namespace Door

/-! ### What one operation makes of a door -/

section Turns

variable {door : Door}

theorem requireOpen_closed (shut : door.phase = .closed) (action : String) :
    ∃ refused, door.requireOpen action = .error refused := by
  rw [requireOpen, closesAt, shut]
  exact ⟨_, rfl⟩

variable {closing : Nat}

theorem requireOpen_opened (standing : door.phase = .opened closing) (action : String) :
    door.requireOpen action = .ok closing := by
  rw [requireOpen, closesAt, standing]

theorem closesAt_opened (standing : door.phase = .opened closing) :
    door.closesAt = some closing := by
  rw [closesAt, standing]

variable {code : PairingCode} {waiting : Pending}

theorem code_of_place (found : door.pending[door.placeOf code]? = some waiting) :
    waiting.code = code := by
  obtain ⟨inside, here⟩ := List.getElem?_eq_some_iff.mp found
  have judged := List.findIdx_getElem (w := inside)
  rw [← here]
  exact of_decide_eq_true judged

theorem place_of_absent (missing : door.pending[door.placeOf code]? = none) :
    ∀ waiting ∈ door.pending, waiting.code ≠ code := by
  intro waiting member same
  have past : door.pending.length ≤ door.placeOf code := List.getElem?_eq_none_iff.mp missing
  have inside : door.placeOf code < door.pending.length :=
    List.findIdx_lt_length_of_exists ⟨waiting, member, decide_eq_true same⟩
  omega

/-- What an operation makes of a door, with what was found there. -/
inductive Turn (door : Door) : Operation → Door → Prop
  | reused {epoch : Epoch} {closing : Nat} (same : epoch = door.epoch) :
      Turn door (.opens epoch closing) door
  | opened {epoch : Epoch} {closing : Nat} (fresh : epoch ≠ door.epoch) :
      Turn door (.opens epoch closing)
        { epoch, phase := .opened closing, pending := [], devices := door.devices, sessions := [] }
  | closed : Turn door .close door.close
  | ended {now : Nat} : Turn door (.tick now) door.close
  | ticked {now : Nat} : Turn door (.tick now)
      { door with
        pending := door.pending.filter fun pending => now < pending.expires
        sessions := door.sessions.filter fun session => now < session.expires }
  | shut {op : Operation} (closed : door.phase = .closed) (refused : ¬door.Accepts op) : Turn door op door
  | expected {code : PairingCode} {name : DeviceName} {authority : Authority} {expires closing : Nat}
      (standing : door.phase = .opened closing) :
      Turn door (.expectPairing code name authority expires)
        { door with pending := door.pending ++ [⟨code, door.epoch, expires, authority, name⟩] }
  | unknown {code : PairingCode} {id : DeviceId} {key : DeviceKey} {now : Nat}
      (absent : ∀ waiting ∈ door.pending, waiting.code ≠ code)
      (refused : ¬door.Accepts (.pair code id key now)) : Turn door (.pair code id key now) door
  | spoiled {waiting : Pending} {id : DeviceId} {key : DeviceKey} {now : Nat} {rest : List Pending}
      (taken : (waiting :: rest).Perm door.pending)
      (refused : ¬door.Accepts (.pair waiting.code id key now)) :
      Turn door (.pair waiting.code id key now) { door with pending := rest }
  | paired {waiting : Pending} {id : DeviceId} {key : DeviceKey} {now closing : Nat}
      {rest : List Pending} (standing : door.phase = .opened closing)
      (taken : (waiting :: rest).Perm door.pending) (current : waiting.epoch = door.epoch)
      (early : now < waiting.expires) (accepted : door.Accepts (.pair waiting.code id key now)) :
      Turn door (.pair waiting.code id key now)
        { door with
          pending := rest
          devices := door.devices ++ [⟨id, waiting.name, waiting.authority, key⟩] }
  | missing {id : DeviceId} (refused : ¬door.Accepts (.revoke id))
      (absent : ∀ known ∈ door.devices, known.id ≠ id) : Turn door (.revoke id) door
  | revoked {id : DeviceId} (accepted : door.Accepts (.revoke id))
      (held : ∃ known ∈ door.devices, known.id = id) :
      Turn door (.revoke id)
        { door with
          devices := door.devices.filter fun device => device.id ≠ id
          sessions := door.sessions.filter fun session => session.device ≠ id }
  | unpaired {session : SessionId} {device : DeviceId} {expires : Nat} :
      Turn door (.admitSession session device expires) door
  | admitted {session : SessionId} {known : Device} {expires closing : Nat}
      (standing : door.phase = .opened closing) (member : known ∈ door.devices) :
      Turn door (.admitSession session known.id expires)
        { door with sessions := door.sessions ++ [⟨session, known.id, door.epoch, min expires closing⟩] }

variable {refused : AxError} {op : Operation}

theorem not_accepts {after : Door}
    (answered : door.perform op = (.error refused, after)) : ¬door.Accepts op := by
  rw [Accepts, answered]
  exact fun accepted => nomatch accepted

theorem turn_shut (shut : door.phase = .closed)
    (answered : door.perform op = (.error refused, door)) : Turn door op (door.step op) := by
  rw [step, answered]
  exact .shut shut (not_accepts answered)

theorem turn_expectPairing (door : Door) (code : PairingCode) (name : DeviceName)
    (authority : Authority) (expires : Nat) :
    Turn door (.expectPairing code name authority expires)
      (door.step (.expectPairing code name authority expires)) := by
  cases phase : door.phase with
  | closed =>
    obtain ⟨refused, closed⟩ := requireOpen_closed phase "mint a pairing code"
    apply turn_shut phase
    rw [perform, expectPairing, closed]
  | opened closing =>
    have open_ := requireOpen_opened phase "mint a pairing code"
    have made : door.step (.expectPairing code name authority expires) =
        { door with pending := door.pending ++ [⟨code, door.epoch, expires, authority, name⟩] } := by
      rw [step, perform, expectPairing, open_]
    rw [made]
    exact .expected phase

theorem turn_pair (door : Door) (code : PairingCode) (id : DeviceId) (key : DeviceKey) (now : Nat) :
    Turn door (.pair code id key now) (door.step (.pair code id key now)) := by
  cases phase : door.phase with
  | closed =>
    obtain ⟨refused, closed⟩ := requireOpen_closed phase "pair a device"
    apply turn_shut phase
    rw [perform, pair, closed]
  | opened closing =>
    have open_ := requireOpen_opened phase "pair a device"
    cases found : door.pending[door.placeOf code]? with
    | none =>
      have answered : door.perform (.pair code id key now) = (.error unknownCode, door) := by
        rw [perform, pair, open_]
        simp only [found]
      rw [step, answered]
      exact .unknown (place_of_absent found) (not_accepts answered)
    | some waiting =>
      have same := code_of_place found
      have taken := perm_swapRemove found
      by_cases good : waiting.epoch = door.epoch ∧ now < waiting.expires
      · have answered : door.perform (.pair code id key now) = (.ok (), { door with
            pending := swapRemove door.pending (door.placeOf code)
            devices := door.devices ++ [⟨id, waiting.name, waiting.authority, key⟩] }) := by
          rw [perform, pair, open_]
          simp only [found, if_pos good]
        have accepted : door.Accepts (.pair code id key now) := by rw [Accepts, answered]
        rw [step, answered]
        subst same
        exact .paired phase taken good.1 good.2 accepted
      · have answered : door.perform (.pair code id key now) = (.error unknownCode,
            { door with pending := swapRemove door.pending (door.placeOf code) }) := by
          rw [perform, pair, open_]
          simp only [found, if_neg good]
        have refuses := not_accepts answered
        rw [step, answered]
        subst same
        exact .spoiled taken refuses

theorem turn_revoke (door : Door) (id : DeviceId) : Turn door (.revoke id) (door.step (.revoke id)) := by
  by_cases held : ∃ known ∈ door.devices, known.id = id
  · have any : (door.devices.any fun device => device.id = id) = true :=
      any_eq_true.mpr (held.imp fun known here => ⟨here.1, decide_eq_true here.2⟩)
    have answered : door.perform (.revoke id) = (.ok (), { door with
        devices := door.devices.filter fun device => device.id ≠ id
        sessions := door.sessions.filter fun session => session.device ≠ id }) := by
      rw [perform, revoke, if_pos any]
    have accepted : door.Accepts (.revoke id) := by rw [Accepts, answered]
    rw [step, answered]
    exact .revoked accepted held
  · have none_ : ¬(door.devices.any fun device => device.id = id) = true := by
      intro any
      obtain ⟨known, member, same⟩ := any_eq_true.mp any
      exact held ⟨known, member, of_decide_eq_true same⟩
    have answered : door.perform (.revoke id) = (.error (.failure .invalidArgs "revoke a device"
        "an unknown device"
        "list the paired devices with `/remote devices` and name one of them"), door) := by
      rw [perform, revoke, if_neg none_]
    rw [step, answered]
    exact .missing (not_accepts answered) fun known member same => held ⟨known, member, same⟩

theorem turn_admitSession (door : Door) (session : SessionId) (device : DeviceId) (expires : Nat) :
    Turn door (.admitSession session device expires)
      (door.step (.admitSession session device expires)) := by
  cases phase : door.phase with
  | closed =>
    obtain ⟨refused, closed⟩ := requireOpen_closed phase "open a remote session"
    apply turn_shut phase
    rw [perform, admitSession, closed]
  | opened closing =>
    have open_ := requireOpen_opened phase "open a remote session"
    rw [step, perform, admitSession, open_]
    by_cases any : (door.devices.any fun known => known.id = device) = true
    · obtain ⟨known, member, same⟩ := any_eq_true.mp any
      have named : known.id = device := of_decide_eq_true same
      subst named
      simp only [if_pos any]
      exact .admitted phase member
    · simp only [if_neg any]
      exact .unpaired

/-- Every operation makes one of these turns. -/
theorem turn (door : Door) (op : Operation) : Turn door op (door.step op) := by
  cases op with
  | opens epoch closing =>
    by_cases same : epoch = door.epoch
    · have unchanged : door.step (.opens epoch closing) = door := by
        rw [step, perform, opens, if_pos same]
      rw [unchanged]
      exact .reused same
    · rw [step, perform, opens, if_neg same]
      exact .opened same
  | close => exact .closed
  | tick now =>
    change Turn door (.tick now) (door.tick now)
    rw [tick]
    by_cases late : door.timed now = door.close
    · rw [late]
      exact .ended
    · have kept : door.timed now = door := by
        rw [timed] at late ⊢
        split at late
        · rfl
        · split at late
          · exact absurd rfl late
          · rename_i early
            rw [if_neg early]
      rw [kept]
      exact .ticked
  | expectPairing code name authority expires => exact turn_expectPairing door code name authority expires
  | pair code id key now => exact turn_pair door code id key now
  | revoke id => exact turn_revoke door id
  | admitSession session device expires => exact turn_admitSession door session device expires

variable {op : Operation} {after : Door} (turn : Turn door op after)

include turn

theorem Turn.session {held : Session} (member : held ∈ after.sessions) :
    (held ∈ door.sessions ∧ after.phase = door.phase ∧ after.epoch = door.epoch ∧
      ∀ known ∈ door.devices, known.id = held.device → known ∈ after.devices) ∨
    ∃ expires closing, op = .admitSession held.id held.device expires ∧
      door.phase = .opened closing ∧ after.phase = .opened closing ∧ after.epoch = door.epoch ∧
      held.epoch = door.epoch ∧ held.expires = min expires closing ∧
      ∃ known ∈ door.devices, known.id = held.device ∧ known ∈ after.devices := by
  cases turn with
  | reused | shut | unknown | missing | unpaired | expected | spoiled =>
    exact .inl ⟨member, rfl, rfl, fun known here _ => here⟩
  | opened | closed | ended => cases member
  | ticked => exact .inl ⟨(mem_filter.mp member).1, rfl, rfl, fun known here _ => here⟩
  | paired =>
    exact .inl ⟨member, rfl, rfl, fun known here _ => List.mem_append_left _ here⟩
  | revoked =>
    obtain ⟨before, other⟩ := mem_filter.mp member
    refine .inl ⟨before, rfl, rfl, fun known here same => mem_filter.mpr ⟨here, ?_⟩⟩
    rw [same]
    exact other
  | admitted standing known =>
    rcases mem_append.mp member with before | new
    · exact .inl ⟨before, rfl, rfl, fun known here _ => here⟩
    · cases mem_singleton.mp new
      exact .inr ⟨_, _, rfl, standing, standing, rfl, rfl, rfl, _, known, rfl, known⟩

theorem Turn.pending (codes : (door.pending.map (·.code)).Nodup)
    (member : waiting ∈ after.pending) :
    (waiting ∈ door.pending ∧ after.phase = door.phase ∧ after.epoch = door.epoch ∧
      (∀ id key now, op = .pair waiting.code id key now → door.phase = .closed)) ∨
    ∃ closing, op = .expectPairing waiting.code waiting.name waiting.authority waiting.expires ∧
      door.phase = .opened closing ∧ after.phase = .opened closing ∧ after.epoch = door.epoch ∧
      waiting.epoch = door.epoch := by
  cases turn with
  | reused | missing | unpaired | revoked | admitted =>
    exact .inl ⟨member, rfl, rfl, fun id key now presented => nomatch presented⟩
  | shut closed => exact .inl ⟨member, rfl, rfl, fun _ _ _ _ => closed⟩
  | opened | closed | ended => cases member
  | ticked =>
    exact .inl ⟨(mem_filter.mp member).1, rfl, rfl, fun id key now presented => nomatch presented⟩
  | expected standing =>
    rcases mem_append.mp member with before | new
    · exact .inl ⟨before, rfl, rfl, fun id key now presented => nomatch presented⟩
    · cases mem_singleton.mp new
      exact .inr ⟨_, rfl, standing, standing, rfl, rfl⟩
  | unknown absent =>
    refine .inl ⟨member, rfl, rfl, fun id key now presented => ?_⟩
    cases presented
    exact absurd rfl (absent waiting member)
  | spoiled taken | paired _ taken =>
    refine .inl ⟨taken.subset (List.mem_cons_of_mem _ member), rfl, rfl, fun id key now presented => ?_⟩
    have apart := (taken.map (·.code)).nodup_iff.mpr codes
    rw [map_cons, nodup_cons] at apart
    injection presented with same
    exact absurd (same ▸ List.mem_map_of_mem member) apart.1

theorem Turn.codes (codes : (door.pending.map (·.code)).Nodup)
    (fresh : ∀ code name authority expires, op = .expectPairing code name authority expires →
      code ∉ door.pending.map (·.code)) : (after.pending.map (·.code)).Nodup := by
  cases turn with
  | reused | shut | unknown | missing | unpaired | revoked | admitted => exact codes
  | opened | closed | ended => exact List.nodup_nil
  | ticked => exact codes.sublist (List.filter_sublist.map _)
  | expected =>
    have new := fresh _ _ _ _ rfl
    rw [List.map_append, List.map_singleton, ← List.concat_eq_append]
    exact codes.concat new
  | spoiled taken | paired _ taken =>
    have apart := (taken.map (·.code)).nodup_iff.mpr codes
    rw [map_cons, nodup_cons] at apart
    exact apart.2

theorem Turn.device {known : Device} (member : known ∈ after.devices) :
    (known ∈ door.devices ∧ (op = .revoke known.id → ¬door.Accepts op)) ∨
      ∃ code now, op = .pair code known.id known.key now ∧ door.Accepts op := by
  cases turn with
  | reused | opened | closed | ended | ticked | expected | unknown | spoiled | unpaired | admitted =>
    exact .inl ⟨member, fun revoked => nomatch revoked⟩
  | shut _ refused | missing refused => exact .inl ⟨member, fun _ => refused⟩
  | paired _ _ _ _ accepted =>
    rcases mem_append.mp member with before | new
    · exact .inl ⟨before, fun revoked => nomatch revoked⟩
    · cases mem_singleton.mp new
      exact .inr ⟨_, _, rfl, accepted⟩
  | revoked =>
    obtain ⟨before, other⟩ := mem_filter.mp member
    refine .inl ⟨before, fun revoked => ?_⟩
    cases revoked
    exact absurd rfl (of_decide_eq_true other)

omit turn

/-- The id an operation pairs a device under, if it is one that pairs. -/
def Operation.pairedId : Operation → Option DeviceId
  | .pair _ id _ _ => some id
  | _ => none

theorem Turn.ids (turn : Turn door op after) :
    (after.devices.map (·.id)).Sublist (door.devices.map (·.id) ++ op.pairedId.toList) := by
  cases turn with
  | reused | opened | closed | ended | ticked | expected | unknown | spoiled | shut | missing
  | unpaired | admitted => exact List.sublist_append_left _ _
  | revoked => exact (List.filter_sublist.map _).trans (List.sublist_append_left _ _)
  | paired =>
    rw [List.map_append, List.map_singleton]
    exact List.Sublist.refl _

variable {id : DeviceId}

theorem Turn.of_revoked (turn : Turn door op after) (revokes : op = .revoke id)
    (accepted : door.Accepts op) :
    (∃ known ∈ door.devices, known.id = id) ∧ ∀ known ∈ after.devices, known.id ≠ id := by
  cases turn with
  | reused | opened | closed | ended | ticked | expected | unknown | spoiled | unpaired | admitted
  | paired => cases revokes
  | shut _ refused | missing refused => exact absurd accepted refused
  | revoked _ held =>
    cases revokes
    exact ⟨held, fun known member => of_decide_eq_true (mem_filter.mp member).2⟩

theorem Turn.of_paired (turn : Turn door op after) {key : DeviceKey} {now : Nat}
    (pairs : op = .pair code id key now) (accepted : door.Accepts op) :
    ∃ waiting ∈ door.pending, waiting.code = code ∧ now < waiting.expires ∧
      after.devices = door.devices ++ [⟨id, waiting.name, waiting.authority, key⟩] := by
  cases turn with
  | reused | opened | closed | ended | ticked | expected | missing | revoked | unpaired | admitted =>
    cases pairs
  | shut _ refused | unknown _ refused | spoiled _ refused => exact absurd accepted refused
  | paired _ taken _ early =>
    cases pairs
    exact ⟨_, taken.subset mem_cons_self, rfl, early, rfl⟩

theorem accepts_pair (codes : (door.pending.map (·.code)).Nodup)
    (standing : door.phase = .opened closing) (member : waiting ∈ door.pending)
    (current : waiting.epoch = door.epoch) {now : Nat} (early : now < waiting.expires)
    (id : DeviceId) (key : DeviceKey) : door.Accepts (.pair waiting.code id key now) := by
  cases found : door.pending[door.placeOf waiting.code]? with
  | none => exact absurd rfl (place_of_absent found waiting member)
  | some first =>
    have same : first = waiting := List.inj_on_of_nodup_map codes (List.mem_of_getElem? found) member
      (code_of_place found)
    subst same
    have open_ := requireOpen_opened standing "pair a device"
    rw [Accepts, perform, pair, open_]
    simp only [found, if_pos (And.intro current early)]

end Turns

/-! ### Runs -/

/-- The code an operation registers, if it is one that registers. -/
def Operation.registered : Operation → Option PairingCode
  | .expectPairing code _ _ _ => some code
  | _ => none

/-- The id of the session an operation asks to open, if it is one that opens. -/
def Operation.sessionId : Operation → Option SessionId
  | .admitSession session _ _ => some session
  | _ => none

/-- The door of a city that was started with these devices, after a history of operations. -/
def run (devices : List Device) (epoch : Epoch) (history : List Operation) : Door :=
  history.foldl step (start devices epoch)

/-- The door stands open in an epoch until a time. -/
def Standing (epoch : Epoch) (closing : Nat) (door : Door) : Prop :=
  door.phase = .opened closing ∧ door.epoch = epoch

section Runs

variable {devices : List Device} {epoch : Epoch} {history : List Operation}

theorem run_concat (history : List Operation) (op : Operation) :
    run devices epoch (history ++ [op]) = (run devices epoch history).step op := by
  rw [run, List.foldl_append, List.foldl_cons, List.foldl_nil, run]

theorem turn_run (history : List Operation) (op : Operation) :
    Turn (run devices epoch history) op (run devices epoch (history ++ [op])) := by
  rw [run_concat]
  exact turn _ op

variable (devices epoch) in
/-- Since a session was opened for a paired device, the door has stood open in one epoch. -/
def OpenSince (session : SessionId) (known : Device) (expires : Nat) (opening : Epoch) (closing : Nat) :
    List Operation → Prop :=
  Since
    (fun before op => op = .admitSession session known.id expires ∧
      Standing opening closing (run devices epoch before) ∧ known ∈ (run devices epoch before).devices)
    (fun before op => Standing opening closing (run devices epoch (before ++ [op])))

variable (devices epoch) in
/-- Since a code was registered, the door has stood open in one epoch, and the code has not been
presented. -/
def WaitedSince (code : PairingCode) (name : DeviceName) (authority : Authority) (expires : Nat)
    (opening : Epoch) (closing : Nat) : List Operation → Prop :=
  Since
    (fun before op => op = .expectPairing code name authority expires ∧
      Standing opening closing (run devices epoch before))
    (fun before op => Standing opening closing (run devices epoch (before ++ [op])) ∧
      ∀ id key now, op ≠ .pair code id key now)

theorem session_held (history : List Operation) :
    ∀ held ∈ (run devices epoch history).sessions, ∃ known expires closing,
      Standing held.epoch closing (run devices epoch history) ∧ held.expires = min expires closing ∧
      known.id = held.device ∧ known ∈ (run devices epoch history).devices ∧
      OpenSince devices epoch held.id known expires held.epoch closing history := by
  induction history using List.reverseRecOn with
  | nil =>
    intro held member
    cases member
  | append_singleton history op ih =>
    intro held member
    have made := @turn_run devices epoch history op
    rcases made.session member with ⟨before, phase, same, kept⟩ |
      ⟨expires, closing, rfl, standing, still, same, current, ends, known, paired, named, remains⟩
    · obtain ⟨known, expires, closing, ⟨standing, current⟩, ends, named, paired, opened⟩ := ih held before
      have now : Standing held.epoch closing (run devices epoch (history ++ [op])) :=
        ⟨phase.trans standing, same.trans current⟩
      exact ⟨known, expires, closing, now, ends, named, kept known paired named,
        concat_iff.mpr (.inr ⟨opened, now⟩)⟩
    · have now : Standing held.epoch closing (run devices epoch history) := ⟨standing, current.symm⟩
      refine ⟨known, expires, closing, ⟨still, same.trans current.symm⟩, ends, named, remains,
        concat_iff.mpr (.inl ⟨?_, now, paired⟩)⟩
      rw [named]

theorem codes_waiting (registered : (history.filterMap Operation.registered).Nodup) :
    ((run devices epoch history).pending.map (·.code)).Nodup ∧
    ∀ waiting ∈ (run devices epoch history).pending, ∃ closing,
      Standing waiting.epoch closing (run devices epoch history) ∧
      WaitedSince devices epoch waiting.code waiting.name waiting.authority waiting.expires
        waiting.epoch closing history := by
  induction history using List.reverseRecOn with
  | nil => exact ⟨List.nodup_nil, fun waiting member => nomatch member⟩
  | append_singleton history op ih =>
    rw [filterMap_append, nodup_append] at registered
    obtain ⟨codes, waited⟩ := ih registered.1
    have made := @turn_run devices epoch history op
    refine ⟨made.codes codes ?_, ?_⟩
    · rintro code name authority expires rfl again
      obtain ⟨waiting, member, rfl⟩ := List.mem_map.mp again
      obtain ⟨closing, -, before, found, after, rfl, ⟨rfl, -⟩, -⟩ := waited waiting member
      have first : waiting.code ∈ (before ++ .expectPairing waiting.code waiting.name
          waiting.authority waiting.expires :: after).filterMap Operation.registered :=
        List.mem_filterMap.mpr ⟨_, List.mem_append_right _ mem_cons_self, rfl⟩
      exact registered.2.2 _ first _ (List.mem_singleton_self _) rfl
    · intro waiting member
      rcases made.pending codes member with ⟨before, phase, same, unpresented⟩ |
        ⟨closing, rfl, standing, still, same, current⟩
      · obtain ⟨closing, ⟨standing, current⟩, since⟩ := waited waiting before
        have now : Standing waiting.epoch closing (run devices epoch (history ++ [op])) :=
          ⟨phase.trans standing, same.trans current⟩
        refine ⟨closing, now, concat_iff.mpr (.inr ⟨since, now, ?_⟩)⟩
        intro id key time presented
        have shut := unpresented id key time presented
        rw [standing] at shut
        cases shut
      · exact ⟨closing, ⟨still, same.trans current.symm⟩,
          concat_iff.mpr (.inl ⟨rfl, standing, current.symm⟩)⟩

theorem ids_kept (history : List Operation) :
    ((run devices epoch history).devices.map (·.id)).Sublist
      (devices.map (·.id) ++ history.filterMap Operation.pairedId) := by
  induction history using List.reverseRecOn with
  | nil => exact List.sublist_append_left _ _
  | append_singleton history op ih =>
    have one : [op].filterMap Operation.pairedId = op.pairedId.toList := by
      cases found : op.pairedId <;> simp [found]
    rw [filterMap_append, ← append_assoc, one]
    exact (turn_run history op).ids.trans (ih.append_right _)

variable {id : DeviceId}

theorem revoked_for_good (ids : (devices.map (·.id) ++ history.filterMap Operation.pairedId).Nodup)
    {before after : List Operation} (place : history = before ++ .revoke id :: after)
    (accepted : (run devices epoch before).Accepts (.revoke id)) :
    ∀ known ∈ (run devices epoch history).devices, known.id ≠ id := by
  induction history using List.reverseRecOn generalizing after with
  | nil => simp at place
  | append_singleton history op ih =>
    have made := @turn_run devices epoch history op
    rcases Trace.place_concat place with ⟨rfl, rfl, rfl⟩ | ⟨shorter, rfl, rfl⟩
    · exact (made.of_revoked rfl accepted).2
    · rw [filterMap_append, ← append_assoc, nodup_append] at ids
      intro known member same
      rcases made.device member with ⟨kept, -⟩ | ⟨code, now, rfl, -⟩
      · exact ih ids.1 rfl known kept same
      · obtain ⟨⟨old, paired, named⟩, -⟩ :=
          (@turn_run devices epoch before (.revoke id)).of_revoked rfl accepted
        have listed := (ids_kept before).subset (List.mem_map_of_mem paired)
        rw [named] at listed
        have earlier : id ∈ devices.map (·.id) ++
            (before ++ .revoke id :: shorter).filterMap Operation.pairedId := by
          rw [filterMap_append]
          rcases mem_append.mp listed with start | later
          · exact List.mem_append_left _ start
          · exact List.mem_append_right _ (List.mem_append_left _ later)
        exact ids.2.2 id earlier known.id (List.mem_singleton_self _) same.symm

theorem device_paired (history : List Operation) :
    ∀ known ∈ (run devices epoch history).devices, known ∈ devices ∨
      ∃ before code now after, history = before ++ .pair code known.id known.key now :: after ∧
        (run devices epoch before).Accepts (.pair code known.id known.key now) := by
  induction history using List.reverseRecOn with
  | nil => exact fun known member => .inl member
  | append_singleton history op ih =>
    intro known member
    rcases (turn_run history op).device member with ⟨kept, -⟩ | ⟨code, now, rfl, accepted⟩
    · refine (ih known kept).imp_right ?_
      rintro ⟨before, code, now, after, rfl, accepted⟩
      exact ⟨before, code, now, after ++ [op], by rw [append_assoc, List.cons_append], accepted⟩
    · exact .inr ⟨history, code, now, [], rfl, accepted⟩

variable {now : Nat} {code : PairingCode}

theorem accepted_pair (registered : (history.filterMap Operation.registered).Nodup) {key : DeviceKey}
    (accepted : (run devices epoch history).Accepts (.pair code id key now)) :
    ∃ name authority expires opening closing,
      WaitedSince devices epoch code name authority expires opening closing history ∧
      Standing opening closing (run devices epoch history) ∧ now < expires ∧
      (run devices epoch (history ++ [.pair code id key now])).devices =
        (run devices epoch history).devices ++ [⟨id, name, authority, key⟩] := by
  obtain ⟨waiting, member, rfl, early, grown⟩ := (turn_run history _).of_paired rfl accepted
  obtain ⟨closing, standing, since⟩ := (codes_waiting registered).2 waiting member
  exact ⟨_, _, _, _, closing, since, standing, early, grown⟩

theorem pairs_once (registered : (history.filterMap Operation.registered).Nodup) {id' : DeviceId} {key key' : DeviceKey} {now' : Nat}
    {first rest second later : List Operation}
    (here : history = first ++ .pair code id key now :: rest)
    (accepted : (run devices epoch first).Accepts (.pair code id key now))
    (there : history = second ++ .pair code id' key' now' :: later)
    (again : (run devices epoch second).Accepts (.pair code id' key' now')) :
    ¬first.length < second.length := by
  have waited {before after : List Operation} {id : DeviceId} {key : DeviceKey} {now : Nat}
      (split : history = before ++ after)
      (accepted : (run devices epoch before).Accepts (.pair code id key now)) :
      Since (fun _ op => op.registered = some code)
        (fun _ op => ¬∃ id key now, op = .pair code id key now) before := by
    rw [split, filterMap_append] at registered
    obtain ⟨_, _, _, _, _, since, -⟩ := accepted_pair (nodup_append.mp registered).1 accepted
    refine since.imp ?_ ?_
    · rintro before op - ⟨rfl, -⟩
      rfl
    · rintro before op - ⟨-, calm⟩ ⟨id, key, now, presented⟩
      exact calm id key now presented
  exact spent_once registered here there ⟨id, key, now, rfl⟩ (waited here accepted)
    (waited there again)

variable (devices epoch) in
/-- No code is presented at or after the time the door closes, that it still waits for and that has
not expired. -/
def PresentedInTime : List Operation → Prop :=
  Trace.Always fun before op => ∀ code id key now closing, op = .pair code id key now →
    (run devices epoch before).closesAt = some closing → closing ≤ now →
    ∀ waiting ∈ (run devices epoch before).pending, waiting.code = code → waiting.expires ≤ now

theorem eq_of_mark {α β : Type} {mark : α → Option β} {items : List α}
    (distinct : (items.filterMap mark).Nodup) {one other : α} (first : one ∈ items)
    (second : other ∈ items) {value : β} (here : mark one = some value)
    (there : mark other = some value) : one = other := by
  induction items with
  | nil => cases first
  | cons item rest ih =>
    have later {found : α} (member : found ∈ rest) (marked : mark found = some value) :
        value ∈ rest.filterMap mark := List.mem_filterMap.mpr ⟨found, member, marked⟩
    rcases mem_cons.mp first with rfl | behind
    · rcases mem_cons.mp second with rfl | after
      · rfl
      · rw [List.filterMap_cons_some here, nodup_cons] at distinct
        exact absurd (later after there) distinct.1
    · rcases mem_cons.mp second with rfl | after
      · rw [List.filterMap_cons_some there, nodup_cons] at distinct
        exact absurd (later behind here) distinct.1
      · exact ih (distinct.sublist ((List.sublist_cons_self item rest).filterMap mark)) behind after

variable (devices epoch) in
/-- What keeps a door: whom a session speaks for, how a device is paired, and what a revocation ends. -/
structure Guarded (history : List Operation) : Prop where
  carries : ∀ session now authority,
    (run devices epoch history).authority session now = some authority →
      ∃ known expires opening closing, OpenSince devices epoch session known expires opening closing history ∧
        (run devices epoch history).closesAt = some closing ∧ now < expires ∧ now < closing ∧
        known ∈ (run devices epoch history).devices ∧ known.authority = authority
  pairs : Trace.Always (fun before op => ∀ code id key now, op = .pair code id key now →
    (run devices epoch before).Accepts op → ∃ name authority expires opening closing,
      WaitedSince devices epoch code name authority expires opening closing before ∧
      (run devices epoch before).closesAt = some closing ∧ now < expires ∧ now < closing ∧
      (run devices epoch (before ++ [op])).devices =
        (run devices epoch before).devices ++ [⟨id, name, authority, key⟩]) history
  paired : ∀ known ∈ (run devices epoch history).devices, known ∈ devices ∨
    ∃ before code now after, history = before ++ .pair code known.id known.key now :: after ∧
      (run devices epoch before).Accepts (.pair code known.id known.key now)
  once : ∀ code id id' key key' now now' first rest second later,
    history = first ++ .pair code id key now :: rest →
    (run devices epoch first).Accepts (.pair code id key now) →
    history = second ++ .pair code id' key' now' :: later →
    (run devices epoch second).Accepts (.pair code id' key' now') → first = second
  ended : ∀ id before after, history = before ++ .revoke id :: after →
    (run devices epoch before).Accepts (.revoke id) → ∀ session expires,
    .admitSession session id expires ∈ history → ∀ now,
      (run devices epoch history).authority session now = none

theorem carries_authority (ids : (devices.map (·.id) ++ history.filterMap Operation.pairedId).Nodup)
    {session : SessionId} {authority : Authority}
    (carries : (run devices epoch history).authority session now = some authority) :
    ∃ known expires opening closing, OpenSince devices epoch session known expires opening closing history ∧
      (run devices epoch history).closesAt = some closing ∧ now < expires ∧ now < closing ∧
      known ∈ (run devices epoch history).devices ∧ known.authority = authority := by
  have distinct := ids.sublist (@ids_kept _ epoch history)
  cases phase : (run devices epoch history).phase with
  | closed =>
    rw [Door.authority, phase] at carries
    cases carries
  | opened closesAt =>
    rw [Door.authority, phase] at carries
    obtain ⟨held, found, carries⟩ := Option.bind_eq_some_iff.mp carries
    obtain ⟨device, named, same⟩ := Option.bind_eq_some_iff.mp carries
    have judged := List.find?_some found
    obtain ⟨rfl, -, early⟩ := of_decide_eq_true judged
    obtain ⟨known, expires, closing, standing, ends, bears, paired, since⟩ :=
      session_held history held (List.mem_of_find?_eq_some found)
    have marked := List.find?_some named
    have one : device = known := List.inj_on_of_nodup_map distinct (List.mem_of_find?_eq_some named)
      paired ((of_decide_eq_true marked).trans bears.symm)
    rw [ends, Nat.lt_min] at early
    rw [one] at same
    exact ⟨known, expires, held.epoch, closing, since, closesAt_opened standing.1, early.1, early.2,
      paired, Option.some.inj same⟩

/-- A door started with devices of distinct ids, where each device paired has an id of its own, each
session an id of its own and each code is registered once, is guarded over a run exactly when no code
is presented too late. -/
theorem guarded_iff (ids : (devices.map (·.id) ++ history.filterMap Operation.pairedId).Nodup)
    (sessions : (history.filterMap Operation.sessionId).Nodup)
    (registered : (history.filterMap Operation.registered).Nodup) :
    Guarded devices epoch history ↔ PresentedInTime devices epoch history := by
  have earlier {before after : List Operation} (split : history = before ++ after) :
      (before.filterMap Operation.registered).Nodup := by
    rw [split, filterMap_append] at registered
    exact (nodup_append.mp registered).1
  constructor
  · rintro guarded before op after split code id key now closing rfl closes late waiting member rfl
    by_contra early
    obtain ⟨codes, waited⟩ := @codes_waiting devices epoch _ (earlier split)
    obtain ⟨closes_, ⟨standing, current⟩, -⟩ := waited waiting member
    have accepted := accepts_pair codes standing member current.symm (Nat.lt_of_not_le early) id key
    obtain ⟨_, _, _, _, closing', -, same, -, before_, -⟩ :=
      guarded.pairs before _ after split waiting.code id key now rfl accepted
    cases closes.symm.trans same
    omega
  · intro inTime
    refine ⟨fun session now authority => carries_authority ids, ?_, device_paired history, ?_, ?_⟩
    · rintro before op after split code id key now rfl accepted
      obtain ⟨name, authority, expires, opening, closing, since, standing, early, grown⟩ :=
        accepted_pair (earlier split) accepted
      have closes := closesAt_opened standing.1
      refine ⟨name, authority, expires, opening, closing, since, closes, early, ?_, grown⟩
      by_contra late
      obtain ⟨waiting, member, same, live, -⟩ :=
        (@turn_run devices epoch before _).of_paired rfl accepted
      have spent := inTime before _ after split code id key now closing rfl closes
        (Nat.le_of_not_lt late) waiting member same
      omega
    · intro code id id' key key' now now' first rest second later here accepted there again
      have forward := pairs_once registered here accepted there again
      have backward := pairs_once registered there again here accepted
      exact (List.append_inj (here.symm.trans there) (by omega)).1
    · intro id before after split accepted session expires asked now
      by_contra carried
      obtain ⟨authority, carried⟩ := Option.ne_none_iff_exists'.mp carried
      obtain ⟨known, ends, _, _, ⟨first, _, rest, place, ⟨rfl, -⟩, -⟩, -, -, -, paired, -⟩ :=
        carries_authority ids carried
      have found : .admitSession session known.id ends ∈ history := by
        rw [place]
        exact List.mem_append_right _ mem_cons_self
      have one := eq_of_mark sessions asked found rfl rfl
      injection one with _ same
      exact revoked_for_good ids split accepted known paired same.symm

end Runs

/-- A code that outlives the opening it was registered in, presented after the door's closing time
and before the next tick. -/
def lateHistory : List Operation :=
  let code : PairingCode := ⟨⟨List.replicate 32 7, rfl⟩⟩
  let phone : DeviceName := ⟨Text.trim ['p', 'h', 'o', 'n', 'e'], Text.trimmed_trim _, by decide, by decide⟩
  [.opens ⟨Vector.replicate 16 1⟩ 10, .expectPairing code phone .act 20,
    .pair code ⟨Vector.replicate 16 2⟩ ⟨[3]⟩ 15]

theorem guarded_iff_late :
    Guarded [] ⟨Vector.replicate 16 0⟩ lateHistory ↔
      PresentedInTime [] ⟨Vector.replicate 16 0⟩ lateHistory :=
  guarded_iff (by decide) (by decide) (by decide)

theorem not_guarded : ¬∀ devices epoch history,
    (devices.map (·.id) ++ history.filterMap Operation.pairedId).Nodup →
    (history.filterMap Operation.sessionId).Nodup → (history.filterMap Operation.registered).Nodup →
    Guarded devices epoch history := by
  intro always
  have guarded := always [] ⟨Vector.replicate 16 0⟩ lateHistory (by decide) (by decide) (by decide)
  obtain ⟨_, _, _, _, closing, -, closes, -, early, -⟩ := guarded.pairs
    [lateHistory[0], lateHistory[1]] lateHistory[2] [] rfl _ _ _ _ rfl rfl
  have ten : closing = 10 := Option.some.inj (closes.symm.trans rfl)
  omega

end Door

end RemoteAccess

end Sprawling
