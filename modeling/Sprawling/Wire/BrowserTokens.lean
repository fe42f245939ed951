import Sprawling.Wire.BrowserDoorRuns

/-! Which session tokens of the door for a browser admit, over every run, and what the door as a whole
keeps. -/

namespace Sprawling

open Digest Since Text Word

namespace Reception

namespace BrowserDoor

variable {hash : List UInt8 → B3Hash} {browsers : List PairedBrowser} {entropy : Vector UInt8 32}

variable (hash) in
/-- The move seats a socket on a token. -/
def Seats (door : BrowserDoor) (token : B3Hash) : Move → Prop
  | .seat presented now => (door.sessions.seat hash presented now).1 = some token
  | _ => False

instance (door : BrowserDoor) (token : B3Hash) : DecidablePred (Seats hash door token)
  | .seat presented now =>
    inferInstanceAs (Decidable ((door.sessions.seat hash presented now).1 = some token))
  | .guess .. | .issueOpenCode .. | .redeemOpenCode .. | .pair _ | .challenge .. | .takeNonce ..
  | .openSession .. | .unseat .. | .ends _ | .forget _ => isFalse not_false

/-- The move is a socket leaving its seat on a token. -/
def Leaves (token : B3Hash) : Move → Prop
  | .unseat left _ => left = token
  | _ => False

instance (token : B3Hash) : DecidablePred (Leaves token)
  | .unseat left _ => inferInstanceAs (Decidable (left = token))
  | .guess .. | .issueOpenCode .. | .redeemOpenCode .. | .pair _ | .challenge .. | .takeNonce ..
  | .openSession .. | .seat .. | .ends _ | .forget _ => isFalse not_false

variable (hash) in
/-- How many sockets some moves seat on a token. -/
def seatedBy (token : B3Hash) : BrowserDoor → List Move → Nat
  | _, [] => 0
  | door, move :: rest =>
    (if Seats hash door token move then 1 else 0) + seatedBy token (door.step hash move) rest

def leftBy (token : B3Hash) (moves : List Move) : Nat := moves.countP fun move => Leaves token move

variable (hash browsers entropy) in
/-- So many sockets seated on a token have not left: from some moment on, that many more have been
seated than have left. -/
def Sockets (token : B3Hash) (sockets : Nat) (history : List Move) : Prop :=
  ∃ before after, history = before ++ after ∧
    leftBy token after + sockets ≤ seatedBy hash token (run hash browsers entropy before) after

variable (hash browsers entropy) in
/-- Some socket seated on a token has not left. -/
def Occupied (token : B3Hash) (history : List Move) : Prop :=
  Sockets hash browsers entropy token 1 history

variable (hash browsers entropy) in
/-- A paired device had a token minted, and the token is idle from then. -/
def Mints (token : B3Hash) (device : DeviceId) (now : Nat) (before : List Move) (move : Move) : Prop :=
  ∃ made, move = .openSession device made now ∧
    token = Sessions.digest hash (writeHex made.toList) ∧
    device ∈ (run hash browsers entropy before).browsers

variable (hash browsers entropy) in
/-- Nobody has held a token since a moment: it was minted then, or a socket that held it left. -/
def IdleSince (token : B3Hash) (since : Nat) : List Move → Prop :=
  Since
    (fun before move => (∃ device, Mints hash browsers entropy token device since before move) ∨
      move = .unseat token since ∧ Occupied hash browsers entropy token before)
    (fun before move => ¬Seats hash (run hash browsers entropy before) token move)

section Tokens

variable {token : B3Hash} {session : Session} {history : List Move} {door : BrowserDoor}

variable {move : Move}

theorem token_step (held : (door.step hash move).sessions.live[token]? = some session) :
    (∃ made now, move = .openSession session.device made now ∧
      token = Sessions.digest hash (writeHex made.toList) ∧ session.device ∈ door.browsers ∧
      session.hold = .idle now) ∨
    ∃ before, door.sessions.live[token]? = some before ∧ session.device = before.device ∧
      move ≠ .forget session.device ∧ move ≠ .ends token ∧
      (session.hold = before.hold ∧ ¬Seats hash door token move ∧
          (Leaves token move → before.idle = true) ∨
        (∃ presented now, move = .seat presented now ∧
          (door.sessions.seat hash presented now).1 = some token ∧ before.live now = true ∧
          session.hold = before.hold.sit) ∨
        ∃ now, move = .unseat token now ∧ before.idle = false ∧ session.hold = before.hold.leave now) := by
  cases move with
  | openSession device made now =>
    rw [step, openSession] at held
    cases paired : door.browsers[device]? with
    | none =>
      rw [paired] at held
      exact .inr ⟨session, held, rfl, by simp, by simp, .inl ⟨rfl, id, False.elim⟩⟩
    | some browser =>
      rw [paired] at held
      rcases Sessions.get_mint held with ⟨same, rfl, idle⟩ | ⟨-, kept⟩
      · exact .inl ⟨made, now, rfl, same, (OrdMap.mem_iff_get _ _).mpr ⟨browser, paired⟩, idle⟩
      · exact .inr ⟨session, kept, rfl, by simp, by simp, .inl ⟨rfl, id, False.elim⟩⟩
  | seat presented now =>
    rcases Sessions.get_seat held with ⟨other, kept⟩ | ⟨seated, before, found, lives, same, hold⟩
    · exact .inr ⟨session, kept, rfl, by simp, by simp, .inl ⟨rfl, other, False.elim⟩⟩
    · exact .inr ⟨before, found, same, by simp, by simp,
        .inr (.inl ⟨presented, now, rfl, seated, lives, hold⟩)⟩
  | unseat left now =>
    rcases Sessions.get_unseat held with ⟨idle, kept⟩ | ⟨rfl, before, found, busy, same, hold⟩
    · exact .inr ⟨session, kept, rfl, by simp, by simp, .inl ⟨rfl, id, idle⟩⟩
    · exact .inr ⟨before, found, same, by simp, by simp, .inr (.inr ⟨now, rfl, busy, hold⟩)⟩
  | ends ended =>
    obtain ⟨other, kept⟩ := Sessions.get_ends held
    refine .inr ⟨session, kept, rfl, by simp, ?_, .inl ⟨rfl, id, False.elim⟩⟩
    rintro same
    cases same
    exact other rfl
  | forget device =>
    obtain ⟨other, kept⟩ := Sessions.get_endDevice held
    refine .inr ⟨session, kept, rfl, ?_, by simp, .inl ⟨rfl, id, False.elim⟩⟩
    rintro same
    cases same
    exact other rfl
  | guess word now made =>
    have same : (door.step hash (.guess word now made)).sessions = door.sessions := by
      rcases door.guess_cases hash word now made with ⟨-, soon⟩ | ⟨-, -, judged⟩
      · rw [step, soon]
      · rw [step, judged]
    rw [same] at held
    exact .inr ⟨session, held, rfl, by simp, by simp, .inl ⟨rfl, id, False.elim⟩⟩
  | _ => exact .inr ⟨session, held, rfl, by simp, by simp, .inl ⟨rfl, id, False.elim⟩⟩

theorem seatedBy_concat (door : BrowserDoor) (moves : List Move) (move : Move) :
    seatedBy hash token door (moves ++ [move]) = seatedBy hash token door moves +
      if Seats hash (moves.foldl (step hash) door) token move then 1 else 0 := by
  induction moves generalizing door with
  | nil => rw [List.nil_append, seatedBy, seatedBy, seatedBy, List.foldl_nil, Nat.add_comm]
  | cons first moves ih =>
    rw [List.cons_append, seatedBy, ih, seatedBy, List.foldl_cons, Nat.add_assoc]

theorem leftBy_concat (moves : List Move) (move : Move) :
    leftBy token (moves ++ [move]) = leftBy token moves + if Leaves token move then 1 else 0 := by
  simp only [leftBy, List.countP_append, List.countP_singleton, decide_eq_true_eq]

theorem sockets_none (history : List Move) : Sockets hash browsers entropy token 0 history :=
  ⟨history, [], (List.append_nil history).symm, le_rfl⟩

theorem Sockets.concat {sockets more : Nat} {move : Move}
    (some_sockets : Sockets hash browsers entropy token sockets history)
    (few : (if Leaves token move then 1 else 0) + more ≤
      sockets + if Seats hash (run hash browsers entropy history) token move then 1 else 0) :
    Sockets hash browsers entropy token more (history ++ [move]) := by
  obtain ⟨before, after, rfl, counted⟩ := some_sockets
  have reached : after.foldl (step hash) (run hash browsers entropy before) =
      run hash browsers entropy (before ++ after) := by
    rw [run, run, List.foldl_append]
  refine ⟨before, after ++ [move], List.append_assoc .., ?_⟩
  rw [seatedBy_concat, leftBy_concat, reached]
  omega

theorem Sockets.fewer {sockets fewer : Nat} (some_sockets : Sockets hash browsers entropy token sockets history)
    (few : fewer ≤ sockets) : Sockets hash browsers entropy token fewer history := by
  obtain ⟨before, after, split, counted⟩ := some_sockets
  exact ⟨before, after, split, by omega⟩

/-- Who holds a token, as the history has it. -/
structure HeldAs (hash : List UInt8 → B3Hash) (browsers : List PairedBrowser)
    (entropy : Vector UInt8 32) (token : B3Hash) (hold : Hold) (history : List Move) : Prop where
  seated : ∀ sockets some_sockets, hold = .seated sockets some_sockets →
    Sockets hash browsers entropy token sockets history
  idle : ∀ since, hold = .idle since → IdleSince hash browsers entropy token since history

section Holds

variable {hold : Hold} {move : Move}

theorem heldAs_minted {device : DeviceId} {now : Nat}
    (mints : Mints hash browsers entropy token device now history move) :
    HeldAs hash browsers entropy token (.idle now) (history ++ [move]) where
  seated _ _ impossible := nomatch impossible
  idle since hold := by
    cases hold
    exact concat_iff.mpr (.inl (.inl ⟨device, mints⟩))

theorem HeldAs.kept (past : HeldAs hash browsers entropy token hold history)
    (unseated : ¬Seats hash (run hash browsers entropy history) token move)
    (stays : Leaves token move → ∃ since, hold = .idle since) :
    HeldAs hash browsers entropy token hold (history ++ [move]) where
  seated sockets some_sockets same := by
    have unleft : ¬Leaves token move := by
      intro leaves
      obtain ⟨since, idle⟩ := stays leaves
      cases idle.symm.trans same
    refine (past.seated sockets some_sockets same).concat ?_
    rw [if_neg unleft, if_neg unseated]
    omega
  idle since same := concat_iff.mpr (.inr ⟨past.idle since same, unseated⟩)

theorem HeldAs.sat (past : HeldAs hash browsers entropy token hold history) {presented : List Char}
    {now : Nat}
    (seats : Seats hash (run hash browsers entropy history) token (.seat presented now)) :
    HeldAs hash browsers entropy token hold.sit (history ++ [.seat presented now]) := by
  have stays : ¬Leaves token (.seat presented now) := not_false
  cases hold with
  | seated sockets some_sockets =>
    refine ⟨?_, fun since impossible => nomatch impossible⟩
    intro more some_more count
    injection count with count
    refine (past.seated sockets some_sockets rfl).concat ?_
    rw [if_neg stays, if_pos seats, ← count]
    have bounded := Nat.min_le_left (sockets + 1) (u64Values - 1)
    unfold Word.saturatingAdd
    omega
  | idle since =>
    refine ⟨?_, fun since impossible => nomatch impossible⟩
    intro more some_more count
    injection count with count
    refine (sockets_none history).concat ?_
    rw [if_neg stays, if_pos seats, ← count]

theorem HeldAs.left {sockets : Nat} {some_sockets : 0 < sockets}
    (past : HeldAs hash browsers entropy token (.seated sockets some_sockets) history) (now : Nat) :
    HeldAs hash browsers entropy token (Hold.leave now (.seated sockets some_sockets))
      (history ++ [.unseat token now]) := by
  have leaves : Leaves token (.unseat token now) := rfl
  have stood := past.seated sockets some_sockets rfl
  rw [Hold.leave]
  split
  · refine ⟨?_, fun since impossible => nomatch impossible⟩
    intro fewer some_fewer count
    injection count with count
    refine stood.concat ?_
    rw [if_pos leaves, ← count]
    omega
  · refine ⟨nofun, ?_⟩
    intro since same
    cases same
    exact concat_iff.mpr (.inl (.inr ⟨rfl, stood.fewer some_sockets⟩))

end Holds

/-- A token in the table was minted for its device, which has not been forgotten since, nor the token
ended, and it is held as the history has it. -/
theorem accounted (held : (run hash browsers entropy history).sessions.live[token]? = some session) :
    Since
      (fun before move => ∃ now, Mints hash browsers entropy token session.device now before move)
      (fun _ move => move ≠ .forget session.device ∧ move ≠ .ends token) history ∧
    HeldAs hash browsers entropy token session.hold history := by
  induction history using List.reverseRecOn generalizing session with
  | nil => simp [run, new, Sessions.empty] at held
  | append_singleton history move ih =>
    rw [run_concat] at held
    rcases token_step held with ⟨made, now, rfl, same, paired, idle⟩ |
      ⟨before, found, device, kept, unended, changed⟩
    · have mints : Mints hash browsers entropy token session.device now history
          (.openSession session.device made now) := ⟨made, rfl, same, paired⟩
      exact ⟨concat_iff.mpr (.inl ⟨now, mints⟩), idle ▸ heldAs_minted mints⟩
    · obtain ⟨minted, past⟩ := ih found
      rw [← device] at minted
      refine ⟨concat_iff.mpr (.inr ⟨minted, kept, unended⟩), ?_⟩
      rcases changed with ⟨same, unseated, left⟩ | ⟨presented, now, rfl, seated, -, sat⟩ |
        ⟨now, rfl, busy, stood⟩
      · rw [same]
        refine past.kept unseated fun leaves => ?_
        have vacant := left leaves
        rw [Session.idle] at vacant
        cases held_by : before.hold with
        | seated => rw [held_by] at vacant; cases vacant
        | idle since => exact ⟨since, rfl⟩
      · rw [sat]
        exact past.sat seated
      · rw [stood]
        cases held_by : before.hold with
        | seated sockets some_sockets =>
          rw [held_by] at past
          exact past.left now
        | idle since =>
          rw [Session.idle, held_by] at busy
          cases busy

theorem live_of_later {session : Session} {now later : Nat} (lives : session.live later = true)
    (order : now ≤ later) : session.live now = true := by
  rw [Session.live] at lives ⊢
  cases hold : session.hold with
  | seated => rfl
  | idle since =>
    rw [hold] at lives
    exact decide_eq_true (Nat.lt_of_le_of_lt order (of_decide_eq_true lives))

variable {now : Nat}

variable (lapsed : ∀ session, door.sessions.live[token]? = some session → session.live now = false)

include lapsed

theorem lapsed_step (later : ∀ time ∈ move.time, now ≤ time)
    (unminted : ∀ device made time, move = .openSession device made time →
      token ≠ Sessions.digest hash (writeHex made.toList)) :
    ∀ session, (door.step hash move).sessions.live[token]? = some session → session.live now = false := by
  intro session held
  rcases token_step held with ⟨made, time, rfl, same, -, -⟩ | ⟨before, found, -, -, -, changed⟩
  · exact absurd same (unminted _ made time rfl)
  · have dead := lapsed before found
    rcases changed with ⟨same, -, -⟩ | ⟨presented, time, rfl, -, lives, -⟩ | ⟨time, rfl, busy, -⟩
    · rw [Session.live] at dead ⊢
      rw [same]
      exact dead
    · rw [live_of_later lives (later time rfl)] at dead
      cases dead
    · rw [Session.live] at dead
      rw [Session.idle] at busy
      cases held_by : before.hold with
      | seated => rw [held_by] at dead; cases dead
      | idle since => rw [held_by] at busy; cases busy

theorem lapsed_run {moves : List Move}
    (later : ∀ time ∈ moves.filterMap Move.time, now ≤ time)
    (unminted : ∀ device made time, .openSession device made time ∈ moves →
      token ≠ Sessions.digest hash (writeHex made.toList)) :
    ∀ session, (moves.foldl (step hash) door).sessions.live[token]? = some session →
      session.live now = false := by
  induction moves generalizing door with
  | nil => exact lapsed
  | cons move moves ih =>
    refine ih (lapsed_step lapsed ?_ ?_) ?_ ?_
    · intro time timed
      exact later time (List.mem_filterMap.mpr ⟨move, List.mem_cons_self, timed⟩)
    · rintro device made time rfl
      exact unminted device made time List.mem_cons_self
    · intro time timed
      obtain ⟨other, member, same⟩ := List.mem_filterMap.mp timed
      exact later time (List.mem_filterMap.mpr ⟨other, List.mem_cons_of_mem _ member, same⟩)
    · exact fun device made time member => unminted device made time (List.mem_cons_of_mem _ member)

omit lapsed

variable {texts : Set (List Char)} {presented : List Char}

theorem admits_only (apart : Apart hash texts history)
    (known : presented ∈ texts)
    (admits : (run hash browsers entropy history).sessions.holds hash presented now = true) :
    ∃ device, Since
        (fun before move => ∃ made minted, move = .openSession device made minted ∧
          writeHex made.toList = presented ∧ device ∈ (run hash browsers entropy before).browsers)
        (fun _ move => move ≠ .forget device ∧ move ≠ .ends (Sessions.digest hash presented)) history ∧
      (Occupied hash browsers entropy (Sessions.digest hash presented) history ∨
        ∃ since, now < since + sessionIdleMs ∧
          IdleSince hash browsers entropy (Sessions.digest hash presented) since history) := by
  obtain ⟨session, held, lives⟩ := Sessions.holds_iff.mp admits
  obtain ⟨minted, past⟩ := accounted held
  refine ⟨session.device, minted.imp ?_ fun _ _ _ calm => calm, ?_⟩
  · rintro before move member ⟨time, made, rfl, same, paired⟩
    have spelt := apart.digests known (apart.reads _ member _ (List.mem_singleton_self _)) same
    exact ⟨made, time, rfl, spelt.symm, paired⟩
  · rw [Session.live] at lives
    cases hold : session.hold with
    | seated sockets some_sockets =>
      exact .inl ((past.seated sockets some_sockets hold).fewer some_sockets)
    | idle since =>
      rw [hold] at lives
      have bounded := Nat.min_le_left (since + sessionIdleMs) (u64Values - 1)
      exact .inr ⟨since, Nat.lt_of_lt_of_le (of_decide_eq_true lives) bounded, past.idle since hold⟩

theorem never_again (distinct : (history.filterMap Move.tokenEntropy).Nodup)
    (apart : Apart hash texts history) (known : presented ∈ texts)
    {first second third : List Move} (parts : history = first ++ second ++ third) {once now later : Nat}
    (admitted : (run hash browsers entropy first).sessions.holds hash presented once = true)
    (stopped : (run hash browsers entropy (first ++ second)).sessions.holds hash presented now = false)
    (timed : ∀ time ∈ third.filterMap Move.time, now ≤ time) (order : now ≤ later) :
    (run hash browsers entropy history).sessions.holds hash presented later = false := by
  have early : Apart hash texts first :=
    ⟨apart.digests, fun move member => apart.reads move (by rw [parts]; simp [member])⟩
  obtain ⟨device, ⟨before, _, after, rfl, ⟨made, minted, rfl, spelt, -⟩, -⟩, -⟩ :=
    admits_only early known admitted
  have lapsed : ∀ session,
      (run hash browsers entropy (before ++ .openSession device made minted :: after ++ second)).sessions.live[
        Sessions.digest hash presented]? = some session → session.live now = false := by
    intro session held
    by_contra alive
    have admits := Sessions.holds_iff.mpr ⟨session, held, Bool.not_eq_false _ ▸ alive⟩
    rw [stopped] at admits
    cases admits
  have unminted : ∀ device' made' time, .openSession device' made' time ∈ third →
      Sessions.digest hash presented ≠ Sessions.digest hash (writeHex made'.toList) := by
    intro device' made' time member same
    have spelt' := apart.digests known
      (apart.reads (.openSession device' made' time) (by rw [parts]; simp [member]) _
        (List.mem_singleton_self _)) same
    have one := writeHex_vector_injective (spelt.trans spelt')
    rw [parts, List.filterMap_append, List.nodup_append] at distinct
    refine distinct.2.2 made ?_ made' (List.mem_filterMap.mpr ⟨_, member, rfl⟩) one
    exact List.mem_filterMap.mpr ⟨.openSession device made minted, by simp, rfl⟩
  by_contra again
  obtain ⟨session, held, lives⟩ := Sessions.holds_iff.mp (Bool.not_eq_false _ ▸ again)
  rw [parts, run, List.foldl_append] at held
  have dead := lapsed_run lapsed timed unminted session held
  rw [live_of_later lives order] at dead
  cases dead

theorem sessions_size (history : List Move) :
    (run hash browsers entropy history).sessions.live.size ≤ sessionsMax := by
  induction history using List.reverseRecOn with
  | nil => exact Nat.zero_le _
  | append_singleton history move ih =>
    rw [run_concat]
    cases move with
    | guess word now made =>
      rcases (run hash browsers entropy history).guess_cases hash word now made with ⟨-, same⟩ | ⟨-, -, made⟩
      · rw [step, same]
        exact ih
      · rw [step, made]
        exact ih
    | openSession device made now =>
      rw [step, openSession]
      cases (run hash browsers entropy history).browsers[device]? with
      | none => exact ih
      | some browser => exact Sessions.size_mint_le ..
    | seat presented now => exact (Sessions.size_seat ..).trans_le ih
    | unseat left now => exact Std.ExtTreeMap.size_modify.trans_le ih
    | ends ended => exact Std.ExtTreeMap.size_erase_le.trans ih
    | forget device => exact Std.ExtTreeMap.size_filter_le_size.trans ih
    | _ => exact ih

end Tokens

/-! ### The door -/

/-- What the door keeps: a code is judged once and guesses are spaced, an open code or a nonce is
honoured once, a token admits only while it may, and no table outgrows its bound. -/
structure Guarded (hash : List UInt8 → B3Hash) (browsers : List PairedBrowser)
    (entropy : Vector UInt8 32) (texts : Set (List Char)) (history : List Move) : Prop where
  shows : ∀ before after, history = before ++ after → ∃ made, Shown hash browsers entropy made before
  judged : ∀ made first one rest second other later, history = first ++ one :: rest →
    Judged hash browsers entropy first one → history = second ++ other :: later →
    Judged hash browsers entropy second other → Shown hash browsers entropy made first →
    Shown hash browsers entropy made second → first = second
  spaced : ∀ first word now made rest second word' now' made' later,
    history = first ++ .guess word now made :: rest →
    Judged hash browsers entropy first (.guess word now made) →
    history = second ++ .guess word' now' made' :: later →
    Judged hash browsers entropy second (.guess word' now' made') → first.length < second.length →
    now + guessIntervalMs ≤ now' ∨ u64Values - 1 ≤ now'
  openCode : ∀ before code now after digest, history = before ++ .redeemOpenCode code now :: after →
    ((run hash browsers entropy before).redeemOpenCode hash code now).1 = some digest →
    Since
      (fun _ move => ∃ made issued, move = .issueOpenCode made issued ∧
        writeHex made.toList = trim code ∧ now < issued + openCodeLifetimeMs)
      (fun _ move => ∀ code' now', move = .redeemOpenCode code' now' → trim code' ≠ trim code)
      before
  openOnce : ∀ first code now rest second code' now' later digest digest',
    history = first ++ .redeemOpenCode code now :: rest →
    ((run hash browsers entropy first).redeemOpenCode hash code now).1 = some digest →
    history = second ++ .redeemOpenCode code' now' :: later →
    ((run hash browsers entropy second).redeemOpenCode hash code' now').1 = some digest' →
    trim code = trim code' → first = second
  nonce : ∀ before nonce now after, history = before ++ .takeNonce nonce now :: after →
    ((run hash browsers entropy before).takeNonce nonce now).1 = true →
    Since
      (fun _ move => ∃ made issued, move = .challenge made issued ∧
        writeHex made.toList = nonce ∧ now < issued + nonceLifetimeMs)
      (fun _ move => ∀ now', move ≠ .takeNonce nonce now') before
  nonceOnce : ∀ first nonce now rest second now' later,
    history = first ++ .takeNonce nonce now :: rest →
    ((run hash browsers entropy first).takeNonce nonce now).1 = true →
    history = second ++ .takeNonce nonce now' :: later →
    ((run hash browsers entropy second).takeNonce nonce now').1 = true → first = second
  tokens : ∀ presented ∈ texts, ∀ now,
    (run hash browsers entropy history).sessions.holds hash presented now = true →
    ∃ device, Since
        (fun before move => ∃ made minted, move = .openSession device made minted ∧
          writeHex made.toList = presented ∧ device ∈ (run hash browsers entropy before).browsers)
        (fun _ move => move ≠ .forget device ∧ move ≠ .ends (Sessions.digest hash presented)) history ∧
      (Occupied hash browsers entropy (Sessions.digest hash presented) history ∨
        ∃ since, now < since + sessionIdleMs ∧
          IdleSince hash browsers entropy (Sessions.digest hash presented) since history)
  ended : ∀ presented ∈ texts, ∀ first second third once now later,
    history = first ++ second ++ third →
    (run hash browsers entropy first).sessions.holds hash presented once = true →
    (run hash browsers entropy (first ++ second)).sessions.holds hash presented now = false →
    (∀ time ∈ third.filterMap Move.time, now ≤ time) → now ≤ later →
    (run hash browsers entropy history).sessions.holds hash presented later = false
  openCodes_size : (run hash browsers entropy history).openCodes.size ≤ openCodesMax
  nonces_size : (run hash browsers entropy history).nonces.size ≤ noncesMax
  sessions_size : (run hash browsers entropy history).sessions.live.size ≤ sessionsMax

theorem place_unique {α : Type} {history first rest second later : List α} {one other : α}
    (here : history = first ++ one :: rest) (there : history = second ++ other :: later)
    (forward : ¬first.length < second.length) (backward : ¬second.length < first.length) :
    first = second :=
  (List.append_inj (here.symm.trans there) (by omega)).1

/-- Where no entropy comes twice and the digests in play tell their texts apart, every run of the door
is guarded. -/
theorem guarded {texts : Set (List Char)} {history : List Move} (apart : Apart hash texts history)
    (guesses : (entropy :: history.filterMap Move.guessEntropy).Nodup)
    (opened : (history.filterMap Move.openEntropy).Nodup)
    (challenges : (history.filterMap Move.nonceEntropy).Nodup)
    (minted : (history.filterMap Move.tokenEntropy).Nodup) :
    Guarded hash browsers entropy texts history where
  shows before _ _ := shown before
  judged made first one rest second other later here judged there again old new :=
    place_unique here there (judged_once guesses here judged there old new)
      (judged_once guesses there again here new old)
  spaced first word now made rest second word' now' made' later here judged there again earlier := by
    obtain ⟨middle, joined, -⟩ := Trace.place_before here there earlier
    have due := judged_before joined judged
    rcases judged_or_kept second (.guess word' now' made') with
      ⟨never, -⟩ | ⟨_, _, _, same, -, reached, -⟩
    · exact absurd again never
    · cases same
      unfold Word.saturatingAdd at due
      omega
  openCode before code now after digest place honoured := openCode_since apart place honoured
  openOnce first code now rest second code' now' later digest digest' here honoured there again same :=
    place_unique here there (openCode_once apart opened here honoured there again same)
      (openCode_once apart opened there again here honoured same.symm)
  nonce before nonce now after _ honoured := nonce_since honoured
  nonceOnce first nonce now rest second now' later here honoured there again :=
    place_unique here there (nonce_once challenges here honoured there again)
      (nonce_once challenges there again here honoured)
  tokens presented known now admits := admits_only apart known admits
  ended presented known first second third once now later parts admitted stopped timed order :=
    never_again minted apart known parts admitted stopped timed order
  openCodes_size := by
    rw [openCodes_run]
    exact Tickets.size_run_le (by decide) _
  nonces_size := by
    rw [nonces_run]
    exact Tickets.size_run_le (by decide) _
  sessions_size := sessions_size history

/-- The text of a code, or of a token, whose entropy is all zeros. -/
def zeros (count : Nat) : List Char := List.replicate count '0'

/-- The digests of thirty-two zeros and of sixty-four, and of nothing else. -/
def zerosDigest (bytes : List UInt8) : B3Hash :=
  if bytes = List.replicate 32 48 then
    ⟨[0x9a, 0x91, 0x3b, 0xc3, 0x24, 0xb1, 0x7e, 0x97, 0x31, 0x3a, 0x3e, 0x6b, 0x1d,
      0x24, 0x05, 0x44, 0xbd, 0xab, 0xb7, 0x0e, 0xe2, 0xd0, 0xdd, 0x0f, 0x80, 0x25,
      0x8c, 0x95, 0x70, 0x43, 0x1e, 0xb1], rfl⟩
  else if bytes = List.replicate 64 48 then
    ⟨[0x8e, 0xb2, 0x55, 0xea, 0x24, 0x42, 0xbd, 0x52, 0x9c, 0x00, 0x41, 0x61, 0x86,
      0x9f, 0x00, 0x03, 0xbb, 0x57, 0x31, 0xd6, 0x5b, 0x7c, 0xed, 0xe9, 0x82, 0x8d,
      0xba, 0x5c, 0x92, 0xa0, 0x73, 0x43], rfl⟩
  else ⟨List.replicate 32 0, zeros_sized⟩

def laptop : PairedBrowser := ⟨⟨['l']⟩, [], ⟨Vector.replicate 32 7⟩, 0, none⟩

/-- A guess, then an open code redeemed with blanks around it, a nonce and a session token. -/
def redeeming : List Move :=
  [.guess [] 0 (Vector.replicate 32 2), .issueOpenCode (Vector.replicate 16 0) 0,
    .redeemOpenCode ([' '] ++ zeros 32 ++ [' ']) 5, .challenge (Vector.replicate 32 0) 6,
    .takeNonce (zeros 64) 7, .openSession laptop.id (Vector.replicate 32 0) 8, .seat (zeros 64) 9]

theorem apart_redeeming : Apart zerosDigest {zeros 32, zeros 64} redeeming where
  digests := by
    have apart : zerosDigest (Utf8.encode (zeros 32)) ≠ zerosDigest (Utf8.encode (zeros 64)) := by
      decide +kernel
    rintro first (rfl | rfl) second (rfl | rfl) same
    · rfl
    · exact absurd same apart
    · exact absurd same.symm apart
    · rfl
  reads := show ∀ move ∈ redeeming, ∀ text ∈ move.texts, text = zeros 32 ∨ text = zeros 64 by
    decide +kernel

theorem guarded_redeeming :
    let start := Vector.replicate 32 1
    Guarded zerosDigest [laptop] start {zeros 32, zeros 64} redeeming ∧
      Judged zerosDigest [laptop] start [] (.guess [] 0 (Vector.replicate 32 2)) ∧
      ((run zerosDigest [laptop] start (redeeming.take 4)).takeNonce (zeros 64) 7).1 = true ∧
      (run zerosDigest [laptop] start redeeming).sessions.holds zerosDigest (zeros 64) 9 = true :=
  ⟨guarded apart_redeeming (by decide) (by decide) (by decide) (by decide),
    ⟨_, _, _, rfl, by decide⟩, by decide +kernel, by decide +kernel⟩

/-- At the end of the clock guesses are judged without a pause. -/
theorem not_spaced : ¬∀ (hash : List UInt8 → B3Hash) browsers entropy history first word now made rest
    second word' now' made' later,
    (entropy :: history.filterMap Move.guessEntropy).Nodup →
    (history.filterMap Move.time).Pairwise (· ≤ ·) →
    history = first ++ .guess word now made :: rest →
    Judged hash browsers entropy first (.guess word now made) →
    history = second ++ .guess word' now' made' :: later →
    Judged hash browsers entropy second (.guess word' now' made') → first.length < second.length →
    now + guessIntervalMs ≤ now' := by
  intro always
  let last := u64Values - 1
  have spaced := always zerosDigest [] (Vector.replicate 32 0)
    [.guess [] last (Vector.replicate 32 1), .guess [] last (Vector.replicate 32 2)]
    [] [] last (Vector.replicate 32 1) [.guess [] last (Vector.replicate 32 2)]
    [.guess [] last (Vector.replicate 32 1)] [] last (Vector.replicate 32 2) []
    (by decide) (by decide) rfl ⟨_, _, _, rfl, by decide⟩ rfl ⟨_, _, _, rfl, by decide⟩ (by decide)
  have pause : 0 < guessIntervalMs := by decide
  omega

end BrowserDoor

end Reception

end Sprawling
