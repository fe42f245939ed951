import Mathlib.Algebra.BigOperators.Group.Finset.Basic
import Mathlib.Algebra.Order.BigOperators.Group.Finset
import Mathlib.Data.Finset.Card
import Mathlib.Data.Finset.Option
import Sprawling.Kernel.NodeId

namespace Sprawling

open List Text

namespace ServerLabel

def isLabelChar (c : Char) : Bool := c.isLower || c.isDigit

end ServerLabel

/-- The name of an account: ascii lowercase and digits, non-empty. -/
structure ServerLabel where
  text : List Char
  wellFormed : text ≠ [] ∧ text.all ServerLabel.isLabelChar = true
deriving DecidableEq

/-- Whether asking again may help. -/
inductive Retry where
  | no
  | yes
  | unknown
deriving DecidableEq

/-- What a failure says about the account it was met on. -/
inductive AccountDisposition where
  | keep
  | advance
deriving DecidableEq

/-- The two facts of an error that decide a round. -/
structure SendFailure where
  retry : Retry
  account : AccountDisposition
deriving DecidableEq

/-- The ceiling a person set on retrying one endpoint. -/
inductive Retries where
  | untilHalted
  | atMost (retries : UInt32)

/-- How many more times one account is asked the same request before the round moves on. -/
inductive AccountRetries where
  | one
  | two

def AccountRetries.count : AccountRetries → Nat
  | .one => 1
  | .two => 2

/-- The accounts a round can send on, in order of priority. -/
inductive Roster where
  | single
  | several (accounts : List ServerLabel) (retries : AccountRetries)

inductive RoundEnd where
  | refused
  | unknown
  | cap
  | exhausted

/-- What the driver does after one failed send. -/
inductive AccountStep where
  | resend
  | switch (target : ServerLabel)
  | stop (why : RoundEnd)

/-- One round: one logical request from its first send to an answer or a stop. -/
structure AccountRound where
  roster : Roster
  usable : Finset ServerLabel
  cap : Retries
  current : Option ServerLabel
  /-- The accounts this round has sent on. -/
  tried : Finset ServerLabel
  /-- Sends on the current account. -/
  here : Nat
  /-- Sends in this round. -/
  total : Nat

def saturatingSucc (count : Nat) : Nat := min (count + 1) (u32Bound - 1)

/-- Whether the ceiling lets one more send follow `sent` sends. -/
def admits (cap : Retries) (sent : Nat) : Bool :=
  match cap with
  | .untilHalted => true
  | .atMost retries => decide (sent ≤ retries.toNat)

namespace AccountRound

/-- The account a round over several opens on. -/
def opening (accounts : List ServerLabel) (usable : Finset ServerLabel)
    (held : Option ServerLabel) : Option ServerLabel :=
  (held.filter fun account => account ∈ accounts && account ∈ usable).or
    (accounts.find? fun account => account ∈ usable)

/-- A round that has made its first send. -/
def opened (roster : Roster) (usable : Finset ServerLabel) (cap : Retries)
    (current : Option ServerLabel) : AccountRound :=
  { roster, usable, cap, current, tried := current.toFinset, here := 1, total := 1 }

/-- Opens a round before its first send, and counts that send. -/
def start (roster : Roster) (usable : Finset ServerLabel) (cap : Retries)
    (held : Option ServerLabel) : Except RoundEnd AccountRound :=
  match roster with
  | .single => .ok (opened roster usable cap none)
  | .several accounts _ =>
    match opening accounts usable held with
    | none => .error .exhausted
    | some first => .ok (opened roster usable cap (some first))

/-- Sends again unless the ceiling is reached. -/
def resend (round : AccountRound) : AccountStep :=
  if admits round.cap round.total then .resend else .stop .cap

/-- The first listed account that is redeemable and not yet tried this round. -/
def untried (round : AccountRound) (accounts : List ServerLabel) : Option ServerLabel :=
  accounts.find? fun account => account ∈ round.usable && account ∉ round.tried

/-- Running out of accounts is said before the ceiling is. -/
def switch (round : AccountRound) : AccountStep :=
  match round.roster with
  | .single => .stop .exhausted
  | .several accounts _ =>
    match round.untried accounts with
    | none => .stop .exhausted
    | some target => if admits round.cap round.total then .switch target else .stop .cap

/-- What to do after a failure. -/
def next (round : AccountRound) (failure : SendFailure) : AccountStep :=
  match round.roster with
  | .single =>
    match failure.retry with
    | .no => .stop .refused
    | .yes | .unknown => round.resend
  | .several _ retries =>
    match failure.retry, failure.account with
    | .unknown, .keep | .unknown, .advance =>
      if round.here ≤ retries.count then round.resend else .stop .unknown
    | .yes, .advance | .no, .advance => round.switch
    | .yes, .keep => if round.here ≤ retries.count then round.resend else round.switch
    | .no, .keep => .stop .refused

/-- The round after the driver carried out a step. -/
def apply (round : AccountRound) : AccountStep → AccountRound
  | .resend =>
    { round with here := saturatingSucc round.here, total := saturatingSucc round.total }
  | .switch target =>
    { round with
      current := some target, tried := insert target round.tried, here := 1
      total := saturatingSucc round.total }
  | .stop _ => round

/-- Whether the repair stage may send the request again. -/
def admitsRepair (round : AccountRound) : Bool :=
  match round.roster with
  | .single => true
  | .several _ retries => decide (round.here ≤ retries.count) && admits round.cap round.total

/-- The round after the repair stage sent again; with one account that send is not counted. -/
def repaired (round : AccountRound) : AccountRound :=
  match round.roster with
  | .single => round
  | .several _ _ => round.apply .resend

end AccountRound

/-- What a driver meets in a round: a send failed, or the repair stage wants to send again. -/
inductive RoundEvent where
  | failed (failure : SendFailure)
  | repair
deriving DecidableEq

/-- The sends a round made, in order, by the account each went out on, and why it stopped. -/
structure RoundTrace where
  sends : List (Option ServerLabel)
  ended : Option RoundEnd

namespace AccountRound

/-- Carries out what the round answers to each event until it stops. -/
def drive (round : AccountRound) : List RoundEvent → RoundTrace
  | [] => { sends := [], ended := none }
  | .repair :: rest =>
    if round.admitsRepair then
      let later := round.repaired.drive rest
      { later with sends := round.current :: later.sends }
    else round.drive rest
  | .failed failure :: rest =>
    match round.next failure with
    | .stop why => { sends := [], ended := some why }
    | .resend =>
      let later := (round.apply .resend).drive rest
      { later with sends := round.current :: later.sends }
    | .switch target =>
      let later := (round.apply (.switch target)).drive rest
      { later with sends := some target :: later.sends }

/-- A whole round, its first send included. -/
def whole (roster : Roster) (usable : Finset ServerLabel) (cap : Retries)
    (held : Option ServerLabel) (events : List RoundEvent) : RoundTrace :=
  match start roster usable cap held with
  | .error why => { sends := [], ended := some why }
  | .ok round =>
    let later := round.drive events
    { later with sends := round.current :: later.sends }

/-- The sends of a list of visits: each account as often in a row as it was asked. -/
def spelled (visits : List (ServerLabel × Nat)) : List (Option ServerLabel) :=
  visits.flatMap fun visit => List.replicate visit.2 (some visit.1)

/-- What a round over several accounts keeps to, told by its visits. -/
structure Orderly (accounts : List ServerLabel) (retries : AccountRetries)
    (usable : Finset ServerLabel) (visits : List (ServerLabel × Nat)) : Prop where
  once : (visits.map Prod.fst).Nodup
  few : ∀ visit ∈ visits, 1 ≤ visit.2 ∧ visit.2 ≤ 1 + retries.count
  listed : ∀ visit ∈ visits, visit.1 ∈ accounts ∧ visit.1 ∈ usable
  inOrder : (visits.map Prod.fst).tail.Pairwise fun earlier later =>
    accounts.idxOf earlier < accounts.idxOf later

/-- How the state of a round stands to the visits it has made. -/
structure Stands (accounts : List ServerLabel) (retries : AccountRetries)
    (before : List (ServerLabel × Nat)) (round : AccountRound) (account : ServerLabel) : Prop where
  orderly : Orderly accounts retries round.usable (before ++ [(account, round.here)])
  roster : round.roster = .several accounts retries
  current : round.current = some account
  tried : ∀ other, other ∈ round.tried ↔ other ∈ (before ++ [(account, round.here)]).map Prod.fst
  ahead : ∀ earlier ∈ ((before ++ [(account, round.here)]).map Prod.fst).tail,
    ∀ other ∈ accounts, other ∈ round.usable → other ∉ round.tried →
      accounts.idxOf earlier < accounts.idxOf other
  total : round.total = min (spelled (before ++ [(account, round.here)])).length (u32Bound - 1)

section Several

variable {accounts : List ServerLabel} {retries : AccountRetries} {round : AccountRound}
  {account : ServerLabel} {before : List (ServerLabel × Nat)}

theorem length_spelled (visits : List (ServerLabel × Nat)) :
    (spelled visits).length = (visits.map Prod.snd).sum := by
  simp [spelled, length_flatMap]

theorem find_idxOf {list : List ServerLabel} {test : ServerLabel → Bool} {found : ServerLabel}
    (first : list.find? test = some found) {other : ServerLabel} (member : other ∈ list)
    (passes : test other = true) (apart : other ≠ found) : list.idxOf found < list.idxOf other := by
  induction list with
  | nil => cases first
  | cons head rest ih =>
    by_cases here : test head = true
    · rw [find?_cons_of_pos here, Option.some.injEq] at first
      rw [← first, idxOf_cons_self, idxOf_cons_ne _ (by rw [first]; exact apart.symm)]
      omega
    · rw [find?_cons_of_neg here] at first
      have notHead : head ≠ other := by
        intro same
        rw [same] at here
        exact here passes
      have inRest : other ∈ rest := by
        rcases mem_cons.mp member with same | inside
        · exact absurd same.symm notHead
        · exact inside
      have notFound : head ≠ found := by
        intro same
        rw [same] at here
        exact here (find?_some first)
      rw [idxOf_cons_ne _ notHead, idxOf_cons_ne _ notFound]
      have later := ih first inRest
      omega

theorem Stands.resend (stands : Stands accounts retries before round account)
    (spare : round.here ≤ retries.count) :
    Stands accounts retries before (round.apply .resend) account ∧
      spelled (before ++ [(account, (round.apply .resend).here)]) =
        spelled (before ++ [(account, round.here)]) ++ [some account] := by
  have small : retries.count ≤ 2 := by cases retries <;> decide
  have grown : (round.apply .resend).here = round.here + 1 := by
    simp only [apply, saturatingSucc, u32Bound]
    omega
  have names : ∀ here : Nat, (before ++ [(account, here)]).map Prod.fst = before.map Prod.fst ++ [account] := by
    simp
  have longer : spelled (before ++ [(account, round.here + 1)]) =
      spelled (before ++ [(account, round.here)]) ++ [some account] := by
    simp [spelled, replicate_succ']
  refine ⟨⟨⟨?_, ?_, ?_, ?_⟩, stands.roster, stands.current, ?_, ?_, ?_⟩, by rw [grown, longer]⟩
  · rw [names, ← names round.here]
    exact stands.orderly.once
  · intro visit member
    rcases mem_append.mp member with old | last
    · exact stands.orderly.few visit (mem_append_left _ old)
    · rw [mem_singleton.mp last]
      simp only [grown]
      omega
  · intro visit member
    rcases mem_append.mp member with old | last
    · exact stands.orderly.listed visit (mem_append_left _ old)
    · rw [mem_singleton.mp last]
      exact stands.orderly.listed (account, round.here) (by simp)
  · rw [names, ← names round.here]
    exact stands.orderly.inOrder
  · intro other
    rw [names, ← names round.here]
    exact stands.tried other
  · rw [names, ← names round.here]
    exact stands.ahead
  · rw [grown, longer]
    have total := stands.total
    simp only [apply, saturatingSucc, length_append, length_singleton]
    omega

variable {target : ServerLabel}

theorem Stands.switch (stands : Stands accounts retries before round account)
    (first : round.untried accounts = some target) :
    Stands accounts retries (before ++ [(account, round.here)]) (round.apply (.switch target)) target ∧
      spelled ((before ++ [(account, round.here)]) ++ [(target, (round.apply (.switch target)).here)]) =
        spelled (before ++ [(account, round.here)]) ++ [some target] := by
  have fresh := find?_some first
  simp only [Bool.and_eq_true, decide_eq_true_eq] at fresh
  have member : target ∈ accounts := mem_of_find?_eq_some first
  have notVisited : target ∉ (before ++ [(account, round.here)]).map Prod.fst :=
    fun visited => fresh.2 ((stands.tried target).mpr visited)
  have longer : spelled ((before ++ [(account, round.here)]) ++ [(target, 1)]) =
      spelled (before ++ [(account, round.here)]) ++ [some target] := by
    simp [spelled]
  have someVisit : (before ++ [(account, round.here)]).map Prod.fst ≠ [] := by simp
  obtain ⟨⟨once, few, listed, inOrder⟩, roster, -, tried, ahead, total⟩ := stands
  generalize before ++ [(account, round.here)] = visits at once few listed inOrder tried ahead total notVisited longer someVisit ⊢
  have names : (visits ++ [(target, 1)]).map Prod.fst = visits.map Prod.fst ++ [target] := by simp
  have tailNames : ((visits ++ [(target, 1)]).map Prod.fst).tail =
      (visits.map Prod.fst).tail ++ [target] := by
    rw [names, tail_append_of_ne_nil someVisit]
  have isLast : ∀ visit ∈ visits ++ [(target, 1)], visit ∈ visits ∨ visit = (target, 1) := by
    intro visit inside
    rcases mem_append.mp inside with old | last
    · exact Or.inl old
    · exact Or.inr (mem_singleton.mp last)
  refine ⟨⟨⟨?_, ?_, ?_, ?_⟩, roster, rfl, ?_, ?_, ?_⟩, longer⟩
  · simp only [apply, names]
    rw [nodup_append]
    refine ⟨once, nodup_singleton _, ?_⟩
    intro visited old other last same
    rw [same, mem_singleton.mp last] at old
    exact notVisited old
  · intro visit inside
    rcases isLast visit inside with old | rfl
    · exact few visit old
    · simp
  · intro visit inside
    rcases isLast visit inside with old | rfl
    · exact listed visit old
    · exact ⟨member, fresh.1⟩
  · simp only [apply, tailNames]
    rw [pairwise_append]
    refine ⟨inOrder, pairwise_singleton _ _, ?_⟩
    intro earlier old later last
    rw [mem_singleton.mp last]
    exact ahead earlier old target member fresh.1 fresh.2
  · intro other
    simp only [apply, names, Finset.mem_insert, tried, mem_append, mem_singleton]
    exact or_comm
  · simp only [apply, tailNames]
    intro earlier visited other inside redeemable away
    rw [Finset.mem_insert, not_or] at away
    rcases mem_append.mp visited with old | last
    · exact ahead earlier old other inside redeemable away.2
    · rw [mem_singleton.mp last]
      apply find_idxOf first inside _ away.1
      simp [redeemable, away.2]
  · simp only [apply, saturatingSucc, longer, length_append, length_singleton]
    omega

variable {failure : SendFailure}

theorem next_resend (answer : round.next failure = .resend) :
    admits round.cap round.total = true ∧
      ∀ accounts retries, round.roster = .several accounts retries → round.here ≤ retries.count := by
  have again : ∀ {round : AccountRound}, round.resend = .resend →
      admits round.cap round.total = true := by
    intro round answer
    unfold resend at answer
    split at answer
    · assumption
    · cases answer
  have never : round.switch ≠ .resend := by
    unfold switch
    repeat' split
    all_goals simp
  unfold next at answer
  split at answer
  · rename_i single
    refine ⟨?_, fun accounts retries several => by rw [single] at several; cases several⟩
    split at answer
    · cases answer
    · exact again answer
    · exact again answer
  · rename_i accounts retries several
    have spare : ∀ {other : AccountStep}, other ≠ .resend →
        (if round.here ≤ retries.count then round.resend else other) = .resend →
        admits round.cap round.total = true ∧ round.here ≤ retries.count := by
      intro other apart chosen
      by_cases left : round.here ≤ retries.count
      · rw [if_pos left] at chosen
        exact ⟨again chosen, left⟩
      · rw [if_neg left] at chosen
        exact absurd chosen apart
    have both : admits round.cap round.total = true ∧ round.here ≤ retries.count := by
      split at answer
      · exact spare (by simp) answer
      · exact spare (by simp) answer
      · exact absurd answer never
      · exact absurd answer never
      · exact spare never answer
      · cases answer
    refine ⟨both.1, ?_⟩
    intro others more same
    rw [several] at same
    cases same
    exact both.2

theorem next_switch
    (answer : round.next failure = .switch target) (roster : round.roster = .several accounts retries) :
    admits round.cap round.total = true ∧ round.untried accounts = some target := by
  have moved : round.switch = .switch target := by
    have stays : round.resend ≠ .switch target := by
      unfold resend
      split <;> simp
    simp only [next, roster] at answer
    split at answer
    · split at answer
      · exact absurd answer stays
      · cases answer
    · split at answer
      · exact absurd answer stays
      · cases answer
    · exact answer
    · exact answer
    · split at answer
      · exact absurd answer stays
      · exact answer
    · cases answer
  simp only [switch, roster] at moved
  split at moved
  · cases moved
  · rename_i found first
    split at moved
    · rename_i admitted
      cases moved
      exact ⟨admitted, first⟩
    · cases moved

/-- The ceiling holds. The largest ceiling is one the saturated count never passes. -/
def Capped (cap : Retries) (sends : Nat) : Prop :=
  ∀ most, cap = .atMost most → most.toNat + 1 < u32Bound → sends ≤ most.toNat + 1

theorem Stands.capped (stands : Stands accounts retries before round account)
    (admitted : admits round.cap round.total = true) :
    Capped round.cap ((spelled (before ++ [(account, round.here)])).length + 1) := by
  intro most same below
  have total := stands.total
  rw [same] at admitted
  simp only [admits, decide_eq_true_eq] at admitted
  omega

theorem drive_orderly (events : List RoundEvent) (stands : Stands accounts retries before round account)
    (capped : Capped round.cap (spelled (before ++ [(account, round.here)])).length) :
    ∃ visits, Orderly accounts retries round.usable visits ∧
      spelled visits = spelled (before ++ [(account, round.here)]) ++ (round.drive events).sends ∧
      (visits.map Prod.fst).head? = ((before ++ [(account, round.here)]).map Prod.fst).head? ∧
      Capped round.cap (spelled visits).length := by
  induction events generalizing round before account with
  | nil => exact ⟨_, stands.orderly, by simp [drive], rfl, capped⟩
  | cons event rest ih =>
    -- a send again on the current account, whoever asked for it
    have again : admits round.cap round.total = true → round.here ≤ retries.count →
        ∃ visits, Orderly accounts retries round.usable visits ∧
          spelled visits = spelled (before ++ [(account, round.here)]) ++
            (round.current :: ((round.apply .resend).drive rest).sends) ∧
          (visits.map Prod.fst).head? = ((before ++ [(account, round.here)]).map Prod.fst).head? ∧
          Capped round.cap (spelled visits).length := by
      intro admitted spare
      obtain ⟨after, longer⟩ := stands.resend spare
      have capAfter : Capped (round.apply .resend).cap
          (spelled (before ++ [(account, (round.apply .resend).here)])).length := by
        rw [longer, length_append]
        exact stands.capped admitted
      obtain ⟨visits, orderly, sends, head, cap⟩ := ih after capAfter
      refine ⟨visits, orderly, ?_, ?_, cap⟩
      · rw [sends, longer, stands.current, append_assoc]
        rfl
      · rw [head]
        cases before <;> rfl
    cases event with
    | repair =>
      by_cases let_through : round.admitsRepair = true
      · have both : round.here ≤ retries.count ∧ admits round.cap round.total = true := by
          simpa [admitsRepair, stands.roster] using let_through
        have same : round.repaired = round.apply .resend := by
          simp [repaired, stands.roster]
        simp only [drive, let_through, if_true, same]
        exact again both.2 both.1
      · simp only [drive, let_through]
        exact ih stands capped
    | failed failure =>
      cases answer : round.next failure with
      | stop why =>
        simp only [drive, answer]
        exact ⟨_, stands.orderly, by simp, rfl, capped⟩
      | resend =>
        obtain ⟨admitted, spare⟩ := next_resend answer
        simp only [drive, answer]
        exact again admitted (spare accounts retries stands.roster)
      | switch target =>
        obtain ⟨admitted, first⟩ := next_switch answer stands.roster
        obtain ⟨after, longer⟩ := stands.switch first
        have capAfter : Capped (round.apply (.switch target)).cap
            (spelled (before ++ [(account, round.here)] ++
              [(target, (round.apply (.switch target)).here)])).length := by
          rw [longer, length_append]
          exact stands.capped admitted
        obtain ⟨visits, orderly, sends, head, cap⟩ := ih after capAfter
        simp only [drive, answer]
        refine ⟨visits, orderly, ?_, ?_, cap⟩
        · rw [sends, longer, append_assoc]
          rfl
        · rw [head]
          cases before <;> rfl

variable {usable : Finset ServerLabel}

theorem opening_listed {held : Option ServerLabel}
    (found : opening accounts usable held = some account) : account ∈ accounts ∧ account ∈ usable := by
  rw [opening, Option.or_eq_some_iff] at found
  rcases found with kept | ⟨-, first⟩
  · obtain ⟨-, both⟩ := Option.filter_eq_some_iff.mp kept
    simpa using both
  · exact ⟨mem_of_find?_eq_some first, by simpa using find?_some first⟩

theorem stands_opened (retries : AccountRetries) (cap : Retries)
    (listed : account ∈ accounts ∧ account ∈ usable) :
    Stands accounts retries [] (opened (.several accounts retries) usable cap (some account))
      account := by
  refine ⟨⟨by simp, by simp [opened], ?_, by simp⟩, rfl, rfl, by simp [opened], by simp,
    by simp [opened, spelled, u32Bound]⟩
  intro visit member
  rw [nil_append, mem_singleton] at member
  rw [member]
  exact listed

end Several

def failures (events : List RoundEvent) : Nat := (events.filter (· != .repair)).length

def repairs (events : List RoundEvent) : Nat := (events.filter (· == .repair)).length

theorem failures_le_sends (round : AccountRound) (events : List RoundEvent)
    (open_still : (round.drive events).ended = none) :
    failures events ≤ (round.drive events).sends.length := by
  induction events generalizing round with
  | nil => simp [failures]
  | cons event rest ih =>
    cases event with
    | repair =>
      have same : failures (.repair :: rest) = failures rest := by simp [failures]
      rw [same]
      by_cases let_through : round.admitsRepair = true
      · simp only [drive, let_through, if_true, length_cons] at open_still ⊢
        have later := ih _ open_still
        omega
      · simp only [drive, let_through] at open_still ⊢
        exact ih _ open_still
    | failed failure =>
      have more : failures (.failed failure :: rest) = failures rest + 1 := by simp [failures]
      rw [more]
      cases answer : round.next failure with
      | stop why =>
        simp only [drive, answer] at open_still
        cases open_still
      | resend =>
        simp only [drive, answer, length_cons] at open_still ⊢
        have later := ih _ open_still
        omega
      | switch target =>
        simp only [drive, answer, length_cons] at open_still ⊢
        have later := ih _ open_still
        omega

variable {retries : AccountRetries} {visits : List (ServerLabel × Nat)}

variable {accounts : List ServerLabel} {usable : Finset ServerLabel}

theorem Orderly.count_le
    (orderly : Orderly accounts retries usable visits) (account : ServerLabel) :
    (spelled visits).count (some account) ≤ 1 + retries.count := by
  obtain ⟨once, few, -, -⟩ := orderly
  induction visits with
  | nil => simp [spelled]
  | cons visit visits ih =>
    rw [map_cons, nodup_cons] at once
    have rest := ih once.2 fun other member => few other (mem_cons_of_mem _ member)
    have whole : (spelled (visit :: visits)).count (some account) =
        (List.replicate visit.2 (some visit.1)).count (some account) +
          (spelled visits).count (some account) := by
      simp [spelled, count_append]
    rw [whole]
    by_cases same : visit.1 = account
    · have gone : (spelled visits).count (some account) = 0 := by
        rw [count_eq_zero]
        intro member
        obtain ⟨other, inside, asked⟩ := mem_flatMap.mp member
        have equal := Option.some.inj (eq_of_mem_replicate asked)
        rw [same, equal] at once
        exact once.1 (mem_map_of_mem inside)
      rw [gone, same, count_replicate_self]
      exact (few visit mem_cons_self).2
    · have none_here : (List.replicate visit.2 (some visit.1)).count (some account) = 0 := by
        rw [count_replicate, if_neg]
        simpa using same
      omega

theorem Orderly.length_le (orderly : Orderly accounts retries usable visits) :
    (spelled visits).length ≤ (accounts.toFinset ∩ usable).card * (1 + retries.count) := by
  have places : visits.length ≤ (accounts.toFinset ∩ usable).card := by
    have inside : (visits.map Prod.fst).toFinset ⊆ accounts.toFinset ∩ usable := by
      intro account member
      obtain ⟨visit, listed, rfl⟩ := mem_map.mp (mem_toFinset.mp member)
      rw [Finset.mem_inter, mem_toFinset]
      exact orderly.listed visit listed
    calc visits.length = (visits.map Prod.fst).toFinset.card := by
          rw [toFinset_card_of_nodup orderly.once, length_map]
      _ ≤ (accounts.toFinset ∩ usable).card := Finset.card_le_card inside
  have sum : (visits.map Prod.snd).sum ≤ visits.length * (1 + retries.count) := by
    have each := sum_le_card_nsmul (visits.map Prod.snd) (1 + retries.count) (by
      intro count member
      obtain ⟨visit, listed, rfl⟩ := mem_map.mp member
      exact (orderly.few visit listed).2)
    simpa using each
  calc (spelled visits).length = (visits.map Prod.snd).sum := length_spelled visits
    _ ≤ visits.length * (1 + retries.count) := sum
    _ ≤ (accounts.toFinset ∩ usable).card * (1 + retries.count) := Nat.mul_le_mul_right _ places

variable {round : AccountRound}

theorem drive_single (events : List RoundEvent)
    (roster : round.roster = .single) {sent : Nat} (total : round.total = min sent (u32Bound - 1))
    (capped : Capped round.cap sent) :
    ∃ asked, (round.drive events).sends.length ≤ asked + repairs events ∧
      Capped round.cap (sent + asked) ∧
      ((round.drive events).ended = none → failures events ≤ asked) ∧
      ∀ account ∈ (round.drive events).sends, account = round.current := by
  induction events generalizing round sent with
  | nil => exact ⟨0, by simp [drive], capped, by simp [failures], by simp [drive]⟩
  | cons event rest ih =>
    cases event with
    | repair =>
      have more : repairs (.repair :: rest) = repairs rest + 1 := by simp [repairs]
      have same : failures (.repair :: rest) = failures rest := by simp [failures]
      have through : round.admitsRepair = true := by simp [admitsRepair, roster]
      have unmoved : round.repaired = round := by simp [repaired, roster]
      obtain ⟨asked, few, cap, ends, one⟩ := ih roster total capped
      simp only [drive, through, if_true, unmoved, more, same, length_cons]
      refine ⟨asked, by omega, cap, ends, ?_⟩
      intro account member
      rcases mem_cons.mp member with here | later
      · exact here
      · exact one account later
    | failed failure =>
      have same : repairs (.failed failure :: rest) = repairs rest := by simp [repairs]
      have more : failures (.failed failure :: rest) = failures rest + 1 := by simp [failures]
      cases answer : round.next failure with
      | stop why =>
        simp only [drive, answer]
        exact ⟨0, by simp, capped, by simp, by simp⟩
      | switch target =>
        simp only [next, roster] at answer
        exfalso
        unfold resend at answer
        split at answer
        · cases answer
        · split at answer <;> cases answer
        · split at answer <;> cases answer
      | resend =>
        have admitted := (next_resend answer).1
        have counted : (round.apply .resend).total = min (sent + 1) (u32Bound - 1) := by
          simp only [apply, saturatingSucc]
          omega
        have capAfter : Capped (round.apply .resend).cap (sent + 1) := by
          intro most ceiling below
          have stays : round.cap = .atMost most := ceiling
          rw [stays] at admitted
          simp only [admits, decide_eq_true_eq] at admitted
          omega
        have sameRoster : (round.apply .resend).roster = .single := roster
        have current : (round.apply .resend).current = round.current := rfl
        obtain ⟨asked, few, cap, ends, one⟩ := ih sameRoster counted capAfter
        simp only [drive, answer, same, more, length_cons]
        refine ⟨asked + 1, by omega, ?_, ?_, ?_⟩
        · rw [show sent + (asked + 1) = sent + 1 + asked by omega]
          exact cap
        · intro open_still
          have later := ends open_still
          omega
        · intro account member
          rcases mem_cons.mp member with here | later
          · exact here
          · rw [← current]
            exact one account later

/-- What a round over several accounts does, whatever it meets. -/
structure Bounded (accounts : List ServerLabel) (retries : AccountRetries)
    (usable : Finset ServerLabel) (cap : Retries) (held : Option ServerLabel)
    (events : List RoundEvent) (trace : RoundTrace) : Prop where
  /-- The sends are one unbroken visit to each account asked, only listed and usable ones, the
  opening one first and the others in roster order. -/
  visits : ∃ visits, Orderly accounts retries usable visits ∧ trace.sends = spelled visits ∧
    (visits.map Prod.fst).head? = opening accounts usable held
  each : ∀ account, trace.sends.count (some account) ≤ 1 + retries.count
  capped : Capped cap trace.sends.length
  all : trace.sends.length ≤ (accounts.toFinset ∩ usable).card * (1 + retries.count)
  ends : (accounts.toFinset ∩ usable).card * (1 + retries.count) ≤ failures events →
    trace.ended.isSome = true

/-- What a round over a single account does. -/
structure SingleBounded (cap : Retries) (events : List RoundEvent) (trace : RoundTrace) : Prop where
  one : ∀ account ∈ trace.sends, account = none
  capped : ∃ asked, trace.sends.length ≤ asked + repairs events ∧ Capped cap asked
  ends : ∀ most, cap = .atMost most → most.toNat + 1 < u32Bound → most.toNat + 1 ≤ failures events →
    trace.ended.isSome = true

theorem several_bounded (accounts : List ServerLabel) (retries : AccountRetries)
    (usable : Finset ServerLabel) (cap : Retries) (held : Option ServerLabel)
    (events : List RoundEvent) :
    Bounded accounts retries usable cap held events
      (whole (.several accounts retries) usable cap held events) := by
  cases found : opening accounts usable held with
  | none =>
    have nothing : whole (.several accounts retries) usable cap held events =
        { sends := [], ended := some .exhausted } := by
      simp [whole, start, found]
    rw [nothing]
    refine ⟨⟨[], ⟨by simp, by simp, by simp, by simp⟩, rfl, by simp [found]⟩, by simp, ?_, by simp,
      by simp⟩
    intro most _ _
    simp
  | some first =>
    have stands := stands_opened retries cap (opening_listed found)
    have capped : Capped cap (spelled ([] ++ [(first, 1)])).length := by
      intro most _ _
      simp [spelled]
    have driven : whole (.several accounts retries) usable cap held events =
        { sends := some first ::
            ((opened (.several accounts retries) usable cap (some first)).drive events).sends
          ended := ((opened (.several accounts retries) usable cap (some first)).drive events).ended } := by
      simp only [whole, start, found]
      rfl
    rw [driven]
    obtain ⟨visits, orderly, sends, head, cap_held⟩ := drive_orderly events stands capped
    have asked :=
      failures_le_sends (opened (.several accounts retries) usable cap (some first)) events
    have all := orderly.length_le
    have same : some first ::
        ((opened (.several accounts retries) usable cap (some first)).drive events).sends =
          spelled visits := sends.symm
    rw [same]
    refine ⟨⟨visits, orderly, rfl, ?_⟩, orderly.count_le, cap_held, all, ?_⟩
    · rw [head, found]
      rfl
    · intro enough
      by_contra open_still
      rw [Bool.not_eq_true, Option.isSome_eq_false_iff, Option.isNone_iff_eq_none] at open_still
      have more := asked open_still
      rw [← same, length_cons] at all
      have bound : _ ≤ (accounts.toFinset ∩ usable).card * (1 + retries.count) := all
      omega

theorem single_bounded (usable : Finset ServerLabel) (cap : Retries) (held : Option ServerLabel)
    (events : List RoundEvent) :
    SingleBounded cap events (whole .single usable cap held events) := by
  have counted : (opened .single usable cap none).total = min 1 (u32Bound - 1) := by
    simp [opened, u32Bound]
  have capped : Capped (opened .single usable cap none).cap 1 := by
    intro most _ _
    omega
  obtain ⟨asked, few, cap_held, ends, one⟩ := drive_single events rfl counted capped
  refine ⟨?_, ⟨1 + asked, ?_, cap_held⟩, ?_⟩
  · intro account member
    rcases mem_cons.mp member with here | later
    · exact here
    · exact one account later
  · simp only [whole, start, length_cons]
    omega
  · intro most ceiling below enough
    by_contra open_still
    rw [Bool.not_eq_true, Option.isSome_eq_false_iff, Option.isNone_iff_eq_none] at open_still
    have more := ends open_still
    have bound := cap_held most ceiling below
    omega

/-- Every round keeps to its roster, its retries and its ceiling. -/
theorem round_bounded (usable : Finset ServerLabel) (cap : Retries) (held : Option ServerLabel)
    (events : List RoundEvent) :
    (∀ accounts retries, Bounded accounts retries usable cap held events
      (whole (.several accounts retries) usable cap held events)) ∧
    SingleBounded cap events (whole .single usable cap held events) :=
  ⟨fun accounts retries => several_bounded accounts retries usable cap held events,
    single_bounded usable cap held events⟩

def unusableAccount : SendFailure := { retry := .no, account := .advance }

def busyAccount : SendFailure := { retry := .yes, account := .keep }

theorem drive_unusable {tail : List ServerLabel} {front : List ServerLabel} (roster : round.roster = .several (front ++ tail) retries)
    (distinct : (front ++ tail).Nodup) (redeemable : ∀ account ∈ front ++ tail, account ∈ round.usable)
    (cap : round.cap = .atMost 4294967295) (counted : round.total < u32Bound)
    (tried : ∀ account, account ∈ round.tried ↔ account ∈ front) :
    (round.drive (List.replicate tail.length (.failed unusableAccount))).sends = tail.map some := by
  induction tail generalizing round front with
  | nil => rfl
  | cons account tail ih =>
    have fresh : account ∉ front := by
      intro inside
      rw [nodup_append] at distinct
      exact distinct.2.2 account inside account mem_cons_self rfl
    have skipped : (front.find? fun other => other ∈ round.usable && other ∉ round.tried) = none := by
      rw [find?_eq_none]
      intro other inside
      simp [tried, inside]
    have first : round.untried (front ++ account :: tail) = some account := by
      rw [untried, find?_append, skipped, Option.none_or]
      apply find?_cons_of_pos
      simp [tried, fresh, redeemable account (by simp)]
    have admitted : admits round.cap round.total = true := by
      rw [cap]
      simp only [admits, decide_eq_true_eq]
      simp only [u32Bound] at counted
      exact Nat.le_of_lt_succ counted
    have answer : round.next unusableAccount = .switch account := by
      simp only [next, roster, unusableAccount, switch, first, admitted, if_true]
    rw [length_cons, replicate_succ]
    simp only [drive, answer, map_cons, List.cons.injEq, true_and]
    have reorder : front ++ account :: tail = (front ++ [account]) ++ tail := by simp
    have sameRoster : (round.apply (.switch account)).roster =
        .several ((front ++ [account]) ++ tail) retries := by
      rw [← reorder]
      exact roster
    refine ih sameRoster ?_ ?_ cap ?_ ?_
    · rw [← reorder]
      exact distinct
    · rw [← reorder]
      exact redeemable
    · simp only [apply, saturatingSucc, u32Bound]
      omega
    · intro other
      simp only [apply, Finset.mem_insert, tried, mem_append, mem_singleton]
      exact or_comm

/-- The account named by a number. -/
def numbered (number : Nat) : ServerLabel :=
  ⟨Text.decimal number, decimal_ne_nil number, by
    rw [all_eq_true]
    intro c member
    simp [ServerLabel.isLabelChar, decimal_digits number c member]⟩

theorem numbered_injective : Function.Injective numbered := by
  intro first second same
  have texts : Text.decimal first = Text.decimal second := congrArg ServerLabel.text same
  have read : parseUnsigned (first + second + 1) (Text.decimal first) = some first :=
    parseUnsigned_decimal (by omega)
  rw [texts, parseUnsigned_decimal (by omega)] at read
  exact (Option.some.inj read).symm

theorem whole_unusable (more : Nat) :
    ∃ accounts events, (whole (.several accounts .one) accounts.toFinset (.atMost 4294967295) none
      events).sends.length = more + 1 := by
  have distinct : (numbered 0 :: (List.range more).map fun number => numbered (number + 1)).Nodup := by
    have all := (nodup_range (n := more + 1)).map numbered_injective
    rw [range_succ_eq_map, map_cons, map_map] at all
    exact all
  generalize tailed : ((List.range more).map fun number => numbered (number + 1)) = tail at distinct
  refine ⟨numbered 0 :: tail, List.replicate tail.length (.failed unusableAccount), ?_⟩
  have first : opening (numbered 0 :: tail) (numbered 0 :: tail).toFinset none = some (numbered 0) := by
    simp [opening]
  have sends : ((opened (.several (numbered 0 :: tail) .one) (numbered 0 :: tail).toFinset
      (.atMost 4294967295) (some (numbered 0))).drive
        (List.replicate tail.length (.failed unusableAccount))).sends = tail.map some := by
    have roster : (opened (.several (numbered 0 :: tail) .one) (numbered 0 :: tail).toFinset
        (.atMost 4294967295) (some (numbered 0))).roster =
          .several ([numbered 0] ++ tail) .one := rfl
    apply drive_unusable roster distinct
    · simp [opened]
    · rfl
    · simp [opened, u32Bound]
    · simp [opened]
  simp only [whole, start, first, sends, length_cons, length_map]
  rw [← tailed, length_map, length_range]

/-- A single account is asked again for every repair and, without a ceiling, for every failure; and
a round over enough accounts passes the largest ceiling. -/
theorem rounds_outrun :
    (whole .single ∅ .untilHalted none [.failed busyAccount]).sends.length = 2 ∧
    (whole .single ∅ (.atMost 0) none [.repair]).sends.length = 2 ∧
    ∃ accounts events, (whole (.several accounts .one) accounts.toFinset (.atMost 4294967295) none
      events).sends.length = 4294967295 + 2 := by
  refine ⟨by decide, by decide, ?_⟩
  exact whole_unusable 4294967296

end AccountRound

end Sprawling
