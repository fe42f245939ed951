import Mathlib.Data.List.Infix
import Sprawling.Accounting.Relay

/-! What one look at the accounting queue owes the lanes, the ledger and the thread that took it. -/

namespace Sprawling

open List

variable {κ α π γ η θ ρ : Type}

namespace Wake

def relay? : Wake κ α π γ η θ → Option (RelayRequest κ α)
  | .relay request => some request
  | _ => none

def claim? : Wake κ α π γ η θ → Option (ClaimAsk κ α π)
  | .claim ask => some ask
  | _ => none

def goal? : Wake κ α π γ η θ → Option γ
  | .goal ask => some ask
  | _ => none

def home? : Wake κ α π γ η θ → Option η
  | .home arrival => some arrival
  | _ => none

def answered? : Wake κ α π γ η θ → Option θ
  | .answered answer => some answer
  | _ => none

end Wake

namespace Reply

def relayed? : Reply κ ρ → Option (κ × Except AxError (List ρ))
  | .relayed back answer => some (back, answer)
  | .claimed _ _ => none

def claimed? : Reply κ ρ → Option (κ × Except AxError Unit)
  | .claimed back answer => some (back, answer)
  | .relayed _ _ => none

end Reply

namespace RelayGate

def relaysOf (wakes : List (Wake κ α π γ η θ)) : List (RelayRequest κ α) := wakes.filterMap Wake.relay?

def claimsOf (wakes : List (Wake κ α π γ η θ)) : List (ClaimAsk κ α π) := wakes.filterMap Wake.claim?

def draftsOf (requests : List (RelayRequest κ α)) : List α := requests.flatMap RelayRequest.drafts

/-- What the loop over the queue adds to what it began with. -/
structure Drains (wakes : List (Wake κ α π γ η θ)) (before after : Draining κ α π γ η θ ρ)
    (taken : List (α × ρ)) (said : List (κ × Except AxError Unit)) : Prop where
  lines : after.lines = before.lines ++ taken
  written : after.written = before.written ++ taken.map Prod.fst
  claimed : (taken.map Prod.fst).Sublist ((claimsOf wakes).map ClaimAsk.line)
  sent : after.sent = before.sent ++ said.map fun one => .claimed one.1 one.2
  backs : said.map Prod.fst = (claimsOf wakes).map ClaimAsk.back
  drafts : after.drafts = before.drafts ++ draftsOf (relaysOf wakes)
  senders : after.senders = before.senders ++ (relaysOf wakes).map RelayRequest.back
  sizes : after.sizes = before.sizes ++ (relaysOf wakes).map fun request => request.drafts.length
  goals : after.goals = before.goals ++ wakes.filterMap Wake.goal?
  homes : after.homes = before.homes ++ wakes.filterMap Wake.home?
  answers : after.answers = before.answers ++ wakes.filterMap Wake.answered?

variable (runOf : α → RunId) (world : Outside ρ)

theorem drains_wake (place : Nat) (state : Draining κ α π γ η θ ρ) (wake : Wake κ α π γ η θ) :
    ∃ taken said, Drains [wake] state (drainWake runOf world place state wake) taken said := by
  cases wake with
  | claim ask =>
    refine ⟨(state.book.answer runOf ask (world.appended place)).2.1.toList,
      [(ask.back, (state.book.answer runOf ask (world.appended place)).1)], ?_⟩
    constructor
    case claimed =>
      cases found : (state.book.answer runOf ask (world.appended place)).2.1 with
      | none => exact nil_sublist _
      | some entry =>
        obtain ⟨line, ref⟩ := entry
        obtain rfl := ClaimBook.answer_line found
        exact List.Sublist.refl _
    all_goals first | rfl | exact (append_nil _).symm
  | relay request =>
    refine ⟨[], [], ?_⟩
    constructor
    case claimed => exact nil_sublist _
    case drafts => exact congrArg (state.drafts ++ ·) (append_nil _).symm
    all_goals first | rfl | exact (append_nil _).symm
  | goal _ | home _ | answered _ | command | close =>
    refine ⟨[], [], ?_⟩
    constructor
    case claimed => exact nil_sublist _
    all_goals first | rfl | exact (append_nil _).symm

theorem relaysOf_append (first second : List (Wake κ α π γ η θ)) :
    relaysOf (first ++ second) = relaysOf first ++ relaysOf second := filterMap_append

theorem claimsOf_append (first second : List (Wake κ α π γ η θ)) :
    claimsOf (first ++ second) = claimsOf first ++ claimsOf second := filterMap_append

theorem Drains.trans {first second : List (Wake κ α π γ η θ)} {before middle after : Draining κ α π γ η θ ρ}
    {taken later : List (α × ρ)} {said spoken : List (κ × Except AxError Unit)}
    (one : Drains first before middle taken said) (two : Drains second middle after later spoken) :
    Drains (first ++ second) before after (taken ++ later) (said ++ spoken) where
  lines := by rw [two.lines, one.lines, append_assoc]
  written := by rw [two.written, one.written, map_append, append_assoc]
  claimed := by
    rw [claimsOf_append, map_append, map_append]
    exact one.claimed.append two.claimed
  sent := by rw [two.sent, one.sent, map_append, append_assoc]
  backs := by rw [claimsOf_append, map_append, map_append, one.backs, two.backs]
  drafts := by rw [two.drafts, one.drafts, relaysOf_append, draftsOf, draftsOf, draftsOf,
    flatMap_append, append_assoc]
  senders := by rw [two.senders, one.senders, relaysOf_append, map_append, append_assoc]
  sizes := by rw [two.sizes, one.sizes, relaysOf_append, map_append, append_assoc]
  goals := by rw [two.goals, one.goals, filterMap_append, append_assoc]
  homes := by rw [two.homes, one.homes, filterMap_append, append_assoc]
  answers := by rw [two.answers, one.answers, filterMap_append, append_assoc]

theorem drains (place : Nat) (wakes : List (Wake κ α π γ η θ)) (state : Draining κ α π γ η θ ρ) :
    ∃ taken said, Drains wakes state (drain runOf world place wakes state) taken said := by
  induction wakes generalizing place state with
  | nil =>
    refine ⟨[], [], ?_⟩
    constructor
    case claimed => exact nil_sublist _
    all_goals first | rfl | exact (append_nil _).symm
  | cons wake wakes ih =>
    obtain ⟨taken, said, one⟩ := drains_wake runOf world place state wake
    obtain ⟨later, spoken, two⟩ := ih (place + 1) (drainWake runOf world place state wake)
    exact ⟨taken ++ later, said ++ spoken, one.trans two⟩

section Cut

/-- What a batch of so many drafts is answered from the echoes left when its turn comes. -/
def answerTo (size : Nat) (echoes : List ρ) : Except AxError (List ρ) :=
  if (echoes.take size).length = size then .ok (echoes.take size)
  else .error (gone "the ledger answered a batch with fewer refs than drafts")

/-- What each of some batches is answered. -/
def answersTo : List (RelayRequest κ α) → List ρ → List (κ × Except AxError (List ρ))
  | [], _ => []
  | request :: requests, echoes =>
    (request.back, answerTo request.drafts.length echoes) ::
      answersTo requests (echoes.drop request.drafts.length)

theorem answerEach_eq (requests : List (RelayRequest κ α)) (echoes : List ρ) :
    answerEach (requests.map RelayRequest.back) (requests.map fun request => request.drafts.length) echoes =
      (answersTo requests echoes).map fun one => .relayed one.1 one.2 := by
  induction requests generalizing echoes with
  | nil => rfl
  | cons request requests ih =>
    rw [map_cons, map_cons, answerEach, ih]
    rfl

theorem backs_answersTo (requests : List (RelayRequest κ α)) (echoes : List ρ) :
    (answersTo requests echoes).map Prod.fst = requests.map RelayRequest.back := by
  induction requests generalizing echoes with
  | nil => rfl
  | cons request requests ih => rw [answersTo, map_cons, ih, map_cons]

theorem getElem?_answersTo (front : List (RelayRequest κ α)) (request : RelayRequest κ α)
    (rest : List (RelayRequest κ α)) (echoes : List ρ) :
    (answersTo (front ++ request :: rest) echoes)[front.length]? =
      some (request.back, answerTo request.drafts.length (echoes.drop (draftsOf front).length)) := by
  induction front generalizing echoes with
  | nil => rfl
  | cons first front ih =>
    rw [cons_append, answersTo, length_cons, getElem?_cons_succ, ih, drop_drop]
    rw [draftsOf, draftsOf, flatMap_cons, length_append]

end Cut

section Stamped

variable {drafts : List α} {refs : Nat → ρ}

theorem fst_stamped (drafts : List α) (refs : Nat → ρ) : (stamped drafts refs).map Prod.fst = drafts := by
  rw [stamped]
  apply ext_getElem?
  intro place
  rw [getElem?_map, getElem?_mapIdx, Option.map_map]
  exact Option.map_id'

theorem stamped_append (first second : List α) (refs : Nat → ρ) :
    stamped (first ++ second) refs = stamped first refs ++ stamped second fun place => refs (place + first.length) :=
  mapIdx_append

theorem length_stamped (drafts : List α) (refs : Nat → ρ) : (stamped drafts refs).length = drafts.length :=
  length_mapIdx

theorem appendEach_wave [Inhabited ρ] (appended : Nat → Except AxError ρ) (place : Nat) (lines : List (α × ρ))
    (drafts : List α) : ∃ wave, appendEach appended place lines drafts = appendAll wave lines drafts := by
  induction drafts generalizing place lines with
  | nil => exact ⟨.took (fun _ => default) 0, by simp [appendEach, appendAll, stamped]⟩
  | cons draft drafts ih =>
    unfold appendEach
    cases appended place with
    | error err => exact ⟨.refused err 0 fun _ => default, by simp [appendAll]⟩
    | ok ref =>
      obtain ⟨wave, rest⟩ := ih (place + 1) (lines ++ [(draft, ref)])
      -- the refs of the rest come after the first
      have shifted (refs : Nat → ρ) : stamped (draft :: drafts) (fun at_ => if at_ = 0 then ref else refs (at_ - 1)) =
          (draft, ref) :: stamped drafts refs := by
        rw [stamped, mapIdx_cons]
        rfl
      cases wave with
      | took refs told =>
        refine ⟨.took (fun at_ => if at_ = 0 then ref else refs (at_ - 1)) (told + 1), ?_⟩
        simp only [rest, appendAll, shifted]
        simp [Except.map]
      | refused err kept refs =>
        refine ⟨.refused err (kept + 1) fun at_ => if at_ = 0 then ref else refs (at_ - 1), ?_⟩
        simp only [rest, appendAll, shifted]
        simp [Except.map]

theorem own_refs {front own rest : List α} {told : Nat} {theirs : List ρ}
    (answered : answerTo own.length ((((stamped (front ++ own ++ rest) refs).map Prod.snd).take told).drop
      front.length) = .ok theirs) :
    (stamped own fun place => refs (place + front.length)).map Prod.snd = theirs := by
  rw [answerTo] at answered
  split at answered
  next full =>
    cases answered
    have inside : ((((stamped (front ++ own ++ rest) refs).map Prod.snd).take told).drop front.length).take
        own.length <+: (stamped own fun place => refs (place + front.length)).map Prod.snd ++
          (stamped rest fun place => refs (place + (front ++ own).length)).map Prod.snd := by
      refine (List.take_prefix _ _).trans ?_
      rw [drop_take]
      refine (List.take_prefix _ _).trans ?_
      rw [stamped_append, stamped_append, map_append, map_append, append_assoc]
      rw [drop_left' (by rw [length_map, length_stamped])]
    have whole := prefix_iff_eq_take.mp inside
    rw [full, take_left' (by rw [length_map, length_stamped])] at whole
    exact whole.symm
  next => cases answered

end Stamped

def relayedOf (sent : List (Reply κ ρ)) : List (κ × Except AxError (List ρ)) := sent.filterMap Reply.relayed?

/-- What is asked of one look at the queue: every lane that asked is answered once, and a batch with the
refs its own drafts stand under in the ledger, or an error; the lines handed on are those the ledger took;
and what is only handed on keeps its order. -/
structure ServedWell (wakes : List (Wake κ α π γ η θ)) (lines : List (α × ρ)) (homes : List η)
    (served : Served κ α π γ η θ ρ) : Prop where
  claimed : (served.sent.filterMap Reply.claimed?).map Prod.fst = (claimsOf wakes).map ClaimAsk.back
  relayed : (relayedOf served.sent).map Prod.fst = (relaysOf wakes).map RelayRequest.back
  own : ∀ front request rest refs, relaysOf wakes = front ++ request :: rest →
    (relayedOf served.sent)[front.length]? = some (request.back, .ok refs) →
      refs.length = request.drafts.length ∧ ∃ before after,
        served.lines = before ++ request.drafts.zip refs ++ after ∧ after.map Prod.fst = draftsOf rest
  written : served.lines.map Prod.fst = lines.map Prod.fst ++ served.drained.written
  goals : served.drained.goals = wakes.filterMap Wake.goal?
  answers : served.drained.answers = wakes.filterMap Wake.answered?
  homes : served.homes = homes ++ wakes.filterMap Wake.home?

/-- The ledger keeps nothing of a wave it refuses. -/
def Whole (wave : Wave ρ) (drafts : List α) : Prop :=
  ∀ err kept refs, wave = .refused err kept refs → kept = 0 ∨ drafts = []

section Serve

variable (book : ClaimBook π) (health : Health) (lines : List (α × ρ)) (homes : List η)
  (wakes : List (Wake κ α π γ η θ))

theorem claimed?_claims (said : List (κ × Except AxError Unit)) :
    (said.map fun one => (.claimed one.1 one.2 : Reply κ ρ)).filterMap Reply.claimed? = said ∧
      relayedOf (said.map fun one => (.claimed one.1 one.2 : Reply κ ρ)) = [] := by
  rw [relayedOf, filterMap_map, filterMap_map]
  exact ⟨filterMap_some, filterMap_eq_nil_iff.mpr fun _ _ => rfl⟩

theorem relayed?_relays (said : List (κ × Except AxError (List ρ))) :
    (said.map fun one => (.relayed one.1 one.2 : Reply κ ρ)).filterMap Reply.claimed? = [] ∧
      relayedOf (said.map fun one => (.relayed one.1 one.2 : Reply κ ρ)) = said := by
  rw [relayedOf, filterMap_map, filterMap_map]
  exact ⟨filterMap_eq_nil_iff.mpr fun _ _ => rfl, filterMap_some⟩

/-- How the batches queued are settled: what the ledger took of them, what their lanes are told, and what
of them is handed on as written. -/
inductive Settles (wave : Wave ρ) (requests : List (RelayRequest κ α)) :
    List (α × ρ) → List (κ × Except AxError (List ρ)) → List α → Prop where
  | none (nobody : requests = []) : Settles wave requests [] [] []
  | took (refs : Nat → ρ) (told : Nat) (outcome : wave = .took refs told) :
      Settles wave requests (stamped (draftsOf requests) refs)
        (answersTo requests (((stamped (draftsOf requests) refs).map Prod.snd).take told)) (draftsOf requests)
  | refused (err : AxError) (kept : Nat) (refs : Nat → ρ) (outcome : wave = .refused err kept refs) :
      Settles wave requests ((stamped (draftsOf requests) refs).take kept)
        (requests.map fun request => (request.back, .error err)) []

/-- What a look at the queue comes to: `taken` is what the ledger took of the claims, `said` what their
lanes are told, and the batches are settled after them. -/
structure Serves (world : Outside ρ) (wakes : List (Wake κ α π γ η θ)) (lines : List (α × ρ)) (homes : List η)
    (served : Served κ α π γ η θ ρ) (taken wave : List (α × ρ)) (said : List (κ × Except AxError Unit))
    (answered : List (κ × Except AxError (List ρ))) (listed : List α) : Prop where
  lines : served.lines = lines ++ taken ++ wave
  claims : (taken.map Prod.fst).Sublist ((claimsOf wakes).map ClaimAsk.line)
  backs : said.map Prod.fst = (claimsOf wakes).map ClaimAsk.back
  sent : served.sent = (said.map fun one => .claimed one.1 one.2) ++ answered.map fun one => .relayed one.1 one.2
  settles : Settles world.wave (relaysOf wakes) wave answered listed
  written : served.drained.written = taken.map Prod.fst ++ listed
  goals : served.drained.goals = wakes.filterMap Wake.goal?
  answers : served.drained.answers = wakes.filterMap Wake.answered?
  homes : served.homes = homes ++ wakes.filterMap Wake.home?

theorem serves : ∃ taken wave said answered listed,
    Serves world wakes lines homes (serve runOf world book health lines homes wakes) taken wave said answered
      listed := by
  obtain ⟨taken, said, drained⟩ := drains runOf world 0 wakes
    ⟨book, health.slept (world.awake - world.asleep), lines, homes, [], [], [], [], [], [], []⟩
  have senders := drained.senders
  have sizes := drained.sizes
  have drafts := drained.drafts
  have sent := drained.sent
  have written := drained.written
  simp only [nil_append] at senders sizes drafts sent written
  unfold serve
  simp only [senders, isEmpty_map]
  cases nobody : (relaysOf wakes).isEmpty with
  | true =>
    rw [List.isEmpty_iff] at nobody
    exact ⟨taken, [], said, [], [], drained.lines.trans (append_nil _).symm, drained.claimed,
      drained.backs, sent.trans (append_nil _).symm, .none nobody,
      written.trans (append_nil _).symm, drained.goals, drained.answers, drained.homes⟩
  | false =>
    cases outcome : world.wave with
    | took refs told =>
      simp only [Bool.false_eq_true, ↓reduceIte, appendAll, drafts, sizes, sent, written, answerEach_eq,
        drained.lines]
      exact ⟨taken, _, said, _, _, rfl, drained.claimed, drained.backs, rfl, .took refs told outcome, rfl,
        drained.goals, drained.answers, drained.homes⟩
    | refused err kept refs =>
      simp only [Bool.false_eq_true, ↓reduceIte, appendAll, drafts, sent, written, drained.lines]
      refine ⟨taken, _, said, _, [], rfl, drained.claimed, drained.backs, ?_, .refused err kept refs outcome,
        (append_nil _).symm, drained.goals, drained.answers, drained.homes⟩
      rw [map_map, map_map]
      rfl

variable {runOf world book health lines homes wakes}

/-- A look at the queue serves it well exactly when the ledger keeps nothing of a wave it refuses. -/
theorem servedWell_iff : ServedWell wakes lines homes (serve runOf world book health lines homes wakes) ↔
    Whole world.wave (draftsOf (relaysOf wakes)) := by
  obtain ⟨taken, wave, said, answered, listed, serves⟩ := serves runOf world book health lines homes
    wakes
  have relayed : relayedOf (serve runOf world book health lines homes wakes).sent = answered := by
    rw [serves.sent, relayedOf, filterMap_append]
    exact (congrArg₂ _ (claimed?_claims said).2 (relayed?_relays answered).2).trans (nil_append _)
  have claimed : (serve runOf world book health lines homes wakes).sent.filterMap Reply.claimed? = said := by
    rw [serves.sent, filterMap_append, (claimed?_claims said).1, (relayed?_relays answered).1,
      append_nil]
  have written : (serve runOf world book health lines homes wakes).lines.map Prod.fst =
      lines.map Prod.fst ++ (serve runOf world book health lines homes wakes).drained.written ↔
        wave.map Prod.fst = listed := by
    rw [serves.lines, serves.written, map_append, map_append, append_assoc]
    rw [append_right_inj, append_right_inj]
  have rest (relayedBacks : answered.map Prod.fst = (relaysOf wakes).map RelayRequest.back)
      (own : ∀ front request rest refs, relaysOf wakes = front ++ request :: rest →
        answered[front.length]? = some (request.back, .ok refs) →
          refs.length = request.drafts.length ∧ ∃ before after,
            lines ++ taken ++ wave = before ++ request.drafts.zip refs ++ after ∧
              after.map Prod.fst = draftsOf rest) :
      ServedWell wakes lines homes (serve runOf world book health lines homes wakes) ↔
        wave.map Prod.fst = listed := by
    refine ⟨fun well => written.mp well.written, fun same => ⟨?_, ?_, ?_, written.mpr same, serves.goals,
      serves.answers, serves.homes⟩⟩
    · rw [claimed, serves.backs]
    · rw [relayed, relayedBacks]
    · rw [relayed, serves.lines]
      exact own
  cases serves.settles with
  | none nobody =>
    rw [rest]
    · refine ⟨fun _ _ _ _ _ => .inr (by rw [nobody]; rfl), fun _ => rfl⟩
    · rw [nobody]
      rfl
    · intro front request others refs same
      rw [nobody] at same
      exact absurd same (by simp)
  | took refs told outcome =>
    rw [rest]
    · refine ⟨fun _ err kept refs same => ?_, fun _ => fst_stamped _ _⟩
      rw [outcome] at same
      cases same
    · exact backs_answersTo _ _
    · intro front request others theirs same answer
      have parts : draftsOf (front ++ request :: others) =
          draftsOf front ++ request.drafts ++ draftsOf others := by
        rw [draftsOf, flatMap_append, flatMap_cons, ← append_assoc]
        rfl
      rw [same, getElem?_answersTo, Option.some.injEq, Prod.mk.injEq, parts] at answer
      have theirOwn := own_refs answer.2
      refine ⟨?_, lines ++ taken ++ stamped (draftsOf front) refs, stamped (draftsOf others)
        fun place => refs (place + (draftsOf front ++ request.drafts).length), ?_, fst_stamped _ _⟩
      · rw [← theirOwn, length_map, length_stamped]
      · rw [← zip_of_prod (fst_stamped request.drafts _) theirOwn, same, parts, stamped_append,
          stamped_append]
        simp only [append_assoc]
  | refused err kept refs outcome =>
    rw [rest]
    · rw [map_take, fst_stamped, take_eq_nil_iff]
      refine ⟨fun nothing err kept refs same => ?_, fun whole => whole err kept refs outcome⟩
      rw [outcome] at same
      cases same
      exact nothing
    · rw [map_map]
      rfl
    · intro front request others theirs same answer
      rw [same] at answer
      simp at answer

end Serve

end RelayGate

end Sprawling
