import Sprawling.Kernel.Event

/-! What a session owes the peer about the event stream: the records a subscription skipped, named as
ranges at the record that ends each gap. -/

namespace Sprawling

open List

namespace Reception

/-- The records a session did not send, both ends included. -/
structure Lagged where
  from_ : Seq
  to_ : Seq

/-- The records between the last delivered and the next, when there are any. -/
def decideLag (delivered : Option Seq) (next : Seq) : Option Lagged :=
  let from_ : Option Seq := match delivered with
    | some last => if lt : last.value + 1 < 2 ^ 64 then some ⟨last.value + 1, lt⟩ else none
    | none => some Seq.first
  let to_ : Option Seq :=
    if 1 ≤ next.value then some ⟨next.value - 1, Nat.lt_of_le_of_lt (Nat.sub_le _ _) next.lt⟩
    else none
  match from_, to_ with
  | some from_, some to_ => if from_.value ≤ to_.value then some { from_, to_ } else none
  | _, _ => none

/-- The last record delivered, and whether the stream skipped past it since. -/
inductive Stream where
  | even (delivered : Option Seq)
  | owed (delivered : Option Seq)

namespace Stream

def opening : Stream := .even none

def delivered : Stream → Option Seq
  | .even delivered | .owed delivered => delivered

/-- The state a skip leaves behind; a session that is not live owes nothing. -/
def skipped (stream : Stream) (live : Bool) : Stream :=
  if live then .owed stream.delivered else stream

/-- What to say before sending a record, and the state that sending it leaves behind. -/
def before (stream : Stream) (next : Seq) : Option Lagged × Stream :=
  let lag := match stream with
    -- A gap is only owed where a record was delivered before it.
    | .even none => none
    | .even (some delivered) => decideLag (some delivered) next
    | .owed delivered => decideLag delivered next
  (lag, .even (some next))

end Stream

inductive SessionState where
  | awaitingHello
  | live
deriving DecidableEq

/-- What the subscription hands over: a record, or that some were skipped. -/
inductive Arrival where
  | record (seq : Seq)
  | skipped
deriving DecidableEq

inductive Said where
  | lagged (lag : Lagged)
  | record (seq : Seq)

/-- What one arrival has a session say, and the stream state after it. -/
def told (live : Bool) (stream : Stream) : Arrival → List Said × Stream
  | .record seq =>
    if live then
      let (lag, next) := stream.before seq
      ((lag.map Said.lagged).toList ++ [.record seq], next)
    else ([], stream)
  | .skipped => ([], stream.skipped live)

/-- What a session tells the page for one frame of arrivals, and the stream state after it. -/
def framed (stream : Stream) (phase : SessionState) (arrivals : List Arrival) : List Said × Stream :=
  arrivals.foldl
    (fun state arrival =>
      let (said, next) := told (phase = .live) state.2 arrival
      (state.1 ++ said, next))
    ([], stream)

/-- What a session tells over its frames, each in the phase it finds. -/
def session (frames : List (SessionState × List Arrival)) : List Said × Stream :=
  frames.foldl
    (fun state frame =>
      let (said, next) := framed state.2 frame.1 frame.2
      (state.1 ++ said, next))
    ([], .opening)

/-- What a subscription may hand over of records that were broadcast, each with whether it skips that
one: a report of skipped records stands for one of them, or for several one after another. -/
inductive Arrives : List (Seq × Bool) → List Arrival → Prop
  | nil : Arrives [] []
  | record {seq : Seq} {rest : List (Seq × Bool)} {later : List Arrival} :
    Arrives rest later → Arrives ((seq, false) :: rest) (.record seq :: later)
  | skipped {seq : Seq} {rest : List (Seq × Bool)} {later : List Arrival} :
    Arrives rest later → Arrives ((seq, true) :: rest) (.skipped :: later)
  | shared {seq : Seq} {rest : List (Seq × Bool)} {later : List Arrival} :
    Arrives rest (.skipped :: later) → Arrives ((seq, true) :: rest) (.skipped :: later)

/-- The records among what was said. -/
def records (said : List Said) : List Seq :=
  said.filterMap fun each => match each with
    | .record seq => some seq
    | .lagged _ => none

/-- Whether what is said accounts for a number: as a record, or inside a range. -/
def Said.tells (number : Nat) : Said → Bool
  | .record seq => seq.value = number
  | .lagged lag => lag.from_.value ≤ number && number ≤ lag.to_.value

/-- The least number that what is said accounts for. -/
def Said.lowest : Said → Nat
  | .record seq => seq.value
  | .lagged lag => lag.from_.value

/-- The greatest number that what is said accounts for. -/
def Said.highest : Said → Nat
  | .record seq => seq.value
  | .lagged lag => lag.to_.value

/-- Where a peer's view begins: at the first record delivered, or at the first there is when a skip
comes before it. -/
def viewFrom : List Arrival → Option Nat
  | [] => none
  | .record seq :: _ => some seq.value
  | .skipped :: _ => some Seq.first.value

/-- The records among what is handed over. -/
def handed (arrivals : List Arrival) : List Seq :=
  arrivals.filterMap fun arrival => match arrival with
    | .record seq => some seq
    | .skipped => none

section Lag

theorem decideLag_eq {delivered : Option Seq} {next : Seq} {low : Nat}
    (starts : low = (delivered.map fun last => last.value + 1).getD 0) (order : low ≤ next.value) :
    (low = next.value ∧ decideLag delivered next = none) ∨
      ∃ lag, decideLag delivered next = some lag ∧ lag.from_.value = low ∧
        lag.to_.value + 1 = next.value ∧ low < next.value := by
  have bounded := next.lt
  have from_ : (match delivered with
      | some last => if lt : last.value + 1 < 2 ^ 64 then some (⟨last.value + 1, lt⟩ : Seq) else none
      | none => some Seq.first) = some ⟨low, Nat.lt_of_le_of_lt order bounded⟩ := by
    cases delivered with
    | none =>
      cases starts
      rfl
    | some last =>
      simp only [Option.map_some, Option.getD_some] at starts
      cases starts
      exact dif_pos (Nat.lt_of_le_of_lt order bounded)
  unfold decideLag
  simp only [from_]
  by_cases zero : 1 ≤ next.value
  · simp only [if_pos zero]
    by_cases gap : low ≤ next.value - 1
    · exact .inr ⟨_, if_pos gap, rfl, Nat.sub_add_cancel zero, by omega⟩
    · exact .inl ⟨by omega, if_neg gap⟩
  · simp only [if_neg zero]
    exact .inl ⟨by omega, trivial⟩

end Lag

/-- What is said accounts once for each number from one on and below another, in their order. -/
structure Covers (from_ low : Nat) (said : List Said) : Prop where
  once : ∀ number, said.countP (Said.tells number) = if from_ ≤ number ∧ number < low then 1 else 0
  order : said.Pairwise fun earlier later => earlier.highest < later.lowest
  below : ∀ each ∈ said, each.highest < low

section Covers

variable {from_ low : Nat} {said : List Said}

theorem covers_nil (start : Nat) : Covers start start [] where
  once number := by
    rw [if_neg (by omega)]
    rfl
  order := .nil
  below _ impossible := by cases impossible

theorem Covers.range (covers : Covers from_ low said) {lag : Lagged} (starts : lag.from_.value = low)
    (order : low ≤ lag.to_.value) (wide : from_ ≤ low) :
    Covers from_ (lag.to_.value + 1) (said ++ [.lagged lag]) where
  once number := by
    rw [countP_append, covers.once number, countP_singleton, Said.tells, starts]
    simp only [Bool.and_eq_true, decide_eq_true_eq]
    split <;> split <;> split <;> omega
  order := by
    rw [pairwise_append]
    refine ⟨covers.order, pairwise_singleton _ _, ?_⟩
    intro earlier member later last
    rw [mem_singleton.mp last, Said.lowest, starts]
    exact covers.below earlier member
  below each member := by
    rcases mem_append.mp member with old | new
    · have := covers.below each old
      omega
    · rw [mem_singleton.mp new]
      exact Nat.lt_succ_self _

theorem Covers.record (covers : Covers from_ low said) {seq : Seq} (next : seq.value = low)
    (wide : from_ ≤ low) : Covers from_ (seq.value + 1) (said ++ [.record seq]) where
  once number := by
    rw [countP_append, covers.once number, countP_singleton, Said.tells, next]
    simp only [decide_eq_true_eq]
    split <;> split <;> split <;> omega
  order := by
    rw [pairwise_append]
    refine ⟨covers.order, pairwise_singleton _ _, ?_⟩
    intro earlier member later last
    rw [mem_singleton.mp last, Said.lowest, next]
    exact covers.below earlier member
  below each member := by
    rcases mem_append.mp member with old | new
    · have := covers.below each old
      omega
    · rw [mem_singleton.mp new]
      exact Nat.lt_succ_self _

theorem Covers.next (covers : Covers from_ low said) (wide : from_ ≤ low) {delivered : Option Seq}
    {seq : Seq} (starts : low = (delivered.map fun last => last.value + 1).getD 0)
    (order : low ≤ seq.value) :
    Covers from_ (seq.value + 1)
      (said ++ (((decideLag delivered seq).map Said.lagged).toList ++ [.record seq])) := by
  rcases decideLag_eq starts order with ⟨same, none_⟩ | ⟨lag, some_, first, last, gap⟩
  · rw [none_]
    exact covers.record same.symm wide
  · rw [some_]
    have ranged := covers.range first (by omega) wide
    rw [last] at ranged
    have whole := ranged.record rfl (by omega)
    rwa [append_assoc] at whole

end Covers

/-- What a live session has said of what it was handed, and what its stream owes. -/
structure Heard (arrivals : List Arrival) (said : List Said) (stream : Stream) : Prop where
  records : records said = handed arrivals
  last : stream.delivered = (handed arrivals).getLast?
  silent : stream.delivered = none → said = []
  even : stream = .even none → arrivals = []
  owed : stream = .owed none → viewFrom arrivals = some Seq.first.value
  covers : ∀ seq, stream.delivered = some seq → ∃ from_, viewFrom arrivals = some from_ ∧
    from_ ≤ seq.value ∧ Covers from_ (seq.value + 1) said

section Runs

variable {heard : List Arrival} {said : List Said} {stream : Stream}

theorem heard_nil : Heard [] [] .opening where
  records := rfl
  last := rfl
  silent _ := rfl
  even _ := rfl
  owed impossible := by cases impossible
  covers _ impossible := by cases impossible

theorem viewFrom_concat {arrival : Arrival} {from_ : Nat} (view : viewFrom heard = some from_) :
    viewFrom (heard ++ [arrival]) = some from_ := by
  cases heard with
  | nil => cases view
  | cons first rest =>
    cases first <;> exact view

theorem handed_concat (arrival : Arrival) :
    handed (heard ++ [arrival]) = handed heard ++ handed [arrival] := filterMap_append

theorem records_append (first second : List Said) :
    records (first ++ second) = records first ++ records second := filterMap_append

theorem records_lag (lag : Option Lagged) (seq : Seq) :
    records ((lag.map Said.lagged).toList ++ [.record seq]) = [seq] := by
  cases lag <;> rfl

theorem Heard.record (state : Heard heard said stream) {lag : Option Lagged} {seq : Seq} {from_ : Nat}
    (view : viewFrom (heard ++ [.record seq]) = some from_) (wide : from_ ≤ seq.value)
    (covers : Covers from_ (seq.value + 1)
      (said ++ ((lag.map Said.lagged).toList ++ [.record seq]))) :
    Heard (heard ++ [.record seq]) (said ++ ((lag.map Said.lagged).toList ++ [.record seq]))
      (.even (some seq)) where
  records := by
    rw [records_append, records_lag, state.records, handed_concat]
    rfl
  last := by
    rw [handed_concat]
    exact (getLast?_concat).symm
  silent impossible := by cases impossible
  even impossible := by cases impossible
  owed impossible := by cases impossible
  covers other delivered := by
    cases delivered
    exact ⟨from_, view, wide, covers⟩

theorem Heard.told (state : Heard heard said stream) (arrival : Arrival)
    (later : ∀ seq, arrival = .record seq → ∀ other ∈ handed heard, other.value < seq.value) :
    Heard (heard ++ [arrival]) (said ++ (told true stream arrival).1) (told true stream arrival).2 := by
  cases arrival with
  | skipped =>
    have none_ : handed (heard ++ [Arrival.skipped]) = handed heard := by
      rw [handed_concat]
      exact append_nil _
    have kept : (Reception.told true stream .skipped).2.delivered = stream.delivered := rfl
    rw [show (Reception.told true stream .skipped).1 = [] from rfl, append_nil]
    refine ⟨by rw [none_]; exact state.records, by rw [none_]; exact state.last, state.silent, ?_, ?_, ?_⟩
    · intro impossible
      cases impossible
    · intro owed
      have nothing : stream.delivered = none := Stream.owed.inj owed
      cases stream with
      | even delivered =>
        cases nothing
        rw [state.even rfl]
        rfl
      | owed delivered =>
        cases nothing
        exact viewFrom_concat (state.owed rfl)
    · intro seq delivered
      obtain ⟨from_, view, wide, covers⟩ := state.covers seq delivered
      exact ⟨from_, viewFrom_concat view, wide, covers⟩
  | record seq =>
    have past : ∀ last, stream.delivered = some last → ∃ from_,
        viewFrom (heard ++ [.record seq]) = some from_ ∧ from_ ≤ seq.value ∧
        Covers from_ (seq.value + 1)
          (said ++ (((decideLag (some last) seq).map Said.lagged).toList ++ [.record seq])) := by
      intro last delivered
      obtain ⟨from_, view, wide, covers⟩ := state.covers last delivered
      have member : last ∈ handed heard := by
        have ends := state.last
        rw [delivered] at ends
        exact mem_of_getLast? ends.symm
      have order := later seq rfl last member
      exact ⟨from_, viewFrom_concat view, by omega, covers.next (by omega) rfl order⟩
    cases stream with
    | even delivered =>
      cases delivered with
      | none =>
        have nothing := state.even rfl
        have unsaid := state.silent rfl
        subst nothing unsaid
        have covers := (covers_nil seq.value).record rfl (Nat.le_refl _)
        exact @Heard.record [] [] (.even none) state none seq seq.value rfl (Nat.le_refl _) covers
      | some last =>
        obtain ⟨from_, view, wide, covers⟩ := past last rfl
        exact state.record view wide covers
    | owed delivered =>
      cases delivered with
      | none =>
        have unsaid := state.silent rfl
        subst unsaid
        have covers := @Covers.next 0 0 [] (covers_nil 0) (Nat.le_refl _) none seq rfl (Nat.zero_le _)
        exact state.record (viewFrom_concat (state.owed rfl)) (Nat.zero_le _) covers
      | some last =>
        obtain ⟨from_, view, wide, covers⟩ := past last rfl
        exact state.record view wide covers

end Runs

section Frames

variable {heard : List Arrival} {said : List Said} {stream : Stream}

theorem foldl_said {α : Type} (tell : Stream → α → List Said × Stream) (items : List α)
    (said : List Said) (stream : Stream) :
    items.foldl (fun state item => (state.1 ++ (tell state.2 item).1, (tell state.2 item).2))
        (said, stream) =
      (said ++ (items.foldl (fun state item =>
          (state.1 ++ (tell state.2 item).1, (tell state.2 item).2)) ([], stream)).1,
        (items.foldl (fun state item =>
          (state.1 ++ (tell state.2 item).1, (tell state.2 item).2)) ([], stream)).2) := by
  induction items generalizing said stream with
  | nil => simp
  | cons item rest ih =>
    rw [foldl_cons, ih, foldl_cons, nil_append, ih (tell stream item).1, append_assoc]

theorem framed_cons (stream : Stream) (phase : SessionState) (arrival : Arrival)
    (rest : List Arrival) :
    framed stream phase (arrival :: rest) =
      ((told (phase = .live) stream arrival).1 ++
          (framed (told (phase = .live) stream arrival).2 phase rest).1,
        (framed (told (phase = .live) stream arrival).2 phase rest).2) :=
  foldl_said (told (phase = .live)) rest (told (phase = .live) stream arrival).1 _

theorem framed_append (stream : Stream) (phase : SessionState) (first second : List Arrival) :
    framed stream phase (first ++ second) =
      ((framed stream phase first).1 ++ (framed (framed stream phase first).2 phase second).1,
        (framed (framed stream phase first).2 phase second).2) := by
  induction first generalizing stream with
  | nil => rfl
  | cons arrival rest ih =>
    rw [cons_append, framed_cons, ih, framed_cons stream phase arrival rest, append_assoc]

theorem framed_awaiting (stream : Stream) (arrivals : List Arrival) :
    framed stream .awaitingHello arrivals = ([], stream) := by
  induction arrivals with
  | nil => rfl
  | cons arrival rest ih =>
    rw [framed_cons]
    cases arrival <;> exact ih

theorem foldl_live (live : List (List Arrival)) (said : List Said) (stream : Stream) :
    (live.map fun frame => (SessionState.live, frame)).foldl
        (fun state frame => (state.1 ++ (framed state.2 frame.1 frame.2).1,
          (framed state.2 frame.1 frame.2).2)) (said, stream) =
      (said ++ (framed stream .live live.flatten).1, (framed stream .live live.flatten).2) := by
  induction live generalizing said stream with
  | nil => simp [framed]
  | cons frame rest ih =>
    rw [map_cons, foldl_cons, ih, flatten_cons, framed_append, append_assoc]

theorem session_eq (awaiting live : List (List Arrival)) :
    session (awaiting.map (fun frame => (.awaitingHello, frame)) ++
        live.map fun frame => (.live, frame)) =
      framed .opening .live live.flatten := by
  have quiet : (awaiting.map fun frame => (SessionState.awaitingHello, frame)).foldl
      (fun state frame => (state.1 ++ (framed state.2 frame.1 frame.2).1,
        (framed state.2 frame.1 frame.2).2)) (([] : List Said), Stream.opening) = ([], .opening) := by
    induction awaiting with
    | nil => rfl
    | cons frame rest ih =>
      rw [map_cons, foldl_cons, framed_awaiting]
      exact ih
  rw [session, foldl_append, quiet, foldl_live, nil_append]

theorem Heard.frame (state : Heard heard said stream) (arrivals : List Arrival)
    (increasing : (handed (heard ++ arrivals)).Pairwise fun earlier later =>
      earlier.value < later.value) :
    Heard (heard ++ arrivals) (said ++ (framed stream .live arrivals).1)
      (framed stream .live arrivals).2 := by
  induction arrivals generalizing heard said stream with
  | nil =>
    rw [framed, foldl_nil, append_nil, append_nil]
    exact state
  | cons arrival rest ih =>
    have split : heard ++ arrival :: rest = (heard ++ [arrival]) ++ rest := by
      rw [append_assoc, singleton_append]
    have later : ∀ seq, arrival = .record seq → ∀ other ∈ handed heard, other.value < seq.value := by
      rintro seq rfl other member
      rw [handed, filterMap_append] at increasing
      exact (pairwise_append.mp increasing).2.2 other member seq mem_cons_self
    have next := ih (state.told arrival later) (split ▸ increasing)
    rw [split, framed_cons, ← append_assoc]
    exact next

end Frames

theorem Arrives.handed {sent : List (Seq × Bool)} {arrivals : List Arrival}
    (arrives : Arrives sent arrivals) :
    handed arrivals = (sent.filter fun each => !each.2).map Prod.fst := by
  induction arrives with
  | nil => rfl
  | record _ ih =>
    rw [filter_cons_of_pos rfl, map_cons, ← ih]
    rfl
  | skipped _ ih =>
    rw [filter_cons_of_neg (by simp), ← ih]
    rfl
  | shared _ ih => rw [filter_cons_of_neg (by simp), ih]

/-- Whatever is broadcast and whichever of it a live session's subscription skips, the session says
the records that are left, and of the numbers from where its peer's view begins up to the last record
it says each once, as a record or inside one range, in their order. -/
theorem told_once (sent : List (Seq × Bool))
    (increasing : sent.Pairwise fun earlier later => earlier.1.value < later.1.value)
    (awaiting live : List (List Arrival)) (arrives : Arrives sent live.flatten) :
    let said := (session (awaiting.map (fun frame => (.awaitingHello, frame)) ++
      live.map fun frame => (.live, frame))).1
    records said = (sent.filter fun each => !each.2).map Prod.fst ∧
      ∀ last, (records said).getLast? = some last →
        ∃ from_, viewFrom live.flatten = some from_ ∧ Covers from_ (last.value + 1) said := by
  have sorted : (handed ([] ++ live.flatten)).Pairwise fun earlier later =>
      earlier.value < later.value := by
    rw [nil_append, arrives.handed, pairwise_map]
    exact increasing.filter _
  have heard := heard_nil.frame live.flatten sorted
  rw [nil_append, nil_append] at heard
  rw [session_eq]
  refine ⟨by rw [heard.records, arrives.handed], ?_⟩
  intro last ends
  rw [heard.records, ← heard.last] at ends
  obtain ⟨from_, view, -, covers⟩ := heard.covers last ends
  exact ⟨from_, view, covers⟩

def seq (number : UInt32) : Seq := ⟨number.toNat, Nat.lt_trans number.toNat_lt (by decide)⟩

/-- Six records, three of them skipped and reported twice, in three frames; some numbers are never
broadcast. -/
theorem told_once_gap :
    let sent := [(seq 3, false), (seq 4, false), (seq 6, true), (seq 7, true), (seq 8, true),
      (seq 9, false)]
    let live := [[.record (seq 3), .record (seq 4)], [.skipped], [.skipped, .record (seq 9)]]
    let said := (session ([].map (fun frame => (SessionState.awaitingHello, frame)) ++
      live.map fun frame => (SessionState.live, frame))).1
    records said = (sent.filter fun each => !each.2).map Prod.fst ∧
      ∀ last, (records said).getLast? = some last →
        ∃ from_, viewFrom live.flatten = some from_ ∧ Covers from_ (last.value + 1) said :=
  told_once _ (by decide) [] [[.record (seq 3), .record (seq 4)], [.skipped], [.skipped, .record (seq 9)]]
    (.record (.record (.shared (.skipped (.skipped (.record .nil))))))

end Reception

end Sprawling
