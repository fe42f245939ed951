import Sprawling.Base.Search
import Sprawling.Base.Word
import Sprawling.Kernel.Event
import Sprawling.Kernel.RunId

/-! From a run to the seqs it wrote, as ascending spans that neither meet nor touch. -/

namespace Sprawling

open List Word

/-- An inclusive span of seqs, `start..=stop`. -/
structure Span where
  start : Seq
  stop : Seq

namespace Span

/-- Where this span stands around `seq`. -/
def place (seq : Seq) (span : Span) : Ordering :=
  if seq.value < span.start.value then .gt
  else if span.stop.value < seq.value then .lt
  else .eq

/-- `seq` is the value right past this span's end. -/
def abutsBefore (span : Span) (seq : Seq) : Bool :=
  checkedAdd u64Max 1 span.stop.value == some seq.value

/-- `seq` is the value right below this span. -/
def abutsAfter (span : Span) (seq : Seq) : Bool :=
  checkedAdd u64Max 1 seq.value == some span.start.value

end Span

structure RunSpans where
  run : RunId
  spans : List Span

namespace RunSpans

/-- A seq put among ascending spans, joined to the ones it touches. -/
def addTo (spans : List Span) (seq : Seq) : List Span :=
  match binarySearchBy (Span.place seq) spans with
  | .ok _ => spans
  | .error slot =>
    let joinsBelow := (spans[slot]?).any fun span => span.abutsAfter seq
    let joinsAbove := ((checkedSub slot 1).bind fun below => spans[below]?).any
      fun span => span.abutsBefore seq
    match joinsAbove, joinsBelow with
    | true, true =>
      let joined := match spans[slot]?, checkedSub slot 1 with
        | some stretch, some below =>
          spans.modify below fun reach => { reach with stop := stretch.stop }
        | _, _ => spans
      joined.eraseIdx slot
    | true, false =>
      match checkedSub slot 1 with
      | some below => spans.modify below fun reach => { reach with stop := seq }
      | none => spans
    | false, true => spans.modify slot fun reach => { reach with start := seq }
    | false, false => spans.insertIdx slot { start := seq, stop := seq }

def add (held : RunSpans) (seq : Seq) : RunSpans := { held with spans := addTo held.spans seq }

end RunSpans

/-- Every run's spans, in the order of the runs. -/
structure RunTable where
  runs : List RunSpans

namespace RunTable

def empty : RunTable := ⟨[]⟩

def search (table : RunTable) (run : RunId) : Except Nat Nat :=
  binarySearchBy (fun held => compare held.run run) table.runs

def add (table : RunTable) (run : RunId) (seq : Seq) : RunTable :=
  match table.search run with
  | .ok slot => ⟨table.runs.modify slot fun held => held.add seq⟩
  | .error slot => ⟨table.runs.insertIdx slot ⟨run, [⟨seq, seq⟩]⟩⟩

/-- The spans a run holds; none for a run that wrote nothing. -/
def spansOf (table : RunTable) (run : RunId) : List Span :=
  match table.search run with
  | .ok slot =>
    match table.runs[slot]? with
    | some held => held.spans
    | none => []
  | .error _ => []

/-- The highest value a caller may be answered; none when nothing sits below `before`. -/
def ceiling : Option Seq → Option Nat
  | none => some u64Max
  | some before => checkedSub before.value 1

/-- The first and the last seq one span answers under a ceiling. -/
def reach (ceiling : Option Nat) (span : Span) : Option (Nat × Nat) := do
  let top := min (← ceiling) span.stop.value
  if span.start.value ≤ top then some (span.start.value, top) else none

/-- The seqs of one run below `before`, span by span from the newest. -/
def seqsBefore (table : RunTable) (run : RunId) (before : Option Seq) : List Nat :=
  ((table.spansOf run).reverse.filterMap (reach (ceiling before))).flatMap
    fun bounds => (List.range' bounds.1 (bounds.2 + 1 - bounds.1)).reverse

end RunTable

/-! ### Spans that stay apart -/

namespace Span

/-- The spans hold a seq. -/
def Covers (spans : List Span) (seq : Nat) : Prop :=
  ∃ span ∈ spans, span.start.value ≤ seq ∧ seq ≤ span.stop.value

/-- A span ends before the next one starts, with a seq between them that neither holds. -/
def Below (first second : Span) : Prop := first.stop.value + 1 < second.start.value

/-- Spans in order, none empty, none touching the next. -/
structure Apart (spans : List Span) : Prop where
  ordered : spans.Pairwise Below
  filled : ∀ span ∈ spans, span.start.value ≤ span.stop.value

variable {front rest : List Span}

theorem covers_append {seq : Nat} :
    Covers (front ++ rest) seq ↔ Covers front seq ∨ Covers rest seq := by
  simp only [Covers, mem_append, or_and_right, exists_or]

variable {span : Span} {spans : List Span}

theorem covers_cons {seq : Nat} :
    Covers (span :: spans) seq ↔
      (span.start.value ≤ seq ∧ seq ≤ span.stop.value) ∨ Covers spans seq := by
  simp only [Covers, mem_cons, exists_eq_or_imp]

variable {seq : Seq}

theorem place_eq_lt :
    place seq span = .lt ↔ span.start.value ≤ seq.value ∧ span.stop.value < seq.value := by
  unfold place
  split
  · simp only [reduceCtorEq, false_iff]
    omega
  · split
    · simp only [true_iff]
      omega
    · simp only [reduceCtorEq, false_iff]
      omega

theorem place_eq_eq :
    place seq span = .eq ↔ span.start.value ≤ seq.value ∧ seq.value ≤ span.stop.value := by
  unfold place
  split
  · simp only [reduceCtorEq, false_iff]
    omega
  · split
    · simp only [reduceCtorEq, false_iff]
      omega
    · simp only [true_iff]
      omega

theorem place_eq_gt : place seq span = .gt ↔ seq.value < span.start.value := by
  unfold place
  split
  · simpa only [true_iff] using by assumption
  · split
    · simp only [reduceCtorEq, false_iff]
      omega
    · simp only [reduceCtorEq, false_iff]
      omega

theorem abutsBefore_iff : span.abutsBefore seq = true ↔ span.stop.value + 1 = seq.value := by
  have last := seq.lt
  rw [abutsBefore, beq_iff_eq, checkedAdd_eq_some]
  simp only [u64Max]
  omega

theorem abutsAfter_iff : span.abutsAfter seq = true ↔ seq.value + 1 = span.start.value := by
  have last := span.start.lt
  rw [abutsAfter, beq_iff_eq, checkedAdd_eq_some]
  simp only [u64Max]
  omega

theorem Apart.inPlace (apart : Apart spans) (seq : Seq) :
    InPlace (place seq) spans := by
  refine apart.ordered.imp_of_mem fun {first second} inFirst _ below notLow => ?_
  have filled := apart.filled first inFirst
  rw [ne_eq, place_eq_lt] at notLow
  rw [place_eq_gt]
  simp only [Below] at below
  omega

theorem apart_around :
    Apart (front ++ span :: rest) ↔
      Apart (front ++ rest) ∧ span.start.value ≤ span.stop.value ∧
        (∀ other ∈ front, Below other span) ∧ ∀ other ∈ rest, Below span other := by
  constructor
  · rintro ⟨ordered, filled⟩
    obtain ⟨left, right, across⟩ := pairwise_append.mp ordered
    obtain ⟨above, later⟩ := pairwise_cons.mp right
    refine ⟨⟨pairwise_append.mpr ⟨left, later, fun first member second among =>
      across first member second (mem_cons_of_mem _ among)⟩, fun other member =>
      filled other ?_⟩, filled span (by simp), fun other member =>
      across other member span mem_cons_self, above⟩
    rcases mem_append.mp member with inFront | inRest
    · exact mem_append_left _ inFront
    · exact mem_append_right _ (mem_cons_of_mem _ inRest)
  · rintro ⟨⟨ordered, filled⟩, whole, below, above⟩
    obtain ⟨left, right, across⟩ := pairwise_append.mp ordered
    refine ⟨pairwise_append.mpr ⟨left, pairwise_cons.mpr ⟨above, right⟩,
      fun first member second among => ?_⟩, fun other member => ?_⟩
    · rcases mem_cons.mp among with rfl | later
      · exact below first member
      · exact across first member second later
    · rcases mem_append.mp member with inFront | inRest
      · exact filled other (mem_append_left _ inFront)
      · rcases mem_cons.mp inRest with rfl | later
        · exact whole
        · exact filled other (mem_append_right _ later)

end Span

namespace RunSpans

open Sprawling.Span

/-- What a seq put between spans makes of them. -/
inductive Joined (seq : Seq) : List Span → List Span → List Span → Prop
  | both {front rest : List Span} {reach stretch : Span} (up : reach.stop.value + 1 = seq.value)
      (down : seq.value + 1 = stretch.start.value) :
      Joined seq (front ++ [reach]) (stretch :: rest)
        (front ++ { reach with stop := stretch.stop } :: rest)
  | up {front above : List Span} {reach : Span} (up : reach.stop.value + 1 = seq.value)
      (clear : ∀ other ∈ above.head?, seq.value + 1 ≠ other.start.value) :
      Joined seq (front ++ [reach]) above (front ++ { reach with stop := seq } :: above)
  | down {below rest : List Span} {stretch : Span} (down : seq.value + 1 = stretch.start.value)
      (clear : ∀ other ∈ below.getLast?, other.stop.value + 1 ≠ seq.value) :
      Joined seq below (stretch :: rest) (below ++ { stretch with start := seq } :: rest)
  | alone {below above : List Span}
      (clearBelow : ∀ other ∈ below.getLast?, other.stop.value + 1 ≠ seq.value)
      (clearAbove : ∀ other ∈ above.head?, seq.value + 1 ≠ other.start.value) :
      Joined seq below above (below ++ { start := seq, stop := seq } :: above)

variable {below above : List Span} {seq : Seq}

theorem joined_addTo (gap : binarySearchBy (place seq) (below ++ above) = .error below.length) :
    Joined seq below above (addTo (below ++ above) seq) := by
  have next : (below ++ above)[below.length]? = above.head? := getElem?_length_append below above
  have joinsBelow : ((above.head?).any fun span => span.abutsAfter seq) = true ↔
      ∃ stretch ∈ above.head?, seq.value + 1 = stretch.start.value := by
    simp only [Option.any_eq_true, abutsAfter_iff, Option.mem_def]
  have clearAbove : ((above.head?).any fun span => span.abutsAfter seq) = false →
      ∀ other ∈ above.head?, seq.value + 1 ≠ other.start.value := by
    intro none other member meets
    rw [joinsBelow.mpr ⟨other, member, meets⟩] at none
    cases none
  unfold addTo
  simp only [gap, next]
  rcases eq_nil_or_concat below with rfl | ⟨front, reach, rfl⟩
  · have first : checkedSub ([] : List Span).length 1 = none := rfl
    simp only [first, Option.bind_none, Option.any_none]
    cases joins : (above.head?).any fun span => span.abutsAfter seq with
    | false =>
      exact .alone (fun _ absent => by cases absent) (clearAbove joins)
    | true =>
      obtain ⟨stretch, head, meets⟩ := joinsBelow.mp joins
      cases above with
      | nil => cases head
      | cons held rest =>
        cases head
        exact @Joined.down seq [] rest _ meets fun _ absent => by cases absent
  · rw [concat_eq_append] at *
    have size : (front ++ [reach]).length = front.length + 1 := by simp
    have prior : checkedSub (front ++ [reach]).length 1 = some front.length := by
      rw [size]
      exact checkedSub_eq_some.mpr (Nat.add_comm _ _)
    have whole : front ++ [reach] ++ above = front ++ reach :: above := by simp
    have last : (front ++ [reach] ++ above)[front.length]? = some reach := by
      rw [whole]
      exact getElem?_length_append front (reach :: above)
    simp only [prior, Option.bind_some, last, Option.any_some]
    have clearBelow : reach.abutsBefore seq = false →
        ∀ other ∈ (front ++ [reach]).getLast?, other.stop.value + 1 ≠ seq.value := by
      intro none other member meets
      rw [getLast?_concat, Option.mem_some_iff] at member
      subst member
      rw [(abutsBefore_iff).mpr meets] at none
      cases none
    cases meetsUp : reach.abutsBefore seq with
    | false =>
      cases joins : (above.head?).any fun span => span.abutsAfter seq with
      | false =>
        simp only [insertIdx_length_append]
        exact .alone (clearBelow meetsUp) (clearAbove joins)
      | true =>
        obtain ⟨stretch, head, meets⟩ := joinsBelow.mp joins
        cases above with
        | nil => cases head
        | cons held rest =>
          cases head
          simp only [modify_length_append]
          exact .down meets (clearBelow meetsUp)
    | true =>
      have up := (abutsBefore_iff).mp meetsUp
      cases joins : (above.head?).any fun span => span.abutsAfter seq with
      | false =>
        simp only [whole, modify_length_append]
        exact .up up (clearAbove joins)
      | true =>
        obtain ⟨stretch, head, meets⟩ := joinsBelow.mp joins
        cases above with
        | nil => cases head
        | cons held rest =>
          cases head
          have grown : front ++ { reach with stop := stretch.stop } :: stretch :: rest =
              (front ++ [{ reach with stop := stretch.stop }]) ++ stretch :: rest := by simp
          have back : (front ++ [reach]).length =
              (front ++ [{ reach with stop := stretch.stop }]).length := by simp
          simp only [head?_cons, whole, modify_length_append]
          rw [grown, back, eraseIdx_length_append, append_assoc]
          exact .both up meets

theorem clear_below (apart : Apart below) (low : ∀ other ∈ below, place seq other = .lt)
    (clear : ∀ other ∈ below.getLast?, other.stop.value + 1 ≠ seq.value) :
    ∀ other ∈ below, other.stop.value + 1 < seq.value := by
  intro other member
  rcases eq_nil_or_concat below with rfl | ⟨front, last, rfl⟩
  · cases member
  · rw [concat_eq_append] at *
    have lastLow := (place_eq_lt).mp (low last (by simp))
    have lastClear := clear last (by simp)
    rcases mem_append.mp member with earlier | here
    · have order := (pairwise_append.mp apart.ordered).2.2 other earlier last (by simp)
      simp only [Below] at order
      omega
    · cases mem_singleton.mp here
      omega

theorem clear_above (apart : Apart above) (high : ∀ other ∈ above, place seq other = .gt)
    (clear : ∀ other ∈ above.head?, seq.value + 1 ≠ other.start.value) :
    ∀ other ∈ above, seq.value + 1 < other.start.value := by
  intro other member
  cases above with
  | nil => cases member
  | cons first rest =>
    have firstHigh := (place_eq_gt).mp (high first mem_cons_self)
    have firstClear := clear first rfl
    rcases mem_cons.mp member with rfl | later
    · omega
    · have order := (pairwise_cons.mp apart.ordered).1 other later
      have filled := apart.filled first mem_cons_self
      simp only [Below] at order
      omega

variable {front rest : List Span}

theorem apart_left (apart : Apart (front ++ rest)) : Apart front :=
  ⟨(pairwise_append.mp apart.ordered).1, fun other member =>
    apart.filled other (mem_append_left _ member)⟩

theorem apart_right (apart : Apart (front ++ rest)) : Apart rest :=
  ⟨(pairwise_append.mp apart.ordered).2.1, fun other member =>
    apart.filled other (mem_append_right _ member)⟩

variable {after : List Span}

theorem Joined.apart (joined : Joined seq below above after)
    (apart : Apart (below ++ above)) (low : ∀ other ∈ below, place seq other = .lt)
    (high : ∀ other ∈ above, place seq other = .gt) : Apart after := by
  cases joined with
  | @both front rest reach stretch up down =>
    rw [append_assoc, singleton_append, apart_around] at apart
    obtain ⟨outer, reachFilled, frontBelow, aboveReach⟩ := apart
    obtain ⟨inner, stretchFilled, _, aboveStretch⟩ := (apart_around).mp outer
    have between := aboveReach stretch mem_cons_self
    refine (apart_around).mpr ⟨inner, ?_, frontBelow, aboveStretch⟩
    simp only [Below] at between
    simp only
    omega
  | @up front above reach up clear =>
    have clearAbove := clear_above (apart_right apart) high clear
    rw [append_assoc, singleton_append, apart_around] at apart
    obtain ⟨outer, reachFilled, frontBelow, _⟩ := apart
    exact (apart_around).mpr ⟨outer, by simp only; omega, frontBelow, clearAbove⟩
  | @down below rest stretch down clear =>
    have clearBelow := clear_below (apart_left apart) low clear
    obtain ⟨outer, stretchFilled, _, aboveStretch⟩ := (apart_around).mp apart
    exact (apart_around).mpr ⟨outer, by simp only; omega, clearBelow, aboveStretch⟩
  | alone clearBelow clearAbove =>
    exact (apart_around).mpr ⟨apart, Nat.le_refl _, clear_below (apart_left apart) low clearBelow,
      clear_above (apart_right apart) high clearAbove⟩

theorem Joined.covers (joined : Joined seq below above after)
    (apart : Apart (below ++ above)) (other : Nat) :
    Covers after other ↔ other = seq.value ∨ Covers (below ++ above) other := by
  cases joined with
  | @both front rest reach stretch up down =>
    have reachFilled := apart.filled reach (by simp)
    have stretchFilled := apart.filled stretch (by simp)
    have widened : (reach.start.value ≤ other ∧ other ≤ stretch.stop.value) ↔
        other = seq.value ∨ (reach.start.value ≤ other ∧ other ≤ reach.stop.value) ∨
          (stretch.start.value ≤ other ∧ other ≤ stretch.stop.value) := by omega
    rw [append_assoc, singleton_append]
    simp only [covers_append, covers_cons, widened, or_assoc, or_left_comm]
  | @up front above reach up clear =>
    have reachFilled := apart.filled reach (by simp)
    have widened : (reach.start.value ≤ other ∧ other ≤ seq.value) ↔
        other = seq.value ∨ (reach.start.value ≤ other ∧ other ≤ reach.stop.value) := by omega
    rw [append_assoc, singleton_append]
    simp only [covers_append, covers_cons, widened, or_assoc, or_left_comm]
  | @down below rest stretch down clear =>
    have stretchFilled := apart.filled stretch (by simp)
    have widened : (seq.value ≤ other ∧ other ≤ stretch.stop.value) ↔
        other = seq.value ∨ (stretch.start.value ≤ other ∧ other ≤ stretch.stop.value) := by omega
    simp only [covers_append, covers_cons, widened, or_assoc, or_left_comm]
  | alone clearBelow clearAbove =>
    have single : (seq.value ≤ other ∧ other ≤ seq.value) ↔ other = seq.value := by omega
    simp only [covers_append, covers_cons, single, or_left_comm]

/-- A seq put among spans that stay apart leaves them apart, and holding it and no other more. -/
theorem addTo_spec {spans : List Span} (apart : Apart spans) (seq : Seq) :
    Apart (addTo spans seq) ∧
      ∀ other, Covers (addTo spans seq) other ↔ other = seq.value ∨ Covers spans other := by
  have found := found_binarySearchBy (apart.inPlace seq)
  generalize searched : binarySearchBy (place seq) spans = answer at found
  cases found with
  | @here below above span low hit high =>
    have same : addTo (below ++ span :: above) seq = below ++ span :: above := by
      unfold addTo
      rw [searched]
    rw [same]
    refine ⟨apart, fun other => ⟨Or.inr, fun held => ?_⟩⟩
    rcases held with rfl | held
    · exact ⟨span, by simp, place_eq_eq.mp hit⟩
    · exact held
  | gap low high =>
    have joined := joined_addTo searched
    exact ⟨joined.apart apart low high, joined.covers apart⟩

end RunSpans

namespace RunTable

open Sprawling.Span

/-- Each run once, in order, with spans that stay apart. -/
structure Sorted (table : RunTable) : Prop where
  ordered : table.runs.Pairwise fun first second => compare first.run second.run = .lt
  apart : ∀ held ∈ table.runs, Apart held.spans

theorem sorted_empty : Sorted empty :=
  ⟨List.Pairwise.nil, fun _ absent => absurd absent not_mem_nil⟩

variable {table : RunTable}

theorem found_search (sorted : Sorted table) (run : RunId) :
    Found (fun held : RunSpans => compare held.run run) table.runs (table.search run) := by
  apply found_binarySearchBy
  refine sorted.ordered.imp fun {first second} less notLow => ?_
  -- A run past one that is not below the target is above it.
  have reach : (compare run first.run).isLE := by
    rw [Std.OrientedOrd.eq_swap]
    cases standing : compare first.run run with
    | lt => exact absurd standing notLow
    | eq => rfl
    | gt => rfl
  have past : compare run second.run = .lt := Std.TransCmp.lt_of_isLE_of_lt reach less
  show compare second.run run = .gt
  rw [Std.OrientedOrd.eq_swap, past]
  rfl

theorem spansOf_of_mem (sorted : Sorted table) {held : RunSpans} (member : held ∈ table.runs) :
    table.spansOf held.run = held.spans := by
  have found := found_search sorted held.run
  have itself : compare held.run held.run = .eq := Std.ReflCmp.compare_self
  obtain ⟨runs⟩ := table
  unfold spansOf
  generalize search ⟨runs⟩ held.run = answer at found
  simp only at found member ⊢
  cases found with
  | @here below above item low hit high =>
    simp only [getElem?_length_append, head?_cons]
    rcases mem_append.mp member with lower | rest
    · have apart := low held lower
      rw [itself] at apart
      cases apart
    · rcases mem_cons.mp rest with rfl | upper
      · rfl
      · have apart := high held upper
        rw [itself] at apart
        cases apart
  | gap low high =>
    rcases mem_append.mp member with lower | upper
    · have apart := low held lower
      rw [itself] at apart
      cases apart
    · have apart := high held upper
      rw [itself] at apart
      cases apart

variable {run : RunId}

theorem spansOf_of_forall_ne (sorted : Sorted table)
    (absent : ∀ held ∈ table.runs, held.run ≠ run) : table.spansOf run = [] := by
  have found := found_search sorted run
  obtain ⟨runs⟩ := table
  unfold spansOf
  generalize search ⟨runs⟩ run = answer at found
  simp only at found absent ⊢
  cases found with
  | @here below above item low hit high =>
    exact absurd (Std.LawfulEqCmp.eq_of_compare hit) (absent item (by simp))
  | gap low high => rfl

/-- A table whose runs are these, one of them changed or put in. -/
structure Placed (before after : RunTable) (run : RunId) (spans : List Span) : Prop where
  sorted : Sorted after
  here : after.spansOf run = spans
  elsewhere : ∀ other, other ≠ run → after.spansOf other = before.spansOf other

theorem placed_of_around {below held above : List RunSpans} {spans : List Span}
    (sorted : Sorted ⟨below ++ held ++ above⟩) (same : ∀ item ∈ held, item.run = run)
    (low : ∀ other ∈ below, compare other.run run = .lt)
    (high : ∀ other ∈ above, compare other.run run = .gt) (apart : Apart spans) :
    Placed ⟨below ++ held ++ above⟩ ⟨below ++ ⟨run, spans⟩ :: above⟩ run spans := by
  have after : Sorted ⟨below ++ ⟨run, spans⟩ :: above⟩ := by
    obtain ⟨ordered, eachApart⟩ := sorted
    simp only [append_assoc] at ordered eachApart
    obtain ⟨left, right, across⟩ := pairwise_append.mp ordered
    have rightmost := (pairwise_append.mp right).2.1
    refine ⟨pairwise_append.mpr ⟨left,
      pairwise_cons.mpr ⟨fun other member => ?_, rightmost⟩,
      fun first member second among => ?_⟩, fun item member => ?_⟩
    · rw [Std.OrientedOrd.eq_swap, high other member]
      rfl
    · rcases mem_cons.mp among with rfl | later
      · exact low first member
      · exact across first member second (mem_append_right _ later)
    · rcases mem_append.mp member with inBelow | rest
      · exact eachApart item (mem_append_left _ inBelow)
      · rcases mem_cons.mp rest with rfl | inAbove
        · exact apart
        · exact eachApart item (mem_append_right _ (mem_append_right _ inAbove))
  refine ⟨after, spansOf_of_mem after (mem_append_right below mem_cons_self),
    fun other differ => ?_⟩
  by_cases named : ∃ item ∈ below ++ held ++ above, item.run = other
  · obtain ⟨item, member, rfl⟩ := named
    rw [spansOf_of_mem sorted member]
    apply spansOf_of_mem after
    rcases mem_append.mp member with rest | inAbove
    · rcases mem_append.mp rest with inBelow | inHeld
      · exact mem_append_left _ inBelow
      · exact absurd (same item inHeld) differ
    · exact mem_append_right _ (mem_cons_of_mem _ inAbove)
  · have absent : ∀ item ∈ below ++ held ++ above, item.run ≠ other := fun item member is =>
      named ⟨item, member, is⟩
    rw [spansOf_of_forall_ne sorted absent]
    apply spansOf_of_forall_ne after
    intro item member
    rcases mem_append.mp member with inBelow | rest
    · exact absent item (mem_append_left _ (mem_append_left _ inBelow))
    · rcases mem_cons.mp rest with rfl | inAbove
      · exact Ne.symm differ
      · exact absent item (mem_append_right _ inAbove)

theorem apart_spansOf (sorted : Sorted table) (run : RunId) : Apart (table.spansOf run) := by
  by_cases named : ∃ held ∈ table.runs, held.run = run
  · obtain ⟨held, member, rfl⟩ := named
    rw [spansOf_of_mem sorted member]
    exact sorted.apart held member
  · rw [spansOf_of_forall_ne sorted fun held member is => named ⟨held, member, is⟩]
    exact ⟨List.Pairwise.nil, fun _ absent => absurd absent not_mem_nil⟩

/-- A seq added is added to its run's spans, and no other run's change. -/
theorem placed_add (sorted : Sorted table) (run : RunId) (seq : Seq) :
    Placed table (table.add run seq) run (RunSpans.addTo (table.spansOf run) seq) := by
  have found := found_search sorted run
  have apart := (RunSpans.addTo_spec (apart_spansOf sorted run) seq).1
  obtain ⟨runs⟩ := table
  unfold add
  generalize searched : search ⟨runs⟩ run = answer at found
  simp only at found ⊢
  cases found with
  | @here below above item low hit high =>
    have named := Std.LawfulEqCmp.eq_of_compare hit
    subst named
    have holds := spansOf_of_mem sorted (mem_append_right below mem_cons_self)
    rw [holds] at apart ⊢
    simp only [modify_length_append]
    have split : below ++ item :: above = below ++ [item] ++ above := by simp
    rw [split] at sorted ⊢
    exact placed_of_around sorted (fun other member => by rw [mem_singleton.mp member]) low
      high apart
  | @gap below above low high =>
    have fresh : spansOf ⟨below ++ above⟩ run = [] := by
      unfold spansOf
      rw [searched]
    rw [fresh] at apart ⊢
    simp only [insertIdx_length_append]
    have split : below ++ above = below ++ [] ++ above := by simp
    rw [split] at sorted ⊢
    exact placed_of_around sorted (fun _ absent => absurd absent not_mem_nil) low high apart

theorem reach_eq_some {limit : Option Nat} {span : Span} {bounds : Nat × Nat} :
    reach limit span = some bounds ↔ ∃ top, limit = some top ∧
      span.start.value ≤ min top span.stop.value ∧
      bounds = (span.start.value, min top span.stop.value) := by
  simp only [reach, Option.bind_eq_bind, Option.bind_eq_some_iff, Option.ite_none_right_eq_some,
    Option.some.injEq]
  apply exists_congr
  intro top
  rw [eq_comm (b := bounds)]

variable {before : Option Seq}

theorem ceiling_spec {seq : Nat} (fits : seq ≤ u64Max) :
    (∃ top, ceiling before = some top ∧ seq ≤ top) ↔ ∀ limit ∈ before, seq < limit.value := by
  cases before with
  | none => exact ⟨fun _ _ absent => (by cases absent), fun _ => ⟨u64Max, rfl, fits⟩⟩
  | some limit =>
    simp only [ceiling, checkedSub_eq_some, Option.mem_some_iff, forall_eq']
    constructor
    · rintro ⟨top, sum, below⟩
      omega
    · intro below
      exact ⟨limit.value - 1, by omega, by omega⟩

theorem mem_seqsBefore {seq : Nat} :
    seq ∈ table.seqsBefore run before ↔
      Covers (table.spansOf run) seq ∧ ∀ limit ∈ before, seq < limit.value := by
  simp only [seqsBefore, mem_flatMap, mem_filterMap, mem_reverse, mem_range'_1, reach_eq_some]
  constructor
  · rintro ⟨bounds, ⟨span, member, top, same, least, rfl⟩, lower, upper⟩
    have last := span.stop.lt
    have within : seq ≤ top ∧ seq ≤ span.stop.value := by
      simp only at lower upper
      omega
    have fits : seq ≤ u64Max := by
      simp only [u64Max]
      omega
    exact ⟨⟨span, member, lower, within.2⟩, (ceiling_spec fits).mp ⟨top, same, within.1⟩⟩
  · rintro ⟨⟨span, member, lower, upper⟩, below⟩
    have last := span.stop.lt
    have fits : seq ≤ u64Max := by
      simp only [u64Max]
      omega
    obtain ⟨top, same, most⟩ := (ceiling_spec fits).mpr below
    refine ⟨_, ⟨span, member, top, same, by omega, rfl⟩, lower, ?_⟩
    simp only
    omega

theorem descending_seqsBefore (sorted : Sorted table) (run : RunId) (before : Option Seq) :
    (table.seqsBefore run before).Pairwise (· > ·) := by
  rw [seqsBefore, pairwise_flatMap, pairwise_filterMap, pairwise_reverse]
  constructor
  · intro bounds _
    rw [pairwise_reverse]
    exact pairwise_lt_range'
  · refine (apart_spansOf sorted run).ordered.imp
      fun {first second} below upper takenUpper lower takenLower => ?_
    obtain ⟨_, _, _, rfl⟩ := (reach_eq_some).mp takenUpper
    obtain ⟨_, _, _, rfl⟩ := (reach_eq_some).mp takenLower
    intro high memberHigh low memberLow
    simp only [mem_reverse, mem_range'_1] at memberHigh memberLow
    simp only [Below] at below
    omega

end RunTable

end Sprawling
