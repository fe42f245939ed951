import Sprawling.Storage.LedgerIndex

/-! The side index brought up to a ledger that grew since it was folded. -/

namespace Sprawling

open List Reading Lines LineCheck

namespace LedgerIndex

section Refreshing

variable (locate : Bytes → Option Nat)

/-- A segment's stretch past what the index has folded. -/
def foldSpan (index : LedgerIndex) (span : (FileName × Bytes) × Nat) : LedgerIndex :=
  let done := foldTail locate span.1.1 span.2 (readRecords (span.1.2.drop span.2)) index.entries
  ⟨index.scanned.insert span.1.1 (min done.2 span.1.2.length), done.1⟩

/-- One segment of the listing: the stretches to read and the folded segments met so far, or none
when it is shorter than what was folded of it. -/
def planSegment (index : LedgerIndex) (plan : List ((FileName × Bytes) × Nat) × Nat)
    (segment : FileName × Bytes) : Option (List ((FileName × Bytes) × Nat) × Nat) :=
  match index.scanned[segment.1]? with
  | some done =>
    if done = segment.2.length then some (plan.1, plan.2 + 1)
    else if done < segment.2.length then some (plan.1 ++ [(segment, done)], plan.2 + 1)
    else none
  | none => some (plan.1 ++ [(segment, 0)], plan.2)

/-- What a refresh has to do, from segment lengths alone; none to rebuild. -/
def planRefresh (index : LedgerIndex) (dir : Directory) : Option (List ((FileName × Bytes) × Nat)) :=
  (dir.segments.foldlM (planSegment index) ([], 0)).bind fun plan =>
    if plan.2 < index.scanned.size then none else some plan.1

/-- Folds what was appended since the last look; a segment that shrank or vanished rebuilds. -/
def refresh (index : LedgerIndex) (dir : Directory) : LedgerIndex :=
  match planRefresh index dir with
  | some spans => spans.foldl (foldSpan locate) index
  | none => scan locate dir

/-- The stretch of a segment a refresh reads. -/
def spanOf (index : LedgerIndex) (segment : FileName × Bytes) : Option ((FileName × Bytes) × Nat) :=
  match index.scanned[segment.1]? with
  | some done => if done = segment.2.length then none else some (segment, done)
  | none => some (segment, 0)

/-- The records of a segment, indexed after what is held. -/
def place (index : LedgerIndex) (records : FileName × Bytes) : LedgerIndex :=
  ⟨index.scanned.insert records.1 records.2.length,
    (foldTail locate records.1 0 records.2 index.entries).1⟩

def recordsOf (segment : FileName × Bytes) : FileName × Bytes :=
  (segment.1, whole newline segment.2)

/-- The ledger after more was written: the segments before the last hold the records they held,
the last goes on from its records, and others were opened after it. -/
def Grown (before dir : Directory) : Prop :=
  ∃ front closed name old bytes opened, before.segments = front ++ [(name, old)] ∧
    dir.segments = closed ++ (name, bytes) :: opened ∧
    front.map recordsOf = closed.map recordsOf ∧ whole newline old <+: bytes

variable {locate}

section Tail

variable {name : FileName} {start : Nat} {entries : OrdMap Nat (FileName × Nat)}

theorem length_foldl_insertLine (lines : List Bytes) (state : OrdMap Nat (FileName × Nat) × Nat) :
    (lines.foldl (insertLine locate name) state).2 = state.2 + (join newline lines).length := by
  induction lines generalizing state with
  | nil => rfl
  | cons line lines ih =>
    rw [foldl_cons, ih, join_cons]
    simp only [insertLine, length_append, length_cons]
    omega

theorem foldTail_readRecords {tail : Bytes} (nonzero : 0 ∉ whole newline tail) :
    foldTail locate name start (readRecords tail) entries =
      ((foldTail locate name start (whole newline tail) entries).1,
        start + (whole newline tail).length) := by
  simp only [foldTail, complete_readRecords nonzero, complete_whole]
  exact Prod.ext rfl (length_foldl_insertLine _ _)

theorem foldTail_append (old rest : Bytes) :
    foldTail locate name start (whole newline old ++ rest) entries =
      foldTail locate name (start + (whole newline old).length) rest
        (foldTail locate name start (whole newline old) entries).1 := by
  have reached := @length_foldl_insertLine locate name (complete newline old) (entries, start)
  simp only [foldTail, complete_whole_append, complete_whole, foldl_append]
  rw [whole, ← reached]

end Tail

variable {index : LedgerIndex} {segment : FileName × Bytes}

theorem scanSegment_eq (nonzero : 0 ∉ whole newline segment.2) :
    scanSegment locate index segment = place locate index (recordsOf segment) := by
  simp only [scanSegment, foldTail_readRecords nonzero, Nat.zero_add, place, recordsOf]

theorem foldl_scanSegment {segments : List (FileName × Bytes)}
    (nonzero : ∀ segment ∈ segments, 0 ∉ whole newline segment.2) :
    segments.foldl (scanSegment locate) index =
      (segments.map recordsOf).foldl (place locate) index := by
  induction segments generalizing index with
  | nil => rfl
  | cons segment segments ih =>
    rw [foldl_cons, map_cons, foldl_cons, scanSegment_eq (nonzero segment mem_cons_self)]
    exact ih fun other member => nonzero other (mem_cons_of_mem _ member)

/-- A segment nothing was folded of is scanned. -/
theorem foldSpan_new (nonzero : 0 ∉ whole newline segment.2) :
    foldSpan locate index (segment, 0) = place locate index (recordsOf segment) := by
  simp only [foldSpan, drop_zero, foldTail_readRecords nonzero, Nat.zero_add, place, recordsOf,
    Nat.min_eq_left (length_whole_le _)]

/-- A stretch without a complete line changes nothing. -/
theorem foldSpan_still {done : Nat} (held : index.scanned[segment.1]? = some done)
    (within : done ≤ segment.2.length) (torn : newline ∉ segment.2.drop done) :
    foldSpan locate index (segment, done) = index := by
  have unended := complete_unended torn
  have nonzero : 0 ∉ whole newline (segment.2.drop done) := by
    rw [whole, unended]
    exact not_mem_nil
  simp only [foldSpan, foldTail, complete_readRecords nonzero, unended, foldl_nil,
    Nat.min_eq_left within, OrdMap.insert_same held]

/-- A segment grown past its records is indexed as if it was scanned. -/
theorem foldSpan_place {name : FileName} {old rest : Bytes}
    (nonzero : 0 ∉ whole newline (whole newline old ++ rest)) :
    foldSpan locate (place locate index (name, whole newline old))
        ((name, whole newline old ++ rest), (whole newline old).length) =
      place locate index (recordsOf (name, whole newline old ++ rest)) := by
  rw [whole_whole_append] at nonzero
  have later : 0 ∉ whole newline rest := fun member => nonzero (mem_append_right _ member)
  have fits : (whole newline old).length + (whole newline rest).length ≤
      (whole newline old).length + rest.length := Nat.add_le_add_left (length_whole_le rest) _
  simp only [foldSpan, place, recordsOf, drop_left, foldTail_readRecords later, whole_whole_append,
    foldTail_append, Nat.zero_add, length_append, Nat.min_eq_left fits, OrdMap.insert_insert]

theorem scanned_place {placed : List (FileName × Bytes)} {name : FileName}
    (fresh : name ∉ placed.map Prod.fst) :
    (placed.foldl (place locate) index).scanned[name]? = index.scanned[name]? := by
  induction placed generalizing index with
  | nil => rfl
  | cons records placed ih =>
    obtain ⟨other, absent⟩ := not_or.mp (mt mem_cons.mpr fresh)
    rw [foldl_cons, ih absent, place, OrdMap.get_insert, if_neg (Ne.symm other)]

theorem scanned_of_mem {placed : List (FileName × Bytes)} {records : FileName × Bytes}
    (distinct : (placed.map Prod.fst).Nodup) (member : records ∈ placed) :
    (placed.foldl (place locate) index).scanned[records.1]? = some records.2.length := by
  obtain ⟨front, rest, rfl⟩ := append_of_mem member
  rw [map_append, map_cons, nodup_append] at distinct
  have fresh : records.1 ∉ rest.map Prod.fst := (nodup_cons.mp distinct.2.1).1
  rw [foldl_append, foldl_cons, scanned_place fresh, place, OrdMap.get_insert, if_pos rfl]

theorem size_scanned_le (placed : List (FileName × Bytes)) :
    (placed.foldl (place locate) index).scanned.size ≤ index.scanned.size + placed.length := by
  induction placed generalizing index with
  | nil => exact Nat.le_refl _
  | cons records placed ih =>
    have more : (place locate index records).scanned.size ≤ index.scanned.size + 1 := by
      rw [place, Std.ExtTreeMap.size_insert]
      split <;> omega
    have rest := @ih (place locate index records)
    rw [foldl_cons, length_cons]
    omega

/-- No segment is shorter than what the index folded of it: every stretch past that is read. -/
theorem plan_within {segments : List (FileName × Bytes)} {plan : List ((FileName × Bytes) × Nat) × Nat}
    (within : ∀ segment ∈ segments, ∀ done, index.scanned[segment.1]? = some done →
      done ≤ segment.2.length) :
    segments.foldlM (planSegment index) plan =
      some (plan.1 ++ segments.filterMap (spanOf index),
        plan.2 + segments.countP fun segment => (index.scanned[segment.1]?).isSome) := by
  induction segments generalizing plan with
  | nil => simp
  | cons segment segments ih =>
    have here := within segment mem_cons_self
    have rest := fun plan => @ih plan fun other member => within other (mem_cons_of_mem _ member)
    rw [foldlM_cons, filterMap_cons, countP_cons]
    cases held : index.scanned[segment.1]? with
    | none =>
      simp only [planSegment, spanOf, held, Option.bind_eq_bind, Option.bind_some, rest]
      simp
    | some done =>
      have fits := here done held
      by_cases same : done = segment.2.length
      · simp only [planSegment, spanOf, held, if_pos same, Option.bind_eq_bind, Option.bind_some, rest]
        simp [Nat.add_assoc, Nat.add_comm 1]
      · have less : done < segment.2.length := by omega
        simp only [planSegment, spanOf, held, if_neg same, if_pos less, Option.bind_eq_bind,
          Option.bind_some, rest]
        simp [Nat.add_assoc, Nat.add_comm 1]

/-- A segment that was folded is read on from where it was left, if it is longer. -/
theorem spans_folded {done : Nat} (held : index.scanned[segment.1]? = some done)
    (within : done ≤ segment.2.length) :
    ([segment].filterMap (spanOf index)).foldl (foldSpan locate) index =
      foldSpan locate index (segment, done) := by
  by_cases same : done = segment.2.length
  · have nothing : newline ∉ segment.2.drop done := by simp [same]
    rw [filterMap_cons_none (by rw [spanOf, held]; exact if_pos same),
      foldSpan_still held within nothing]
    rfl
  · rw [filterMap_cons_some (by rw [spanOf, held]; exact if_neg same)]
    rfl

theorem spans_closed {closed : List (FileName × Bytes)}
    (held : ∀ segment ∈ closed, index.scanned[segment.1]? = some (whole newline segment.2).length) :
    (closed.filterMap (spanOf index)).foldl (foldSpan locate) index = index := by
  induction closed with
  | nil => rfl
  | cons segment closed ih =>
    have here := held segment mem_cons_self
    have torn : newline ∉ segment.2.drop (whole newline segment.2).length := by
      have left := congrArg (drop (whole newline segment.2).length)
        (@whole_append_tail _ newline _ segment.2)
      rw [← left, drop_left]
      exact mark_not_mem_tail segment.2
    rw [← singleton_append, filterMap_append, foldl_append,
      spans_folded here (length_whole_le _), foldSpan_still here (length_whole_le _) torn]
    exact ih fun other member => held other (mem_cons_of_mem _ member)

theorem spans_opened {opened : List (FileName × Bytes)} {reached : LedgerIndex}
    (fresh : ∀ segment ∈ opened, index.scanned[segment.1]? = none)
    (nonzero : ∀ segment ∈ opened, 0 ∉ whole newline segment.2) :
    (opened.filterMap (spanOf index)).foldl (foldSpan locate) reached =
      (opened.map recordsOf).foldl (place locate) reached := by
  induction opened generalizing reached with
  | nil => rfl
  | cons segment opened ih =>
    have here := fresh segment mem_cons_self
    rw [filterMap_cons_some (by rw [spanOf, here]), foldl_cons, map_cons, foldl_cons,
      foldSpan_new (nonzero segment mem_cons_self)]
    exact ih (fun other member => fresh other (mem_cons_of_mem _ member))
      fun other member => nonzero other (mem_cons_of_mem _ member)

theorem spans_grown {name : FileName} {old rest : Bytes}
    (nonzero : 0 ∉ whole newline (whole newline old ++ rest)) :
    ([(name, whole newline old ++ rest)].filterMap
        (spanOf (place locate index (name, whole newline old)))).foldl (foldSpan locate)
          (place locate index (name, whole newline old)) =
      place locate index (recordsOf (name, whole newline old ++ rest)) := by
  have held : (place locate index (name, whole newline old)).scanned[name]? =
      some (whole newline old).length := by
    rw [place, OrdMap.get_insert, if_pos rfl]
  rw [spans_folded held (by simp), foldSpan_place nonzero]

/-- What an index that was folded up to `old` of the segment `name` has reached of the segments now:
the records of those before it, and nothing of those after it. -/
structure Reached (index : LedgerIndex) (closed : List (FileName × Bytes)) (name : FileName)
    (old : Bytes) (opened : List (FileName × Bytes)) : Prop where
  size : index.scanned.size ≤ closed.length + 1
  closed : ∀ segment ∈ closed, index.scanned[segment.1]? = some (whole newline segment.2).length
  last : index.scanned[name]? = some (whole newline old).length
  opened : ∀ segment ∈ opened, index.scanned[segment.1]? = none

section Growing

variable {closed opened : List (FileName × Bytes)} {name : FileName} {old rest : Bytes}

theorem reached_place (distinct : ((closed ++ (name, rest) :: opened).map Prod.fst).Nodup) :
    Reached ((closed.map recordsOf ++ [(name, whole newline old)]).foldl (place locate) empty)
      closed name old opened := by
  have names : (closed ++ (name, rest) :: opened).map Prod.fst =
      (closed.map recordsOf ++ [(name, whole newline old)]).map Prod.fst ++ opened.map Prod.fst := by
    simp [recordsOf]
  rw [names, nodup_append] at distinct
  constructor
  · have most := @size_scanned_le locate empty
      (closed.map recordsOf ++ [(name, whole newline old)])
    have none : empty.scanned.size = 0 := rfl
    rw [length_append, length_map, length_singleton] at most
    omega
  · intro segment member
    exact scanned_of_mem distinct.1 (mem_append_left _ (mem_map_of_mem member))
  · exact scanned_of_mem distinct.1 (mem_append_right _ mem_cons_self)
  · intro segment member
    rw [scanned_place fun inside => distinct.2.2 _ inside _ (mem_map_of_mem member) rfl]
    exact Std.ExtTreeMap.getElem?_empty

variable {dir : Directory}

/-- No segment is shorter than what was folded of it and none of them has gone, so what is past
that is read. -/
theorem Reached.plan (reached : Reached index closed name old opened)
    (now : dir.segments = closed ++ (name, whole newline old ++ rest) :: opened) :
    planRefresh index dir = some (dir.segments.filterMap (spanOf index)) := by
  have within : ∀ segment ∈ dir.segments, ∀ done, index.scanned[segment.1]? = some done →
      done ≤ segment.2.length := by
    rw [now]
    intro segment member done held
    rcases mem_append.mp member with member | member
    · cases (reached.closed segment member).symm.trans held
      exact length_whole_le _
    · rcases mem_cons.mp member with rfl | member
      · cases reached.last.symm.trans held
        rw [length_append]
        exact Nat.le_add_right _ _
      · cases (reached.opened segment member).symm.trans held
  have met : closed.length + 1 ≤ dir.segments.countP fun segment =>
      (index.scanned[segment.1]?).isSome := by
    have all : closed.countP (fun segment => (index.scanned[segment.1]?).isSome) = closed.length :=
      countP_eq_length.mpr fun segment member => by rw [reached.closed segment member]; rfl
    rw [now, countP_append, countP_cons, all, reached.last]
    simp only [Option.isSome_some, if_true]
    omega
  have size := reached.size
  rw [planRefresh, plan_within within, Option.bind_some, if_neg (by omega), nil_append]

variable {before : Directory}

/-- Brought up to the ledger it was folded from as that has grown, the index is what a scan of the
whole ledger gives. -/
theorem refresh_grown (unzeroed : Unzeroed before) (unzeroedNow : Unzeroed dir)
    (grown : Grown before dir) : refresh locate (scan locate before) dir = scan locate dir := by
  obtain ⟨front, closed, name, old, bytes, opened, was, now, records, rest, rfl⟩ := grown
  have nonzero : ∀ segment ∈ closed ++ (name, whole newline old ++ rest) :: opened,
      0 ∉ whole newline segment.2 := now ▸ unzeroedNow
  have scans : scan locate before =
      (closed.map recordsOf ++ [(name, whole newline old)]).foldl (place locate) empty := by
    rw [scan, foldl_scanSegment unzeroed, was, map_append, records]
    rfl
  have scansNow : scan locate dir = (opened.map recordsOf).foldl (place locate) (place locate
      ((closed.map recordsOf).foldl (place locate) empty)
      (recordsOf (name, whole newline old ++ rest))) := by
    rw [scan, foldl_scanSegment unzeroedNow, now, map_append, map_cons, foldl_append, foldl_cons]
  have distinct : (dir.segments.map Prod.fst).Nodup :=
    (filter_sublist.map _).nodup (OrdMap.nodup_fst_toList dir)
  have reached := @reached_place locate closed opened name old _ (now ▸ distinct)
  rw [← scans] at reached
  rw [refresh, reached.plan now]
  show (dir.segments.filterMap (spanOf (scan locate before))).foldl (foldSpan locate)
    (scan locate before) = _
  rw [now, ← singleton_append, filterMap_append, filterMap_append, foldl_append, foldl_append,
    spans_closed reached.closed, spans_opened reached.opened fun segment member =>
      nonzero segment (mem_append_right _ (mem_cons_of_mem _ member)),
    scansNow, scans, foldl_append, foldl_cons, foldl_nil,
    spans_grown (nonzero _ (mem_append_right _ mem_cons_self))]

/-- An index over nothing is filled by its first refresh. -/
theorem refresh_empty (unzeroed : Unzeroed dir) : refresh locate empty dir = scan locate dir := by
  have fresh : ∀ segment ∈ dir.segments, empty.scanned[segment.1]? = none :=
    fun _ _ => Std.ExtTreeMap.getElem?_empty
  have planned : planRefresh empty dir = some (dir.segments.filterMap (spanOf empty)) := by
    rw [planRefresh, plan_within fun segment member done held => by
      cases (fresh segment member).symm.trans held]
    rfl
  rw [refresh, planned, scan, foldl_scanSegment unzeroed]
  exact spans_opened fresh unzeroed

end Growing

end Refreshing

end LedgerIndex

section Verified

variable {Hash Record : Type} {codec : Codec Hash Record} [DecidableEq Hash] {locate : Bytes → Option Nat}

variable (located : ∀ {raw seq}, claimedSeq codec raw = some seq → locate raw = some seq.value)

include located

/-- An index of nothing yet, or of this ledger before it grew. -/
inductive Behind (codec : Codec Hash Record) (dir : Directory) : LedgerIndex → Prop
  | empty : Behind codec dir .empty
  | grown {before : Directory} {checked : List (CheckedLine Record)} {after : LineCheck Hash}
      (unzeroed : LedgerIndex.Unzeroed before)
      (passes : Passes codec (atGenesis codec) (readRawLinesAt before) checked after)
      (grown : LedgerIndex.Grown before dir) : Behind codec dir (indexOf codec before)

/-- An index that is behind a verified ledger is refreshed to the ledger's. -/
theorem Behind.refresh {index : LedgerIndex} {dir : Directory}
    {checked : List (CheckedLine Record)} {after : LineCheck Hash} (behind : Behind codec dir index)
    (unzeroed : LedgerIndex.Unzeroed dir)
    (passes : Passes codec (atGenesis codec) (readRawLinesAt dir) checked after) :
    index.refresh locate dir = indexOf codec dir := by
  rw [indexOf_scan located unzeroed passes]
  cases behind with
  | empty => exact LedgerIndex.refresh_empty unzeroed
  | grown was earlier grown =>
    rw [indexOf_scan located was earlier]
    exact LedgerIndex.refresh_grown was unzeroed grown

end Verified

end Sprawling
