import Sprawling.Storage.PackedIndex
import Mathlib.Data.List.Induction
import Sprawling.Storage.LedgerIndex
import Sprawling.Storage.RunTable

/-! The packed index against the plain map of what was put in it. -/

namespace Sprawling

open List

namespace PackedIndex

namespace ColumnSeqs

theorem mem_heldOf {base seq : Nat} {column : List Nat} :
    seq ∈ heldOf base column.zipIdx ↔
      ∃ slot word, base + slot = seq ∧ column[slot]? = some word ∧ word ≠ hole := by
  rw [heldOf, mem_filterMap]
  constructor
  · rintro ⟨⟨word, slot⟩, member, taken⟩
    rw [mem_zipIdx_iff_getElem?] at member
    split at taken
    · cases taken
    · next full => exact ⟨slot, word, Option.some.inj taken, member, full⟩
  · rintro ⟨slot, word, reached, held, full⟩
    exact ⟨(word, slot), mem_zipIdx_iff_getElem?.mpr held, by rw [if_neg full, reached]⟩

theorem heldOf_ascending (base : Nat) (column : List Nat) :
    (heldOf base column.zipIdx).Pairwise (· < ·) := by
  have places : column.zipIdx.Pairwise fun first second => first.2 < second.2 := by
    have order : (List.range' 0 column.length).Pairwise (· < ·) := pairwise_lt_range'
    rwa [← zipIdx_map_snd, pairwise_map] at order
  rw [heldOf, pairwise_filterMap]
  refine places.imp fun {first second} less seq taken other takenOther => ?_
  split at taken
  · cases taken
  · split at takenOther
    · cases takenOther
    · cases taken
      cases takenOther
      omega

theorem length_heldOf (base : Nat) (column : List Nat) :
    (heldOf base column.zipIdx).length = column.countP (· ≠ hole) := by
  rw [heldOf, length_filterMap_eq_countP]
  conv => rhs; rw [← zipIdx_map_fst 0 column, countP_map]
  apply countP_congr
  intro word _
  by_cases empty : word.1 = hole
  · simp [empty]
  · simp [empty]

end ColumnSeqs

/-- The packed index holds what a plain map holds. -/
structure Mirrors (entries : Entries) (plain : OrdMap Nat (FileName × Nat)) : Prop where
  sound : entries.Sound
  located : ∀ seq, entries.locOf seq = plain[seq]?

theorem mirrors_empty : Mirrors Entries.empty ∅ where
  sound := Entries.sound_empty
  located seq := by
    rw [Entries.locOf, Entries.placeOf_eq]
    have off : Entries.empty.wordAt seq = none := Entries.wordAt_of_column_eq_nil rfl seq
    have absent : Entries.empty.outliers[seq]? = none := Std.ExtTreeMap.getElem?_empty
    rw [off, absent]
    exact (Std.ExtTreeMap.getElem?_empty).symm

section Mirrored

variable {entries : Entries} {plain : OrdMap Nat (FileName × Nat)}

theorem Mirrors.insert (mirrors : Mirrors entries plain) (seq : Seq) (name : FileName)
    (offset : Nat) :
    Mirrors (entries.insert seq name offset) (plain.insert seq.value (name, offset)) := by
  obtain ⟨sound, located⟩ := Entries.locOf_insert mirrors.sound seq name offset
  refine ⟨sound, fun other => ?_⟩
  rw [located, OrdMap.get_insert, mirrors.located]

theorem Mirrors.mem (mirrors : Mirrors entries plain) (seq : Nat) :
    seq ∈ plain ↔ (∃ word, entries.wordAt seq = some word) ∨ seq ∈ entries.outliers := by
  have placed : (∃ value, plain[seq]? = some value) ↔ ∃ place, entries.placeOf seq = some place := by
    rw [← mirrors.located, Entries.locOf]
    constructor
    · rintro ⟨value, held⟩
      obtain ⟨place, here, _⟩ := Option.bind_eq_some_iff.mp held
      exact ⟨place, here⟩
    · rintro ⟨place, here⟩
      have bound := Entries.placeOf_named mirrors.sound here
      refine ⟨(entries.segs[place.1], place.2), ?_⟩
      simp only [here, Option.bind_eq_bind, Option.bind_some, getElem?_eq_getElem bound]
  rw [OrdMap.mem_iff_get, OrdMap.mem_iff_get, placed, Entries.placeOf_eq]
  constructor
  · rintro ⟨place, held⟩
    rcases Option.or_eq_some_iff.mp held with outlier | ⟨_, packed⟩
    · exact Or.inr ⟨place, outlier⟩
    · obtain ⟨word, carried, _⟩ := Option.map_eq_some_iff.mp packed
      exact Or.inl ⟨word, carried⟩
  · rintro (⟨word, carried⟩ | ⟨place, outlier⟩)
    · have off := mirrors.sound.apart seq word carried
      exact ⟨split word, by rw [off, carried]; rfl⟩
    · exact ⟨place, by rw [outlier]; rfl⟩

/-- The seqs the column holds from some seq on. -/
def Entries.columnFrom (entries : Entries) (start : Nat) : List Nat :=
  let seqs := (entries.seqsFrom start).first.inner
  ColumnSeqs.heldOf seqs.base seqs.words

theorem Entries.columnFrom_spec (shaped : entries.Shaped) (start : Nat) :
    ColumnSeqs.Fit (entries.seqsFrom start).first.inner.base
        (entries.seqsFrom start).first.inner.words ∧
      (entries.columnFrom start).Pairwise (· < ·) ∧
      ∀ seq, seq ∈ entries.columnFrom start ↔
        start ≤ seq ∧ ∃ word, entries.wordAt seq = some word := by
  obtain ⟨skipped, skip⟩ : ∃ skipped, skipped =
      min (start - entries.base.value) entries.column.length := ⟨_, rfl⟩
  have inner : (entries.seqsFrom start).first.inner =
      ⟨Word.saturatingAdd Word.u64Values entries.base.value skipped,
        (entries.column.drop skipped).zipIdx⟩ := by
    rw [skip]
    rfl
  have within := shaped.within
  have exists_word : ∀ seq, (∃ word, entries.wordAt seq = some word) ↔
      ∃ slot word, entries.base.value + slot = seq ∧ entries.column[slot]? = some word ∧
        word ≠ hole := by
    intro seq
    simp only [Entries.wordAt_eq_some]
    exact exists_comm
  rw [Entries.columnFrom, inner]
  by_cases past : entries.column.length ≤ skipped
  · -- The column ends before the start, so nothing of it is left.
    rw [drop_eq_nil_of_le past]
    refine ⟨fun word member => absurd member not_mem_nil, List.Pairwise.nil, fun seq => ?_⟩
    constructor
    · intro member
      exact absurd member not_mem_nil
    · rintro ⟨after, some⟩
      obtain ⟨slot, word, reached, held, _⟩ := (exists_word seq).mp some
      have inside : slot < entries.column.length := (List.getElem?_eq_some_iff.mp held).1
      omega
  · have base : Word.saturatingAdd Word.u64Values entries.base.value skipped =
        entries.base.value + skipped := by
      apply Word.saturatingAdd_of_lt
      simp only [Word.u64Values]
      omega
    simp only [base]
    refine ⟨fun word member => ?_, ColumnSeqs.heldOf_ascending _ _, fun seq => ?_⟩
    · rw [mem_zipIdx_iff_getElem?, getElem?_drop] at member
      have inside : skipped + word.2 < entries.column.length :=
        (List.getElem?_eq_some_iff.mp member).1
      simp only [u64Max]
      omega
    · rw [ColumnSeqs.mem_heldOf, exists_word]
      constructor
      · rintro ⟨slot, word, reached, held, full⟩
        rw [getElem?_drop] at held
        have inside : skipped + slot < entries.column.length := (List.getElem?_eq_some_iff.mp held).1
        exact ⟨by omega, skipped + slot, word, by omega, held, full⟩
      · rintro ⟨after, slot, word, reached, held, full⟩
        have later : skipped ≤ slot := by omega
        refine ⟨slot - skipped, word, by omega, ?_, full⟩
        rw [getElem?_drop, Nat.add_sub_cancel' later]
        exact held

theorem ascending_keys {ν : Type} (map : OrdMap Nat ν) : map.keys.Pairwise (· < ·) := by
  have order := @Std.ExtTreeMap.ordered_keys _ _ _ map _
  exact order.imp fun less => Nat.compare_eq_lt.mp less

variable (mirrors : Mirrors entries plain)

include mirrors

theorem Mirrors.merges (start : Nat) :
    Merges (· < ·) (plain.keys.filter (start ≤ ·)) (entries.columnFrom start)
      (entries.outliers.keys.filter (start ≤ ·)) := by
  obtain ⟨_, ascending, members⟩ := Entries.columnFrom_spec mirrors.sound.toShaped start
  have items := (ascending_keys plain).filter (start ≤ ·)
  have outliers := (ascending_keys entries.outliers).filter (start ≤ ·)
  have strict : ∀ {seqs : List Nat}, seqs.Pairwise (· < ·) → seqs.Nodup := fun order =>
    order.imp fun less => Nat.ne_of_lt less
  refine ⟨items, ascending, outliers, ?_⟩
  rw [perm_ext_iff_of_nodup (strict items)]
  · intro seq
    rw [mem_append, members, mem_filter, mem_filter, Std.ExtTreeMap.mem_keys,
      Std.ExtTreeMap.mem_keys, mirrors.mem, decide_eq_true_eq]
    constructor
    · rintro ⟨column | outlier, after⟩
      · exact Or.inl ⟨after, column⟩
      · exact Or.inr ⟨outlier, after⟩
    · rintro (⟨after, column⟩ | ⟨outlier, after⟩)
      · exact ⟨Or.inl column, after⟩
      · exact ⟨Or.inr outlier, after⟩
  · refine nodup_append.mpr ⟨strict ascending, strict outliers, ?_⟩
    rintro seq inColumn _ outlier rfl
    obtain ⟨_, word, carried⟩ := (members seq).mp inColumn
    have off := mirrors.sound.apart seq word carried
    obtain ⟨place, here⟩ := (OrdMap.mem_iff_get _ _).mp
      (Std.ExtTreeMap.mem_keys.mp (mem_filter.mp outlier).1)
    rw [off] at here
    cases here

theorem Mirrors.stands (start : Nat) :
    Merged.Stands ColumnSeqs.ends DoubleEnded.ofList (entries.seqsFrom start)
      (plain.keys.filter (start ≤ ·)) where
  firstFit := (Entries.columnFrom_spec mirrors.sound.toShaped start).1
  secondFit := trivial
  merges := by
    have merges := mirrors.merges start
    have first : (entries.seqsFrom start).first.held ColumnSeqs.ends = entries.columnFrom start :=
      append_nil _
    have second : (entries.seqsFrom start).second.held DoubleEnded.ofList =
        entries.outliers.keys.filter (start ≤ ·) := append_nil _
    rw [first, second]
    exact merges

theorem Mirrors.tailSeq :
    entries.tailSeq = plain.keys.getLast? := by
  have answered := (Merged.nextBack_stands (mirrors.stands Seq.first.value)).1
  rw [Entries.tailSeq, answered]
  congr 1
  exact filter_eq_self.mpr fun seq _ => decide_eq_true (Nat.zero_le seq)

theorem Mirrors.size :
    plain.size = entries.inColumn + entries.outliers.size := by
  have all : ∀ seqs : List Nat, seqs.filter (0 ≤ ·) = seqs := fun seqs =>
    filter_eq_self.mpr fun seq _ => decide_eq_true (Nat.zero_le seq)
  have lengths := (mirrors.merges 0).together.length_eq
  have column : entries.columnFrom 0 = ColumnSeqs.heldOf
      (Word.saturatingAdd Word.u64Values entries.base.value 0) entries.column.zipIdx := by
    simp [Entries.columnFrom, Entries.seqsFrom, Ends.new]
  rw [all, all, length_append, column, ColumnSeqs.length_heldOf, Std.ExtTreeMap.length_keys,
    Std.ExtTreeMap.length_keys, ← mirrors.sound.counted] at lengths
  exact lengths

end Mirrored

end PackedIndex

end Sprawling

/-! The folded index: where each line sits, and which lines each run wrote. -/

namespace Sprawling

open List

/-- Where a line sits in the history and whose it is; no run when it names none that reads back. -/
structure Located where
  seq : Seq
  run : Option RunId

structure Folded where
  entries : PackedIndex.Entries
  runs : RunTable

namespace Folded

open PackedIndex

def empty : Folded := ⟨Entries.empty, RunTable.empty⟩

/-- Indexes a line whose place in the history a caller has already read. -/
def insertLocated (folded : Folded) (name : FileName) (offset : Nat) (located : Located) : Folded :=
  let entries := folded.entries.insert located.seq name offset
  match located.run with
  | some run => { entries, runs := folded.runs.add run located.seq }
  | none => { folded with entries }

def locOf (folded : Folded) (seq : Seq) : Option (FileName × Nat) := folded.entries.locOf seq.value

/-- The seqs one run wrote, newest first, below `before`. -/
def runSeqsBefore (folded : Folded) (run : RunId) (before : Option Seq) : List Nat :=
  folded.runs.seqsBefore run before

def tailSeq (folded : Folded) : Option Nat := folded.entries.tailSeq

def seqsFrom (folded : Folded) (start : Seq) : Seqs := folded.entries.seqsFrom start.value

def len (folded : Folded) : Nat := folded.entries.len

/-! ### The lines put in, and what answers for them -/

/-- A line put in: its segment, its offset, its seq and its run. -/
structure Put where
  name : FileName
  offset : Nat
  located : Located

def insertAll (puts : List Put) : Folded :=
  puts.foldl (fun folded put => folded.insertLocated put.name put.offset put.located) empty

/-- The same lines in a plain ordered map, in which the last write wins. -/
def plainOf (puts : List Put) : LedgerIndex :=
  puts.foldl (fun plain put => plain.insertLocated put.name put.offset put.located.seq.value)
    LedgerIndex.empty

/-- The seqs put in for one run. -/
def seqsPut (puts : List Put) (run : RunId) : List Nat :=
  (puts.filter fun put => put.located.run = some run).map fun put => put.located.seq.value

/-- The packed index stands for the lines put in. -/
structure Stands (folded : Folded) (puts : List Put) : Prop where
  mirrors : Mirrors folded.entries (plainOf puts).entries
  sorted : folded.runs.Sorted
  wrote : ∀ run seq, Span.Covers (folded.runs.spansOf run) seq ↔ seq ∈ seqsPut puts run

theorem stands_empty : Stands empty [] where
  mirrors := mirrors_empty
  sorted := RunTable.sorted_empty
  wrote run seq := by
    constructor
    · rintro ⟨span, absent, _⟩
      cases absent
    · intro absent
      cases absent

variable {puts : List Put}

theorem mem_seqsPut_append {put : Put} {run : RunId} {seq : Nat} :
    seq ∈ seqsPut (puts ++ [put]) run ↔
      (put.located.run = some run ∧ seq = put.located.seq.value) ∨ seq ∈ seqsPut puts run := by
  rw [seqsPut, seqsPut, List.filter_append, map_append, mem_append, or_comm]
  apply or_congr_left
  by_cases named : put.located.run = some run
  · simp [named]
  · simp [named]

theorem Stands.insertLocated {folded : Folded} (stands : Stands folded puts)
    (put : Put) :
    Stands (folded.insertLocated put.name put.offset put.located) (puts ++ [put]) := by
  have mirrors := stands.mirrors.insert put.located.seq put.name put.offset
  have plain : (plainOf (puts ++ [put])).entries =
      (plainOf puts).entries.insert put.located.seq.value (put.name, put.offset) := by
    simp only [plainOf, List.foldl_append, foldl_cons, foldl_nil, LedgerIndex.insertLocated]
  unfold Folded.insertLocated
  cases named : put.located.run with
  | none =>
    refine ⟨plain ▸ mirrors, stands.sorted, fun run seq => ?_⟩
    rw [mem_seqsPut_append, named]
    simpa using stands.wrote run seq
  | some writer =>
    have placed := RunTable.placed_add stands.sorted writer put.located.seq
    refine ⟨plain ▸ mirrors, placed.sorted, fun run seq => ?_⟩
    rw [mem_seqsPut_append, named]
    by_cases same : run = writer
    · subst same
      have joined := (RunSpans.addTo_spec (RunTable.apart_spansOf stands.sorted run)
        put.located.seq).2 seq
      rw [placed.here, joined, stands.wrote]
      simp
    · rw [placed.elsewhere run same, stands.wrote]
      simp [Ne.symm same]

theorem stands_insertAll (puts : List Put) : Stands (insertAll puts) puts := by
  induction puts using List.reverseRecOn with
  | nil => exact stands_empty
  | append_singleton puts put ih =>
    have step : insertAll (puts ++ [put]) =
        (insertAll puts).insertLocated put.name put.offset put.located := by
      simp only [insertAll, List.foldl_append, foldl_cons, foldl_nil]
    rw [step]
    exact ih.insertLocated put

/-- Whatever lines were put in, the packed index answers as the plain ordered map of them does,
from either end in whatever order, and each run's seqs are those put in for it. A count stops at
the largest `usize`. -/
theorem packed_answers (puts : List Put) :
    (∀ seq, (insertAll puts).locOf seq = (plainOf puts).entries[seq.value]?) ∧
      (insertAll puts).len = min (plainOf puts).len usizeMax ∧
      (insertAll puts).tailSeq = (plainOf puts).tailSeq ∧
      (∀ (start : Seq) (sides : List End), pulls Seqs.pull sides ((insertAll puts).seqsFrom start) =
        pulls pullList sides ((plainOf puts).entries.keys.filter (start.value ≤ ·))) ∧
      ∀ (run : RunId) (before : Option Seq),
        ((insertAll puts).runSeqsBefore run before).Pairwise (· > ·) ∧
          ∀ seq, seq ∈ (insertAll puts).runSeqsBefore run before ↔
            seq ∈ seqsPut puts run ∧ ∀ limit ∈ before, seq < limit.value := by
  obtain ⟨mirrors, sorted, wrote⟩ := stands_insertAll puts
  refine ⟨fun seq => mirrors.located seq.value, ?_, mirrors.tailSeq, fun start sides => ?_,
    fun run before => ⟨RunTable.descending_seqsBefore sorted run before, fun seq => ?_⟩⟩
  · rw [LedgerIndex.len, mirrors.size]
    rfl
  · exact Merged.pulls_eq (mirrors.stands start.value) sides
  · rw [runSeqsBefore, RunTable.mem_seqsBefore, wrote]

end Folded

end Sprawling
