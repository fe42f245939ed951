import Mathlib.Data.Nat.Basic
import Sprawling.Base.DoubleEnded
import Sprawling.Base.OrdMap
import Sprawling.Base.Word
import Sprawling.Storage.Error

/-! The index from seq to segment and offset, one word a line: a column that starts at a seq, with
holes where no line was seen, and a map for what the column does not reach or cannot pack. -/

namespace Sprawling

open List Option Word OrdMap

namespace PackedIndex

/-- The bits of a column word that carry the segment dictionary id. -/
def segBits : Nat := 16

def offsetBits : Nat := 48

def offsetMask : Nat := 2 ^ 48 - 1

def hole : Nat := 2 ^ 64 - 1

/-- The holes a stretched column may hold when it holds fewer lines than this. -/
def minReach : Nat := 64

def usizeMax : Nat := 2 ^ 64 - 1

/-- `seg` and `offset` in one column word, when both fit and do not spell a hole. -/
def pack (seg offset : Nat) : Option Nat :=
  if seg >>> segBits ≠ 0 ∨ offset >>> offsetBits ≠ 0 then none
  else
    let word := seg <<< offsetBits ||| offset
    if word ≠ hole then some word else none

def split (word : Nat) : Nat × Nat := (word >>> offsetBits, word &&& offsetMask)

def unpack (word : Nat) : Option (Nat × Nat) := if word = hole then none else some (split word)

structure Entries where
  base : Seq
  column : List Nat
  /-- How many slots of `column` are not holes. -/
  inColumn : Nat
  outliers : OrdMap Nat (Nat × Nat)
  segs : List FileName

namespace Entries

def empty : Entries := ⟨Seq.first, [], 0, ∅, []⟩

/-- The dictionary id of one segment name, minted at first sight. -/
def segId (entries : Entries) (name : FileName) : Nat × Entries :=
  match entries.segs.findIdx? (· == name) with
  | some id => (id, entries)
  | none => (entries.segs.length, { entries with segs := entries.segs ++ [name] })

/-- The slot a seq `slot` past the base takes, and how long the column is to be for it. -/
def stretch (entries : Entries) (slot : Nat) : Option (Nat × Nat) :=
  if slot < entries.column.length then some (slot, entries.column.length)
  else do
    let newLen ← checkedAdd usizeMax 1 slot
    let lines ← checkedAdd usizeMax 1 entries.inColumn
    let holes ← checkedSub newLen lines
    if max lines minReach < holes then none else some (slot, newLen)

/-- The column slot `seq` belongs in, the column stretched with holes to reach it; none when it
belongs with the outliers. -/
def slotFor (entries : Entries) (seq : Seq) : Option Nat × Entries :=
  let entries :=
    if entries.column.isEmpty && entries.outliers.isEmpty then { entries with base := seq }
    else entries
  match (checkedSub seq.value entries.base.value).bind entries.stretch with
  | none => (none, entries)
  | some (slot, newLen) =>
    let missing := newLen - entries.column.length
    (some slot, { entries with column := entries.column ++ List.replicate missing hole })

def setSlot (entries : Entries) (slot word : Nat) : Entries :=
  match entries.column[slot]? with
  | none => entries
  | some held =>
    let inColumn :=
      if held = hole ∧ word ≠ hole then Word.saturatingAdd u64Values entries.inColumn 1
      else if held ≠ hole ∧ word = hole then entries.inColumn - 1
      else entries.inColumn
    { entries with inColumn, column := entries.column.set slot word }

def insert (entries : Entries) (seq : Seq) (name : FileName) (offset : Nat) : Entries :=
  let named := entries.segId name
  let reached := named.2.slotFor seq
  match reached.1, pack named.1 offset with
  | some slot, some word =>
    { reached.2 with outliers := reached.2.outliers.erase seq.value }.setSlot slot word
  | slot, _ =>
    let cleared := match slot with
      | some slot => reached.2.setSlot slot hole
      | none => reached.2
    { cleared with outliers := cleared.outliers.insert seq.value (named.1, offset) }

/-- The segment id and the offset held for a seq. -/
def placeOf (entries : Entries) (seq : Nat) : Option (Nat × Nat) :=
  match entries.outliers[seq]? with
  | some held => some held
  | none => do
      let slot ← checkedSub seq entries.base.value
      let word ← entries.column[slot]?
      unpack word

def locOf (entries : Entries) (seq : Nat) : Option (FileName × Nat) := do
  let (seg, offset) ← entries.placeOf seq
  let name ← entries.segs[seg]?
  some (name, offset)

def len (entries : Entries) : Nat :=
  Word.saturatingAdd u64Values entries.inColumn entries.outliers.size

end Entries

/-! ### The seqs held -/

/-- The seqs the column holds: its words from some slot on, each with its place among them. -/
structure ColumnSeqs where
  base : Nat
  words : List (Nat × Nat)

namespace ColumnSeqs

/-- The seq of one slot; `some none` for a hole, and none past the last seq there is. -/
def seqAt (base : Nat) (held : Nat × Nat) : Option (Option Nat) :=
  if held.1 = hole then some none else (checkedAdd u64Max held.2 base).map some

/-- The first seq among the words, and the words after it. -/
def step (base : Nat) : List (Nat × Nat) → Option Nat × List (Nat × Nat)
  | [] => (none, [])
  | held :: words =>
    match seqAt base held with
    | none => (none, words)
    | some (some seq) => (some seq, words)
    | some none => step base words

def next (seqs : ColumnSeqs) : Option Nat × ColumnSeqs :=
  let stepped := step seqs.base seqs.words
  (stepped.1, { seqs with words := stepped.2 })

def nextBack (seqs : ColumnSeqs) : Option Nat × ColumnSeqs :=
  let stepped := step seqs.base seqs.words.reverse
  (stepped.1, { seqs with words := stepped.2.reverse })

/-- The seqs words carry. -/
def heldOf (base : Nat) (words : List (Nat × Nat)) : List Nat :=
  words.filterMap fun word => if word.1 = hole then none else some (base + word.2)

def Fit (base : Nat) (words : List (Nat × Nat)) : Prop := ∀ word ∈ words, base + word.2 ≤ u64Max

theorem step_eq {base : Nat} {words : List (Nat × Nat)} (fit : Fit base words) :
    (step base words).1 = (heldOf base words).head? ∧
      heldOf base (step base words).2 = (heldOf base words).tail ∧
      (step base words).2 <:+ words := by
  induction words with
  | nil => exact ⟨rfl, rfl, suffix_rfl⟩
  | cons word words ih =>
    obtain ⟨first, later, shorter⟩ := ih fun other member => fit other (mem_cons_of_mem _ member)
    by_cases empty : word.1 = hole
    · have passed : seqAt base word = some none := if_pos empty
      have skipped : heldOf base (word :: words) = heldOf base words := by
        simp only [heldOf, filterMap_cons, if_pos empty]
      simp only [step, passed, skipped]
      exact ⟨first, later, shorter.trans (suffix_cons word words)⟩
    · have here : base + word.2 ≤ u64Max := fit word mem_cons_self
      have found : seqAt base word = some (some (base + word.2)) := by
        simp only [seqAt, if_neg empty, checkedAdd, if_pos here, map_some]
      have taken : heldOf base (word :: words) = (base + word.2) :: heldOf base words := by
        simp only [heldOf, filterMap_cons, if_neg empty]
      simp only [step, found, taken]
      exact ⟨rfl, rfl, suffix_cons word words⟩

theorem heldOf_reverse (base : Nat) (words : List (Nat × Nat)) :
    heldOf base words.reverse = (heldOf base words).reverse := filterMap_reverse

/-- The column taken from both ends. -/
def ends : DoubleEnded ColumnSeqs Nat where
  next := next
  nextBack := nextBack
  held := fun seqs => heldOf seqs.base seqs.words
  fit := fun seqs => Fit seqs.base seqs.words
  next_eq := fun fit => ⟨(step_eq fit).1, (step_eq fit).2.1⟩
  nextBack_eq := fun {seqs} fit => by
    have turned : Fit seqs.base seqs.words.reverse :=
      fun word member => fit word (mem_reverse.mp member)
    obtain ⟨first, later, -⟩ := step_eq turned
    rw [heldOf_reverse] at first later
    constructor
    · exact first.trans head?_reverse
    · simp only [nextBack, heldOf_reverse, later, tail_reverse, reverse_reverse]
  fit_next := fun fit word member => fit word ((step_eq fit).2.2.mem member)
  fit_nextBack := fun {seqs} fit word member => by
    have turned : Fit seqs.base seqs.words.reverse :=
      fun word member => fit word (mem_reverse.mp member)
    have inside := (step_eq turned).2.2.mem (mem_reverse.mp member)
    exact fit word (mem_reverse.mp inside)

end ColumnSeqs

/-- The seqs the outliers hold from some seq on, ascending. -/
abbrev OutlierSeqs := List Nat

/-- Every seq held, ascending: the column and the outliers merged. -/
abbrev Seqs := Merged ColumnSeqs OutlierSeqs Nat

namespace Seqs

def pull : End → Seqs → Option Nat × Seqs := Merged.pull ColumnSeqs.ends DoubleEnded.ofList

end Seqs

namespace Entries

/-- Every seq held at or after `start`, ascending, from both stores. -/
def seqsFrom (entries : Entries) (start : Nat) : Seqs :=
  let skipped := min (start - entries.base.value) entries.column.length
  let words := entries.column.drop skipped
  { first := Ends.new
      { base := Word.saturatingAdd u64Values entries.base.value skipped
        words := words.zipIdx }
    second := Ends.new (entries.outliers.keys.filter (start ≤ ·)) }

def tailSeq (entries : Entries) : Option Nat :=
  ((entries.seqsFrom Seq.first.value).nextBack ColumnSeqs.ends DoubleEnded.ofList).1

end Entries

/-! ### What words carry -/

theorem unpack_pack {seg offset word : Nat} (packed : pack seg offset = some word) :
    word ≠ hole ∧ split word = (seg, offset) := by
  unfold pack at packed
  split at packed
  · cases packed
  · next fits =>
      have small : offset < 2 ^ offsetBits := by
        have none : offset >>> offsetBits = 0 := by
          by_contra some
          exact fits (Or.inr some)
        rw [Nat.shiftRight_eq_div_pow] at none
        exact (Nat.div_eq_zero_iff_lt (Nat.two_pow_pos _)).mp none
      simp only [ite_none_right_eq_some] at packed
      obtain ⟨full, same⟩ := packed
      rw [Option.some.injEq] at same
      subst same
      refine ⟨full, ?_⟩
      rw [split, ← Nat.shiftLeft_add_eq_or_of_lt small, offsetMask,
        show (48 : Nat) = offsetBits from rfl, Nat.and_two_pow_sub_one_eq_mod, Nat.shiftRight_eq_div_pow, Nat.shiftLeft_eq,
        Nat.mul_add_mod_self_right, Nat.mod_eq_of_lt small, Nat.add_comm,
        Nat.add_mul_div_right _ _ (Nat.two_pow_pos _), Nat.div_eq_of_lt small, Nat.zero_add]

namespace Entries

/-- The word of a seq's slot; none off the column and in a hole. -/
def wordAt (entries : Entries) (seq : Nat) : Option Nat :=
  ((checkedSub seq entries.base.value).bind fun slot => entries.column[slot]?).filter (· ≠ hole)

variable {entries : Entries} {seq : Nat}

theorem wordAt_eq_some {word : Nat} :
    entries.wordAt seq = some word ↔
      ∃ slot, entries.base.value + slot = seq ∧ entries.column[slot]? = some word ∧ word ≠ hole := by
  simp only [wordAt, filter_eq_some_iff, bind_eq_some_iff, checkedSub_eq_some, decide_eq_true_eq]
  constructor
  · rintro ⟨⟨slot, reached, held⟩, full⟩
    exact ⟨slot, reached, held, full⟩
  · rintro ⟨slot, reached, held, full⟩
    exact ⟨⟨slot, reached, held⟩, full⟩

theorem placeOf_eq (entries : Entries) (seq : Nat) :
    entries.placeOf seq = (entries.outliers[seq]?).or ((entries.wordAt seq).map split) := by
  unfold placeOf wordAt
  cases entries.outliers[seq]? with
  | some held => rfl
  | none =>
    cases checkedSub seq entries.base.value with
    | none => rfl
    | some slot =>
      simp only [bind_eq_bind, bind_some, none_or]
      cases entries.column[slot]? with
      | none => rfl
      | some word =>
        simp only [bind_some, unpack, filter_some, ne_eq, decide_not,
          Bool.not_eq_true', decide_eq_false_iff_not]
        by_cases empty : word = hole
        · rw [if_pos empty, if_neg (not_not_intro empty)]
          rfl
        · rw [if_neg empty, if_pos empty]
          rfl

/-- The column lies among the seqs there are, and its lines are counted. -/
structure Shaped (entries : Entries) : Prop where
  within : entries.base.value + entries.column.length ≤ 2 ^ 64
  short : entries.column.length ≤ usizeMax
  counted : entries.inColumn = entries.column.countP (· ≠ hole)

/-- The column and the outliers hold different seqs, each under a segment name. -/
structure Sound (entries : Entries) : Prop extends Shaped entries where
  apart : ∀ (seq word : Nat), entries.wordAt seq = some word → entries.outliers[seq]? = none
  columnNamed : ∀ seq word, entries.wordAt seq = some word → (split word).1 < entries.segs.length
  outlierNamed : ∀ (seq : Nat) (held : Nat × Nat), entries.outliers[seq]? = some held →
    held.1 < entries.segs.length

theorem sound_empty : Sound empty where
  within := by decide
  short := by decide
  counted := rfl
  apart seq word held := by
    obtain ⟨slot, _, here, _⟩ := wordAt_eq_some.mp held
    cases here
  columnNamed seq word held := by
    obtain ⟨slot, _, here, _⟩ := wordAt_eq_some.mp held
    cases here
  outlierNamed seq held here := by simp [empty] at here

/-! ### One line indexed -/

theorem segId_spec (entries : Entries) (name : FileName) :
    (entries.segId name).2.segs[(entries.segId name).1]? = some name ∧
      ∃ minted, (entries.segId name).2 = { entries with segs := entries.segs ++ minted } := by
  unfold segId
  cases found : entries.segs.findIdx? (· == name) with
  | none => exact ⟨by simp, [name], rfl⟩
  | some id =>
    obtain ⟨bound, same, _⟩ := findIdx?_eq_some_iff_getElem.mp found
    refine ⟨?_, [], by rw [append_nil]⟩
    rw [getElem?_eq_getElem bound, eq_of_beq same]

/-- What finding a slot leaves: the same lines in a column that reaches it. -/
structure Reached (before after : Entries) (seq : Seq) (slot : Option Nat) : Prop where
  shaped : Shaped after
  same : ∀ other, after.wordAt other = before.wordAt other
  outliers : after.outliers = before.outliers
  segs : after.segs = before.segs
  off : slot = none → before.wordAt seq.value = none
  here : ∀ at', slot = some at' →
    after.base.value + at' = seq.value ∧ at' < after.column.length

theorem wordAt_of_column_eq_nil (blank : entries.column = []) (seq : Nat) :
    entries.wordAt seq = none := by
  by_contra some
  obtain ⟨word, held⟩ := ne_none_iff_exists'.mp some
  obtain ⟨slot, _, here, _⟩ := wordAt_eq_some.mp held
  rw [blank] at here
  cases here

variable {slot : Nat}

theorem stretch_eq_some (shaped : Shaped entries) {newLen at' : Nat}
    (stretched : entries.stretch slot = some (at', newLen)) :
    at' = slot ∧ slot < newLen ∧ entries.column.length ≤ newLen ∧ newLen ≤ usizeMax ∧
      (newLen = entries.column.length ∨ newLen = slot + 1) := by
  unfold stretch at stretched
  split at stretched
  · next inside =>
      cases stretched
      exact ⟨rfl, inside, Nat.le_refl _, shaped.short, Or.inl rfl⟩
  · next outside =>
      obtain ⟨reach, added, stretched⟩ := bind_eq_some_iff.mp stretched
      obtain ⟨lines, _, stretched⟩ := bind_eq_some_iff.mp stretched
      obtain ⟨holes, _, stretched⟩ := bind_eq_some_iff.mp stretched
      split at stretched
      · cases stretched
      · cases stretched
        obtain ⟨sum, bound⟩ := checkedAdd_eq_some.mp added
        exact ⟨rfl, by omega, by omega, bound, Or.inr sum.symm⟩

theorem wordAt_stretched (entries : Entries) (missing seq : Nat) :
    { entries with column := entries.column ++ List.replicate missing hole }.wordAt seq =
      entries.wordAt seq := by
  apply ext
  intro word
  rw [wordAt_eq_some, wordAt_eq_some]
  apply exists_congr
  intro slot
  apply and_congr_right
  intro _
  apply and_congr_left
  intro full
  by_cases inside : slot < entries.column.length
  · rw [getElem?_append_left inside]
  · rw [getElem?_append_right (Nat.le_of_not_lt inside), getElem?_eq_none
      (Nat.le_of_not_lt inside), getElem?_replicate]
    split
    · rw [Option.some.injEq]
      exact ⟨fun same => absurd same.symm full, fun none => by cases none⟩
    · rfl

theorem slotFor_spec (shaped : Shaped entries) (seq : Seq) :
    Reached entries (entries.slotFor seq).2 seq (entries.slotFor seq).1 := by
  -- A column that holds nothing yet may start anywhere.
  obtain ⟨started, startedEq⟩ : ∃ started, started =
      if entries.column.isEmpty && entries.outliers.isEmpty then { entries with base := seq }
      else entries := ⟨_, rfl⟩
  have begun : Shaped started ∧ (∀ other, started.wordAt other = entries.wordAt other) ∧
      started.outliers = entries.outliers ∧ started.segs = entries.segs := by
    rw [startedEq]
    split
    · next blank =>
        have none : entries.column = [] := by
          rw [Bool.and_eq_true, List.isEmpty_iff] at blank
          exact blank.1
        refine ⟨⟨?_, shaped.short, shaped.counted⟩, fun other => ?_, rfl, rfl⟩
        · simp only [none, length_nil]
          have := seq.lt
          omega
        · exact (wordAt_of_column_eq_nil (by exact none) other).trans
            (wordAt_of_column_eq_nil none other).symm
    · exact ⟨shaped, fun _ => rfl, rfl, rfl⟩
  obtain ⟨startedShaped, words, outliers, segs⟩ := begun
  have unfolded : entries.slotFor seq =
      match (checkedSub seq.value started.base.value).bind started.stretch with
      | none => (none, started)
      | some (slot, newLen) =>
        let missing := newLen - started.column.length
        (some slot, { started with column := started.column ++ List.replicate missing hole }) := by
    rw [startedEq]
    rfl
  rw [unfolded]
  cases found : (checkedSub seq.value started.base.value).bind started.stretch with
  | none =>
    refine ⟨startedShaped, words, outliers, segs, fun _ => ?_, fun _ absent => by cases absent⟩
    rw [← words]
    by_contra some
    obtain ⟨word, held⟩ := ne_none_iff_exists'.mp some
    obtain ⟨slot, reached, here, _⟩ := wordAt_eq_some.mp held
    have inside : slot < started.column.length := (List.getElem?_eq_some_iff.mp here).1
    rw [checkedSub_eq_some.mpr reached, bind_some, stretch, if_pos inside] at found
    cases found
  | some place =>
    obtain ⟨slot, sub, stretched⟩ := bind_eq_some_iff.mp found
    obtain ⟨at', newLen⟩ := place
    obtain ⟨rfl, inside, grown, bound, either⟩ := stretch_eq_some startedShaped stretched
    have reached := checkedSub_eq_some.mp sub
    have size : (started.column ++ List.replicate (newLen - started.column.length) hole).length =
        newLen := by
      rw [length_append, length_replicate]
      omega
    refine ⟨⟨?_, ?_, ?_⟩, fun other => ?_, outliers, segs, fun absent => (by cases absent),
      fun other same => ?_⟩
    · have last := seq.lt
      have within := startedShaped.within
      simp only [size]
      omega
    · simp only [size]
      exact bound
    · have counted := startedShaped.counted
      simp only [countP_append, countP_replicate]
      simpa using counted
    · exact (wordAt_stretched started _ other).trans (words other)
    · cases same
      simp only [size]
      exact ⟨reached, inside⟩

theorem wordAt_setSlot {word : Nat} (inside : slot < entries.column.length) (seq : Nat) :
    (entries.setSlot slot word).wordAt seq =
      if entries.base.value + slot = seq then (if word = hole then none else some word)
      else entries.wordAt seq := by
  have found : entries.column[slot]? = some entries.column[slot] := getElem?_eq_getElem inside
  apply ext
  intro carried
  rw [wordAt_eq_some]
  simp only [setSlot, found]
  split
  · next here =>
      constructor
      · rintro ⟨other, reached, held, full⟩
        have same : other = slot := by omega
        subst same
        rw [getElem?_set_self inside, Option.some.injEq] at held
        subst held
        rw [if_neg full]
      · intro carries
        split at carries
        · cases carries
        · next full =>
            rw [Option.some.injEq] at carries
            subst carries
            exact ⟨slot, here, getElem?_set_self inside, full⟩
  · next elsewhere =>
      rw [wordAt_eq_some]
      apply exists_congr
      intro other
      apply and_congr_right
      intro reached
      rw [getElem?_set_ne fun same : slot = other => elsewhere (same ▸ reached)]

theorem shaped_setSlot (shaped : Shaped entries) (inside : slot < entries.column.length)
    (word : Nat) : Shaped (entries.setSlot slot word) := by
  have found : entries.column[slot]? = some entries.column[slot] := getElem?_eq_getElem inside
  obtain ⟨within, short, counted⟩ := shaped
  simp only [setSlot, found]
  refine ⟨?_, ?_, ?_⟩
  · simpa only [length_set] using within
  · simpa only [length_set] using short
  · have member : entries.column[slot] ∈ entries.column := getElem_mem inside
    have all : entries.column.length = entries.column.countP (fun word => decide (word ≠ hole)) +
        entries.column.countP fun word => decide (word = hole) := by
      rw [length_eq_countP_add_countP fun word => decide (word ≠ hole)]
      simp
    have change := countP_set (p := fun word => decide (word ≠ hole)) (a := word) inside
    rw [change, ← counted]
    generalize entries.column[slot] = held at *
    by_cases before : held = hole
    · have empty : 0 < entries.column.countP fun word => decide (word = hole) :=
        countP_pos_iff.mpr ⟨held, member, by simp [before]⟩
      have room : entries.inColumn + 1 < u64Values := by
        simp only [u64Values]
        simp only [usizeMax] at short
        omega
      by_cases after : word = hole
      · simp [before, after]
      · simp [before, after, saturatingAdd_of_lt room]
    · have full : 0 < entries.inColumn := by
        rw [counted]
        exact countP_pos_iff.mpr ⟨held, member, by simp [before]⟩
      by_cases after : word = hole
      · simp [before, after]
      · simp [before, after]
        omega

@[simp] theorem outliers_setSlot (entries : Entries) (slot word : Nat) :
    (entries.setSlot slot word).outliers = entries.outliers := by
  unfold setSlot
  split <;> rfl

@[simp] theorem segs_setSlot (entries : Entries) (slot word : Nat) :
    (entries.setSlot slot word).segs = entries.segs := by
  unfold setSlot
  split <;> rfl

/-- What indexing a line leaves: its place in the column, and nothing for it among the outliers,
or the other way round. -/
structure Stored (before after : Entries) (seq seg offset : Nat) : Prop where
  shaped : Shaped after
  stores :
    (∃ word, split word = (seg, offset) ∧
      (∀ other, after.wordAt other = if seq = other then some word else before.wordAt other) ∧
      after.outliers = before.outliers.erase seq) ∨
    ((∀ other, after.wordAt other = if seq = other then none else before.wordAt other) ∧
      after.outliers = before.outliers.insert seq (seg, offset))

theorem insert_spec (shaped : Shaped entries) (seq : Seq) (name : FileName) (offset : Nat) :
    ∃ seg minted, (entries.segs ++ minted)[seg]? = some name ∧
      (entries.insert seq name offset).segs = entries.segs ++ minted ∧
      Stored entries (entries.insert seq name offset) seq.value seg offset := by
  obtain ⟨found, minted, named⟩ := segId_spec entries name
  have kept : Shaped (entries.segId name).2 := by
    rw [named]
    exact ⟨shaped.within, shaped.short, shaped.counted⟩
  have words : ∀ other, (entries.segId name).2.wordAt other = entries.wordAt other := by
    rw [named]
    exact fun _ => rfl
  have stored : (entries.segId name).2.outliers = entries.outliers := by rw [named]
  have reached := slotFor_spec kept seq
  have segs : ((entries.segId name).2.slotFor seq).2.segs = entries.segs ++ minted := by
    rw [reached.segs, named]
  rw [named] at found
  refine ⟨_, minted, found, ?_⟩
  unfold insert
  simp only
  generalize (entries.segId name).2.slotFor seq = stretched at reached segs
  obtain ⟨slot, after⟩ := stretched
  simp only at reached segs
  cases slot with
  | none =>
    -- No slot of the column is the line's, so none changes.
    refine ⟨segs, ⟨reached.shaped.within, reached.shaped.short, reached.shaped.counted⟩,
      Or.inr ⟨fun other => ?_, ?_⟩⟩
    · have same := (reached.same other).trans (words other)
      by_cases here : seq.value = other
      · rw [if_pos here, ← here]
        exact (reached.same seq.value).trans (reached.off rfl)
      · rw [if_neg here]
        exact same
    · simp only [reached.outliers, stored]
  | some slot =>
    obtain ⟨here, inside⟩ := reached.here slot rfl
    cases packed : pack (entries.segId name).1 offset with
    | none =>
      have still := shaped_setSlot reached.shaped inside hole
      refine ⟨?_, ⟨still.within, still.short, still.counted⟩, Or.inr ⟨fun other => ?_, ?_⟩⟩
      · simp only [segs_setSlot, segs]
      · refine (wordAt_setSlot inside other).trans ?_
        rw [here, if_pos rfl, reached.same, words]
      · simp only [outliers_setSlot, reached.outliers, stored]
    | some word =>
      obtain ⟨full, carries⟩ := unpack_pack packed
      refine ⟨?_, ?_, Or.inl ⟨word, carries, fun other => ?_, ?_⟩⟩
      · simp only [segs_setSlot, segs]
      · have cleared : Shaped { after with outliers := after.outliers.erase seq.value } :=
          ⟨reached.shaped.within, reached.shaped.short, reached.shaped.counted⟩
        exact shaped_setSlot cleared inside word
      · refine (wordAt_setSlot (by exact inside) other).trans ?_
        simp only [here, if_neg full]
        have same := (reached.same other).trans (words other)
        by_cases there : seq.value = other
        · rw [if_pos there, if_pos there]
        · rw [if_neg there, if_neg there]
          exact same
      · simp only [outliers_setSlot, reached.outliers, stored]

theorem placeOf_named (sound : Sound entries) {place : Nat × Nat}
    (held : entries.placeOf seq = some place) : place.1 < entries.segs.length := by
  rw [placeOf_eq, or_eq_some_iff] at held
  rcases held with outlier | ⟨_, packed⟩
  · exact sound.outlierNamed seq place outlier
  · obtain ⟨word, carried, rfl⟩ := map_eq_some_iff.mp packed
    exact sound.columnNamed seq word carried

variable {before after : Entries} {seg offset : Nat}

theorem placeOf_stored (stored : Stored before after seq seg offset) (other : Nat) :
    after.placeOf other = if seq = other then some (seg, offset) else before.placeOf other := by
  rw [placeOf_eq, placeOf_eq]
  rcases stored.stores with ⟨word, carries, words, outliers⟩ | ⟨words, outliers⟩
  · rw [words, outliers, get_erase]
    by_cases here : seq = other
    · simp only [if_pos here, none_or, map_some, carries]
    · simp only [if_neg here]
  · rw [words, outliers, OrdMap.get_insert]
    by_cases here : seq = other
    · simp only [if_pos here, some_or]
    · simp only [if_neg here]

theorem sound_stored (sound : Sound before)
    (stored : Stored before after seq seg offset) (named : seg < after.segs.length)
    (kept : before.segs.length ≤ after.segs.length) : Sound after := by
  obtain ⟨shaped, ⟨word, carries, words, outliers⟩ | ⟨words, outliers⟩⟩ := stored
  · refine ⟨shaped, fun other held here => ?_, fun other held here => ?_, fun other held here => ?_⟩
    · rw [words] at here
      rw [outliers, get_erase]
      split
      · rfl
      · next elsewhere =>
          rw [if_neg elsewhere] at here
          exact sound.apart other held here
    · rw [words] at here
      split at here
      · cases here
        rw [carries]
        exact named
      · exact Nat.lt_of_lt_of_le (sound.columnNamed other held here) kept
    · rw [outliers, get_erase] at here
      split at here
      · cases here
      · exact Nat.lt_of_lt_of_le (sound.outlierNamed other held here) kept
  · refine ⟨shaped, fun other held here => ?_, fun other held here => ?_, fun other held here => ?_⟩
    · rw [words] at here
      rw [outliers, OrdMap.get_insert]
      split at here
      · cases here
      · next elsewhere =>
          rw [if_neg elsewhere]
          exact sound.apart other held here
    · rw [words] at here
      split at here
      · cases here
      · exact Nat.lt_of_lt_of_le (sound.columnNamed other held here) kept
    · rw [outliers, OrdMap.get_insert] at here
      split at here
      · cases here
        exact named
      · exact Nat.lt_of_lt_of_le (sound.outlierNamed other held here) kept

/-- A line indexed is found where it was put, and every other line where it was. -/
theorem locOf_insert (sound : Sound entries) (seq : Seq) (name : FileName) (offset : Nat) :
    Sound (entries.insert seq name offset) ∧ ∀ other,
      (entries.insert seq name offset).locOf other =
        if seq.value = other then some (name, offset) else entries.locOf other := by
  obtain ⟨seg, minted, found, segs, stored⟩ := insert_spec sound.toShaped seq name offset
  have named : seg < (entries.insert seq name offset).segs.length := by
    rw [segs]
    exact (List.getElem?_eq_some_iff.mp found).1
  have kept : entries.segs.length ≤ (entries.insert seq name offset).segs.length := by
    rw [segs, length_append]
    exact Nat.le_add_right _ _
  refine ⟨sound_stored sound stored named kept, fun other => ?_⟩
  rw [locOf, placeOf_stored stored, segs]
  split
  · simp only [bind_eq_bind, bind_some, found]
  · rw [locOf]
    cases held : entries.placeOf other with
    | none => rfl
    | some place =>
      have bound := placeOf_named sound held
      simp only [bind_eq_bind, bind_some, getElem?_append_left bound]

end Entries

end PackedIndex

end Sprawling
