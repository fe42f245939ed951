import Sprawling.Documents.Boundary
import Sprawling.Documents.Layout

/-! How much of a version one answer carries, and where it is cut. A cut moves back to the nearest
character boundary, so a window never splits a character and is never longer than it may be. -/

namespace Sprawling.Documents

open List Encoding Word

/-- One stretch of a version, and the characters it spells. -/
structure Window where
  span : Span
  text : List Char

namespace Window

/-- The most bytes one window carries past the offset it was asked from. -/
def windowBytesMax : Nat := 64 * 1024

/-- How far a boundary can lie behind a byte in any encoding read here. -/
def reach : Nat := 3

end Window

/-- Bytes lifted out of a version so a window can be cut from them: where they start in it, and how
long it is. -/
structure Lifted where
  at_ : Nat
  bytes : Bytes
  size : Nat

namespace Window

/-- Where a window asked for as `wanted` may end at most. -/
def boundedEnd (wanted : Span) (size : Nat) : Nat :=
  let start := min wanted.start size
  max (min (min wanted.stop size) (Word.saturatingAdd u64Values start windowBytesMax)) start

end Window

namespace Lifted

def isBoundary (lifted : Lifted) (encoding : Encoding) (offset : Nat) : Bool :=
  if offset = 0 ∨ lifted.size ≤ offset then true
  else (checkedSub offset lifted.at_).any fun index =>
    encoding.beginsAt lifted.bytes index lifted.at_

/-- From an offset back to the nearest boundary, but not below a floor. -/
def stepBack (lifted : Lifted) (encoding : Encoding) (floor : Nat) : Nat → Nat
  | 0 => 0
  | probe + 1 =>
    if floor < probe + 1 ∧ !lifted.isBoundary encoding (probe + 1) then
      lifted.stepBack encoding floor probe
    else probe + 1

/-- The nearest character boundary at or before an offset, never stepping below the first lifted
byte. -/
def boundaryAtOrBefore (lifted : Lifted) (encoding : Encoding) (offset : Nat) : Nat :=
  lifted.stepBack encoding (min lifted.at_ offset) offset

def slice (lifted : Lifted) (span : Span) : Option Bytes := do
  let from_ ← checkedSub span.start lifted.at_
  let to_ ← checkedSub span.stop lifted.at_
  let (start, stop) ← (Span.between from_ to_).within lifted.bytes.length
  stretch lifted.bytes start stop

end Lifted

namespace Window

/-- The bytes to lift out of a version of `size` bytes to cut the window `wanted` asks for. -/
def lift (wanted : Span) (size : Nat) : Span :=
  let start := min wanted.start size
  Span.between (start - reach)
    (min (Word.saturatingAdd u64Values (boundedEnd wanted size) reach) size)

/-- The window `wanted` asks for, cut from bytes `lift` named. -/
def cut (encoding : Encoding) (lifted : Lifted) (wanted : Span) : Except AxError Window := do
  let start := lifted.boundaryAtOrBefore encoding (min wanted.start lifted.size)
  let stop := max (lifted.boundaryAtOrBefore encoding (boundedEnd wanted lifted.size)) start
  let span := Span.between start stop
  let bytes ← Transaction.orElse (lifted.slice span)
    (AxError.failure .invalidArgs "read a document window"
      (span.display ++ " lies outside the bytes lifted from "
        ++ String.ofList (Text.decimal lifted.at_))
      "lift the bytes `lift` names for this window, then cut again")
  let text ← encoding.decode bytes
  return ⟨span, text⟩

end Window

def Held.whole (source : Held) : Lifted := ⟨0, source.bytes, source.bytes.length⟩

/-- The bytes a span names, lifted out of a version. -/
def Held.lifted (source : Held) (span : Span) : Lifted :=
  ⟨span.start, (source.bytes.take span.stop).drop span.start, source.bytes.length⟩

namespace Window

/-- The first window of a whole version: what fits of it, up to the last block that does. -/
def head (format : Format) (encoding : Encoding) (source : Held) : Except AxError Window :=
  let size := source.bytes.length
  let fits :=
    match encoding with
    | .utf8 | .utf8Bom =>
      if windowBytesMax < size then
        ((((blocks format source.bytes).map Span.stop).takeWhile
          (· ≤ windowBytesMax)).getLast?).filter (0 < ·)
      else none
    | .utf16Le | .utf16Be => none
  cut encoding source.whole (Span.between 0 (fits.getD size))

/-- The window after a window: the one from its end to the end of the version, cut from the bytes
`lift` names for it. -/
def following (encoding : Encoding) (source : Held) (window : Window) : Except AxError Window :=
  let wanted := Span.between window.span.stop source.bytes.length
  cut encoding (source.lifted (lift wanted source.bytes.length)) wanted

end Window

/-- A version that reads as text. -/
structure TextVersion extends Held where
  encoding : Encoding
  text : List Char
  reads : Reading.of bytes = .text encoding
  spelt : encoding.decode bytes = .ok text

variable {encoding : Encoding}

/-- Whatever reads as text is a version with the characters it spells. -/
theorem TextVersion.exists_of_reads {held : Held}
    (reads : Reading.of held.bytes = .text encoding) :
    ∃ version : TextVersion, version.toHeld = held ∧ version.encoding = encoding := by
  obtain ⟨-, text, read⟩ := Reading.of_eq_text.mp reads
  exact ⟨⟨held, encoding, text, reads, decode_eq_ok.mpr read⟩, rfl, rfl⟩

/-! ### Boundaries seen from part of a version -/

namespace Encoding

theorem opens_take {bytes : Bytes} {count : Nat} (enough : 2 ≤ count) :
    encoding.opens (bytes.take count) = encoding.opens bytes := by
  obtain ⟨rest, rfl⟩ : ∃ rest, count = rest + 2 := ⟨count - 2, by omega⟩
  cases bytes with
  | nil => rfl
  | cons first bytes =>
    cases bytes with
    | nil => rfl
    | cons second bytes => cases encoding <;> rfl

theorem length_spelling_le (encoding : Encoding) (character : Char) :
    (encoding.spelling character).length ≤ Window.reach + 1 := by
  have utf8 : (String.utf8EncodeChar character).length ≤ 4 := by
    rw [String.length_utf8EncodeChar]
    exact character.utf8Size_le_four
  have two : ∀ unit, (encoding.unitBytes unit).length = 2 := by
    intro unit
    cases encoding <;> rfl
  have utf16 : ((encodeUtf16 character).flatMap encoding.unitBytes).length ≤ 4 := by
    rcases encodeUtf16_shows character with ⟨unit, same, -⟩ | ⟨high, low, same, -⟩ <;>
      simp [same, two]
  cases encoding <;> assumption

theorem exists_nearest (encoding : Encoding) {text : List Char} {offset : Nat}
    (inside : offset ≤ (encoding.encode text).length) :
    ∃ start, encoding.IsBoundary text start ∧ start ≤ offset ∧ offset ≤ start + Window.reach ∧
      ∀ other, encoding.IsBoundary text other → other ≤ offset → other ≤ start := by
  classical
  rw [encode_eq] at inside
  obtain ⟨near, found, before, close⟩ :=
    Coding.exists_boundary (encoding.length_spelling_le) inside
  have some_boundary : ∃ back, encoding.IsBoundary text (offset - back) := ⟨offset - near, by
    rw [Nat.sub_sub_self before]
    exact found⟩
  have least := fun other => Nat.find_min' some_boundary (m := other)
  refine ⟨offset - Nat.find some_boundary, Nat.find_spec some_boundary, Nat.sub_le _ _, ?_, ?_⟩
  · have bound := least (offset - near) (by rw [Nat.sub_sub_self before]; exact found)
    omega
  · intro other placed earlier
    have bound := least (offset - other) (by rw [Nat.sub_sub_self earlier]; exact placed)
    omega

end Encoding

namespace Lifted

variable {encoding : Encoding} {offset : Nat}

theorem stepBack_eq {lifted : Lifted} {floor start : Nat}
    (found : lifted.isBoundary encoding start = true) (above : floor ≤ start)
    (before : start ≤ offset)
    (none_between : ∀ other, start < other → other ≤ offset → lifted.isBoundary encoding other = false) :
    lifted.stepBack encoding floor offset = start := by
  induction offset with
  | zero =>
    have zero : start = 0 := by omega
    rw [zero]
    rfl
  | succ probe ih =>
    unfold stepBack
    by_cases here : start = probe + 1
    · rw [← here, found]
      simp
    · have missed := none_between (probe + 1) (by omega) (Nat.le_refl _)
      rw [if_pos ⟨by omega, by rw [missed]; rfl⟩]
      exact ih (by omega) fun other later upto => none_between other later (by omega)

variable {source : Held} {span : Span} {text : List Char}

/-- A stretch of a version shows the version's boundaries where it reaches far enough past them. -/
theorem isBoundary_iff (spelt : encoding.encode text = source.bytes)
    (from_ : span.start ≤ offset) (inside : offset ≤ source.bytes.length)
    (covered : offset + 2 ≤ span.stop ∨ span.stop = source.bytes.length) :
    (source.lifted span).isBoundary encoding offset = true ↔ encoding.IsBoundary text offset := by
  have counted := source.counted
  have ends : encoding.IsBoundary text source.bytes.length := by
    rw [← spelt, Encoding.encode_eq]
    exact Coding.isBoundary_end
  unfold isBoundary
  by_cases edge : offset = 0 ∨ (source.lifted span).size ≤ offset
  · rw [if_pos edge]
    refine iff_of_true rfl ?_
    rcases edge with rfl | past
    · exact Coding.isBoundary_zero
    · have whole : offset = source.bytes.length := Nat.le_antisymm inside past
      rw [whole]
      exact ends
  · have short : offset < source.bytes.length := by
      rw [not_or] at edge
      exact Nat.lt_of_not_le edge.2
    have index : checkedSub offset (source.lifted span).at_ = some (offset - span.start) :=
      if_pos from_
    have back : span.start + (offset - span.start) = offset := Nat.add_sub_cancel' from_
    have seen : encoding.opens ((source.lifted span).bytes.drop (offset - span.start)) =
        encoding.opens (source.bytes.drop offset) := by
      show encoding.opens (((source.bytes.take span.stop).drop span.start).drop _) = _
      rw [drop_drop, back]
      rcases covered with enough | whole
      · rw [drop_take, Encoding.opens_take (by omega)]
      · rw [whole, take_length]
    rw [if_neg edge, index, Option.any_some, beginsAt_iff (by
      show span.start + (offset - span.start) < _
      omega), seen]
    have whole := @Encoding.beginsAt_iff_isBoundary encoding source text spelt offset short
    rw [beginsAt_iff (by omega), Nat.zero_add] at whole
    show encoding.width ∣ span.start + (offset - span.start) ∧ _ ↔ _
    rw [back]
    exact whole

theorem boundaryAtOrBefore_eq (spelt : encoding.encode text = source.bytes)
    {start : Nat} (placed : encoding.IsBoundary text start) (before : start ≤ offset)
    (nearest : ∀ other, encoding.IsBoundary text other → other ≤ offset → other ≤ start)
    (from_ : span.start ≤ start) (inside : offset ≤ source.bytes.length)
    (covered : offset + 2 ≤ span.stop ∨ span.stop = source.bytes.length) :
    (source.lifted span).boundaryAtOrBefore encoding offset = start := by
  apply stepBack_eq
  · exact (isBoundary_iff spelt from_ (by omega) (by omega)).mpr placed
  · exact Nat.le_trans (Nat.min_le_left _ _) from_
  · exact before
  · intro other later upto
    rw [Bool.eq_false_iff]
    intro found
    have known := nearest other
      ((isBoundary_iff spelt (by omega) (by omega) (by omega)).mp found) upto
    omega

theorem slice_lifted {wanted : Span} (from_ : span.start ≤ wanted.start)
    (upto : wanted.stop ≤ span.stop) (inside : span.stop ≤ source.bytes.length) :
    (source.lifted span).slice wanted =
      some ((source.bytes.take wanted.stop).drop wanted.start) := by
  have order := wanted.ordered
  have first : checkedSub wanted.start span.start = some (wanted.start - span.start) :=
    if_pos from_
  have last : checkedSub wanted.stop span.start = some (wanted.stop - span.start) :=
    if_pos (by omega)
  have between := Span.between_of_le (Nat.sub_le_sub_right order span.start)
  have size : (source.lifted span).bytes.length = span.stop - span.start := by
    show ((source.bytes.take span.stop).drop span.start).length = _
    rw [length_drop, length_take_of_le inside]
  have within : (⟨_, _, Nat.sub_le_sub_right order span.start⟩ : Span).within
      (source.lifted span).bytes.length =
        some (wanted.start - span.start, wanted.stop - span.start) := by
    apply if_pos
    show wanted.stop - span.start ≤ _
    rw [size]
    omega
  have piece : stretch (source.lifted span).bytes (wanted.start - span.start)
      (wanted.stop - span.start) = some ((source.bytes.take wanted.stop).drop wanted.start) := by
    rw [stretch_eq_some, size]
    refine ⟨⟨by omega, by omega⟩, ?_⟩
    show (((source.bytes.take span.stop).drop span.start).take _).drop _ = _
    have upto_ : span.start + (wanted.stop - span.start) = wanted.stop := by omega
    have back : span.start + (wanted.start - span.start) = wanted.start := by omega
    rw [take_drop, upto_, drop_drop, back, take_take, Nat.min_eq_left upto]
  unfold slice
  show (checkedSub wanted.start span.start).bind _ = _
  rw [first, Option.bind_some]
  show (checkedSub wanted.stop span.start).bind _ = _
  rw [last, Option.bind_some, between]
  show (Option.bind (Span.within _ _) _) = _
  rw [within, Option.bind_some]
  exact piece

end Lifted

namespace Window

variable (wanted : Span)

theorem boundedEnd_bounds (size : Nat) :
    min wanted.start size ≤ boundedEnd wanted size ∧ boundedEnd wanted size ≤ size ∧
      boundedEnd wanted size ≤ min wanted.start size + windowBytesMax := by
  unfold boundedEnd Word.saturatingAdd
  simp only
  omega

theorem boundedEnd_to_end {wanted : Span} {size : Nat} (counted : size < u64Values)
    (upto : size ≤ wanted.stop) :
    boundedEnd wanted size = size ∨
      boundedEnd wanted size = min wanted.start size + windowBytesMax := by
  unfold boundedEnd Word.saturatingAdd
  simp only
  omega

/-- A stretch of a version that holds what `wanted` needs. -/
def Covers (span wanted : Span) (size : Nat) : Prop :=
  span.start ≤ min wanted.start size - reach ∧ span.stop ≤ size ∧
    (boundedEnd wanted size + 2 ≤ span.stop ∨ span.stop = size)

theorem covers_lift {size : Nat} (counted : size < u64Values) :
    Covers (lift wanted size) wanted size := by
  obtain ⟨first, last, -⟩ := boundedEnd_bounds wanted size
  have order : min wanted.start size - reach ≤
      min (Word.saturatingAdd u64Values (boundedEnd wanted size) reach) size := by
    unfold Word.saturatingAdd
    omega
  have same : lift wanted size = ⟨_, _, order⟩ := Span.between_of_le order
  rw [same]
  refine ⟨Nat.le_refl _, Nat.min_le_right _ _, ?_⟩
  show boundedEnd wanted size + 2 ≤ min _ size ∨ min _ size = size
  unfold Word.saturatingAdd reach
  omega

variable (version : TextVersion)

theorem exists_window (wanted : Span) :
    ∃ window : Window,
      (∀ span, Covers span wanted version.bytes.length →
        cut version.encoding (version.toHeld.lifted span) wanted = .ok window) ∧
      version.encoding.encode window.text =
        (version.bytes.take window.span.stop).drop window.span.start ∧
      version.encoding.IsBoundary version.text window.span.start ∧
      version.encoding.IsBoundary version.text window.span.stop ∧
      window.span.start ≤ min wanted.start version.bytes.length ∧
      min wanted.start version.bytes.length ≤ window.span.start + reach ∧
      window.span.stop ≤ boundedEnd wanted version.bytes.length ∧
      boundedEnd wanted version.bytes.length ≤ window.span.stop + reach ∧
      (∀ other, version.encoding.IsBoundary version.text other →
        other ≤ min wanted.start version.bytes.length → other ≤ window.span.start) ∧
      (∀ other, version.encoding.IsBoundary version.text other →
        other ≤ boundedEnd wanted version.bytes.length → other ≤ window.span.stop) := by
  have spelt := (characters_eq_some.mp (decode_eq_ok.mp version.spelt))
  obtain ⟨first, last, -⟩ := boundedEnd_bounds wanted version.bytes.length
  obtain ⟨start, start_at, start_le, start_near, start_last⟩ :=
    @Encoding.exists_nearest version.encoding version.text (min wanted.start version.bytes.length)
      (by rw [spelt.1]; exact Nat.min_le_right _ _)
  obtain ⟨stop, stop_at, stop_le, stop_near, stop_last⟩ :=
    @Encoding.exists_nearest version.encoding version.text
      (boundedEnd wanted version.bytes.length) (by rw [spelt.1]; exact last)
  have order : start ≤ stop := stop_last start start_at (Nat.le_trans start_le first)
  obtain ⟨before, piece, after, joined, -, piece_is⟩ :=
    Coding.piece_between order start_at stop_at version.encoding.shows.nonempty
  have whole := spelt.1
  rw [Encoding.encode_eq] at whole
  rw [← Encoding.encode_eq, whole] at piece_is
  have read : version.encoding.decode ((version.bytes.take stop).drop start) = .ok piece := by
    rw [decode_eq_ok, characters_eq_some]
    refine ⟨piece_is, fun plain member => spelt.2 plain ?_⟩
    rw [joined]
    exact mem_append_left _ (mem_append_right _ member)
  refine ⟨⟨⟨start, stop, order⟩, piece⟩, ?_, piece_is, start_at, stop_at, start_le, start_near,
    stop_le, stop_near, start_last, stop_last⟩
  rintro span ⟨from_, inside, covered⟩
  have size : (version.toHeld.lifted span).size = version.bytes.length := rfl
  have starts : (version.toHeld.lifted span).boundaryAtOrBefore version.encoding
      (min wanted.start version.bytes.length) = start :=
    Lifted.boundaryAtOrBefore_eq spelt.1 start_at start_le start_last (by omega)
      (Nat.min_le_right _ _) (by omega)
  have stops : (version.toHeld.lifted span).boundaryAtOrBefore version.encoding
      (boundedEnd wanted version.bytes.length) = stop :=
    Lifted.boundaryAtOrBefore_eq spelt.1 stop_at stop_le stop_last (by omega) last covered
  have sliced : (version.toHeld.lifted span).slice ⟨start, stop, order⟩ =
      some ((version.bytes.take stop).drop start) := by
    apply Lifted.slice_lifted
    · show span.start ≤ start
      omega
    · show stop ≤ span.stop
      omega
    · exact inside
  simp only [cut, size, starts, stops, Nat.max_eq_left order, Span.between_of_le order, sliced,
    Transaction.orElse, Outcome.bind_ok, read]
  rfl

theorem whole_eq (source : Held) :
    source.whole = source.lifted ⟨0, source.bytes.length, Nat.zero_le _⟩ := by
  simp [Held.whole, Held.lifted]

theorem covers_whole (size : Nat) : Covers ⟨0, size, Nat.zero_le _⟩ wanted size :=
  ⟨Nat.zero_le _, Nat.le_refl _, .inr rfl⟩

theorem isBoundary_size : version.encoding.IsBoundary version.text version.bytes.length := by
  have spelt := (characters_eq_some.mp (decode_eq_ok.mp version.spelt)).1
  rw [← spelt, Encoding.encode_eq]
  exact Coding.isBoundary_end

theorem head_eq (format : Format) (encoding : Encoding) (source : Held) :
    ∃ wanted : Span, wanted.start = 0 ∧
      head format encoding source = cut encoding source.whole wanted :=
  ⟨_, Nat.zero_min _, rfl⟩

/-- One window follows another in a reader that asks each from the last one's end. -/
def Next (version : TextVersion) (window next : Window) : Prop :=
  following version.encoding version.toHeld window = .ok next ∧
    next.span.start = window.span.stop ∧ window.span.stop < next.span.stop

variable {window : Window}

/-- Before the end of a version, a window that ends on a boundary has a next one, which starts there
and goes further. -/
theorem exists_next (placed : version.encoding.IsBoundary version.text window.span.stop)
    (short : window.span.stop < version.bytes.length) :
    ∃ next, Next version window next ∧
      version.encoding.IsBoundary version.text next.span.stop ∧
      next.span.stop ≤ version.bytes.length := by
  have counted := version.counted
  have wanted_is := Span.between_of_le (Nat.le_of_lt short)
  obtain ⟨next, given, -, -, next_at, start_le, -, stop_le, stop_near, start_last, stop_last⟩ :=
    exists_window version (Span.between window.span.stop version.bytes.length)
  have made := given _ (covers_lift _ counted)
  rw [wanted_is] at start_le stop_le stop_near start_last stop_last
  have ends := @boundedEnd_to_end ⟨_, _, Nat.le_of_lt short⟩ _ counted (Nat.le_refl _)
  have bounds := boundedEnd_bounds ⟨_, _, Nat.le_of_lt short⟩ version.bytes.length
  have started : min window.span.stop version.bytes.length = window.span.stop :=
    Nat.min_eq_left (Nat.le_of_lt short)
  simp only [started] at start_le start_last ends bounds
  have starts := start_last _ placed (Nat.le_refl _)
  have further : window.span.stop < next.span.stop := by
    rcases ends with whole | full
    · rw [whole] at stop_last
      exact Nat.lt_of_lt_of_le short (stop_last _ (isBoundary_size version) (Nat.le_refl _))
    · unfold windowBytesMax reach at *
      omega
  exact ⟨next, ⟨made, Nat.le_antisymm start_le starts, further⟩, next_at,
    Nat.le_trans stop_le bounds.2.1⟩

theorem exists_rest (placed : version.encoding.IsBoundary version.text window.span.stop)
    (inside : window.span.stop ≤ version.bytes.length) :
    ∃ rest, List.IsChain (Next version) (window :: rest) ∧
      ((window :: rest).getLast (cons_ne_nil _ _)).span.stop = version.bytes.length := by
  generalize left_is : version.bytes.length - window.span.stop = left
  induction left using Nat.strongRecOn generalizing window with
  | ind left ih =>
    rcases Nat.eq_or_lt_of_le inside with done | short
    · exact ⟨[], .singleton _, done⟩
    · obtain ⟨next, follows, next_at, next_in⟩ := exists_next version placed short
      have further := follows.2.2
      obtain ⟨rest, chained, ends⟩ :=
        ih (version.bytes.length - next.span.stop) (by omega) next_at next_in rfl
      refine ⟨next :: rest, isChain_cons_cons.mpr ⟨follows, chained⟩, ?_⟩
      rw [getLast_cons (cons_ne_nil _ _)]
      exact ends

/-- Every window asked for is the one the whole version gives, and a reader that asks each window from
the end of the one before reaches the end of the version. -/
theorem windows_tile (format : Format) (version : TextVersion) :
    (∀ wanted, ∃ window : Window,
      cut version.encoding version.toHeld.whole wanted = .ok window ∧
      cut version.encoding
        (version.toHeld.lifted (lift wanted version.bytes.length)) wanted = .ok window ∧
      some (version.encoding.encode window.text) =
        stretch version.bytes window.span.start window.span.stop ∧
      window.span.start ≤ min wanted.start version.bytes.length ∧
      min wanted.start version.bytes.length ≤ window.span.start + 3 ∧
      window.span.stop ≤ min wanted.start version.bytes.length + windowBytesMax ∧
      version.encoding.IsBoundary version.text window.span.start ∧
      version.encoding.IsBoundary version.text window.span.stop) ∧
    ∃ first rest, head format version.encoding version.toHeld = .ok first ∧
      first.span.start = 0 ∧ List.IsChain (Next version) (first :: rest) ∧
      ((first :: rest).getLast (cons_ne_nil _ _)).span.stop = version.bytes.length := by
  constructor
  · intro wanted
    obtain ⟨window, given, piece, start_at, stop_at, start_le, start_near, stop_le, -⟩ :=
      exists_window version wanted
    have bounds := boundedEnd_bounds wanted version.bytes.length
    refine ⟨window, ?_, given _ (covers_lift wanted version.counted), ?_, start_le, start_near,
      by omega, start_at, stop_at⟩
    · rw [whole_eq]
      exact given _ (covers_whole wanted _)
    · rw [piece]
      exact (stretch_eq_some.mpr ⟨⟨window.span.ordered, by omega⟩, rfl⟩).symm
  · obtain ⟨wanted, starts, asked⟩ := head_eq format version.encoding version.toHeld
    obtain ⟨first, given, -, -, stop_at, start_le, -, stop_le, -⟩ := exists_window version wanted
    have bounds := boundedEnd_bounds wanted version.bytes.length
    obtain ⟨rest, chained, ends⟩ := exists_rest version stop_at (by omega)
    refine ⟨first, rest, ?_, by omega, chained, ends⟩
    rw [asked, whole_eq]
    exact given _ (covers_whole wanted _)

/-- A character of three bytes between two of one. -/
def threeBytes : Held := ⟨[97, 0xE2, 0x82, 0xAC, 98], by decide⟩

/-- A window that would end inside a character ends before it. -/
theorem windows_tile_threeBytes :
    ∃ version : TextVersion, version.toHeld = threeBytes ∧ ∃ window : Window,
      cut version.encoding version.toHeld.whole ⟨0, 2, by decide⟩ = .ok window ∧
        window.text = ['a'] ∧ version.encoding.IsBoundary version.text window.span.stop := by
  have reads : Reading.of threeBytes.bytes = .text .utf8 := by decide +kernel
  obtain ⟨version, held, encoding⟩ := TextVersion.exists_of_reads reads
  obtain ⟨window, given, -, -, -, -, -, -, stop⟩ :=
    (windows_tile .plain version).1 ⟨0, 2, by decide⟩
  refine ⟨version, held, window, given, ?_, stop⟩
  rw [held, encoding] at given
  have known : cut .utf8 threeBytes.whole ⟨0, 2, by decide⟩ = .ok ⟨⟨0, 1, by decide⟩, ['a']⟩ := rfl
  rw [known] at given
  cases given
  rfl

end Window

end Sprawling.Documents
