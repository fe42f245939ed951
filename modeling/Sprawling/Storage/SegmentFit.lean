import Sprawling.Storage.Waves

/-! What a segment may hold for its name to be the seq of its first line, and the writer's place in
such segments, line after line. -/

namespace Sprawling

open List Lines

namespace Segment

variable {Hash Draft : Type} {wire : Wire Hash Draft} {rollBytes : Nat}

theorem segmentFileName_inj {first second : Seq}
    (same : segmentFileName first = segmentFileName second) : first = second := by
  have equal := compare_segmentFileName first second
  rw [same, Std.ReflOrd.compare_self] at equal
  exact Seq.ext_value (Nat.compare_eq_eq.mp equal.symm)

/-- What a segment named for `seq` may hold: its first whole line, if it has one, is the line of
`seq`, and it is within the threshold unless it is a single line. -/
structure Fits (wire : Wire Hash Draft) (rollBytes : Nat) (seq : Seq) (bytes : Bytes) : Prop where
  first : ∀ line ∈ (complete newline bytes).head?,
    ∃ envelope, wire.envelope line = .ok envelope ∧ envelope.seq = seq
  size : bytes.length ≤ rollBytes ∨ newline ∉ bytes.dropLast

theorem fits_nil (seq : Seq) : Fits wire rollBytes seq [] := by
  constructor
  · intro line first
    cases first
  · exact Or.inr (by simp)

theorem complete_head_append {bytes more : Bytes} {line : Bytes}
    (first : line ∈ (complete newline bytes).head?) :
    line ∈ (complete newline (bytes ++ more)).head? := by
  have whole : Lines.whole newline bytes ++ Lines.tail newline bytes = bytes :=
    whole_append_tail bytes
  have cut : complete newline (bytes ++ more) =
      complete newline bytes ++ complete newline (Lines.tail newline bytes ++ more) := by
    rw [← complete_whole_append, ← append_assoc, whole]
  rw [cut]
  cases lines : complete newline bytes with
  | nil =>
    rw [lines] at first
    cases first
  | cons head rest =>
    rw [lines] at first
    exact first

variable {seq : Seq}

/-- A beginning of what fits a name fits it. -/
theorem Fits.of_prefix {shorter bytes : Bytes} (fits : Fits wire rollBytes seq bytes)
    (begins : shorter <+: bytes) : Fits wire rollBytes seq shorter := by
  obtain ⟨more, shape⟩ := begins
  constructor
  · intro line first
    apply fits.first line
    rw [← shape]
    exact complete_head_append first
  · cases fits.size with
    | inl small =>
      left
      rw [← shape, length_append] at small
      omega
    | inr single =>
      right
      intro inside
      apply single
      cases more with
      | nil => rwa [← shape, append_nil]
      | cons byte more =>
        rw [← shape, dropLast_append_of_ne_nil (cons_ne_nil _ _)]
        exact mem_append_left _ (dropLast_subset _ inside)

theorem fits_line (lawful : wire.Lawful) {draft : Draft} {prev : Hash} {line : Bytes}
    (written : wire.canonicalLine (.fromDraft draft seq prev) = .ok line) :
    Fits wire rollBytes seq (line ++ [newline]) := by
  have unended := (lawful.line_bytes written).1
  constructor
  · intro first head
    have cut : complete newline (line ++ [newline]) = [line] := by
      rw [complete, split_line_append unended]
      rfl
    rw [cut] at head
    cases head
    cases lawful.line_envelope written with
    | intro ig read => exact ⟨_, read, rfl⟩
  · right
    rw [dropLast_concat]
    exact unended

theorem complete_ne_nil {bytes : Bytes} (ended : newline ∈ bytes) :
    complete newline bytes ≠ [] := by
  intro bare
  have whole : Lines.whole newline bytes ++ Lines.tail newline bytes = bytes :=
    whole_append_tail bytes
  rw [Lines.whole, bare, join_nil, nil_append] at whole
  exact mark_not_mem_tail bytes (whole.symm ▸ ended)

theorem Fits.append {bytes more : Bytes} (fits : Fits wire rollBytes seq bytes)
    (ended : newline ∈ bytes) (small : (bytes ++ more).length ≤ rollBytes) :
    Fits wire rollBytes seq (bytes ++ more) := by
  constructor
  · intro line first
    cases lines : complete newline bytes with
    | nil => exact absurd lines (complete_ne_nil ended)
    | cons head rest =>
      have here : head ∈ (complete newline bytes).head? := by rw [lines]; rfl
      have same := @complete_head_append _ more _ here
      rw [Option.mem_def] at first same
      rw [first] at same
      cases same
      exact fits.first line here
  · exact Or.inl small

end Segment

/-- Where the next line goes: to the start of the segment named for it, or past a whole line of a
segment named for an earlier one. -/
def StandsAt (dir : Directory) (path : FileName) (len : Nat) (next : Seq) : Prop :=
  (len = 0 ∧ path = Segment.segmentFileName next) ∨
    ∃ seq bytes, path = Segment.segmentFileName seq ∧ seq.value < next.value ∧
      dir[path]? = some bytes ∧ newline ∈ bytes.take len

namespace StandsAt

variable {dir other : Directory} {path : FileName} {len : Nat} {next : Seq}

theorem named (stands : StandsAt dir path len next) :
    ∃ seq, path = Segment.segmentFileName seq ∧ seq.value ≤ next.value := by
  cases stands with
  | inl start => exact ⟨next, start.2, Nat.le_refl _⟩
  | inr past =>
    obtain ⟨seq, bytes, name, less, -, -⟩ := past
    exact ⟨seq, name, Nat.le_of_lt less⟩

theorem past (stands : StandsAt dir path len next) (some : 0 < len) :
    ∃ seq bytes, path = Segment.segmentFileName seq ∧ seq.value < next.value ∧
      dir[path]? = Option.some bytes ∧ newline ∈ bytes.take len := by
  cases stands with
  | inl start => omega
  | inr past => exact past

/-- A place stands while its segment keeps the bytes before it. -/
theorem congr (stands : StandsAt dir path len next)
    (kept : 0 < len → ∀ bytes, dir[path]? = some bytes →
      ∃ more, other[path]? = some more ∧ more.take len = bytes.take len) :
    StandsAt other path len next := by
  cases stands with
  | inl start => exact Or.inl start
  | inr past =>
    obtain ⟨seq, bytes, name, less, held, ended⟩ := past
    have some : 0 < len := by
      apply Nat.pos_of_ne_zero
      intro zero
      rw [zero, take_zero] at ended
      cases ended
    obtain ⟨more, found, same⟩ := kept some bytes held
    exact Or.inr ⟨seq, more, name, less, found, same ▸ ended⟩

end StandsAt

namespace Tip

variable {Hash Draft : Type} {wire : Wire Hash Draft} {rollBytes : Nat}

/-- A tip whose segments all fit their names, the last of them the one it ends in. -/
structure Stands (wire : Wire Hash Draft) (rollBytes : Nat) (tip : Tip Hash) : Prop where
  fits : ∀ path bytes, tip.dir[path]? = some bytes → ∃ seq, path = Segment.segmentFileName seq ∧
    Segment.Fits wire rollBytes seq bytes ∧ (path = tip.path ∨ seq.value < tip.seq.value)
  ends : ((tip.dir[tip.path]?).getD []).length = tip.len
  place : StandsAt tip.dir tip.path tip.len tip.seq

variable {tip next : Tip Hash} {draft : Draft}

theorem put_eq_ok (laid : put wire rollBytes tip draft = .ok next) :
    ∃ line, wire.canonicalLine (.fromDraft draft tip.seq tip.prev) = .ok line ∧
      tip.seq.next = .ok next.seq ∧ next.dir = tip.dir.extend next.path (line ++ [newline]) ∧
      ((0 < tip.len ∧ next.path = Segment.segmentFileName tip.seq ∧ next.len = line.length + 1) ∨
        (¬ (0 < tip.len ∧ rollBytes < tip.len + (line.length + 1)) ∧ next.path = tip.path ∧
          next.len = tip.len + (line.length + 1))) := by
  unfold put at laid
  cases written : wire.canonicalLine (.fromDraft draft tip.seq tip.prev) with
  | error e =>
    rw [written] at laid
    cases laid
  | ok line =>
    cases counted : tip.seq.next with
    | error e =>
      rw [written, counted] at laid
      cases laid
    | ok seq =>
      rw [written, counted] at laid
      by_cases rolls : 0 < tip.len ∧ rollBytes < tip.len + (line.length + 1)
      · have decided : (decide (tip.len > 0) &&
            decide (tip.len + (line.length + 1) > rollBytes)) = true := by simpa using rolls
        simp only [decided, if_true, Except.ok.injEq] at laid
        subst laid
        exact ⟨line, rfl, rfl, rfl, Or.inl ⟨rolls.1, rfl, Nat.zero_add _⟩⟩
      · have decided : (decide (tip.len > 0) &&
            decide (tip.len + (line.length + 1) > rollBytes)) = false := by simpa using rolls
        simp only [decided, Bool.false_eq_true, if_false, Except.ok.injEq] at laid
        subst laid
        exact ⟨line, rfl, rfl, rfl, Or.inr ⟨rolls, rfl, rfl⟩⟩

theorem get_extend (dir : Directory) (path other : FileName) (bytes : Bytes) :
    (dir.extend path bytes)[other]? =
      if path = other then some ((dir[path]?).getD [] ++ bytes) else dir[other]? := by
  rw [Directory.extend, OrdMap.get_insert]

theorem Stands.put (lawful : wire.Lawful)
    (stands : Stands wire rollBytes tip) (laid : Tip.put wire rollBytes tip draft = .ok next) :
    Stands wire rollBytes next := by
  obtain ⟨line, written, counted, dir, place⟩ := put_eq_ok laid
  have after := Seq.next_eq_ok.mp counted
  -- The segment the line goes to is named for a seq up to this one, and what it then holds fits.
  have lands : ∃ seq, next.path = Segment.segmentFileName seq ∧ seq.value ≤ tip.seq.value ∧
      Segment.Fits wire rollBytes seq ((tip.dir[next.path]?).getD [] ++ (line ++ [newline])) ∧
      ((tip.dir[next.path]?).getD [] ++ (line ++ [newline])).length = next.len ∧
      (tip.path = next.path ∨ 0 < tip.len) := by
    cases place with
    | inl rolled =>
      obtain ⟨some, path, len⟩ := rolled
      obtain ⟨named, _, name, less, _, _⟩ := stands.place.past some
      have fresh : tip.dir[next.path]? = none := by
        cases found : tip.dir[next.path]? with
        | none => rfl
        | some bytes =>
          obtain ⟨seq, same, -, here⟩ := stands.fits _ _ found
          rw [path] at same
          have equal := Segment.segmentFileName_inj same
          cases here with
          | inl own =>
            rw [path, name] at own
            have other := Segment.segmentFileName_inj own
            rw [← other] at less
            omega
          | inr below =>
            rw [← equal] at below
            omega
      refine ⟨tip.seq, path, Nat.le_refl _, ?_, ?_, Or.inr some⟩
      · rw [fresh]
        exact Segment.fits_line lawful written
      · rw [fresh, len]
        simp
    | inr stayed =>
      obtain ⟨small, path, len⟩ := stayed
      have size : ((tip.dir[tip.path]?).getD [] ++ (line ++ [newline])).length = next.len := by
        rw [length_append, stands.ends, len]
        simp
      rw [path]
      by_cases empty : tip.len = 0
      · have bare : (tip.dir[tip.path]?).getD [] = [] := by
          apply eq_nil_of_length_eq_zero
          rw [stands.ends, empty]
        have start : tip.path = Segment.segmentFileName tip.seq := by
          cases stands.place with
          | inl start => exact start.2
          | inr past =>
            obtain ⟨_, _, _, _, _, ended⟩ := past
            rw [empty, take_zero] at ended
            cases ended
        refine ⟨tip.seq, start, Nat.le_refl _, ?_, size, Or.inl rfl⟩
        rw [bare]
        exact Segment.fits_line lawful written
      · obtain ⟨seq, bytes, name, less, held, ended⟩ :=
          stands.place.past (Nat.pos_of_ne_zero empty)
        obtain ⟨other, same, fits, -⟩ := stands.fits _ _ held
        rw [name] at same
        have equal := Segment.segmentFileName_inj same
        rw [held, Option.getD_some] at size ⊢
        refine ⟨seq, name, Nat.le_of_lt less, ?_, size, Or.inl rfl⟩
        rw [equal]
        apply fits.append (mem_of_mem_take ended)
        rw [size, len]
        omega
  obtain ⟨seq, name, bound, fits, size, was⟩ := lands
  have here : next.dir[next.path]? =
      some ((tip.dir[next.path]?).getD [] ++ (line ++ [newline])) := by
    rw [dir, get_extend, if_pos rfl]
  constructor
  · intro path bytes found
    by_cases own : path = next.path
    · rw [own, here] at found
      cases found
      exact ⟨seq, own.trans name, fits, Or.inl own⟩
    · rw [dir, get_extend, if_neg (Ne.symm own)] at found
      obtain ⟨other, same, old, held⟩ := stands.fits path bytes found
      refine ⟨other, same, old, Or.inr ?_⟩
      cases held with
      | inr below => omega
      | inl last =>
        cases was with
        | inl stayed => exact absurd (last.trans stayed) own
        | inr some =>
          obtain ⟨named, _, called, less, _, _⟩ := stands.place.past some
          rw [last, called] at same
          rw [← Segment.segmentFileName_inj same]
          omega
  · rw [here]
    exact size
  · refine Or.inr ⟨seq, _, name, by omega, here, ?_⟩
    rw [← size, take_length]
    simp

theorem Stands.puts (lawful : wire.Lawful) {tip last : Tip Hash} {drafts : List Draft}
    (stands : Stands wire rollBytes tip)
    (laid : drafts.foldlM (Tip.put wire rollBytes) tip = .ok last) :
    Stands wire rollBytes last :=
  @Outcome.foldlM_holds _ _ _ _ (fun _ => Stands wire rollBytes) [] drafts tip last stands
    (fun _ _ _ _ held here => held.put lawful here) laid

end Tip

end Sprawling
