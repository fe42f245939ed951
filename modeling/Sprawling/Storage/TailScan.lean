import Sprawling.Storage.Open

/-! What the tail scan finds: the lines that continue the chain, then torn writes. -/

namespace Sprawling

open List LineCheck Reading Lines

namespace Open

variable {Hash Draft : Type} [DecidableEq Hash] {wire : Wire Hash Draft}

/-- The lines of a tail: first those that continue the chain, then torn writes only. -/
structure Splits (wire : Wire Hash Draft) (check : LineCheck Hash) (lines good junk : List Bytes)
    (after : LineCheck Hash) : Prop where
  cut : lines = good ++ junk
  chain : check.advanceAll wire.toCodec good = .ok after
  torn : ∀ line ∈ junk, carriesEnvelope wire.toCodec line = false

section Envelopes

variable {codec : Codec Hash (EventRecord Hash Draft)}

omit [DecidableEq Hash] in
theorem after_last_zero {raw : Bytes} (nonzero : 0 ∉ raw) :
    (raw.reverse.takeWhile (· ≠ 0)).reverse = raw := by
  rw [takeWhile_eq_self_iff.mpr, reverse_reverse]
  intro byte member
  have present := mem_reverse.mp member
  simp only [ne_eq, decide_not, Bool.not_eq_eq_eq_not, Bool.not_true, decide_eq_false_iff_not]
  intro zero
  exact nonzero (zero ▸ present)

end Envelopes

variable {raw : Bytes}

omit [DecidableEq Hash] in
theorem carriesEnvelope_of_envelope (lawful : wire.Lawful) {envelope : Envelope Hash}
    (read : wire.envelope raw = .ok envelope) :
    carriesEnvelope wire.toCodec raw = true := by
  rw [carriesEnvelope, after_last_zero (lawful.envelope_bytes read).2, read]

omit [DecidableEq Hash] in
theorem no_envelope_of_torn (lawful : wire.Lawful)
    (torn : carriesEnvelope wire.toCodec raw = false) :
    ∃ e, wire.envelope raw = .error e := by
  cases read : wire.envelope raw with
  | error e => exact ⟨e, rfl⟩
  | ok envelope =>
    rw [carriesEnvelope_of_envelope lawful read] at torn
    cases torn

variable {check after : LineCheck Hash} {checked : CheckedLine (EventRecord Hash Draft)}

theorem carriesEnvelope_of_advance (lawful : wire.Lawful)
    (passed : check.advance wire.toCodec raw = .ok (checked, after)) :
    carriesEnvelope wire.toCodec raw = true := by
  rcases envelope_of_advance passed with ⟨envelope, read⟩
  exact carriesEnvelope_of_envelope lawful read

variable {lines : List Bytes}

theorem carriesEnvelope_of_advanceAll (lawful : wire.Lawful)
    (passed : check.advanceAll wire.toCodec lines = .ok after) :
    ∀ line ∈ lines, carriesEnvelope wire.toCodec line = true := by
  induction lines generalizing check with
  | nil =>
    intro line member
    cases member
  | cons raw rest ih =>
    rcases advanceAll_cons.mp passed with ⟨checked, middle, here, later⟩
    intro line member
    rcases mem_cons.mp member with rfl | member
    · exact carriesEnvelope_of_advance lawful here
    · exact ih later line member

variable {last : FileName} {scan : TailScan Hash} {ending : Nat}

theorem visit_torn (lawful : wire.Lawful) (whole : scan.damaged = none)
    (torn : carriesEnvelope wire.toCodec raw = false) :
    visitTail wire last scan (raw, ending) =
      .ok { scan with
        line := saturatingAdd scan.line 1
        linesChecked := saturatingAdd scan.linesChecked 1
        damaged := some (saturatingAdd scan.line 1) } := by
  rcases no_envelope_of_torn lawful torn with ⟨e, unread⟩
  simp [visitTail, whole, advance_of_no_envelope unread, torn]

theorem visit_refused {fault : LineFault} (whole : scan.damaged = none)
    (carries : carriesEnvelope wire.toCodec raw = true)
    (failed : scan.check.advance wire.toCodec raw = .error fault) :
    ∃ e, visitTail wire last scan (raw, ending) = .error e := by
  unfold visitTail
  simp only [whole, failed]
  cases fault <;> simp [carries]

theorem visit_passed (whole : scan.damaged = none)
    (passed : scan.check.advance wire.toCodec raw = .ok (checked, after)) :
    visitTail wire last scan (raw, ending) =
      .ok { scan with
        check := after
        validLen := ending
        line := saturatingAdd scan.line 1
        linesChecked := saturatingAdd scan.linesChecked 1 } := by
  simp [visitTail, whole, passed]

theorem foldlM_damaged (last : FileName) (start : Nat) (scan : TailScan Hash) {fault : Nat}
    (lines : List Bytes) (damaged : scan.damaged = some fault) :
    ((∀ line ∈ lines, carriesEnvelope wire.toCodec line = false) ∧
      ∃ after, (withEnds start lines).foldlM (visitTail wire last) scan = .ok after ∧
        after.check = scan.check ∧ after.validLen = scan.validLen) ∨
    ((∃ line ∈ lines, carriesEnvelope wire.toCodec line = true) ∧
      ∃ e, (withEnds start lines).foldlM (visitTail wire last) scan = .error e) := by
  induction lines generalizing start scan with
  | nil =>
    left
    exact ⟨by simp, scan, rfl, rfl, rfl⟩
  | cons line lines ih =>
    rw [withEnds, foldlM_cons]
    cases carries : carriesEnvelope wire.toCodec line with
    | true =>
      right
      refine ⟨⟨line, mem_cons_self, carries⟩, chainRefusal last fault, ?_⟩
      simp only [visitTail, damaged, carries, if_true]
      rfl
    | false =>
      have step : visitTail wire last scan (line, start + line.length + 1) =
          .ok { scan with line := saturatingAdd scan.line 1 } := by
        simp [visitTail, damaged, carries]
      rw [step]
      rcases ih (start + line.length + 1)
        { scan with line := saturatingAdd scan.line 1 } damaged with
        ⟨torn, after, walked, same⟩ | ⟨⟨bad, member, found⟩, e, refused⟩
      · left
        refine ⟨?_, after, walked, same⟩
        intro other member
        rcases mem_cons.mp member with rfl | member
        · exact carries
        · exact torn other member
      · right
        exact ⟨⟨bad, mem_cons_of_mem _ member, found⟩, e, refused⟩

/-- The scan of a tail answers exactly when its lines split into a chain and torn writes. -/
theorem foldlM_visit (lawful : wire.Lawful) (last : FileName) (start : Nat) (scan : TailScan Hash)
    (lines : List Bytes) (whole : scan.damaged = none) :
    (∃ good junk after, Splits wire scan.check lines good junk after ∧
      ∃ done, (withEnds start lines).foldlM (visitTail wire last) scan = .ok done ∧
        done.check = after ∧
        done.validLen =
          if good = [] then scan.validLen else start + (join newline good).length) ∨
    ((∀ good junk after, ¬ Splits wire scan.check lines good junk after) ∧
      ∃ e, (withEnds start lines).foldlM (visitTail wire last) scan = .error e) := by
  induction lines generalizing start scan with
  | nil =>
    left
    exact ⟨[], [], scan.check, ⟨rfl, rfl, by simp⟩, scan, rfl, rfl, rfl⟩
  | cons raw rest ih =>
    rw [withEnds, foldlM_cons]
    cases advanced : scan.check.advance wire.toCodec raw with
    | ok passed =>
      rw [visit_passed whole advanced]
      rcases ih (start + raw.length + 1)
        { scan with
          check := passed.2, validLen := start + raw.length + 1
          line := saturatingAdd scan.line 1
          linesChecked := saturatingAdd scan.linesChecked 1 } whole with
        ⟨good, junk, after, split, done, walked, check, valid⟩ | ⟨never, e, refused⟩
      · left
        refine ⟨raw :: good, junk, after, ⟨?_, ?_, split.torn⟩, done, walked, check, ?_⟩
        · rw [split.cut, cons_append]
        · exact advanceAll_cons.mpr ⟨passed.1, passed.2, advanced, split.chain⟩
        · rw [valid, if_neg (cons_ne_nil raw good), join_cons]
          simp only [length_append, length_cons]
          split
          · next bare =>
              rw [bare, join_nil, length_nil]
              omega
          · omega
      · right
        refine ⟨?_, e, refused⟩
        intro good junk after split
        cases good with
        | nil =>
          have torn := split.torn raw (by rw [← nil_append junk, ← split.cut]; simp)
          rw [carriesEnvelope_of_advance lawful advanced] at torn
          cases torn
        | cons first good =>
          have same := split.cut
          rw [cons_append, List.cons.injEq] at same
          rcases same with ⟨rfl, same⟩
          rcases advanceAll_cons.mp split.chain with ⟨checked, middle, here, later⟩
          rw [advanced] at here
          cases here
          exact never good junk after ⟨same, later, split.torn⟩
    | error fault =>
      have unsplit : ∀ good junk after, Splits wire scan.check (raw :: rest) good junk after →
          good = [] ∧ junk = raw :: rest := by
        intro good junk after split
        cases good with
        | nil => exact ⟨rfl, split.cut.symm⟩
        | cons first good =>
          have same := split.cut
          rw [cons_append, List.cons.injEq] at same
          rcases advanceAll_cons.mp split.chain with ⟨checked, middle, here, -⟩
          rw [← same.1, advanced] at here
          cases here
      cases carries : carriesEnvelope wire.toCodec raw with
      | true =>
        right
        rcases visit_refused whole carries advanced with ⟨e, refused⟩
        refine ⟨?_, e, by rw [refused]; rfl⟩
        intro good junk after split
        rcases unsplit good junk after split with ⟨rfl, rfl⟩
        have torn := split.torn raw mem_cons_self
        rw [carries] at torn
        cases torn
      | false =>
        rw [visit_torn lawful whole carries]
        rcases foldlM_damaged last (start + raw.length + 1)
          { scan with
            line := saturatingAdd scan.line 1
            linesChecked := saturatingAdd scan.linesChecked 1
            damaged := some (saturatingAdd scan.line 1) } rest rfl with
          ⟨torn, done, walked, check, valid⟩ | ⟨⟨bad, member, found⟩, e, refused⟩
        · left
          refine ⟨[], raw :: rest, scan.check, ⟨rfl, rfl, ?_⟩, done, walked, check, valid⟩
          intro line member
          rcases mem_cons.mp member with rfl | member
          · exact carries
          · exact torn line member
        · right
          refine ⟨?_, e, refused⟩
          intro good junk after split
          rcases unsplit good junk after split with ⟨rfl, rfl⟩
          have torn := split.torn bad (mem_cons_of_mem _ member)
          rw [found] at torn
          cases torn

variable {good junk front : List Bytes}

/-- A chain and torn writes split in one way only. -/
theorem splits_unique (lawful : wire.Lawful) {other : LineCheck Hash} {back : List Bytes}
    (first : Splits wire check lines good junk after)
    (second : Splits wire check lines front back other) :
    good = front ∧ junk = back ∧ after = other := by
  induction good generalizing check lines front with
  | nil =>
    cases front with
    | nil =>
      refine ⟨rfl, first.cut.symm.trans second.cut, ?_⟩
      exact Except.ok.inj (first.chain.symm.trans second.chain)
    | cons raw front =>
      have torn := first.torn raw (by
        rw [← nil_append junk, ← first.cut, second.cut]
        simp)
      rw [carriesEnvelope_of_advanceAll lawful second.chain raw mem_cons_self] at torn
      cases torn
  | cons raw good ih =>
    cases front with
    | nil =>
      have torn := second.torn raw (by
        rw [← nil_append back, ← second.cut, first.cut]
        simp)
      rw [carriesEnvelope_of_advanceAll lawful first.chain raw mem_cons_self] at torn
      cases torn
    | cons line front =>
      have same := first.cut.symm.trans second.cut
      rw [cons_append, cons_append, List.cons.injEq] at same
      rcases same with ⟨rfl, same⟩
      rcases advanceAll_cons.mp first.chain with ⟨checked, middle, here, later⟩
      rcases advanceAll_cons.mp second.chain with ⟨_, _, here', later'⟩
      rw [here] at here'
      cases here'
      rcases ih ⟨rfl, later, first.torn⟩ ⟨same, later', second.torn⟩ with ⟨rfl, rest⟩
      exact ⟨rfl, rest⟩

variable {middle : LineCheck Hash}

theorem splits_append (lead : check.advanceAll wire.toCodec front = .ok middle)
    (split : Splits wire middle lines good junk after) :
    Splits wire check (front ++ lines) (front ++ good) junk after where
  cut := by rw [split.cut, append_assoc]
  chain := advanceAll_append.mpr ⟨middle, lead, split.chain⟩
  torn := split.torn

theorem splits_of_append (lawful : wire.Lawful)
    (lead : check.advanceAll wire.toCodec front = .ok middle)
    (split : Splits wire check (front ++ lines) good junk after) :
    ∃ rest, good = front ++ rest ∧ Splits wire middle lines rest junk after := by
  induction front generalizing check good with
  | nil =>
    cases lead
    exact ⟨good, rfl, split⟩
  | cons raw front ih =>
    rcases advanceAll_cons.mp lead with ⟨checked, next, here, later⟩
    cases good with
    | nil =>
      have torn := split.torn raw (by
        rw [← nil_append junk, ← split.cut]
        simp)
      rw [carriesEnvelope_of_advance lawful here] at torn
      cases torn
    | cons line good =>
      have same := split.cut
      rw [cons_append, cons_append, List.cons.injEq] at same
      rcases same with ⟨rfl, same⟩
      rcases advanceAll_cons.mp split.chain with ⟨_, _, here', later'⟩
      rw [here] at here'
      cases here'
      rcases ih later ⟨same, later', split.torn⟩ with ⟨rest, rfl, deeper⟩
      exact ⟨rest, rfl, deeper⟩

variable {content : Bytes} {start : Nat}

/-- What the scan of a segment from `start` finds when its lines split. -/
theorem scan_of_splits (lawful : wire.Lawful)
    (split : Splits wire check (complete newline (content.drop start)) good junk after)
    (last : FileName) (line linesChecked : Nat) :
    ∃ ended, Reading.scan (visitTail wire last) content start
        { check, validLen := start, line, damaged := none, linesChecked } = .ok ended ∧
      ended.seen.check = after ∧
      ended.seen.validLen = start + (join newline good).length ∧
      ended.total = start + (content.drop start).length ∧
      ended.filled = filledAfter start start (content.drop start) := by
  rw [Reading.scan_eq]
  rcases foldlM_visit lawful last start
    { check, validLen := start, line, damaged := none, linesChecked }
    (complete newline (content.drop start)) rfl with
    ⟨front, back, other, found, done, walked, checked, valid⟩ | ⟨never, -⟩
  · rcases splits_unique lawful found split with ⟨rfl, -, rfl⟩
    rw [walked]
    refine ⟨_, rfl, checked, ?_, rfl, rfl⟩
    simp only
    rw [valid]
    split
    · next bare => rw [bare]; rfl
    · rfl
  · exact absurd split (never good junk after)

theorem scan_of_unsplit (lawful : wire.Lawful)
    (never : ∀ good junk after, ¬ Splits wire check (complete newline (content.drop start)) good junk after)
    (last : FileName) (line linesChecked : Nat) :
    ∃ e, Reading.scan (visitTail wire last) content start
        { check, validLen := start, line, damaged := none, linesChecked } = .error e := by
  rw [Reading.scan_eq]
  rcases foldlM_visit lawful last start
    { check, validLen := start, line, damaged := none, linesChecked }
    (complete newline (content.drop start)) rfl with
    ⟨front, back, other, found, -⟩ | ⟨-, e, refused⟩
  · exact absurd found (never front back other)
  · rw [refused]
    exact ⟨e, rfl⟩

end Open

end Sprawling
