import Sprawling.Documents.Boundary
import Sprawling.Documents.Edit

/-! A save and its way back: what applying edits writes, what undoes it, and which saves are
accepted. -/

namespace Sprawling.Documents

open List TextEdit Encoding Transaction

def moved (baseline : B3Hash) : AxError :=
  AxError.failure .versionConflict "save a document"
    ("the document is no longer version " ++ String.ofList baseline.display)
    "read the document again and make the change on what it says now"

/-- Applies the edits to a source, which must be the baseline version. -/
def Transaction.apply (digest : Bytes → B3Hash) (transaction : Transaction) (source : Bytes) :
    Except AxError Applied :=
  if digest source ≠ transaction.baseline then .error (moved transaction.baseline)
  else transaction.splice digest source

/-- Applies a page's text edits to a source, which must be the version `baseline`, writing each text
in that version's encoding. -/
def save (digest : Bytes → B3Hash) (source : Bytes) (baseline : B3Hash) (edits : List TextEdit) :
    Except AxError Applied :=
  if digest source ≠ baseline then .error (moved baseline)
  else savedOn digest source baseline edits

/-! ### A version as stretches kept and stretches replaced -/

/-- A stretch that is kept, and after it one that `old` fills before a change and `new` after. -/
structure Patch where
  gap : Bytes
  old : Bytes
  new : Bytes

namespace Patch

def swap (patch : Patch) : Patch := ⟨patch.gap, patch.new, patch.old⟩

def whole (patches : List Patch) : Bytes := patches.flatMap fun patch => patch.gap ++ patch.old

/-- The edits that replace every `old` by its `new`, in a version whose patches start at an
offset. -/
def edits : Nat → List Patch → List Edit
  | _, [] => []
  | offset, patch :: rest =>
    ⟨⟨offset + patch.gap.length, offset + patch.gap.length + patch.old.length, Nat.le_add_right ..⟩,
      patch.new⟩ :: edits (offset + patch.gap.length + patch.old.length) rest

theorem swap_swap (patches : List Patch) : (patches.map swap).map swap = patches := by
  rw [map_map]
  exact map_id patches

theorem whole_cons (patch : Patch) (rest : List Patch) :
    whole (patch :: rest) = patch.gap ++ patch.old ++ whole rest := rfl

theorem length_whole_cons (patch : Patch) (rest : List Patch) :
    (whole (patch :: rest)).length =
      patch.gap.length + patch.old.length + (whole rest).length := by
  rw [whole_cons, length_append, length_append]

/-- Edits apart and inside a version are the edits of patches of it. -/
theorem exists_patches {offset : Nat} {source : Bytes} {edits : List Edit} (apart : Apart edits)
    (from_ : ∀ edit ∈ edits, offset ≤ edit.span.start)
    (inside : ∀ edit ∈ edits, edit.span.stop ≤ offset + source.length) :
    ∃ patches tail, source = whole patches ++ tail ∧ edits = Patch.edits offset patches := by
  induction edits generalizing offset source with
  | nil => exact ⟨[], source, rfl, rfl⟩
  | cons edit rest ih =>
    obtain ⟨following, apart⟩ := pairwise_cons.mp apart
    have start := from_ edit mem_cons_self
    have stop := inside edit mem_cons_self
    have order := edit.span.ordered
    have here := inside edit mem_cons_self
    obtain ⟨patches, tail, joined, same⟩ :=
      @ih edit.span.stop (source.drop (edit.span.stop - offset)) apart
        following (by
          intro other member
          have bound := inside other (mem_cons_of_mem _ member)
          rw [length_drop]
          omega)
    have gap_size : (source.take (edit.span.start - offset)).length =
        edit.span.start - offset := length_take_of_le (by omega)
    have old_size : ((source.take (edit.span.stop - offset)).drop
        (edit.span.start - offset)).length = edit.span.stop - edit.span.start := by
      rw [length_drop, length_take_of_le (by omega)]
      omega
    have front : source.take (edit.span.start - offset) ++
        (source.take (edit.span.stop - offset)).drop (edit.span.start - offset) =
        source.take (edit.span.stop - offset) := by
      have shorter : source.take (edit.span.start - offset) =
          (source.take (edit.span.stop - offset)).take (edit.span.start - offset) := by
        rw [take_take, Nat.min_eq_left (by omega)]
      rw [shorter, take_append_drop]
    refine ⟨⟨source.take (edit.span.start - offset),
      (source.take (edit.span.stop - offset)).drop (edit.span.start - offset), edit.bytes⟩ ::
      patches, tail, ?_, ?_⟩
    · rw [whole_cons, append_assoc, ← joined, front, take_append_drop]
    · have first : offset + (edit.span.start - offset) = edit.span.start := by omega
      have last : edit.span.start + (edit.span.stop - edit.span.start) = edit.span.stop := by omega
      simp only [Patch.edits, gap_size, old_size, first, last]
      rw [same]

end Patch

theorem stretch_middle {source before patch after : Bytes}
    (joined : source = before ++ patch ++ after) :
    stretch source before.length (before.length + patch.length) = some patch := by
  rw [stretch_eq_some]
  refine ⟨⟨Nat.le_add_right _ _, ?_⟩, ?_⟩
  · rw [joined, length_append, length_append]
    exact Nat.le_add_right _ _
  · rw [joined, take_left' length_append, drop_left]

namespace Transaction

theorem new_eq_ok {baseline : B3Hash} {edits : List Edit} {transaction : Transaction} :
    Transaction.new baseline edits = .ok transaction ↔
      Apart edits ∧ transaction = ⟨baseline, edits⟩ := by
  rw [← tangled_eq_none, Transaction.new]
  cases tangled edits with
  | none => simp [eq_comm]
  | some span => simp

theorem spliceOne_eq {source copied taken : Bytes} {held : Spliced} {edit : Edit}
    (upto : stretch source held.cursor edit.span.start = some copied)
    (out : stretch source edit.span.start edit.span.stop = some taken) :
    spliceOne source held edit =
      .ok ⟨held.bytes ++ copied ++ edit.bytes,
        held.undo ++ [⟨⟨(held.bytes ++ copied).length,
          (held.bytes ++ copied).length + edit.bytes.length, Nat.le_add_right ..⟩, taken⟩],
        edit.span.stop⟩ := by
  have inside := (stretch_eq_some.mp out).1.2
  have size : (held.bytes ++ copied ++ edit.bytes).length =
      (held.bytes ++ copied).length + edit.bytes.length := length_append
  simp only [spliceOne, Span.within, if_pos inside, orElse, Outcome.bind_ok, upto, out, size,
    Span.between_of_le (Nat.le_add_right _ _)]
  rfl

theorem foldlM_edits {source before tail : Bytes} {patches : List Patch}
    (joined : source = before ++ Patch.whole patches ++ tail) (bytes : Bytes) (undo : List Edit) :
    (Patch.edits before.length patches).foldlM (spliceOne source) ⟨bytes, undo, before.length⟩ =
      .ok ⟨bytes ++ Patch.whole (patches.map Patch.swap),
        undo ++ Patch.edits bytes.length (patches.map Patch.swap),
        before.length + (Patch.whole patches).length⟩ := by
  induction patches generalizing before bytes undo with
  | nil =>
    simp only [Patch.edits, Patch.whole, map_nil, flatMap_nil, append_nil, length_nil, Nat.add_zero]
    rfl
  | cons patch rest ih =>
    have from_gap : source = before ++ patch.gap ++
        (patch.old ++ Patch.whole rest ++ tail) := by
      rw [joined, Patch.whole_cons]
      simp only [append_assoc]
    have from_old : source = (before ++ patch.gap) ++ patch.old ++ (Patch.whole rest ++ tail) := by
      rw [joined, Patch.whole_cons]
      simp only [append_assoc]
    have from_rest : source = (before ++ patch.gap ++ patch.old) ++ Patch.whole rest ++ tail := by
      rw [joined, Patch.whole_cons]
      simp only [append_assoc]
    have copied := stretch_middle from_gap
    have taken := stretch_middle from_old
    have later := ih from_rest (bytes ++ patch.gap ++ patch.new) (undo ++
      [⟨⟨(bytes ++ patch.gap).length, (bytes ++ patch.gap).length + patch.new.length,
        Nat.le_add_right ..⟩, patch.old⟩])
    rw [length_append] at taken
    simp only [length_append] at later
    simp only [Patch.edits, foldlM_cons]
    rw [spliceOne_eq copied taken, Outcome.bind_ok]
    simp only [length_append]
    rw [later]
    simp only [map_cons, Patch.edits, Patch.whole_cons, Patch.swap, append_assoc,
      singleton_append, length_append, Nat.add_assoc]

/-- Applying the edits of patches, and what takes them back. -/
theorem splice_patches (digest : Bytes → B3Hash) (baseline : B3Hash) (patches : List Patch)
    (tail : Bytes) :
    splice digest ⟨baseline, Patch.edits 0 patches⟩ (Patch.whole patches ++ tail) =
      .ok ⟨baseline, Patch.whole (patches.map Patch.swap) ++ tail,
        digest (Patch.whole (patches.map Patch.swap) ++ tail),
        ⟨digest (Patch.whole (patches.map Patch.swap) ++ tail),
          Patch.edits 0 (patches.map Patch.swap)⟩⟩ := by
  have pass := @foldlM_edits _ [] tail patches rfl [] []
  have rest : stretch (Patch.whole patches ++ tail) (Patch.whole patches).length
      (Patch.whole patches ++ tail).length = some tail := by
    have last := @stretch_middle _ _ _ [] (append_nil (Patch.whole patches ++ tail)).symm
    rwa [← length_append] at last
  simp only [nil_append, length_nil, Nat.zero_add] at pass
  simp only [splice, pass, Outcome.bind_ok, rest, orElse]
  rfl

theorem splice_undo {digest : Bytes → B3Hash} {baseline : B3Hash} {edits : List Edit}
    {source : Bytes} (apart : Apart edits) (inside : ∀ edit ∈ edits, edit.span.stop ≤ source.length) :
    ∃ applied, splice digest ⟨baseline, edits⟩ source = .ok applied ∧
      ∃ back, applied.undo.apply digest applied.bytes = .ok back ∧ back.bytes = source ∧
        back.undo.edits = edits := by
  obtain ⟨patches, tail, joined, same⟩ := @Patch.exists_patches 0 _ _ apart
    (fun _ _ => Nat.zero_le _) (by simpa only [Nat.zero_add] using inside)
  refine ⟨_, same ▸ joined ▸ splice_patches digest baseline patches tail, ?_⟩
  have back := splice_patches digest (digest (Patch.whole (patches.map Patch.swap) ++ tail))
    (patches.map Patch.swap) tail
  rw [Patch.swap_swap] at back
  exact ⟨_, (if_neg (not_not.mpr rfl)).trans back, joined.symm, same.symm⟩

end Transaction

/-! ### Which saves are accepted -/

variable {encoding : Encoding}

theorem onCharacters_eq_ok {source : Held} {text : List Char}
    (spelt : encoding.encode text = source.bytes) {span : Span} :
    onCharacters encoding source.bytes span = .ok () ↔
      encoding.IsBoundary text span.start ∧ encoding.IsBoundary text span.stop := by
  unfold onCharacters
  simp only
  rw [← starts_iff spelt, ← starts_iff spelt, ← Bool.and_eq_true]
  split
  · next both => exact iff_of_true rfl both
  · next either => exact iff_of_false (fun impossible => nomatch impossible) either

variable {edits : List TextEdit} {source : Bytes}

theorem mapM_encodeEdit {bytes : List Edit} :
    edits.mapM (encodeEdit encoding source) = .ok bytes ↔
      (∀ edit ∈ edits, onCharacters encoding source edit.span = .ok ()) ∧
        bytes = edits.map (encoded encoding) := by
  apply Outcome.mapM_eq_ok
  intro edit answer
  rw [encodeEdit, Outcome.bind_eq_ok]
  constructor
  · rintro ⟨⟨⟩, placed, made⟩
    cases made
    exact ⟨placed, rfl⟩
  · rintro ⟨placed, rfl⟩
    exact ⟨(), placed, rfl⟩

theorem save_eq_ok {digest : Bytes → B3Hash} {baseline : B3Hash} {applied : Applied} :
    save digest source baseline edits = .ok applied ↔
      digest source = baseline ∧ ∃ encoding, Reading.of source = .text encoding ∧
        (∀ edit ∈ edits, onCharacters encoding source edit.span = .ok ()) ∧
        Apart (edits.map (encoded encoding)) ∧
        Transaction.splice digest ⟨baseline, edits.map (encoded encoding)⟩ source =
          .ok applied ∧
        Reading.of applied.bytes = .text encoding := by
  unfold save
  by_cases stale : digest source ≠ baseline
  · rw [if_pos stale]
    exact iff_of_false (fun impossible => nomatch impossible) fun both => stale both.1
  · rw [if_neg stale]
    rw [not_not] at stale
    unfold savedOn
    cases reading : Reading.of source with
    | notText => simp
    | text encoding =>
      simp only [Outcome.bind_eq_ok, mapM_encodeEdit, Transaction.new_eq_ok, stale, true_and,
        Reading.text.injEq, exists_eq_left']
      constructor
      · rintro ⟨_, ⟨placed, rfl⟩, _, ⟨apart, rfl⟩, spliced, done, rest⟩
        split at rest
        · obtain ⟨_, impossible, -⟩ := rest
        · next same =>
            cases rest
            exact ⟨placed, apart, done, not_not.mp same⟩
      · rintro ⟨placed, apart, done, same⟩
        refine ⟨_, ⟨placed, rfl⟩, _, ⟨apart, rfl⟩, applied, done, ?_⟩
        exact if_neg (not_not.mpr same)

/-- What a save writes, that its undo takes it back and can itself be undone, and exactly which saves
are accepted. -/
theorem save_and_undo (digest : Bytes → B3Hash) (source : Held) (baseline : B3Hash)
    (edits : List TextEdit) :
    (∀ applied, save digest source.bytes baseline edits = .ok applied →
      ∃ encoding, Reading.of source.bytes = .text encoding ∧
        applied.bytes = rewritten source.bytes (edits.map (encoded encoding)) ∧
        Reading.of applied.bytes = .text encoding ∧
        ∃ back, applied.undo.apply digest applied.bytes = .ok back ∧ back.bytes = source.bytes ∧
          back.undo.edits = edits.map (encoded encoding)) ∧
    ((∃ applied, save digest source.bytes baseline edits = .ok applied) ↔
      digest source.bytes = baseline ∧
        ∃ encoding text, Reading.of source.bytes = .text encoding ∧
          encoding.decode source.bytes = .ok text ∧
          Apart (edits.map (encoded encoding)) ∧
          (∀ edit ∈ edits, edit.span.stop ≤ source.bytes.length ∧
            encoding.IsBoundary text edit.span.start ∧ encoding.IsBoundary text edit.span.stop) ∧
          Reading.of (rewritten source.bytes (edits.map (encoded encoding))) =
            .text encoding) := by
  constructor
  · intro applied saved
    obtain ⟨-, encoding, reading, -, apart, done, same⟩ := save_eq_ok.mp saved
    obtain ⟨inside, written⟩ := splice_ok apart done
    obtain ⟨again, spliced, back, undone, whole, edits_back⟩ :=
      @Transaction.splice_undo digest baseline _ _ apart inside
    cases done.symm.trans spliced
    exact ⟨encoding, reading, written, same, back, undone, whole, edits_back⟩
  · constructor
    · rintro ⟨applied, saved⟩
      obtain ⟨current, encoding, reading, placed, apart, done, same⟩ := save_eq_ok.mp saved
      obtain ⟨inside, written⟩ := splice_ok apart done
      obtain ⟨-, text, read⟩ := Reading.of_eq_text.mp reading
      have spelt := (characters_eq_some.mp read).1
      refine ⟨current, encoding, text, reading, decode_eq_ok.mpr read, apart, ?_,
        written ▸ same⟩
      intro edit member
      exact ⟨inside _ (mem_map_of_mem member),
        (onCharacters_eq_ok spelt).mp (placed edit member)⟩
    · rintro ⟨current, encoding, text, reading, decoded, apart, placed, same⟩
      have spelt := (characters_eq_some.mp (decode_eq_ok.mp decoded)).1
      have inside : ∀ edit ∈ edits.map (encoded encoding),
          edit.span.stop ≤ source.bytes.length := by
        intro edit member
        obtain ⟨sent, asked, rfl⟩ := mem_map.mp member
        exact (placed sent asked).1
      obtain ⟨applied, done, -⟩ :=
        @Transaction.splice_undo digest baseline _ _ apart inside
      have written := (splice_ok apart done).2
      refine ⟨applied, save_eq_ok.mpr ⟨current, encoding, reading, ?_, apart, done, ?_⟩⟩
      · intro edit member
        exact (onCharacters_eq_ok spelt).mpr (placed edit member).2
      · rw [written]
        exact same

end Sprawling.Documents
