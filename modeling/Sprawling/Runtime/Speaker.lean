import Sprawling.Collab.Inbox
import Sprawling.Runtime.Conversation

/-! Who said a steer, as the ledger records it and as a rebuild reads it back. -/

namespace Sprawling

open List Text

/-- The word the reader is shown after the sender's address. -/
def SenderState.asStr : SenderState → List Char
  | .running => "running".toList
  | .frozen => "frozen".toList
  | .cancelled => "cancelled".toList

/-- Whoever a steer can be from: a resident's room is an address, and the city stamps the rest. -/
inductive Voice where
  | person
  | city
  | resident (room : Address) (run : Option RunId) (kind : LetterKind) (sender : Option SenderState)

def Voice.speaker : Voice → Speaker
  | .person => .person
  | .city => .city
  | .resident room run kind sender =>
    .resident { from_ := room.text, run, kind, sender := sender.map SenderState.asStr }

/-- The room of a resident's letter has no space in its address. -/
def Voice.Unspaced : Voice → Prop
  | .person | .city => True
  | .resident room _ _ _ => ' ' ∉ room.text

instance (voice : Voice) : Decidable voice.Unspaced := by
  cases voice <;> unfold Voice.Unspaced <;> infer_instance

namespace Speaker

def spelled (entry : List Char × List Char) : List Char := entry.1 ++ '=' :: entry.2

theorem recorded_resident (letter : Letter) :
    (resident letter).recorded =
      [' '].intercalate (('@' :: letter.from_) :: letter.attributes.map spelled) := by
  have folded : ∀ (entries : List (List Char × List Char)) (source : List Char),
      entries.foldl (fun source entry => source ++ ' ' :: entry.1 ++ '=' :: entry.2) source =
        [' '].intercalate (source :: entries.map spelled) := by
    intro entries
    induction entries with
    | nil =>
      intro source
      simp
    | cons entry rest ih =>
      intro source
      rw [foldl_cons, ih, map_cons, intercalate_cons_cons]
      cases rest with
      | nil => simp [spelled]
      | cons next later => simp [spelled, intercalate_cons_cons]
  exact folded letter.attributes _

section Reading

variable {source part : List Char} {letter after : Letter}

theorem from_readAttribute (read : readAttribute source letter part = .ok after) :
    after.from_ = letter.from_ := by
  unfold readAttribute at read
  split at read
  · next key raw cut =>
      split at read
      · cases parsed : RunId.parse raw with
        | ok run =>
          rw [parsed] at read
          cases read
          rfl
        | error refusal =>
          rw [parsed] at read
          cases read
      · split at read
        · split at read
          · cases read
            rfl
          · cases read
        · split at read
          · cases read
            rfl
          · cases read
  · cases read

theorem from_readAttributes {parts : List (List Char)}
    (read : parts.foldlM (readAttribute source) letter = .ok after) : after.from_ = letter.from_ := by
  induction parts generalizing letter with
  | nil =>
    cases read
    rfl
  | cons part rest ih =>
    rw [foldlM_cons] at read
    cases first : readAttribute source letter part with
    | ok next =>
      rw [first] at read
      exact (ih read).trans (from_readAttribute first)
    | error refusal =>
      rw [first] at read
      cases read

theorem unspaced_of_fromRecorded (read : fromRecorded source = .ok (.resident letter)) :
    ' ' ∉ letter.from_ := by
  unfold fromRecorded at read
  split at read
  · cases read
  · split at read
    · cases read
    · split at read
      · cases read
      · next head parts cut =>
          split at read
          · cases read
          · next from_ named =>
              cases folded : parts.foldlM (readAttribute source)
                  { from_, run := none, kind := .steer, sender := none } with
              | error refusal =>
                rw [folded] at read
                cases read
              | ok found =>
                rw [folded] at read
                cases read
                have clean : ' ' ∉ head := not_mem_of_mem_splitOn (cut ▸ mem_cons_self)
                rw [from_readAttributes folded]
                unfold readFrom at named
                split at named
                · split at named
                  · cases named
                  · cases named
                    exact fun member => clean (mem_cons_of_mem _ member)
                · cases named

end Reading

section Attributes

variable {letter : Letter} (source : List Char) {key value : List Char}

theorem space_not_mem_attribute (named : ' ' ∉ key) (clean : ' ' ∉ value) :
    ' ' ∉ spelled (key, value) := by
  simp [spelled, named, clean]

theorem space_not_mem_attributes (clean : ∀ sender ∈ letter.sender, ' ' ∉ sender) :
    ∀ part ∈ letter.attributes.map spelled, ' ' ∉ part := by
  intro part member
  obtain ⟨entry, inside, rfl⟩ := mem_map.mp member
  simp only [Letter.attributes, mem_append, mem_singleton, Option.mem_toList,
    Option.map_eq_some_iff] at inside
  rcases inside with (⟨run, -, rfl⟩ | rfl) | ⟨sender, stamped, rfl⟩
  · exact space_not_mem_attribute (by decide) run.space_not_mem_display
  · refine space_not_mem_attribute (by decide) ?_
    cases letter.kind <;> decide
  · exact space_not_mem_attribute (by decide) (clean sender stamped)

theorem splitOnce_attribute (named : '=' ∉ key) :
    splitOnce '=' (spelled (key, value)) = some (key, value) :=
  Text.splitOnce_eq_some.mpr ⟨rfl, named⟩

theorem readAttribute_run (run : RunId) :
    readAttribute source letter (spelled ("run".toList, run.display)) =
      .ok { letter with run := some run } := by
  rw [readAttribute, splitOnce_attribute (by decide)]
  simp only [if_pos, RunId.parse_display]
  rfl

theorem readAttribute_kind (kind : LetterKind) :
    readAttribute source letter (spelled ("kind".toList, kind.asStr)) = .ok { letter with kind } := by
  have parsed : LetterKind.parse kind.asStr = some kind := by
    cases kind <;> rfl
  rw [readAttribute, splitOnce_attribute (by decide)]
  simp only [parsed]
  rw [if_neg (by decide)]
  rfl

theorem readAttribute_sender (sender : List Char) :
    readAttribute source letter (spelled ("sender".toList, sender)) =
      .ok { letter with sender := some sender } := by
  rw [readAttribute, splitOnce_attribute (by decide)]
  simp only
  rw [if_neg (by decide), if_neg (by decide), if_pos trivial]

theorem readAttributes (letter : Letter) :
    (letter.attributes.map spelled).foldlM (readAttribute source)
        { from_ := letter.from_, run := none, kind := .steer, sender := none } =
      .ok letter := by
  obtain ⟨from_, run, kind, sender⟩ := letter
  cases run <;> cases sender <;>
    simp only [Letter.attributes, Option.map_none, Option.map_some, Option.toList_none,
      Option.toList_some, map_cons, map_nil, nil_append,
      append_nil, cons_append, foldlM_cons, foldlM_nil, readAttribute_run,
      readAttribute_kind, readAttribute_sender, bind, Except.bind, pure, Except.pure]

theorem fromRecorded_resident (named : letter.from_ ≠ []) (room : ' ' ∉ letter.from_)
    (sender : ∀ sender ∈ letter.sender, ' ' ∉ sender) :
    fromRecorded (resident letter).recorded = .ok (resident letter) := by
  have first : ' ' ∉ '@' :: letter.from_ := by simp [room]
  have clean : ∀ part ∈ ('@' :: letter.from_) :: letter.attributes.map spelled, ' ' ∉ part :=
    forall_mem_cons.mpr ⟨first, space_not_mem_attributes sender⟩
  have cut : (resident letter).recorded.splitOn ' ' =
      ('@' :: letter.from_) :: letter.attributes.map spelled := by
    rw [recorded_resident, splitOn_intercalate_flatMap ' ' (cons_ne_nil _ _),
      flatMap_splitOn_of_clean clean]
  have head : ∀ word : List Char, word.head? ≠ some '@' → (resident letter).recorded ≠ word := by
    intro word other same
    apply other
    rw [← same, recorded_resident]
    cases letter.attributes.map spelled <;> rfl
  have read : readFrom ('@' :: letter.from_) = some letter.from_ :=
    if_neg (by simpa [List.isEmpty_iff] using named)
  unfold fromRecorded
  rw [if_neg (head _ (by decide)), if_neg (head _ (by decide)), cut]
  simp only [read, readAttributes]
  rfl

end Attributes

/-- A speaker is read back from its ledger line exactly when it is no resident of a room with a
space in its address. -/
theorem read_back (voice : Voice) :
    fromRecorded voice.speaker.recorded = .ok voice.speaker ↔ voice.Unspaced := by
  cases voice with
  | person => exact ⟨fun _ => trivial, fun _ => rfl⟩
  | city => exact ⟨fun _ => trivial, fun _ => rfl⟩
  | resident room run kind sender =>
    constructor
    · exact unspaced_of_fromRecorded
    · intro unspaced
      refine fromRecorded_resident ?_ unspaced ?_
      · intro empty
        have canonical := room.canonical
        rw [show room.text = [] from empty] at canonical
        cases canonical
      · intro word stamped
        obtain ⟨state, -, rfl⟩ := Option.map_eq_some_iff.mp stamped
        cases state <;> decide

/-- A letter from a room whose name has a space is refused by the rebuild. -/
theorem not_read_back : ¬∀ voice : Voice,
    fromRecorded voice.speaker.recorded = .ok voice.speaker := by
  intro every
  have read := every (.resident ⟨"lab/meeting room".toList, by decide⟩ none .steer (some .running))
  exact absurd read (by decide +kernel)

end Speaker

end Sprawling
