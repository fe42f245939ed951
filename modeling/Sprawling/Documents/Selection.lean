import Sprawling.Documents.Save

/-! A reader's place in a document, carried across a save. -/

namespace Sprawling.Documents

open List Word Transaction

/-- Where a selection was begun and where it was carried to. -/
structure Selection where
  anchor : Nat
  focus : Nat

def Span.len (span : Span) : Nat := span.stop - span.start

/-- An offset past some edits, which added and removed bytes, and before the edits still to come. -/
def positionPast (place : Nat) : (added removed : Nat) → List Edit → Nat
  | added, removed, [] => Word.saturatingAdd u64Values place added - removed
  | added, removed, edit :: rest =>
    if place ≤ edit.span.start then Word.saturatingAdd u64Values place added - removed
    else if place < edit.span.stop then
      Word.saturatingAdd u64Values
        (Word.saturatingAdd u64Values edit.span.start added - removed) edit.bytes.length
    else
      positionPast place (Word.saturatingAdd u64Values added edit.bytes.length)
        (Word.saturatingAdd u64Values removed edit.span.len) rest

def positionAfter (place : Nat) (transaction : Transaction) : Nat :=
  positionPast place 0 0 transaction.edits

namespace Selection

def collapsed (place : Nat) : Selection := ⟨place, place⟩

/-- Where this selection stands in the version the transaction makes. -/
def mapped (selection : Selection) (transaction : Transaction) : Selection :=
  ⟨positionAfter selection.anchor transaction, positionAfter selection.focus transaction⟩

end Selection

/-! ### Where each byte comes from -/

/-- The bytes of a version after some edits, each with its offset before them when it had one. -/
def tracked (source : Bytes) (edits : List Edit) : List (UInt8 × Option Nat) :=
  edits.foldr (fun edit held => held.take edit.span.start ++ edit.bytes.map (fun byte => (byte, none))
      ++ held.drop edit.span.stop)
    (source.zipIdx.map fun placed => (placed.1, some placed.2))

theorem tracked_cons (source : Bytes) (edit : Edit) (rest : List Edit) :
    tracked source (edit :: rest) = (tracked source rest).take edit.span.start
      ++ edit.bytes.map (fun byte => (byte, none)) ++ (tracked source rest).drop edit.span.stop := rfl

theorem map_tracked (source : Bytes) (edits : List Edit) :
    (tracked source edits).map Prod.fst = rewritten source edits := by
  induction edits with
  | nil =>
    show (source.zipIdx.map fun placed => (placed.1, some placed.2)).map Prod.fst = source
    rw [map_map]
    exact zipIdx_map_fst 0 source
  | cons edit rest ih =>
    have own : (edit.bytes.map fun byte => (byte, (none : Option Nat))).map Prod.fst = edit.bytes := by
      rw [map_map]
      exact map_id edit.bytes
    rw [tracked_cons, map_append, map_append, map_take, map_drop, ih, own]
    rfl

/-- Where a byte that no edit replaces stands after the edits. -/
def shifted (place : Nat) : List Edit → Nat
  | [] => place
  | edit :: rest =>
    if place < edit.span.start then place
    else edit.span.start + edit.bytes.length + (shifted place rest - edit.span.stop)

theorem le_shifted {place bound : Nat} {edits : List Edit} (high : bound ≤ place)
    (later : ∀ edit ∈ edits, bound ≤ edit.span.start) : bound ≤ shifted place edits := by
  cases edits with
  | nil => exact high
  | cons edit rest =>
    have start := later edit mem_cons_self
    rw [shifted]
    split <;> omega

variable {source : Bytes} {byte : UInt8} {place : Nat}

theorem tracked_nil_getElem
    (held : source[place]? = some byte) : (tracked source [])[place]? = some (byte, some place) := by
  show (source.zipIdx.map fun placed => (placed.1, some placed.2))[place]? = _
  rw [getElem?_map, getElem?_zipIdx, held, Nat.zero_add]
  rfl

theorem tracked_before {edits : List Edit}
    (held : source[place]? = some byte) (later : ∀ edit ∈ edits, place < edit.span.start) :
    (tracked source edits)[place]? = some (byte, some place) := by
  induction edits with
  | nil => exact tracked_nil_getElem held
  | cons edit rest ih =>
    have before := ih fun other member => later other (mem_cons_of_mem _ member)
    have start := later edit mem_cons_self
    have inside : place < ((tracked source rest).take edit.span.start).length := by
      rw [length_take]
      exact Nat.lt_min.mpr ⟨start, (List.getElem?_eq_some_iff.mp before).1⟩
    rw [tracked_cons, append_assoc, getElem?_append_left inside, getElem?_take_of_lt start, before]

theorem tracked_shifted {edits : List Edit}
    (held : source[place]? = some byte) (apart : Apart edits)
    (kept : ∀ edit ∈ edits, ¬(edit.span.start ≤ place ∧ place < edit.span.stop)) :
    (tracked source edits)[shifted place edits]? = some (byte, some place) := by
  induction edits with
  | nil => exact tracked_nil_getElem held
  | cons edit rest ih =>
    obtain ⟨following, apart⟩ := pairwise_cons.mp apart
    have order := edit.span.ordered
    have here := kept edit mem_cons_self
    rw [shifted]
    split
    next before =>
      refine tracked_before held fun other member => ?_
      rcases mem_cons.mp member with rfl | member
      · exact before
      · have next := following other member
        omega
    next after =>
      have last : edit.span.stop ≤ place := by omega
      have moved := ih apart fun other member => kept other (mem_cons_of_mem _ member)
      have behind := le_shifted last following
      have room := (List.getElem?_eq_some_iff.mp moved).1
      have front : ((tracked source rest).take edit.span.start
          ++ edit.bytes.map (fun byte => (byte, (none : Option Nat)))).length =
            edit.span.start + edit.bytes.length := by
        rw [length_append, length_map, length_take_of_le (by omega)]
      rw [tracked_cons, getElem?_append_right (by omega), front, Nat.add_sub_cancel_left,
        getElem?_drop, Nat.add_sub_cancel' behind, moved]

/-! ### Offsets across patches -/

namespace Patch

/-- Where an offset goes when every `old` becomes its `new`. -/
def follow : Nat → List Patch → Nat
  | place, [] => place
  | place, patch :: rest =>
    if place ≤ patch.gap.length then place
    else if place < patch.gap.length + patch.old.length then patch.gap.length + patch.new.length
    else patch.gap.length + patch.new.length + follow (place - (patch.gap.length + patch.old.length)) rest

variable {patch : Patch} {patches rest : List Patch} {place : Nat}

theorem follow_gap (before : place ≤ patch.gap.length) : follow place (patch :: rest) = place := by
  rw [follow, if_pos before]

theorem follow_old (after : patch.gap.length < place)
    (inside : place < patch.gap.length + patch.old.length) :
    follow place (patch :: rest) = patch.gap.length + patch.new.length := by
  rw [follow, if_neg (by omega), if_pos inside]

theorem follow_past {later : Nat} (beyond : 0 < patch.old.length + later) :
    follow (patch.gap.length + patch.old.length + later) (patch :: rest) =
      patch.gap.length + patch.new.length + follow later rest := by
  rw [follow, if_neg (by omega), if_neg (by omega), Nat.add_sub_cancel_left]

theorem follow_zero (patches : List Patch) : follow 0 patches = 0 := by
  cases patches with
  | nil => rfl
  | cons patch rest => exact follow_gap (Nat.zero_le _)

theorem length_swap_cons : (whole ((patch :: rest).map swap)).length =
    patch.gap.length + patch.new.length + (whole (rest.map swap)).length := by
  rw [map_cons, length_whole_cons]
  rfl

theorem follow_mono {later : Nat} (order : place ≤ later) (patches : List Patch) :
    follow place patches ≤ follow later patches := by
  induction patches generalizing place later with
  | nil => exact order
  | cons patch rest ih =>
    have onward := ih (Nat.sub_le_sub_right order (patch.gap.length + patch.old.length))
    simp only [follow]
    split <;> split <;> first | omega | (split <;> first | omega | (split <;> omega))

theorem follow_le {tail : Nat} (inside : place ≤ (whole patches).length + tail) :
    follow place patches ≤ (whole (patches.map swap)).length + tail := by
  induction patches generalizing place with
  | nil => exact inside
  | cons patch rest ih =>
    rw [length_whole_cons] at inside
    have onward := @ih (place - (patch.gap.length + patch.old.length)) (by omega)
    rw [length_swap_cons, follow]
    split
    · omega
    · split <;> omega

variable {before later : List Patch}

theorem follow_append (positive : 0 < place) :
    follow ((whole before).length + place) (before ++ later) =
      (whole (before.map swap)).length + follow place later := by
  induction before with
  | nil =>
    show follow (0 + place) later = 0 + follow place later
    rw [Nat.zero_add, Nat.zero_add]
  | cons patch rest ih =>
    rw [length_whole_cons, cons_append, length_swap_cons, Nat.add_assoc, follow_past (by omega), ih]
    omega

theorem follow_back {offset : Nat}
    (kept : ∀ edit ∈ edits offset patches, ¬(edit.span.start < offset + place ∧ offset + place < edit.span.stop))
    (beside : ∀ edit ∈ edits offset patches,
      ¬(edit.span.start < edit.span.stop ∧ edit.span.stop = offset + place ∧ edit.bytes = [])) :
    follow (follow place patches) (patches.map swap) = place := by
  induction patches generalizing offset place with
  | nil => rfl
  | cons patch rest ih =>
    have own := kept _ mem_cons_self
    have deleted := beside _ mem_cons_self
    simp only at own deleted
    by_cases before : place ≤ patch.gap.length
    · rw [follow_gap before]
      exact follow_gap (show place ≤ patch.swap.gap.length from before)
    · have past : patch.gap.length + patch.old.length ≤ place := by omega
      obtain ⟨later, split⟩ := Nat.exists_eq_add_of_le past
      subst split
      have back := @ih later (offset + patch.gap.length + patch.old.length)
        (fun edit member => by
          have outside := kept edit (mem_cons_of_mem _ member)
          omega)
        (fun edit member => by
          have outside := beside edit (mem_cons_of_mem _ member)
          rintro ⟨some_byte, ends, empty⟩
          exact outside ⟨some_byte, by omega, empty⟩)
      have moves : follow (patch.gap.length + patch.old.length + later) (patch :: rest) =
          patch.gap.length + patch.new.length + follow later rest := follow_past (by omega)
      have beyond : 0 < patch.new.length + follow later rest := by
        by_contra still
        have gone : follow later rest = 0 := by omega
        rw [gone, follow_zero] at back
        exact deleted ⟨by omega, by omega, length_eq_zero_iff.mp (by omega)⟩
      have returns := @follow_past patch.swap (rest.map swap) (follow later rest) beyond
      rw [moves, map_cons]
      exact returns.trans (congrArg (patch.gap.length + patch.old.length + ·) back)

theorem shifted_edits {offset : Nat}
    (kept : ∀ edit ∈ edits offset patches, ¬(edit.span.start ≤ offset + place ∧ offset + place < edit.span.stop))
    (uninserted : ∀ edit ∈ edits offset patches,
      ¬(edit.span = Span.point (offset + place) ∧ edit.bytes ≠ [])) :
    shifted (offset + place) (edits offset patches) = offset + follow place patches := by
  induction patches generalizing offset place with
  | nil => rfl
  | cons patch rest ih =>
    have own := kept _ mem_cons_self
    have bare := uninserted _ mem_cons_self
    simp only at own bare
    simp only [edits, shifted]
    by_cases before : place < patch.gap.length
    · rw [if_pos (by omega), follow_gap (by omega)]
    · obtain ⟨later, split⟩ := Nat.exists_eq_add_of_le
        (show patch.gap.length + patch.old.length ≤ place by omega)
      subst split
      have onward := @ih later (offset + patch.gap.length + patch.old.length)
        (fun edit member => by
          have outside := kept edit (mem_cons_of_mem _ member)
          omega)
        (fun edit member => by
          have outside := uninserted edit (mem_cons_of_mem _ member)
          have here : offset + patch.gap.length + patch.old.length + later =
              offset + (patch.gap.length + patch.old.length + later) := by omega
          rwa [here])
      have here : offset + patch.gap.length + patch.old.length + later =
          offset + (patch.gap.length + patch.old.length + later) := by omega
      rw [here] at onward
      rw [if_neg (by omega), onward]
      by_cases beyond : 0 < patch.old.length + later
      · rw [follow_past beyond]
        omega
      · -- the byte is right behind an edit of nothing, which inserts nothing
        obtain ⟨empty, rfl⟩ : patch.old.length = 0 ∧ later = 0 := by omega
        have nothing : patch.new = [] := by
          by_contra some_byte
          refine bare ⟨?_, some_byte⟩
          rw [Span.point, Span.mk.injEq]
          omega
        rw [follow_gap (by omega), follow_zero, nothing, length_nil]
        omega

theorem positionPast_edits {offset base added removed : Nat} (counts : offset + added = base + removed)
    (kept : removed ≤ offset)
    (room : offset + place + (base + (whole (patches.map swap)).length) < u64Values) :
    positionPast (offset + place) added removed (edits offset patches) = base + follow place patches := by
  induction patches generalizing offset base added removed place with
  | nil =>
    rw [edits, positionPast, saturatingAdd_of_lt (by omega), follow]
    omega
  | cons patch rest ih =>
    rw [length_swap_cons] at room
    rw [edits, positionPast]
    by_cases before : place ≤ patch.gap.length
    · rw [if_pos (by simp only; omega), follow_gap before, saturatingAdd_of_lt (by omega)]
      omega
    · rw [if_neg (by simp only; omega)]
      by_cases inside : place < patch.gap.length + patch.old.length
      · have upto := saturatingAdd_of_lt
          (show offset + patch.gap.length + added < u64Values by omega)
        rw [if_pos (by simp only; omega), follow_old (by omega) inside, upto,
          saturatingAdd_of_lt (by simp only; omega)]
        simp only
        omega
      · obtain ⟨later, rfl⟩ := Nat.exists_eq_add_of_le (Nat.le_of_not_lt inside)
        have onward := @ih later (offset + patch.gap.length + patch.old.length)
          (base + patch.gap.length + patch.new.length) (added + patch.new.length)
          (removed + patch.old.length) (by omega) (by omega) (by omega)
        have len : Span.len ⟨offset + patch.gap.length, offset + patch.gap.length + patch.old.length,
            Nat.le_add_right ..⟩ = patch.old.length := Nat.add_sub_cancel_left ..
        have here : offset + (patch.gap.length + patch.old.length + later) =
            offset + patch.gap.length + patch.old.length + later := by omega
        rw [if_neg (by simp only; omega), follow_past (by omega), len,
          saturatingAdd_of_lt (by simp only; omega), saturatingAdd_of_lt (by omega), here, onward]
        omega

theorem edits_append (offset : Nat) (before later : List Patch) : edits offset (before ++ later) =
    edits offset before ++ edits (offset + (whole before).length) later := by
  induction before generalizing offset with
  | nil => rfl
  | cons patch rest ih =>
    rw [cons_append, edits, edits, ih, cons_append, length_whole_cons]
    simp only [Nat.add_assoc]

/-- The edit of a patch, in its place among the others. -/
def edit (offset : Nat) (before : List Patch) (patch : Patch) : Edit :=
  ⟨⟨offset + (whole before).length + patch.gap.length,
    offset + (whole before).length + patch.gap.length + patch.old.length, Nat.le_add_right ..⟩, patch.new⟩

theorem length_edits (offset : Nat) (patches : List Patch) : (edits offset patches).length = patches.length := by
  induction patches generalizing offset with
  | nil => rfl
  | cons patch rest ih => rw [edits, length_cons, ih, length_cons]

theorem getElem?_edits (offset : Nat) (before : List Patch) (patch : Patch) (later : List Patch) :
    (edits offset (before ++ patch :: later))[before.length]? = some (edit offset before patch) := by
  rw [edits_append, getElem?_append_right (by rw [length_edits]), length_edits, Nat.sub_self]
  rfl

theorem edit_of_getElem? {offset index : Nat} {found : Edit}
    (here : (edits offset patches)[index]? = some found) :
    ∃ before patch later, patches = before ++ patch :: later ∧ before.length = index ∧
      found = edit offset before patch := by
  have counted := (List.getElem?_eq_some_iff.mp here).1
  rw [length_edits] at counted
  have parts : patches = patches.take index ++ patches[index] :: patches.drop (index + 1) := by
    rw [← drop_eq_getElem_cons, take_append_drop]
  have length : (patches.take index).length = index := length_take_of_le (Nat.le_of_lt counted)
  have own := getElem?_edits offset (patches.take index) patches[index] (patches.drop (index + 1))
  rw [← parts, length, here] at own
  exact ⟨_, _, _, parts, length, Option.some.inj own⟩

theorem follow_edit
    (low : (edit 0 before patch).span.start < place) (high : place < (edit 0 before patch).span.stop) :
    follow place (before ++ patch :: later) = (edit 0 (before.map swap) patch.swap).span.stop := by
  simp only [edit, Nat.zero_add] at low high ⊢
  obtain ⟨inner, rfl⟩ := Nat.exists_eq_add_of_le (show (whole before).length ≤ place by omega)
  rw [follow_append (by omega), follow_old (by omega) (by omega)]
  show _ = (whole (before.map swap)).length + patch.gap.length + patch.new.length
  omega

theorem stretch_edit (before later : List Patch) (patch : Patch) (tail : Bytes) :
    stretch (whole (before.map swap ++ patch.swap :: later.map swap) ++ tail)
      (edit 0 (before.map swap) patch.swap).span.start (edit 0 (before.map swap) patch.swap).span.stop =
        some patch.new := by
  have joined : whole (before.map swap ++ patch.swap :: later.map swap) ++ tail =
      (whole (before.map swap) ++ patch.gap) ++ patch.new ++ (whole (later.map swap) ++ tail) := by
    rw [whole, flatMap_append, flatMap_cons]
    simp only [whole, swap, append_assoc]
  have middle := stretch_middle joined
  rw [length_append] at middle
  simp only [edit, Nat.zero_add]
  exact middle

end Patch

/-! ### Places across a save and its undo -/

theorem patches_of_apply {digest : Bytes → B3Hash} {baseline : B3Hash} {edits : List Edit}
    {transaction : Transaction} {applied : Applied}
    (made : Transaction.new baseline edits = .ok transaction)
    (done : transaction.apply digest source = .ok applied) :
    Apart transaction.edits ∧ applied.bytes = rewritten source transaction.edits ∧
      ∃ patches tail, source = Patch.whole patches ++ tail ∧
      transaction.edits = Patch.edits 0 patches ∧
      applied.bytes = Patch.whole (patches.map Patch.swap) ++ tail ∧
      applied.undo.edits = Patch.edits 0 (patches.map Patch.swap) := by
  obtain ⟨apart, rfl⟩ := new_eq_ok.mp made
  rw [Transaction.apply] at done
  split_ifs at done with stale
  obtain ⟨inside, rewrote⟩ := splice_ok apart done
  obtain ⟨patches, tail, rfl, rfl⟩ := @Patch.exists_patches 0 _ _ apart (fun _ _ => Nat.zero_le _)
    (by simpa only [Nat.zero_add] using inside)
  cases done.symm.trans (splice_patches digest baseline patches tail)
  exact ⟨apart, rewrote, patches, tail, rfl, rfl, rfl, rfl⟩

/-- How offsets of a source follow its text across a transaction and its undo: a byte that stays keeps
its place, one that is replaced sends its place behind what replaces it, places keep their order and
stay inside, and they come back unless their text was replaced around them. -/
structure Follows (transaction : Transaction) (source : Bytes) (applied : Applied) : Prop where
  written : (tracked source transaction.edits).map Prod.fst = applied.bytes
  stays : ∀ place byte, source[place]? = some byte →
    (∀ edit ∈ transaction.edits, ¬(edit.span.start ≤ place ∧ place < edit.span.stop) ∧
      ¬(edit.span = Span.point place ∧ edit.bytes ≠ [])) →
    (tracked source transaction.edits)[positionAfter place transaction]? = some (byte, some place)
  replaced : ∀ (index : Nat) edit place, transaction.edits[index]? = some edit →
    edit.span.start < place → place < edit.span.stop →
    ∃ undone, applied.undo.edits[index]? = some undone ∧
      stretch applied.bytes undone.span.start undone.span.stop = some edit.bytes ∧
      positionAfter place transaction = undone.span.stop
  ordered : ∀ selection : Selection, selection.anchor ≤ selection.focus →
    selection.focus ≤ source.length →
    (selection.mapped transaction).anchor ≤ (selection.mapped transaction).focus ∧
      (selection.mapped transaction).focus ≤ applied.bytes.length
  back : ∀ place, place ≤ source.length →
    (∀ edit ∈ transaction.edits, ¬(edit.span.start < place ∧ place < edit.span.stop) ∧
      ¬(edit.span.start < edit.span.stop ∧ edit.span.stop = place ∧ edit.bytes = [])) →
    ((Selection.collapsed place).mapped transaction).mapped applied.undo = Selection.collapsed place

def vecBytesMax : Nat := 2 ^ 63 - 1

/-- Where a transaction applies, every offset of the source follows the text. -/
theorem follows {digest : Bytes → B3Hash} {baseline : B3Hash} {edits : List Edit}
    {transaction : Transaction} {source : Bytes} {applied : Applied}
    (made : Transaction.new baseline edits = .ok transaction)
    (done : transaction.apply digest source = .ok applied)
    (held : source.length ≤ vecBytesMax) (kept : applied.bytes.length ≤ vecBytesMax) :
    Follows transaction source applied := by
  obtain ⟨apart, rewrote, patches, tail, whole, edited, wrote, undone⟩ := patches_of_apply made done
  have before : source.length = (Patch.whole patches).length + tail.length := by
    rw [whole, length_append]
  have after : applied.bytes.length = (Patch.whole (patches.map Patch.swap)).length + tail.length := by
    rw [wrote, length_append]
  have values : vecBytesMax + vecBytesMax < u64Values := by decide
  have forth (place : Nat) (inside : place ≤ source.length) :
      positionAfter place transaction = Patch.follow place patches := by
    have counted := @Patch.positionPast_edits patches place 0 0 0 0 rfl (Nat.le_refl 0) (by omega)
    rwa [Nat.zero_add, Nat.zero_add, ← edited] at counted
  have undo (place : Nat) (inside : place ≤ applied.bytes.length) :
      positionAfter place applied.undo = Patch.follow place (patches.map Patch.swap) := by
    have counted := @Patch.positionPast_edits (patches.map Patch.swap) place 0 0 0 0 rfl (Nat.le_refl 0)
      (by rw [Patch.swap_swap]; omega)
    rwa [Nat.zero_add, Nat.zero_add, ← undone] at counted
  exact {
    written := (map_tracked source transaction.edits).trans rewrote.symm
    stays := by
      intro place byte there kept
      have inside := (List.getElem?_eq_some_iff.mp there).1
      have moved := @Patch.shifted_edits patches place 0 (by
        rw [Nat.zero_add, ← edited]
        exact fun edit member => (kept edit member).1) (by
        rw [Nat.zero_add, ← edited]
        exact fun edit member => (kept edit member).2)
      rw [Nat.zero_add, Nat.zero_add, ← edited] at moved
      rw [forth place (by omega), ← moved]
      exact tracked_shifted there apart fun edit member => (kept edit member).1
    replaced := by
      intro index edit place found low high
      rw [edited] at found
      obtain ⟨first, patch, later, rfl, rfl, rfl⟩ := Patch.edit_of_getElem? found
      have undone_here := Patch.getElem?_edits 0 (first.map Patch.swap) patch.swap (later.map Patch.swap)
      have parts : (first ++ patch :: later).map Patch.swap =
          first.map Patch.swap ++ patch.swap :: later.map Patch.swap := map_append
      rw [length_map, ← parts, ← undone] at undone_here
      refine ⟨_, undone_here, ?_, ?_⟩
      · rw [wrote, parts]
        exact Patch.stretch_edit first later patch tail
      · have stops : (Patch.edit 0 first patch).span.stop ≤ source.length := by
          rw [before, Patch.whole, flatMap_append, flatMap_cons]
          simp only [Patch.edit, Patch.whole, length_append, Nat.zero_add]
          omega
        rw [forth place (by omega)]
        exact Patch.follow_edit low high
    ordered := by
      intro selection order inside
      have onward := @Patch.follow_le patches selection.focus tail.length (by omega)
      rw [Selection.mapped, forth _ (by omega), forth _ inside]
      exact ⟨Patch.follow_mono order patches, onward.trans after.symm.le⟩
    back := by
      intro place inside kept
      have onward := @Patch.follow_le patches place tail.length (by omega)
      have back := @Patch.follow_back patches place 0 (by
        rw [Nat.zero_add, ← edited]
        exact fun edit member => (kept edit member).1) (by
        rw [Nat.zero_add, ← edited]
        exact fun edit member => (kept edit member).2)
      rw [Selection.collapsed, Selection.mapped, Selection.mapped, forth place inside,
        undo _ (onward.trans after.symm.le), back] }

/-- The digest of two letters between two digits. -/
def digitsVersion : B3Hash :=
  ⟨[0x15, 0x77, 0xe6, 0x11, 0x17, 0xa1, 0xf5, 0xcb, 0x23, 0x6c, 0x89,
      0x23, 0xba, 0xa5, 0x0e, 0xc4, 0x98, 0x18, 0xcb, 0xc0, 0x3d, 0xfb,
      0x2b, 0xc8, 0xe8, 0xe8, 0x57, 0xcc, 0xa8, 0x01, 0xc2, 0xb5], rfl⟩

/-- The digest of what the edits below leave of them. -/
def editedVersion : B3Hash :=
  ⟨[0xef, 0x48, 0x8b, 0xe0, 0xc0, 0x13, 0x70, 0xcc, 0x7c, 0x62, 0x25,
      0xbf, 0xf3, 0x73, 0xfd, 0xac, 0xcf, 0xf7, 0x32, 0x94, 0x24, 0x8a,
      0x39, 0x15, 0x67, 0xcc, 0x2a, 0x8a, 0x2c, 0x72, 0x47, 0xc0], rfl⟩

/-- One digit replaced, one letter deleted, and one inserted at the end. -/
def threeEdits : List Edit :=
  [⟨⟨0, 1, by decide⟩, [120, 121]⟩, ⟨⟨2, 3, by decide⟩, []⟩, ⟨Span.point 4, [122]⟩]

theorem follows_threeEdits :
    ∃ applied, Follows ⟨digitsVersion, threeEdits⟩ [48, 97, 98, 49] applied ∧
      applied.bytes = [120, 121, 97, 49, 122] :=
  ⟨_, @follows (fun bytes => if bytes = [48, 97, 98, 49] then digitsVersion else editedVersion) _ _ _ _ _
    (new_eq_ok.mpr ⟨by simp [Apart, threeEdits, Span.point], rfl⟩) rfl (by decide)
    (by decide), rfl⟩

end Sprawling.Documents
