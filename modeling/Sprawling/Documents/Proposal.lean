import Mathlib.Data.List.Pairwise
import Mathlib.Data.List.Sort
import Sprawling.Documents.Edit
import Sprawling.Documents.Slices
import Sprawling.Kernel.Address
import Sprawling.Kernel.RunId

/-! One suggestion a run makes about one stretch of a document version, read as a card of sentences
and decided sentence by sentence. -/

namespace Sprawling.Documents

open List TextEdit

/-- Take the sentence's change, or take an inserted sentence after rewriting it. -/
inductive Verdict where
  | accept
  | amend (text : List Char)
deriving DecidableEq

/-- A person's verdict on one sentence of a card, by its place on the card counted from zero. -/
structure SliceVerdict where
  slice : Nat
  verdict : Verdict
deriving DecidableEq

def Slice.bytesOnto (slice : Slice) (text out : List Char) : List Char :=
  out ++ slice.lead ++ text ++ slice.trail

/-- The card two texts make: their sentences aligned in reading order. -/
structure Review where
  slices : List Slice

def refused (place : Nat) (why : String) : AxError :=
  AxError.failure .invalidArgs "decide a proposal"
    ("sentence " ++ String.ofList (Text.decimal place) ++ " " ++ why)
    "read the card again and give a verdict only to a changed sentence on it"

namespace Review

def of (before after : List Char) : Review := ⟨align (pieces before) (pieces after)⟩

def nameOne (named : OrdMap Nat Verdict) (verdict : SliceVerdict) :
    Except AxError (OrdMap Nat Verdict) :=
  if verdict.slice ∈ named then .error (refused verdict.slice "is named twice")
  else .ok (named.insert verdict.slice verdict.verdict)

/-- The verdicts by their places, each place once. -/
def nameAll (verdicts : List SliceVerdict) : Except AxError (OrdMap Nat Verdict) :=
  verdicts.foldlM nameOne ∅

/-- One sentence read under the verdict its place has, if any. -/
def mergeOne (place : Nat) (slice : Slice) (verdict : Option Verdict) (out : List Char) :
    Except AxError (List Char) :=
  match slice.kind, verdict with
  | .same, some .accept | .same, some (.amend _) => .error (refused place "did not change")
  | .delete, some (.amend _) =>
    .error (refused place "is a deletion, and only an insertion is amended")
  | .same, none | .delete, none | .insert, some .accept => .ok (slice.bytesOnto slice.text out)
  | .insert, some (.amend text) => .ok (slice.bytesOnto text out)
  | .delete, some .accept | .insert, none => .ok out

/-- The sentences from one place on; a verdict that was read is taken out. -/
def mergeFrom : Nat → List Slice → OrdMap Nat Verdict → List Char →
    Except AxError (OrdMap Nat Verdict × List Char)
  | _, [], named, out => .ok (named, out)
  | place, slice :: rest, named, out => do
      let out ← mergeOne place slice named[place]? out
      mergeFrom (place + 1) rest (named.erase place) out

/-- The text a person's verdicts make of the card: a changed sentence the verdicts do not name is
rejected. A card has fewer sentences than a place can count. -/
def merged (review : Review) (verdicts : List SliceVerdict) : Except AxError (List Char) := do
  let named ← nameAll verdicts
  let (named, out) ← mergeFrom 0 review.slices named []
  match named.keys.head? with
  | some place => throw (refused place "is not on this card")
  | none => return out

end Review

/-- One proposal as the ledger offered it. -/
structure Offer where
  run : RunId
  doc : Address
  baseline : B3Hash
  span : Span
  before : List Char
  after : List Char

def proposalIdTag : Bytes := Utf8.encode "sprawling proposal v1".toList ++ [0]

/-- The eight bytes of a word, the high one first. -/
def toBeBytes (value : Nat) : Bytes :=
  [56, 48, 40, 32, 24, 16, 8, 0].map fun shift => UInt8.ofNat (value / 2 ^ shift)

namespace Offer

/-- What a proposal is known by: the run, the document, the version, the stretch and both texts. -/
def idBytes (offer : Offer) : Bytes :=
  proposalIdTag ++ offer.run.bytes.bytes
    ++ [offer.doc.text, offer.before, offer.after].flatMap (fun text =>
      toBeBytes (Utf8.encode text).length ++ Utf8.encode text)
    ++ offer.baseline.bytes ++ toBeBytes offer.span.start ++ toBeBytes offer.span.stop

def id (digest : Bytes → B3Hash) (offer : Offer) : B3Hash := digest offer.idBytes

def review (offer : Offer) : Review := Review.of offer.before offer.after

end Offer

/-- A proposal and the verdicts on its sentences. -/
structure Card where
  offer : Offer
  verdicts : List SliceVerdict

def hex (digest : B3Hash) : String := String.ofList digest.display

def namedTwice (digest : Bytes → B3Hash) (offer : Offer) : AxError :=
  AxError.failure .invalidArgs "decide proposals"
    ("proposal " ++ hex (offer.id digest) ++ " is named twice")
    "name each card once, with all its verdicts"

def stale (digest : Bytes → B3Hash) (offer : Offer) (version : B3Hash) : AxError :=
  AxError.failure .versionConflict "decide proposals"
    ("proposal " ++ hex (offer.id digest) ++ " was made on version " ++ hex offer.baseline
      ++ ", and the document is now " ++ hex version)
    "reject the card, or ask the run to offer it again on what the document says now"

def unmatched (digest : Bytes → B3Hash) (offer : Offer) : AxError :=
  AxError.failure .invalidArgs "decide proposals"
    ("proposal " ++ hex (offer.id digest) ++ " does not match the stretch " ++ offer.span.display
      ++ " of its version")
    "reject the card: the history recorded an original its version does not hold"

/-- The cards that accept anything, each with the text its verdicts make; `seen` holds the cards
already named. -/
def collect (digest : Bytes → B3Hash) :
    List B3Hash → List Card → Except AxError (List (Offer × List Char))
  | _, [] => .ok []
  | seen, card :: rest => do
      if card.offer.id digest ∈ seen then throw (namedTwice digest card.offer)
      let text ← card.offer.review.merged card.verdicts
      let later ← collect digest (card.offer.id digest :: seen) rest
      return if text ≠ card.offer.before then (card.offer, text) :: later else later

/-- Whether the source holds a card's original at the card's stretch. -/
def holdsOriginal (encoding : Encoding) (source : Bytes) (offer : Offer) : Bool :=
  match (offer.span.within source.length).bind fun ends => stretch source ends.1 ends.2 with
  | some bytes =>
    match encoding.decode bytes with
    | .ok text => text = offer.before
    | .error _ => false
  | none => false

/-- What a card's verdicts make of its stretch, as a page would send it. -/
def asEdit (edit : Offer × List Char) : TextEdit := ⟨edit.1.span, edit.2⟩

def TextEdit.le (first second : TextEdit) : Prop := first.span.le second.span

instance (first second : TextEdit) : Decidable (first.le second) :=
  inferInstanceAs (Decidable (first.span.le second.span))

def sortBySpan (edits : List TextEdit) : List TextEdit := edits.insertionSort TextEdit.le

/-- What is accepted lands on the source: every card was made on this version, and the version
holds each card's original where the card says. -/
def land (digest : Bytes → B3Hash) (source : Bytes) (edits : List (Offer × List Char)) :
    Except AxError (Option Applied) :=
  match edits.head? with
  | none => .ok none
  | some (first, _) =>
    let version := digest source
    match edits.find? fun edit => edit.1.baseline ≠ version with
    | some (offer, _) => .error (stale digest offer version)
    | none =>
      match Reading.of source with
      | .notText => .error (unmatched digest first)
      | .text encoding =>
        match edits.find? fun edit => !holdsOriginal encoding source edit.1 with
        | some (offer, _) => .error (unmatched digest offer)
        | none =>
          (savedOn digest source version (sortBySpan (edits.map asEdit))).map some

/-- Decides several cards on one document at once: what their verdicts accept lands on the source
as one save, and nothing lands when they accept nothing. -/
def decide (digest : Bytes → B3Hash) (source : Bytes) (cards : List Card) :
    Except AxError (Option Applied) := do
  let edits ← collect digest [] cards
  land digest source edits

/-! ### What a card reads as -/

theorem flatMap_spelled (slices : List Slice) :
    slices.flatMap Slice.spelled = (slices.map Slice.piece).flatMap Piece.spelled := by
  rw [flatMap_map]
  rfl

theorem without_insert_of (before after : List Char) :
    (without .insert (Review.of before after).slices).flatMap Slice.spelled = before := by
  rw [flatMap_spelled, Review.of, (align_sides _ _).1, pieces_spelled]

theorem without_delete_of (before after : List Char) :
    (without .delete (Review.of before after).slices).flatMap Slice.spelled = after := by
  rw [flatMap_spelled, Review.of, (align_sides _ _).2, pieces_spelled]

namespace Review

/-- What a slice adds to the text when slices of one kind are left out. -/
def told (dropped : SliceKind) (slice : Slice) : List Char :=
  if slice.kind = dropped then [] else slice.spelled

theorem flatMap_told (dropped : SliceKind) (slices : List Slice) :
    slices.flatMap (told dropped) = (without dropped slices).flatMap Slice.spelled := by
  induction slices with
  | nil => rfl
  | cons slice slices ih =>
    rw [flatMap_cons, ih]
    by_cases same : slice.kind = dropped
    · simp [told, without, same]
    · simp [told, without, same]

def Nameless (named : OrdMap Nat Verdict) : Prop := ∀ place : Nat, named[place]? = none

variable {named : OrdMap Nat Verdict}

theorem Nameless.keys (nameless : Nameless named) :
    named.keys.head? = none := by
  have empty : named = ∅ := by
    apply Std.ExtTreeMap.ext_getElem?
    intro place
    rw [nameless place, Std.ExtTreeMap.getElem?_empty]
  rw [empty]
  rfl

/-- The verdicts from one place on are those `pick` gives each sentence, and there are no others. -/
def Picked (pick : Slice → Option Verdict) (place : Nat) (slices : List Slice)
    (named : OrdMap Nat Verdict) : Prop :=
  ∀ other : Nat, named[other]? = if other < place then none else slices[other - place]?.bind pick

variable {place : Nat}

theorem mergeFrom_picked {pick : Slice → Option Verdict} {kept : Slice → List Char}
    (reads : ∀ place slice out, mergeOne place slice (pick slice) out = .ok (out ++ kept slice)) {slices : List Slice}
    (picked : Picked pick place slices named) (out : List Char) :
    ∃ rest, mergeFrom place slices named out = .ok (rest, out ++ slices.flatMap kept) ∧
      Nameless rest := by
  induction slices generalizing place named out with
  | nil =>
    refine ⟨named, by simp [mergeFrom], ?_⟩
    intro other
    have none_named := picked other
    simpa using none_named
  | cons slice slices ih =>
    have here := picked place
    rw [if_neg (Nat.lt_irrefl _), Nat.sub_self] at here
    have later : Picked pick (place + 1) slices (named.erase place) := by
      intro other
      rw [OrdMap.get_erase]
      have there := picked other
      by_cases same : place = other
      · rw [if_pos same, if_pos (by omega)]
      · by_cases before : other < place
        · rw [if_pos before] at there
          rw [if_neg same, if_pos (by omega), there]
        · rw [if_neg before] at there
          have next : other - place = (other - (place + 1)) + 1 := by omega
          rw [if_neg same, if_neg (by omega), there, next, getElem?_cons_succ]
    obtain ⟨rest, done, nameless⟩ := ih later (out ++ kept slice)
    refine ⟨rest, ?_, nameless⟩
    unfold mergeFrom
    rw [here]
    show mergeOne place slice (pick slice) out >>= _ = _
    rw [reads, Outcome.bind_ok, done, flatMap_cons, append_assoc]

variable {verdicts : List SliceVerdict}

theorem nameAll_from (named : OrdMap Nat Verdict)
    (distinct : (verdicts.map SliceVerdict.slice).Nodup)
    (fresh : ∀ verdict ∈ verdicts, verdict.slice ∉ named) :
    ∃ all : OrdMap Nat Verdict, verdicts.foldlM nameOne named = .ok all ∧
      ∀ (place : Nat) (verdict : Verdict), all[place]? = some verdict ↔
        named[place]? = some verdict ∨ ⟨place, verdict⟩ ∈ verdicts := by
  induction verdicts generalizing named with
  | nil => exact ⟨named, rfl, fun place verdict => by simp⟩
  | cons first rest ih =>
    obtain ⟨unlike, distinct⟩ := nodup_cons.mp distinct
    have absent := fresh first mem_cons_self
    obtain ⟨all, done, holds⟩ := ih (named.insert first.slice first.verdict) distinct (by
      intro verdict member inside
      rw [Std.ExtTreeMap.mem_insert, Nat.compare_eq_eq] at inside
      rcases inside with same | inside
      · exact unlike (same ▸ mem_map_of_mem member)
      · exact fresh verdict (mem_cons_of_mem _ member) inside)
    refine ⟨all, ?_, ?_⟩
    · rw [foldlM_cons, nameOne, if_neg absent]
      exact done
    · intro place verdict
      rw [holds, OrdMap.get_insert, mem_cons]
      by_cases same : first.slice = place
      · subst same
        have unnamed : named[first.slice]? = none := Std.ExtTreeMap.getElem?_eq_none absent
        rw [if_pos rfl, unnamed]
        constructor
        · rintro (told | later)
          · exact .inr (.inl (by rw [← Option.some.inj told]))
          · exact .inr (.inr later)
        · rintro (impossible | told | later)
          · cases impossible
          · exact .inl (by rw [← told])
          · exact .inr later
      · rw [if_neg same]
        constructor
        · rintro (told | later)
          · exact .inl told
          · exact .inr (.inr later)
        · rintro (told | told | later)
          · exact .inl told
          · exact absurd (congrArg SliceVerdict.slice told).symm same
          · exact .inr later

theorem merged_of_picked {review : Review} {verdicts : List SliceVerdict}
    {pick : Slice → Option Verdict} {kept : Slice → List Char}
    (reads : ∀ place slice out, mergeOne place slice (pick slice) out = .ok (out ++ kept slice))
    (distinct : (verdicts.map SliceVerdict.slice).Nodup)
    (all : ∀ place verdict, ⟨place, verdict⟩ ∈ verdicts ↔
      review.slices[place]?.bind pick = some verdict) :
    review.merged verdicts = .ok (review.slices.flatMap kept) := by
  obtain ⟨named, done, holds⟩ := nameAll_from ∅ distinct fun _ _ => Std.ExtTreeMap.not_mem_empty
  have picked : Picked pick 0 review.slices named := by
    intro other
    rw [if_neg (Nat.not_lt_zero _), Nat.sub_zero]
    apply Option.ext
    intro verdict
    rw [holds, ← all]
    simp
  obtain ⟨rest, read, nameless⟩ := mergeFrom_picked reads picked []
  unfold merged
  show nameAll verdicts >>= _ = _
  rw [nameAll, done, Outcome.bind_ok, read, Outcome.bind_ok]
  simp only [nameless.keys]
  rfl

theorem merged_nil (before after : List Char) : (of before after).merged [] = .ok before := by
  have whole := @merged_of_picked (of before after) [] (fun _ => none) (told .insert)
    (by
      intro place slice out
      unfold mergeOne told
      cases kind : slice.kind <;> simp [Slice.bytesOnto, Slice.spelled])
    nodup_nil (by intro place verdict; simp)
  rw [whole, flatMap_told, without_insert_of]

/-- Every changed sentence accepted. -/
def accepting (review : Review) : List SliceVerdict :=
  (review.slices.zipIdx.filter fun entry => entry.1.kind ≠ .same).map fun entry =>
    ⟨entry.2, .accept⟩

theorem nodup_accepting (review : Review) : (review.accepting.map SliceVerdict.slice).Nodup := by
  rw [accepting, map_map]
  have places : (review.slices.zipIdx.map Prod.snd).Nodup := by
    rw [zipIdx_map_snd]
    exact nodup_range'
  exact places.sublist (filter_sublist.map Prod.snd)

theorem mem_accepting {review : Review} {verdict : Verdict} :
    ⟨place, verdict⟩ ∈ review.accepting ↔
      review.slices[place]?.bind (fun slice => if slice.kind = .same then none else some .accept) =
        some verdict := by
  simp only [accepting, mem_map, mem_filter, Prod.exists, SliceVerdict.mk.injEq,
    mk_mem_zipIdx_iff_getElem?, Option.bind_eq_some_iff, decide_not, Bool.not_eq_true',
    decide_eq_false_iff_not]
  constructor
  · rintro ⟨slice, other, ⟨found, changed⟩, rfl, rfl⟩
    exact ⟨slice, found, if_neg changed⟩
  · rintro ⟨slice, found, picked⟩
    split at picked
    · cases picked
    · next changed => exact ⟨slice, place, ⟨found, changed⟩, rfl, Option.some.inj picked⟩

theorem merged_accepting {before after : List Char}
    (accepts : verdicts.Perm (of before after).accepting) :
    (of before after).merged verdicts = .ok after := by
  have whole := @merged_of_picked (of before after) verdicts
    (fun slice => if slice.kind = .same then none else some .accept) (told .delete)
    (by
      intro place slice out
      unfold mergeOne told
      cases kind : slice.kind <;> simp [Slice.bytesOnto, Slice.spelled])
    ((accepts.map SliceVerdict.slice).nodup_iff.mpr (nodup_accepting _))
    (by
      intro place verdict
      rw [accepts.mem_iff]
      exact mem_accepting)
  rw [whole, flatMap_told, without_delete_of]

end Review

/-! ### Several cards at once -/

/-- What a card's verdicts accept, if they accept anything. -/
def Card.accepts (card : Card) : Option (Offer × List Char) :=
  match card.offer.review.merged card.verdicts with
  | .ok text => if text ≠ card.offer.before then some (card.offer, text) else none
  | .error _ => none

/-- Every card is named once, and its verdicts are for changed sentences on it. -/
structure Valid (digest : Bytes → B3Hash) (cards : List Card) : Prop where
  once : (cards.map fun card => card.offer.id digest).Nodup
  onCard : ∀ card ∈ cards, ∃ text, card.offer.review.merged card.verdicts = .ok text

section Deciding

variable {digest : Bytes → B3Hash} {source : Bytes} {cards cards' : List Card}

variable {edits : List (Offer × List Char)}

theorem collect_eq_ok {seen : List B3Hash} :
    collect digest seen cards = .ok edits ↔
      (Valid digest cards ∧ ∀ card ∈ cards, card.offer.id digest ∉ seen) ∧
        edits = cards.filterMap Card.accepts := by
  induction cards generalizing seen edits with
  | nil =>
    constructor
    · intro done
      cases done
      exact ⟨⟨⟨nodup_nil, fun _ member => (nomatch member)⟩,
        fun _ member => (nomatch member)⟩, rfl⟩
    · rintro ⟨-, rfl⟩
      rfl
  | cons card rest ih =>
    unfold collect
    by_cases named : card.offer.id digest ∈ seen
    · rw [if_pos named]
      constructor
      · intro impossible
        cases impossible
      · intro all
        exact absurd named (all.1.2 card mem_cons_self)
    · rw [if_neg named]
      cases read : card.offer.review.merged card.verdicts with
      | error reason =>
        constructor
        · intro impossible
          cases impossible
        · intro all
          obtain ⟨text, valid⟩ := all.1.1.onCard card mem_cons_self
          rw [read] at valid
          cases valid
      | ok text =>
        have accepts : card.accepts =
            if text ≠ card.offer.before then some (card.offer, text) else none := by
          rw [Card.accepts, read]
        show collect digest (card.offer.id digest :: seen) rest >>= _ = _ ↔ _
        rw [Outcome.bind_eq_ok]
        constructor
        · rintro ⟨later, done, made⟩
          obtain ⟨⟨valid, unseen⟩, rfl⟩ := ih.mp done
          refine ⟨⟨⟨?_, ?_⟩, ?_⟩, ?_⟩
          · rw [map_cons, nodup_cons]
            refine ⟨?_, valid.once⟩
            intro again
            obtain ⟨other, member, same⟩ := mem_map.mp again
            exact unseen other member (same ▸ mem_cons_self)
          · intro other member
            rcases mem_cons.mp member with rfl | member
            · exact ⟨text, read⟩
            · exact valid.onCard other member
          · intro other member
            rcases mem_cons.mp member with rfl | member
            · exact named
            · exact fun inside => unseen other member (mem_cons_of_mem _ inside)
          · rw [filterMap_cons, accepts]
            cases made
            split <;> rfl
        · rintro ⟨⟨valid, unseen⟩, rfl⟩
          obtain ⟨fresh, once⟩ := nodup_cons.mp valid.once
          refine ⟨_, ih.mpr ⟨⟨⟨once, fun other member =>
            valid.onCard other (mem_cons_of_mem _ member)⟩, ?_⟩, rfl⟩, ?_⟩
          · intro other member inside
            rcases mem_cons.mp inside with same | inside
            · exact fresh (mem_map.mpr ⟨other, member, same⟩)
            · exact unseen other (mem_cons_of_mem _ member) inside
          · rw [filterMap_cons, accepts]
            split <;> rfl

theorem decide_eq_ok {answer : Option Applied} :
    decide digest source cards = .ok answer ↔
      Valid digest cards ∧ land digest source (cards.filterMap Card.accepts) = .ok answer := by
  unfold decide
  rw [Outcome.bind_eq_ok]
  constructor
  · rintro ⟨edits, done, landed⟩
    obtain ⟨⟨valid, -⟩, rfl⟩ := collect_eq_ok.mp done
    exact ⟨valid, landed⟩
  · rintro ⟨valid, landed⟩
    exact ⟨_, collect_eq_ok.mpr ⟨⟨valid, fun _ _ => not_mem_nil⟩, rfl⟩, landed⟩

theorem land_eq_none :
    land digest source edits = .ok none ↔ edits = [] := by
  unfold land
  cases edits with
  | nil => exact ⟨fun _ => rfl, fun _ => rfl⟩
  | cons edit rest =>
    simp only [head?_cons, reduceCtorEq, iff_false]
    split
    · nofun
    · split
      · nofun
      · split
        · nofun
        · rw [Outcome.map_eq_ok]
          rintro ⟨applied, -, impossible⟩
          cases impossible

theorem land_eq_some {applied : Applied} :
    land digest source edits = .ok (some applied) ↔
      edits ≠ [] ∧ (∀ edit ∈ edits, edit.1.baseline = digest source) ∧
        ∃ encoding, Reading.of source = .text encoding ∧
          (∀ edit ∈ edits, holdsOriginal encoding source edit.1 = true) ∧
          savedOn digest source (digest source) (sortBySpan (edits.map asEdit)) = .ok applied := by
  unfold land
  cases edits with
  | nil =>
    constructor
    · nofun
    · intro both
      exact absurd rfl both.1
  | cons edit rest =>
    simp only [head?_cons]
    split
    · next other found =>
        have wrong := find?_some found
        constructor
        · nofun
        · intro all
          have right := all.2.1 _ (mem_of_find?_eq_some found)
          exact absurd right (of_decide_eq_true wrong)
    · next current =>
        have current := find?_eq_none.mp current
        split
        · next unread =>
            constructor
            · nofun
            · rintro ⟨-, -, encoding, reading, -⟩
              rw [unread] at reading
              cases reading
        · next encoding reading =>
            split
            · next other found =>
                have wrong := find?_some found
                constructor
                · nofun
                · rintro ⟨-, -, encoding', reading', held, -⟩
                  rw [reading] at reading'
                  cases reading'
                  have right := held _ (mem_of_find?_eq_some found)
                  rw [right] at wrong
                  cases wrong
            · next held =>
                have held := find?_eq_none.mp held
                rw [Outcome.map_eq_ok]
                constructor
                · rintro ⟨done, saved, same⟩
                  cases same
                  refine ⟨cons_ne_nil _ _, ?_, encoding, reading, ?_, saved⟩
                  · intro one member
                    simpa using current one member
                  · intro one member
                    simpa using held one member
                · rintro ⟨-, -, encoding', -, -, saved⟩
                  exact ⟨applied, saved, rfl⟩

end Deciding

/-! ### The order the cards stand in -/

instance : Std.Total TextEdit.le where
  total first second := by
    unfold TextEdit.le Span.le
    omega

instance : IsTrans TextEdit TextEdit.le where
  trans first second third lower upper := by
    unfold TextEdit.le Span.le at *
    omega

/-- Two insertions at one offset. -/
def SamePoint (first second : TextEdit) : Prop :=
  first.span.isEmpty = true ∧ second.span.isEmpty = true ∧ first.span.start = second.span.start

theorem sortBySpan_eq {edits edits' : List TextEdit} {encoding : Encoding}
    (perm : edits.Perm edits')
    (pointsApart : edits.Pairwise fun first second => ¬ SamePoint first second)
    (apart : Apart ((sortBySpan edits).map (encoded encoding))) :
    sortBySpan edits = sortBySpan edits' := by
  have sorted := perm_insertionSort TextEdit.le edits
  have sorted' := perm_insertionSort TextEdit.le edits'
  have order : (sortBySpan edits).Pairwise TextEdit.le := pairwise_insertionSort _ _
  have order' : (sortBySpan edits').Pairwise TextEdit.le := pairwise_insertionSort _ _
  have points : (sortBySpan edits).Pairwise fun first second => ¬ SamePoint first second := by
    refine (sorted.pairwise_iff ?_).mpr pointsApart
    intro first second different same
    exact different ⟨same.2.1, same.1, same.2.2.symm⟩
  -- Two edits that both go before the other have one span; apart, that span is empty.
  have spans : (sortBySpan edits).Pairwise fun first second => first.span ≠ second.span := by
    have both := (pairwise_map.mp apart).and points
    apply both.imp
    intro first second facts same
    have ends : first.span.stop ≤ second.span.start := facts.1
    have inner := first.span.ordered
    rw [← same] at ends
    have closed : first.span.start = first.span.stop := by omega
    refine facts.2 ⟨?_, ?_, by rw [same]⟩
    · simp [Span.isEmpty, closed]
    · simp [Span.isEmpty, ← same, closed]
  refine List.Perm.eq_of_pairwise ?_ order order' (sorted.trans (perm.trans sorted'.symm))
  intro first second member member' lower upper
  by_contra different
  have member' : second ∈ sortBySpan edits :=
    sorted.mem_iff.mpr (perm.mem_iff.mpr (sorted'.mem_iff.mp member'))
  have symmetric : Std.Symm fun first second : TextEdit => first.span ≠ second.span :=
    ⟨fun _ _ distinct => distinct.symm⟩
  have unlike := spans.forall member member' different
  apply unlike
  obtain ⟨⟨start, stop, ordered⟩, text⟩ := first
  obtain ⟨⟨start', stop', ordered'⟩, text'⟩ := second
  simp only [TextEdit.le, Span.le] at lower upper
  have starts : start = start' := by omega
  have stops : stop = stop' := by omega
  subst starts
  subst stops
  rfl

/-- No two cards accept an insertion at the same offset. -/
def InsertionsApart (cards : List Card) : Prop :=
  cards.Pairwise fun one other => ¬ (one.accepts.isSome = true ∧ other.accepts.isSome = true ∧
    one.offer.span.isEmpty = true ∧ other.offer.span.isEmpty = true ∧
    one.offer.span.start = other.offer.span.start)

instance (cards : List Card) : Decidable (InsertionsApart cards) :=
  inferInstanceAs (Decidable (cards.Pairwise _))

/-- The edits the accepting cards make. -/
def acceptedEdits (cards : List Card) : List TextEdit :=
  (cards.filterMap Card.accepts).map asEdit

section Order

variable {digest : Bytes → B3Hash} {source : Bytes} {cards cards' : List Card}

theorem offer_of_accepts {card : Card} {edit : Offer × List Char}
    (accepts : card.accepts = some edit) : edit.1 = card.offer := by
  unfold Card.accepts at accepts
  split at accepts
  · split at accepts
    · cases accepts
      rfl
    · cases accepts
  · cases accepts

theorem InsertionsApart.edits (apart : InsertionsApart cards) :
    (acceptedEdits cards).Pairwise fun first second => ¬ SamePoint first second := by
  rw [acceptedEdits, pairwise_map, pairwise_filterMap]
  apply apart.imp
  intro one other unlike edit accepts edit' accepts' same
  obtain ⟨empty, empty', starts⟩ := same
  simp only [asEdit, offer_of_accepts accepts, offer_of_accepts accepts'] at empty empty' starts
  exact unlike ⟨by rw [accepts]; rfl, by rw [accepts']; rfl, empty, empty', starts⟩

theorem Valid.perm (valid : Valid digest cards) (perm : cards.Perm cards') : Valid digest cards' :=
  ⟨(perm.map _).nodup_iff.mp valid.once, fun card member => valid.onCard card (perm.mem_iff.mpr member)⟩

theorem decide_perm (apart : InsertionsApart cards) (perm : cards.Perm cards')
    {answer : Option Applied} (decided : decide digest source cards = .ok answer) :
    decide digest source cards' = .ok answer := by
  obtain ⟨valid, landed⟩ := decide_eq_ok.mp decided
  have accepted := perm.filterMap Card.accepts
  refine decide_eq_ok.mpr ⟨valid.perm perm, ?_⟩
  cases answer with
  | none =>
    rw [land_eq_none] at landed ⊢
    rw [landed] at accepted
    exact accepted.nil_eq.symm
  | some applied =>
    rw [land_eq_some] at landed ⊢
    obtain ⟨some_edit, current, encoding, reading, held, saved⟩ := landed
    obtain ⟨other, -, tangled, -, -⟩ := savedOn_ok saved
    have sorted := sortBySpan_eq (accepted.map asEdit) apart.edits tangled
    refine ⟨?_, ?_, encoding, reading, ?_, sorted ▸ saved⟩
    · intro empty
      rw [empty] at accepted
      exact some_edit accepted.eq_nil
    · exact fun edit member => current edit (accepted.mem_iff.mpr member)
    · exact fun edit member => held edit (accepted.mem_iff.mpr member)

theorem decide_bytes {applied : Applied} (decided : decide digest source cards = .ok (some applied)) :
    ∃ (encoding : Encoding) (edits : List TextEdit),
      Reading.of source = .text encoding ∧ edits.Perm (acceptedEdits cards) ∧
      Apart (edits.map (encoded encoding)) ∧
      (∀ edit ∈ edits, edit.span.stop ≤ source.length) ∧
      applied.bytes = rewritten source (edits.map (encoded encoding)) := by
  obtain ⟨-, landed⟩ := decide_eq_ok.mp decided
  obtain ⟨-, -, -, -, -, saved⟩ := land_eq_some.mp landed
  obtain ⟨encoding, reading, apart, inside, whole⟩ := savedOn_ok saved
  exact ⟨encoding, _, reading, perm_insertionSort _ _, apart, inside, whole⟩

theorem decide_none : decide digest source cards = .ok none ↔
    (cards.map fun card => card.offer.id digest).Nodup ∧
      ∀ card ∈ cards, card.offer.review.merged card.verdicts = .ok card.offer.before := by
  rw [decide_eq_ok, land_eq_none, filterMap_eq_nil_iff]
  constructor
  · rintro ⟨valid, nothing⟩
    refine ⟨valid.once, ?_⟩
    intro card member
    obtain ⟨text, read⟩ := valid.onCard card member
    have accepts := nothing card member
    simp only [Card.accepts, read, ite_eq_right_iff, reduceCtorEq, imp_false] at accepts
    rw [read, not_not.mp accepts]
  · rintro ⟨once, same⟩
    refine ⟨⟨once, fun card member => ⟨_, same card member⟩⟩, ?_⟩
    intro card member
    simp [Card.accepts, same card member]

/-- A refusal of what was asked, whichever version it was asked on. -/
abbrev Misasked {α : Type} (answer : Except AxError α) : Prop :=
  Outcome.Refuses (fun refusal => refusal.code = .invalidArgs) answer

theorem misasked_merged (review : Review) (verdicts : List SliceVerdict) :
    Misasked (review.merged verdicts) := by
  have one : ∀ named verdict, Misasked (Review.nameOne named verdict) := by
    intro named verdict
    unfold Review.nameOne
    split
    · exact .error rfl
    · exact .ok _
  have rest : ∀ slices place named out, Misasked (Review.mergeFrom place slices named out) := by
    intro slices
    induction slices with
    | nil => exact fun _ named out => .ok (named, out)
    | cons slice slices ih =>
      intro place named out
      refine Outcome.Refuses.bind ?_ fun out => ih _ _ _
      unfold Review.mergeOne
      split <;> first | exact .error rfl | exact .ok _
  refine (Outcome.Refuses.foldlM one verdicts ∅).bind fun named => (rest _ _ _ _).bind ?_
  rintro ⟨left, out⟩
  show Misasked (match left.keys.head? with
    | some place => throw (refused place "is not on this card")
    | none => return out)
  split
  · exact .error rfl
  · exact .ok _

theorem misasked_collect (seen : List B3Hash) (cards : List Card) :
    Misasked (collect digest seen cards) := by
  induction cards generalizing seen with
  | nil => exact .ok []
  | cons card rest ih =>
    unfold collect
    by_cases named : card.offer.id digest ∈ seen
    · rw [if_pos named]
      exact .error rfl
    · rw [if_neg named]
      exact (misasked_merged _ _).bind fun text => (ih _).bind fun later => .ok _

theorem misasked_orElse {α : Type} (found : Option α) {reason : AxError}
    (code : reason.code = .invalidArgs) : Misasked (Transaction.orElse found reason) := by
  cases found with
  | some value => exact .ok value
  | none => exact .error code

theorem misasked_savedOn (version : B3Hash) (edits : List TextEdit) :
    Misasked (savedOn digest source version edits) := by
  unfold savedOn
  split
  · exact .error rfl
  · next encoding reading =>
      have ends : ∀ edit, Misasked (encodeEdit encoding source edit) := by
        intro edit
        refine Outcome.Refuses.bind ?_ fun _ => .ok _
        unfold onCharacters
        simp only
        split
        · exact .ok ()
        · exact .error rfl
      refine (Outcome.Refuses.mapM ends edits).bind fun bytes => ?_
      refine Outcome.Refuses.bind ?_ fun transaction => Outcome.Refuses.bind ?_ fun applied => ?_
      · unfold Transaction.new
        split
        · exact .error rfl
        · exact .ok _
      · refine (Outcome.Refuses.foldlM (fun held edit => ?_) _ _).bind fun held =>
          (misasked_orElse _ rfl).bind fun _ => .ok _
        exact (misasked_orElse _ rfl).bind fun _ => (misasked_orElse _ rfl).bind fun _ =>
          (misasked_orElse _ rfl).bind fun _ => .ok _
      · split
        · exact .error rfl
        · exact .ok _

/-- The cards can be read, and one that accepts anything was made on another version. -/
def Outdated (digest : Bytes → B3Hash) (source : Bytes) (cards : List Card) : Prop :=
  Valid digest cards ∧ ∃ edit ∈ cards.filterMap Card.accepts, edit.1.baseline ≠ digest source

theorem code_of_decide {refusal : AxError} (turned : decide digest source cards = .error refusal) :
    Outdated digest source cards ∧ refusal.code = .versionConflict ∨
      ¬Outdated digest source cards ∧ refusal.code = .invalidArgs := by
  unfold decide at turned
  cases done : collect digest [] cards with
  | error reason =>
    rw [done] at turned
    cases turned
    refine .inr ⟨fun outdated => ?_, misasked_collect [] cards _ done⟩
    rw [collect_eq_ok.mpr ⟨⟨outdated.1, fun _ _ => not_mem_nil⟩, rfl⟩] at done
    cases done
  | ok edits =>
    obtain ⟨⟨valid, -⟩, rfl⟩ := collect_eq_ok.mp done
    rw [done, Outcome.bind_ok] at turned
    unfold land at turned
    split at turned
    · cases turned
    · simp only at turned
      split at turned
      · next offer text found =>
          cases turned
          have stale := find?_some found
          exact .inl ⟨⟨valid, _, mem_of_find?_eq_some found, by simpa using stale⟩, rfl⟩
      · next current =>
          rw [find?_eq_none] at current
          refine .inr ⟨fun ⟨_, edit, member, stale⟩ => current edit member (by simpa using stale), ?_⟩
          split at turned
          · cases turned
            rfl
          · split at turned
            · cases turned
              rfl
            · cases saved : savedOn digest source (digest source)
                (sortBySpan ((cards.filterMap Card.accepts).map asEdit)) with
              | error reason =>
                rw [saved] at turned
                cases turned
                exact misasked_savedOn _ _ _ saved
              | ok applied =>
                rw [saved] at turned
                cases turned

theorem Outdated.perm (perm : cards.Perm cards') (outdated : Outdated digest source cards) :
    Outdated digest source cards' := by
  obtain ⟨valid, edit, member, stale⟩ := outdated
  exact ⟨valid.perm perm, edit, (perm.filterMap _).mem_iff.mp member, stale⟩

end Order

/-- Cards conserve both texts and show a longest common subsequence of their sentences. Several
cards are answered alike in every order, or refused in every order with one code; what lands is the
source with each accepting card's stretch replaced, and nothing lands exactly when nothing changes. -/
theorem cards_conserve_and_decide (digest : Bytes → B3Hash) :
    (∀ before after : List Char,
      (without .insert (Review.of before after).slices).flatMap Slice.spelled = before ∧
      (without .delete (Review.of before after).slices).flatMap Slice.spelled = after ∧
      (Review.of before after).merged [] = .ok before ∧
      (∀ verdicts, verdicts.Perm (Review.of before after).accepting →
        (Review.of before after).merged verdicts = .ok after) ∧
      (Tabled
          (middle (headOf (pieces before) (pieces after)) (tailOf (pieces before) (pieces after))
            (pieces before))
          (middle (headOf (pieces before) (pieces after)) (tailOf (pieces before) (pieces after))
            (pieces after)) →
        CommonSubsequence.IsLongest (pieces before) (pieces after)
          (sames (Review.of before after).slices).length)) ∧
    ∀ (source : Bytes) (cards : List Card), InsertionsApart cards →
      (∀ cards' : List Card, cards.Perm cards' → ∀ answer,
        decide digest source cards = .ok answer ↔ decide digest source cards' = .ok answer) ∧
      (∀ applied, decide digest source cards = .ok (some applied) →
        ∃ (encoding : Encoding) (edits : List TextEdit),
          Reading.of source = .text encoding ∧ edits.Perm (acceptedEdits cards) ∧
          Apart (edits.map (encoded encoding)) ∧
          (∀ edit ∈ edits, edit.span.stop ≤ source.length) ∧
          applied.bytes = rewritten source (edits.map (encoded encoding))) ∧
      (decide digest source cards = .ok none ↔
        (cards.map fun card => card.offer.id digest).Nodup ∧
          ∀ card ∈ cards, card.offer.review.merged card.verdicts = .ok card.offer.before) ∧
      ∀ cards' : List Card, cards.Perm cards' → ∀ one other,
        decide digest source cards = .error one → decide digest source cards' = .error other →
        one.code = other.code := by
  constructor
  · intro before after
    refine ⟨without_insert_of before after, without_delete_of before after,
      Review.merged_nil before after, fun _ accepts => Review.merged_accepting accepts, ?_⟩
    intro tabled
    exact align_longest tabled
  · intro source cards apart
    refine ⟨?_, fun applied decided => decide_bytes decided, decide_none, ?_⟩
    · intro cards' perm answer
      constructor
      · exact decide_perm apart perm
      · refine decide_perm ?_ perm.symm
        refine (perm.pairwise_iff ?_).mp apart
        intro one other unlike both
        exact unlike ⟨both.2.1, both.1, both.2.2.2.1, both.2.2.1, both.2.2.2.2.symm⟩
    · intro cards' perm one other turned turned'
      rcases code_of_decide turned with ⟨outdated, code⟩ | ⟨current, code⟩ <;>
      rcases code_of_decide turned' with ⟨outdated', code'⟩ | ⟨current', code'⟩
      · rw [code, code']
      · exact absurd (outdated.perm perm) current'
      · exact absurd (outdated'.perm perm.symm) current
      · rw [code, code']

/-! ### Two cards on one document -/

def digestOf (text : String) : B3Hash :=
  (Digest.decodeHexFixed 32 text.toList).getD ⟨List.replicate 32 0, rfl⟩

def noteSource : Bytes := [0xFF, 0xFE, 0x41, 0, 0x2E, 0]

def noteVersion : B3Hash :=
  digestOf "f181e86281b5f5007909109741a648de680489b053fb83e5e1403c7bfad0f040"

def noteRun : RunId := ⟨⟨List.replicate 16 1, rfl⟩⟩

def noteDoc : Address := ⟨"notes/a.txt".toList, by decide⟩

/-- The sentence replaced. -/
def noteChange : Offer :=
  ⟨noteRun, noteDoc, noteVersion, ⟨2, 6, by decide⟩, ['A', '.'], ['B', '.']⟩

def noteAddition : Offer := ⟨noteRun, noteDoc, noteVersion, ⟨6, 6, by decide⟩, [], [' ', 'C', '.']⟩

def noteResult : Bytes := [0xFF, 0xFE, 0x42, 0, 0x2E, 0, 0x20, 0, 0x43, 0, 0x2E, 0]

/-- The digests of the bytes these cards are about. -/
def noteDigest (bytes : Bytes) : B3Hash :=
  if bytes = noteSource then noteVersion
  else if bytes = noteChange.idBytes then
    digestOf "190647fb481ba4bbb8ec8fd6d845210b8a04cad0e7daa6c999f8b88bdc6bfaba"
  else if bytes = noteAddition.idBytes then
    digestOf "40b0000404932d1761d3ce490939e9ce22d070d9dfdf01d8bb2c5b48c3f4c5f2"
  else if bytes = noteResult then
    digestOf "d9a4fdedcba425c85f361538b398ff52c2240dae19ea98b41f3adebe1e5513f2"
  else digestOf ""

theorem digestOf_ofList (text : List Char) :
    digestOf (String.ofList text) =
      (Digest.decodeHexFixed 32 text).getD ⟨List.replicate 32 0, rfl⟩ := by
  rw [digestOf, String.toList_ofList]

/-- Which card a refusal names depends on the order of the cards. -/
theorem refusal_names_first_card :
    InsertionsApart [⟨noteChange, [⟨7, .accept⟩]⟩, ⟨noteAddition, [⟨8, .accept⟩]⟩] ∧
      decide noteDigest noteSource
          [⟨noteChange, [⟨7, .accept⟩]⟩, ⟨noteAddition, [⟨8, .accept⟩]⟩] =
        .error (refused 7 "is not on this card") ∧
      decide noteDigest noteSource
          [⟨noteAddition, [⟨8, .accept⟩]⟩, ⟨noteChange, [⟨7, .accept⟩]⟩] =
        .error (refused 8 "is not on this card") ∧
      refused 7 "is not on this card" ≠ refused 8 "is not on this card" := by
  delta noteDigest noteChange noteAddition noteVersion
  repeat rw [digestOf_ofList]
  decide +kernel

/-- Both cards accepted whole. -/
def noteCards : List Card :=
  [⟨noteChange, [⟨0, .accept⟩, ⟨1, .accept⟩]⟩, ⟨noteAddition, [⟨0, .accept⟩]⟩]

def noteApplied : Applied :=
  { baseline := noteVersion
    bytes := noteResult
    version := noteDigest noteResult
    undo := ⟨noteDigest noteResult,
      [⟨⟨2, 6, by decide⟩, [0x41, 0, 0x2E, 0]⟩, ⟨⟨6, 12, by decide⟩, []⟩]⟩ }

/-- Both cards land, in either order, and the card that replaces the sentence has no sentence in
common with it. -/
theorem note_cards_land :
    decide noteDigest noteSource noteCards = .ok (some noteApplied) ∧
      decide noteDigest noteSource noteCards.reverse = .ok (some noteApplied) ∧
      (Review.of ['A', '.'] ['B', '.']).merged [⟨1, .accept⟩, ⟨0, .accept⟩] = .ok ['B', '.'] ∧
      CommonSubsequence.IsLongest (pieces ['A', '.']) (pieces ['B', '.']) 0 := by
  have landed : decide noteDigest noteSource noteCards = .ok (some noteApplied) := by
    delta noteApplied noteCards noteDigest noteChange noteAddition noteVersion
    repeat rw [digestOf_ofList]
    decide +kernel
  have both := cards_conserve_and_decide noteDigest
  have card := both.1 ['A', '.'] ['B', '.']
  refine ⟨landed, ?_, ?_, ?_⟩
  · have apart : InsertionsApart noteCards := by decide +kernel
    have perm : noteCards.Perm noteCards.reverse := (reverse_perm _).symm
    exact ((both.2 noteSource noteCards apart).1 _ perm _).mp landed
  · exact card.2.2.2.1 _ (by decide +kernel)
  · exact card.2.2.2.2 (by decide +kernel)

end Sprawling.Documents
