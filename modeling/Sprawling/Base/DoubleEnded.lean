import Mathlib.Order.Lattice
import Mathlib.Data.List.Perm.Basic
import Mathlib.Order.RelClasses

/-! Iterators taken from both ends: what they still hold, a look at each end before it is taken,
and two ascending ones merged. -/

namespace Sprawling

open List Option

/-- The end an iterator is asked at. -/
inductive End where
  | front
  | back

/-- An iterator over items held in order, and what it holds after each end is taken. The laws are
owed while the iterator is `fit`. -/
structure DoubleEnded (ι α : Type) where
  next : ι → Option α × ι
  nextBack : ι → Option α × ι
  held : ι → List α
  fit : ι → Prop
  next_eq : ∀ {it}, fit it → (next it).1 = (held it).head? ∧ held (next it).2 = (held it).tail
  nextBack_eq : ∀ {it}, fit it →
    (nextBack it).1 = (held it).getLast? ∧ held (nextBack it).2 = (held it).dropLast
  fit_next : ∀ {it}, fit it → fit (next it).2
  fit_nextBack : ∀ {it}, fit it → fit (nextBack it).2

/-- What asking at one end after another answers. -/
def pulls {ι α : Type} (pull : End → ι → Option α × ι) : List End → ι → List (Option α)
  | [], _ => []
  | side :: sides, it => (pull side it).1 :: pulls pull sides (pull side it).2

/-- An end taken off a list. -/
def pullList {α : Type} : End → List α → Option α × List α
  | .front, items => (items.head?, items.tail)
  | .back, items => (items.getLast?, items.dropLast)

/-- A list taken from both ends. -/
def DoubleEnded.ofList {α : Type} : DoubleEnded (List α) α where
  next := pullList .front
  nextBack := pullList .back
  held := id
  fit := fun _ => True
  next_eq := fun _ => ⟨rfl, rfl⟩
  nextBack_eq := fun _ => ⟨rfl, rfl⟩
  fit_next := fun _ => trivial
  fit_nextBack := fun _ => trivial

theorem pulls_congr {ι α : Type} {pull : End → ι → Option α × ι} {stands : ι → List α → Prop}
    (step : ∀ {it items}, stands it items → ∀ side, (pull side it).1 = (pullList side items).1 ∧
      stands (pull side it).2 (pullList side items).2)
    {it : ι} {items : List α} (start : stands it items) (sides : List End) :
    pulls pull sides it = pulls pullList sides items := by
  induction sides generalizing it items with
  | nil => rfl
  | cons side sides ih =>
    obtain ⟨answered, later⟩ := step start side
    rw [pulls, pulls, answered, ih later]

/-- An iterator with its next item from each end looked at but not yet taken. -/
structure Ends (ι α : Type) where
  inner : ι
  front : Option α
  back : Option α

namespace Ends

variable {ι α : Type} (source : DoubleEnded ι α)

def new (inner : ι) : Ends ι α := ⟨inner, none, none⟩

/-- A look at the front. When the inner iterator runs dry, the item held at the other end is the
last one left. -/
def peekFront (ends : Ends ι α) : Option α × Ends ι α :=
  match ends.front with
  | some item => (some item, ends)
  | none =>
    match source.next ends.inner with
    | (some item, inner) => (some item, { ends with inner, front := some item })
    | (none, inner) => (ends.back, { inner, front := ends.back, back := none })

/-- A look at the back. -/
def peekBack (ends : Ends ι α) : Option α × Ends ι α :=
  match ends.back with
  | some item => (some item, ends)
  | none =>
    match source.nextBack ends.inner with
    | (some item, inner) => (some item, { ends with inner, back := some item })
    | (none, inner) => (ends.front, { inner, front := none, back := ends.front })

def takeFront (ends : Ends ι α) : Ends ι α := { ends with front := none }

def takeBack (ends : Ends ι α) : Ends ι α := { ends with back := none }

/-- What is still to come, from front to back. -/
def held (ends : Ends ι α) : List α :=
  ends.front.toList ++ (source.held ends.inner ++ ends.back.toList)

variable {source}

/-- What a look at the front leaves: the same items, the first of them in sight. -/
structure FrontSeen (source : DoubleEnded ι α) (before after : Ends ι α) : Prop where
  same : after.held source = before.held source
  seen : after.front = (before.held source).head?
  fit : source.fit after.inner

structure BackSeen (source : DoubleEnded ι α) (before after : Ends ι α) : Prop where
  same : after.held source = before.held source
  seen : after.back = (before.held source).getLast?
  fit : source.fit after.inner

theorem peekFront_eq {ends : Ends ι α} (fit : source.fit ends.inner) :
    (ends.peekFront source).1 = (ends.held source).head? ∧
      FrontSeen source ends (ends.peekFront source).2 := by
  obtain ⟨inner, front, back⟩ := ends
  cases front with
  | some item => exact ⟨rfl, rfl, rfl, fit⟩
  | none =>
    obtain ⟨answered, left⟩ := source.next_eq fit
    have still := source.fit_next fit
    cases items : source.held inner with
    | nil =>
      rw [items] at answered left
      have dry : source.next inner = (none, (source.next inner).2) := Prod.ext answered rfl
      have all : held source ⟨inner, none, back⟩ = back.toList := by
        simp only [held, items, toList_none, nil_append]
      have moved : peekFront source ⟨inner, none, back⟩ =
          (back, ⟨(source.next inner).2, back, none⟩) := by
        simp only [peekFront]
        rw [dry]
      rw [moved, all]
      refine ⟨(head?_toList).symm, ?_, ?_, still⟩
      · rw [all]
        simp only [held, left, tail_nil, toList_none, append_nil]
      · rw [all]
        exact (head?_toList).symm
    | cons item rest =>
      rw [items] at answered left
      have found : source.next inner = (some item, (source.next inner).2) := Prod.ext answered rfl
      have all : held source ⟨inner, none, back⟩ = item :: (rest ++ back.toList) := by
        simp only [held, items, toList_none, nil_append, cons_append]
      have moved : peekFront source ⟨inner, none, back⟩ =
          (some item, ⟨(source.next inner).2, some item, back⟩) := by
        simp only [peekFront]
        rw [found]
      rw [moved, all]
      refine ⟨rfl, ?_, ?_, still⟩
      · rw [all]
        simp only [held, left, tail_cons, toList_some, singleton_append]
      · rw [all]
        rfl

theorem peekBack_eq {ends : Ends ι α} (fit : source.fit ends.inner) :
    (ends.peekBack source).1 = (ends.held source).getLast? ∧
      BackSeen source ends (ends.peekBack source).2 := by
  obtain ⟨inner, front, back⟩ := ends
  cases back with
  | some item =>
    have last : (held source ⟨inner, front, some item⟩).getLast? = some item := by
      simp only [held, toList_some, ← append_assoc, getLast?_concat]
    exact ⟨last.symm, rfl, last.symm, fit⟩
  | none =>
    obtain ⟨answered, left⟩ := source.nextBack_eq fit
    have still := source.fit_nextBack fit
    rcases eq_nil_or_concat (source.held inner) with items | ⟨rest, item, items⟩
    · rw [items] at answered left
      have dry : source.nextBack inner = (none, (source.nextBack inner).2) := Prod.ext answered rfl
      have all : held source ⟨inner, front, none⟩ = front.toList := by
        simp only [held, items, toList_none, append_nil]
      have moved : peekBack source ⟨inner, front, none⟩ =
          (front, ⟨(source.nextBack inner).2, none, front⟩) := by
        simp only [peekBack]
        rw [dry]
      have last : front.toList.getLast? = front := by cases front <;> rfl
      rw [moved, all]
      refine ⟨last.symm, ?_, ?_, still⟩
      · rw [all]
        simp only [held, left, dropLast_nil, toList_none, nil_append]
      · rw [all]
        exact last.symm
    · rw [concat_eq_append] at items
      rw [items, getLast?_concat] at answered
      rw [items, dropLast_concat] at left
      have found : source.nextBack inner = (some item, (source.nextBack inner).2) :=
        Prod.ext answered rfl
      have all : held source ⟨inner, front, none⟩ = (front.toList ++ rest) ++ [item] := by
        simp only [held, items, toList_none, append_nil, append_assoc]
      have moved : peekBack source ⟨inner, front, none⟩ =
          (some item, ⟨(source.nextBack inner).2, front, some item⟩) := by
        simp only [peekBack]
        rw [found]
      rw [moved, all, getLast?_concat]
      refine ⟨rfl, ?_, ?_, still⟩
      · rw [all]
        simp only [held, left, toList_some, append_assoc]
      · rw [all, getLast?_concat]

variable {before after : Ends ι α}

theorem held_takeFront (seen : FrontSeen source before after) :
    after.takeFront.held source = (before.held source).tail := by
  obtain ⟨same, sight, -⟩ := seen
  rw [← same] at sight ⊢
  obtain ⟨inner, front, back⟩ := after
  cases front with
  | some item => rfl
  | none =>
    have dry : held source ⟨inner, none, back⟩ = [] := head?_eq_none_iff.mp sight.symm
    rw [takeFront, dry]
    rfl

theorem held_takeBack (seen : BackSeen source before after) :
    after.takeBack.held source = (before.held source).dropLast := by
  obtain ⟨same, sight, -⟩ := seen
  rw [← same] at sight ⊢
  obtain ⟨inner, front, back⟩ := after
  cases back with
  | some item =>
    simp only [takeBack, held, toList_none, toList_some, append_nil]
    rw [← append_assoc, dropLast_concat]
  | none =>
    have dry : held source ⟨inner, front, none⟩ = [] := getLast?_eq_none_iff.mp sight.symm
    rw [takeBack, dry]
    rfl

end Ends

/-! ### Two ascending lists merged -/

/-- Items in order are two ordered lists taken together. -/
structure Merges {α : Type} (before : α → α → Prop) (items first second : List α) : Prop where
  ordered : items.Pairwise before
  firstOrdered : first.Pairwise before
  secondOrdered : second.Pairwise before
  together : items.Perm (first ++ second)

/-- Whether the next item of two is the second's. -/
def secondNext {α : Type} (before : α → α → Prop) [DecidableRel before] :
    Option α → Option α → Bool
  | some first, some second => decide (before second first)
  | some _, none => false
  | none, _ => true

namespace Merges

variable {α : Type} {before : α → α → Prop} {items first second : List α}

theorem reverse (merges : Merges before items first second) :
    Merges (flip before) items.reverse first.reverse second.reverse where
  ordered := pairwise_reverse.mpr merges.ordered
  firstOrdered := pairwise_reverse.mpr merges.firstOrdered
  secondOrdered := pairwise_reverse.mpr merges.secondOrdered
  together :=
    (items.reverse_perm.trans merges.together).trans
      ((first.reverse_perm.symm).append second.reverse_perm.symm)

theorem symm (merges : Merges before items first second) : Merges before items second first where
  ordered := merges.ordered
  firstOrdered := merges.secondOrdered
  secondOrdered := merges.firstOrdered
  together := merges.together.trans perm_append_comm

variable [IsStrictTotalOrder α before]

theorem head_first {item : α} (merges : Merges before items (item :: first) second)
    (least : ∀ other ∈ second, before item other) :
    items.head? = some item ∧ Merges before items.tail first second := by
  have smallest : ∀ other ∈ first ++ second, before item other := by
    intro other member
    rcases mem_append.mp member with inFirst | inSecond
    · exact (pairwise_cons.mp merges.firstOrdered).1 other inFirst
    · exact least other inSecond
  have together := merges.together
  cases items with
  | nil => cases together.nil_eq
  | cons head rest =>
    have same : head = item := by
      by_contra differ
      have above : before item head := smallest head <|
        (mem_cons.mp (together.mem_iff.mp mem_cons_self)).resolve_left differ
      have below : before head item := (pairwise_cons.mp merges.ordered).1 item <|
        (mem_cons.mp (together.mem_iff.mpr mem_cons_self)).resolve_left (Ne.symm differ)
      exact asymm_of before above below
    subst same
    exact ⟨rfl, (pairwise_cons.mp merges.ordered).2,
      (pairwise_cons.mp merges.firstOrdered).2, merges.secondOrdered,
      perm_cons head |>.mp together⟩

/-- The next of two is the next of the items, and the rest of the two the rest of the items. -/
theorem next [DecidableRel before] (merges : Merges before items first second) :
    if secondNext before first.head? second.head? then
      second.head? = items.head? ∧ Merges before items.tail first second.tail
    else first.head? = items.head? ∧ Merges before items.tail first.tail second := by
  cases first with
  | nil =>
    cases second with
    | nil =>
      have none : items = [] := merges.together.eq_nil
      subst none
      exact ⟨rfl, merges⟩
    | cons other rest =>
      have led := merges.symm.head_first (fun _ absent => absurd absent not_mem_nil)
      exact ⟨led.1.symm, led.2.symm⟩
  | cons item firstRest =>
    cases second with
    | nil =>
      have led := merges.head_first (fun _ absent => absurd absent not_mem_nil)
      exact ⟨led.1.symm, led.2⟩
    | cons other secondRest =>
      have firstAfter := (pairwise_cons.mp merges.firstOrdered).1
      have secondAfter := (pairwise_cons.mp merges.secondOrdered).1
      by_cases lower : before other item
      · have chosen : secondNext before (some item) (some other) = true := decide_eq_true lower
        have least : ∀ held ∈ item :: firstRest, before other held := by
          intro held member
          rcases mem_cons.mp member with rfl | later
          · exact lower
          · exact trans_of before lower (firstAfter held later)
        have led := merges.symm.head_first least
        simp only [head?_cons, chosen, if_true]
        exact ⟨led.1.symm, led.2.symm⟩
      · have chosen : secondNext before (some item) (some other) = false :=
          decide_eq_false lower
        -- The two lists share no item, as the items are in strict order.
        have differ : item ≠ other := by
          intro same
          have distinct : items.Nodup :=
            merges.ordered.imp fun less => ne_of_irrefl less
          rw [merges.together.nodup_iff] at distinct
          exact (nodup_append.mp distinct).2.2 item mem_cons_self other
            mem_cons_self same
        have upper : before item other := by
          rcases trichotomous_of before item other with upper | same | lower'
          · exact upper
          · exact absurd same differ
          · exact absurd lower' lower
        have least : ∀ held ∈ other :: secondRest, before item held := by
          intro held member
          rcases mem_cons.mp member with rfl | later
          · exact upper
          · exact trans_of before upper (secondAfter held later)
        have led := merges.head_first least
        simp only [head?_cons, chosen]
        exact ⟨led.1.symm, led.2⟩

end Merges

/-- Two ascending iterators taken as one. -/
structure Merged (ι κ α : Type) where
  first : Ends ι α
  second : Ends κ α

namespace Merged

variable {ι κ α : Type} [LinearOrder α] (source : DoubleEnded ι α) (other : DoubleEnded κ α)

/-- The lower of the two fronts, taken; the first's when the second has none. -/
def next (merged : Merged ι κ α) : Option α × Merged ι κ α :=
  let ahead := merged.first.peekFront source
  let beside := merged.second.peekFront other
  if secondNext (· < ·) ahead.1 beside.1 then
    (beside.2.front, ⟨ahead.2, beside.2.takeFront⟩)
  else (ahead.2.front, ⟨ahead.2.takeFront, beside.2⟩)

/-- The higher of the two backs, taken. -/
def nextBack (merged : Merged ι κ α) : Option α × Merged ι κ α :=
  let ahead := merged.first.peekBack source
  let beside := merged.second.peekBack other
  if secondNext (· > ·) ahead.1 beside.1 then
    (beside.2.back, ⟨ahead.2, beside.2.takeBack⟩)
  else (ahead.2.back, ⟨ahead.2.takeBack, beside.2⟩)

def pull : End → Merged ι κ α → Option α × Merged ι κ α
  | .front => next source other
  | .back => nextBack source other

/-- The items two iterators stand for together. -/
structure Stands (merged : Merged ι κ α) (items : List α) : Prop where
  firstFit : source.fit merged.first.inner
  secondFit : other.fit merged.second.inner
  merges : Merges (· < ·) items (merged.first.held source) (merged.second.held other)

variable {source other} {merged : Merged ι κ α}

theorem next_stands {items : List α}
    (stands : Stands source other merged items) :
    (merged.next source other).1 = items.head? ∧
      Stands source other (merged.next source other).2 items.tail := by
  obtain ⟨ahead, aheadSeen⟩ := Ends.peekFront_eq stands.firstFit
  obtain ⟨beside, besideSeen⟩ := Ends.peekFront_eq stands.secondFit
  have led := stands.merges.next
  simp only [Merged.next, ahead, beside]
  split
  · next chosen =>
      rw [if_pos chosen] at led
      refine ⟨besideSeen.seen.trans led.1, aheadSeen.fit, besideSeen.fit, ?_⟩
      rw [aheadSeen.same, Ends.held_takeFront besideSeen]
      exact led.2
  · next chosen =>
      rw [if_neg chosen] at led
      refine ⟨aheadSeen.seen.trans led.1, aheadSeen.fit, besideSeen.fit, ?_⟩
      rw [besideSeen.same, Ends.held_takeFront aheadSeen]
      exact led.2

theorem nextBack_stands {items : List α}
    (stands : Stands source other merged items) :
    (merged.nextBack source other).1 = items.getLast? ∧
      Stands source other (merged.nextBack source other).2 items.dropLast := by
  obtain ⟨ahead, aheadSeen⟩ := Ends.peekBack_eq stands.firstFit
  obtain ⟨beside, besideSeen⟩ := Ends.peekBack_eq stands.secondFit
  -- From the back the items, and the two that make them up, run downwards.
  have downward : Merges (· > ·) items.reverse (merged.first.held source).reverse
      (merged.second.held other).reverse := stands.merges.reverse
  have led := downward.next
  have turn : ∀ {all left right : List α}, Merges (· > ·) all left right →
      Merges (· < ·) all.reverse left.reverse right.reverse := fun merges => merges.reverse
  simp only [head?_reverse] at led
  simp only [Merged.nextBack, ahead, beside]
  split
  · next chosen =>
      rw [if_pos chosen] at led
      refine ⟨besideSeen.seen.trans led.1, aheadSeen.fit, besideSeen.fit, ?_⟩
      rw [aheadSeen.same, Ends.held_takeBack besideSeen]
      have back := turn led.2
      simpa only [tail_reverse, reverse_reverse] using back
  · next chosen =>
      rw [if_neg chosen] at led
      refine ⟨aheadSeen.seen.trans led.1, aheadSeen.fit, besideSeen.fit, ?_⟩
      rw [besideSeen.same, Ends.held_takeBack aheadSeen]
      have back := turn led.2
      simpa only [tail_reverse, reverse_reverse] using back

theorem pulls_eq {items : List α}
    (stands : Stands source other merged items) (sides : List End) :
    pulls (pull source other) sides merged = pulls pullList sides items := by
  refine pulls_congr (fun {_ _} held side => ?_) stands sides
  cases side with
  | front => exact next_stands held
  | back => exact nextBack_stands held

end Merged

end Sprawling
