import Sprawling.Base.Trace
import Sprawling.Runtime.Tools.FileWorld

/-! No edit is lost: whatever order the steps of any number of runs come in, an edit lands only on
the file its run last looked at. -/

namespace Sprawling

open List Option Trace Replacement

namespace FileDeed

variable {ρ ι : Type}

/-- What stands at the path after the deed, where the deed changes it. -/
def change : FileDeed ρ ι → Option (Option Standing)
  | .wrote standing => some standing
  | .landed _ _ _ standing | .claimed _ standing | .created _ _ standing => some (some standing)
  | .withdrew _ => some none
  | .called _ _ | .strayed _ | .glimpsed _ _ | .admitted _ | .looked _ _ _ _ | .refused _ _ => none

/-- What the deed leaves in a file, at the path or not. -/
def left : FileDeed ρ ι → Option Standing
  | .wrote standing => standing
  | .landed _ _ _ standing | .claimed _ standing | .created _ _ standing | .strayed standing =>
    some standing
  | .called _ _ | .withdrew _ | .glimpsed _ _ | .admitted _ | .looked _ _ _ _ | .refused _ _ => none

/-- The call that did it. -/
def caller : FileDeed ρ ι → Option ι
  | .wrote _ | .strayed _ => none
  | .called call _ | .landed call _ _ _ | .claimed call _ | .created call _ _ | .withdrew call
  | .glimpsed call _ | .admitted call | .looked _ call _ _ | .refused call _ => some call

/-- The stamps a deed names. -/
def stamps : FileDeed ρ ι → List Stamp
  | .wrote standing => (standing.map (·.stamp)).toList
  | .landed _ _ _ standing | .claimed _ standing | .created _ _ standing | .strayed standing =>
    [standing.stamp]
  | .glimpsed _ stamp => stamp.toList
  | .looked _ _ stamp _ => [stamp]
  | .called _ _ | .withdrew _ | .admitted _ | .refused _ _ => []

/-- What stands at the path after the deeds. -/
def fileAfter (start : Option Standing) (deeds : List (FileDeed ρ ι)) : Option Standing :=
  deeds.foldl (fun file deed => deed.change.getD file) start

/-- The stamp was never seen before: not at the start, and not in the deeds. -/
def NeverSeen (start : Option Standing) (deeds : List (FileDeed ρ ι)) (stamp : Stamp) : Prop :=
  (∀ standing, start = some standing → standing.stamp ≠ stamp) ∧
    ∀ deed ∈ deeds, stamp ∉ deed.stamps

def Outside (deed : FileDeed ρ ι) : Prop := ∃ left, deed = .wrote left

/-- The deed is no glimpse of the file and no look. -/
def Blind : FileDeed ρ ι → Prop
  | .glimpsed _ _ | .looked _ _ _ _ => False
  | _ => True

/-- A look a run noted: the call, the stamp, and the text it was shown if it was shown one. -/
structure Look (ι : Type) where
  call : ι
  stamp : Stamp
  shown : Option (List Char)

/-- The look a deed notes for a run. -/
def lookOf [DecidableEq ρ] (run : ρ) : FileDeed ρ ι → Option (Look ι)
  | .looked other call stamp shown => if other = run then some ⟨call, stamp, shown⟩ else none
  | _ => none

theorem Blind.looks [DecidableEq ρ] {deed : FileDeed ρ ι} (blind : deed.Blind) (run : ρ) :
    lookOf run deed = none := by
  cases deed with
  | looked => exact blind.elim
  | _ => rfl

theorem Blind.unlooked {deed : FileDeed ρ ι} (blind : deed.Blind) {known : ι → Prop} (call : ι)
    (stamp : Option Stamp) (same : deed = .glimpsed call stamp) : known call := by
  cases same
  exact blind.elim

/-- A run's last look. -/
def lastLook [DecidableEq ρ] (run : ρ) (deeds : List (FileDeed ρ ι)) : Option (Look ι) :=
  deeds.foldl (fun last deed => (lookOf run deed).or last) none

/-- The replacement a request makes in a text: its one passage, or each of its occurrences. -/
def Replaces (request : EditRequest) (text updated : List Char) : Prop :=
  let spelled := asTheFileSpells text request.old request.new
  if request.every then updated = replaceAll spelled.1 spelled.2 text
  else Replacement.count spelled.1 text = 1 ∧ ∃ before after,
    text = before ++ spelled.1 ++ after ∧ updated = before ++ spelled.2 ++ after

/-- What a landing needs of the deeds before it. The edit was admitted on the file it read, `old`,
and that is the file its run last looked at. Since that look nobody changed the file up to the
stamp that closed the edit's own read, and after that only writers that take no path lock did. What
lands is the text of that file with the replacement. -/
def Lands [DecidableEq ρ] (start : Option Standing) (before : List (FileDeed ρ ι)) (call : ι)
    (run : ρ) (request : EditRequest) (standing : Standing) : Prop :=
  ∃ pre post early late first rest old look text updated,
    before = pre ++ .admitted call :: post ∧
    pre = early ++ .glimpsed call (some old.stamp) :: late ∧
    fileAfter start early = some old ∧
    lastLook run pre = some look ∧ look.stamp = old.stamp ∧
    (∀ shown, look.shown = some shown → shown = text) ∧
    pre = first ++ .glimpsed look.call (some old.stamp) :: rest ∧
    (∀ stamp, .glimpsed look.call stamp ∉ rest) ∧
    (∀ earlier deed later, before = earlier ++ deed :: later → deed.change ≠ none →
      first.length ≤ earlier.length → early.length ≤ earlier.length ∧ deed.Outside) ∧
    Utf8.decode old.bytes = some text ∧ Replaces request text updated ∧
    standing.bytes = Utf8.encode updated

/-- What stood in some file, at the start or by a deed. -/
def Stood (start : Option Standing) (before : List (FileDeed ρ ι)) (standing : Standing) : Prop :=
  start = some standing ∨ ∃ deed ∈ before, deed.left = some standing

/-- What each deed needs of the deeds before it: a call is made once and by one run, whose table
alone takes its looks, and the stamp a look notes is the one that closed it, of the file that holds
the text it shows. -/
def Due [DecidableEq ρ] (start : Option Standing) (before : List (FileDeed ρ ι)) :
    FileDeed ρ ι → Prop
  | .called call _ => ∀ run, .called call run ∉ before
  | .wrote standing => ∀ left, standing = some left → NeverSeen start before left.stamp
  | .strayed standing => NeverSeen start before standing.stamp
  | .landed call run request standing => .called call run ∈ before ∧
    NeverSeen start before standing.stamp ∧ Lands start before call run request standing
  | .claimed _ standing =>
    NeverSeen start before standing.stamp ∧ fileAfter start before = none
  | .created _ _ standing => NeverSeen start before standing.stamp
  | .looked run call stamp shown => .called call run ∈ before ∧
    (∃ early late, before = early ++ .glimpsed call (some stamp) :: late ∧
      ∀ other, .glimpsed call other ∉ late) ∧
    ∃ standing, Stood start before standing ∧ standing.stamp = stamp ∧
      ∀ text, shown = some text → Utf8.decode standing.bytes = some text
  | .refused call why =>
    (why ≠ .storage → ∀ deed ∈ before, deed.caller = some call → deed.change = none) ∧
    (why ≠ .storage → why ≠ .moved →
      ∀ run stamp shown, .looked run call stamp shown ∉ before) ∧
    (why = .moved → ∃ earlier early late run old text,
      before = earlier ++ [.looked run call old.stamp (some text)] ∧ .called call run ∈ earlier ∧
      (∀ run stamp shown, .looked run call stamp shown ∉ earlier) ∧
      earlier = early ++ .glimpsed call (some old.stamp) :: late ∧ fileAfter start early = some old ∧
      Utf8.decode old.bytes = some text)
  | .withdrew _ | .glimpsed _ _ | .admitted _ => True

section Files

variable {start : Option Standing} {deeds : List (FileDeed ρ ι)}

@[simp] theorem fileAfter_nil : fileAfter start ([] : List (FileDeed ρ ι)) = start := rfl

@[simp] theorem fileAfter_concat (deed : FileDeed ρ ι) :
    fileAfter start (deeds ++ [deed]) = deed.change.getD (fileAfter start deeds) := by
  rw [fileAfter, foldl_append]
  rfl

variable {standing : Standing}

theorem Due.neverSeen [DecidableEq ρ] {deed : FileDeed ρ ι}
    (due : Due start deeds deed) (changes : deed.change = some (some standing)) :
    NeverSeen start deeds standing.stamp := by
  cases deed with
  | wrote left =>
    cases changes
    exact due standing rfl
  | landed =>
    cases changes
    exact due.2.1
  | claimed =>
    cases changes
    exact due.1
  | created =>
    cases changes
    exact due
  | _ => cases changes

variable {more : List (FileDeed ρ ι)}

theorem NeverSeen.of_append {stamp : Stamp}
    (never : NeverSeen start (deeds ++ more) stamp) : NeverSeen start deeds stamp :=
  ⟨never.1, fun deed member => never.2 deed (mem_append_left _ member)⟩

theorem still_of_known [DecidableEq ρ]
    (always : Trace.Always (Due start) (deeds ++ more))
    (stands : fileAfter start (deeds ++ more) = some standing)
    (known : ¬NeverSeen start deeds standing.stamp) : ∀ deed ∈ more, deed.change = none := by
  induction more using List.reverseRecOn with
  | nil => exact fun _ member => absurd member not_mem_nil
  | append_singleton more last ih =>
    rw [← append_assoc] at always stands
    obtain ⟨always, due⟩ := always_concat.mp always
    rw [fileAfter_concat] at stands
    cases changes : last.change with
    | none =>
      rw [changes] at stands
      intro deed member
      rcases mem_append.mp member with inside | final
      · exact ih always stands deed inside
      · rw [mem_singleton.mp final, changes]
    | some left =>
      rw [changes] at stands
      obtain rfl : left = some standing := stands
      exact absurd (Due.neverSeen due changes).of_append known

end Files

section Looks

variable [DecidableEq ρ] {deeds : List (FileDeed ρ ι)} {run : ρ}

theorem lastLook_concat (deed : FileDeed ρ ι) :
    lastLook run (deeds ++ [deed]) = (lookOf run deed).or (lastLook run deeds) := by
  rw [lastLook, foldl_append]
  rfl

theorem Lands.append {start : Option Standing} {more : List (FileDeed ρ ι)} {call : ι}
    {request : EditRequest} {standing : Standing} (lands : Lands start deeds call run request standing)
    (outside : ∀ deed ∈ more, deed.change ≠ none → deed.Outside) :
    Lands start (deeds ++ more) call run request standing := by
  obtain ⟨pre, post, early, late, first, rest, old, look, text, updated, whole, check, stood, last,
    same, shown, glimpse, final, only, read, replaced, bytes⟩ := lands
  refine ⟨pre, post ++ more, early, late, first, rest, old, look, text, updated,
    by rw [whole, append_assoc, cons_append], check, stood, last, same, shown, glimpse,
    final, ?_, read, replaced, bytes⟩
  intro earlier deed later split changes past
  rcases append_eq_append_iff.mp split with ⟨tail, rfl, new⟩ | ⟨tail, old_, rest_⟩
  · -- the deed is among the new ones
    have member : deed ∈ more := by
      rw [new]
      simp
    refine ⟨?_, outside deed member changes⟩
    rw [whole, check]
    simp only [length_append, length_cons]
    omega
  · cases tail with
    | nil =>
      have member : deed ∈ more := by
        rw [nil_append] at rest_
        rw [← rest_]
        simp
      refine ⟨?_, outside deed member changes⟩
      rw [append_nil] at old_
      rw [← old_, whole, check]
      simp only [length_append, length_cons]
      omega
    | cons other tail =>
      rw [cons_append] at rest_
      injection rest_ with same_ _
      subst same_
      exact only earlier deed tail old_ changes past

end Looks

theorem updated_replaces {request : EditRequest} {text updated : List Char}
    (made : request.updated text = .ok updated) : Replaces request text updated := by
  unfold EditRequest.updated at made
  unfold Replaces
  generalize asTheFileSpells text request.old request.new = spelled at made ⊢
  simp only at made ⊢
  split at made
  · cases made
  · next once every =>
      cases made
      rw [every]
      refine ⟨once, ?_⟩
      apply replaceFirst_spec
      omega
  · next every _ =>
      cases made
      rw [every, if_pos rfl]
  · cases made

end FileDeed

namespace FileWorld

open FileDeed

variable {ρ ι : Type}

section Flights

variable (start : Option Standing) (world : FileWorld ρ ι) (call : ι)

/-- The call was not made. -/
def Unmade : Prop := ∀ deed ∈ world.deeds, deed.caller ≠ some call

/-- The call was made and has done nothing yet. -/
def Quiet : Prop := ∀ deed ∈ world.deeds, deed.caller = some call → ∃ run, deed = .called call run

def Called (run : ρ) : Prop := .called call run ∈ world.deeds

def Unlooked : Prop := ∀ run stamp shown, .looked run call stamp shown ∉ world.deeds

def Unwritten : Prop := ∀ deed ∈ world.deeds, deed.caller = some call → deed.change = none

def Inside : Prop := world.holder = some call

def Known (stamp : Stamp) : Prop := ∃ standing ∈ world.minted, standing.stamp = stamp

/-- The call's last glimpse was of this stamp. -/
def Glimpsed (stamp : Stamp) : Prop :=
  ∃ first rest, world.deeds = first ++ .glimpsed call (some stamp) :: rest ∧
    ∀ other, .glimpsed call other ∉ rest

/-- Since the call's glimpse, when the file held this text, only others than edits changed it. -/
def Checked (stamp : Stamp) (text : List Char) : Prop :=
  ∃ early late old, world.deeds = early ++ .glimpsed call (some stamp) :: late ∧
    old.stamp = stamp ∧ fileAfter start early = some old ∧ Utf8.decode old.bytes = some text ∧
    (∀ other, .glimpsed call other ∉ late) ∧
    ∀ deed ∈ late, deed.change ≠ none → deed.Outside

/-- What a call knows at each stage. -/
def Abreast [DecidableEq ρ] : Flight ρ → Prop
  | .idle => world.Unmade call
  | .waiting _ _ | .opening _ _ | .opened _ _ _ => world.Quiet call
  | .entered _ _ => world.Quiet call ∧ world.Inside call
  | .stamped _ request before =>
    world.Quiet call ∧ world.Inside call ∧ request.intent = .replace ∧ world.Known before
  | .gathered _ request before bytes =>
    world.Quiet call ∧ world.Inside call ∧ request.intent = .replace ∧ world.Known before ∧
      ∀ standing, world.standing = some standing → standing.stamp = before →
        standing.bytes = bytes
  | .judged _ request text current =>
    world.Unlooked call ∧ world.Unwritten call ∧ world.Inside call ∧
      (request.intent = .replace → ∀ stamp, current = some stamp →
        world.Checked start call stamp text)
  | .moved _ _ text current =>
    world.Unlooked call ∧ world.Unwritten call ∧ world.Inside call ∧
      world.Checked start call current text
  | .creating _ _ => world.Unlooked call ∧ world.Unwritten call ∧ world.Inside call
  | .replacing run request _ updated =>
    world.Unlooked call ∧ world.Unwritten call ∧ world.Inside call ∧
      ∀ standing, standing.bytes = Utf8.encode updated →
        Lands start world.deeds call run request standing
  | .claimed _ _ node => world.Unlooked call ∧ world.Inside call ∧ node < world.nodes.length
  | .landed _ _ _ _ => world.Unlooked call ∧ world.Inside call
  | .noting _ _ _ _ stamp =>
    world.Unlooked call ∧ world.Inside call ∧
      ∀ known, stamp = some known → world.Glimpsed call known ∧ world.Known known
  | .handled _ _ _ before => world.Quiet call ∧ world.Known before
  | .showing _ _ node before bytes =>
    world.Quiet call ∧ world.Known before ∧
      ∀ standing, world.nodes[node]? = some standing → standing.stamp = before →
        standing.bytes = bytes
  | .noticing _ text stamp =>
    world.Unlooked call ∧ world.Glimpsed call stamp ∧
      ∃ standing ∈ world.minted, standing.stamp = stamp ∧ Utf8.decode standing.bytes = some text
  | .done _ => True

end Flights

/-- What the world shows a call when somebody else acts. -/
structure Aside (call : ι) (world after : FileWorld ρ ι) : Prop where
  deeds : ∃ more, after.deeds = world.deeds ++ more ∧ (∀ deed ∈ more, deed.caller ≠ some call) ∧
    (world.holder = some call → ∀ deed ∈ more, deed.change ≠ none → deed.Outside)
  holder : world.holder = some call → after.holder = some call
  minted : world.minted ⊆ after.minted
  file : ∀ standing, after.standing = some standing →
    world.standing = some standing ∨ world.Fresh standing.stamp
  nodes : ∀ (node : Nat) standing, after.nodes[node]? = some standing →
    world.nodes[node]? = some standing ∨ world.Fresh standing.stamp
  size : world.nodes.length ≤ after.nodes.length

section Aside

variable {start : Option Standing} {world after : FileWorld ρ ι} {call : ι}

/-- What happens while others act is not the call's. -/
theorem Aside.mem_deeds (aside : Aside call world after) {deed : FileDeed ρ ι}
    (member : deed ∈ after.deeds) : deed ∈ world.deeds ∨ deed.caller ≠ some call := by
  obtain ⟨more, grown, others, -⟩ := aside.deeds
  rw [grown] at member
  exact (mem_append.mp member).imp_right (others deed)

theorem Unmade.aside (unmade : world.Unmade call) (aside : Aside call world after) :
    after.Unmade call := by
  intro deed member
  rcases aside.mem_deeds member with old | other
  · exact unmade deed old
  · exact other

theorem Quiet.aside (quiet : world.Quiet call) (aside : Aside call world after) :
    after.Quiet call := by
  intro deed member own
  rcases aside.mem_deeds member with old | other
  · exact quiet deed old own
  · exact absurd own other

theorem Called.aside {run : ρ} (called : world.Called call run) (aside : Aside call world after) :
    after.Called call run := by
  obtain ⟨more, grown, -⟩ := aside.deeds
  rw [Called, grown]
  exact mem_append_left _ called

theorem Unlooked.aside (unlooked : world.Unlooked call) (aside : Aside call world after) :
    after.Unlooked call := by
  intro run stamp shown member
  rcases aside.mem_deeds member with old | other
  · exact unlooked run stamp shown old
  · exact other rfl

theorem Unwritten.aside (unwritten : world.Unwritten call) (aside : Aside call world after) :
    after.Unwritten call := by
  intro deed member own
  rcases aside.mem_deeds member with old | other
  · exact unwritten deed old own
  · exact absurd own other

variable {stamp : Stamp}

theorem Known.aside (known : world.Known stamp) (aside : Aside call world after) :
    after.Known stamp := by
  obtain ⟨standing, member, same⟩ := known
  exact ⟨standing, aside.minted member, same⟩

theorem Known.not_fresh (known : world.Known stamp) : ¬world.Fresh stamp := by
  obtain ⟨standing, member, same⟩ := known
  exact fun fresh => fresh standing member same

theorem Glimpsed.aside (glimpsed : world.Glimpsed call stamp) (aside : Aside call world after) :
    after.Glimpsed call stamp := by
  obtain ⟨more, grown, others, -⟩ := aside.deeds
  obtain ⟨first, rest, split, last⟩ := glimpsed
  refine ⟨first, rest ++ more, by rw [grown, split, append_assoc, cons_append], ?_⟩
  intro other member
  rcases mem_append.mp member with old | new
  · exact last other old
  · exact others _ new rfl

theorem Checked.aside {text : List Char} (checked : world.Checked start call stamp text)
    (inside : world.Inside call) (aside : Aside call world after) :
    after.Checked start call stamp text := by
  obtain ⟨more, grown, others, outside⟩ := aside.deeds
  obtain ⟨early, late, old, split, same, stood, read, last, only⟩ := checked
  refine ⟨early, late ++ more, old, by rw [grown, split, append_assoc, cons_append], same,
    stood, read, ?_, ?_⟩
  · intro other member
    rcases mem_append.mp member with here | new
    · exact last other here
    · exact others _ new rfl
  · intro deed member changes
    rcases mem_append.mp member with here | new
    · exact only deed here changes
    · exact outside inside deed new changes

theorem Abreast.aside [DecidableEq ρ] {flight : Flight ρ} (abreast : world.Abreast start call flight)
    (aside : Aside call world after) : after.Abreast start call flight := by
  cases flight with
  | idle => exact Unmade.aside abreast aside
  | waiting | opening | opened => exact Quiet.aside abreast aside
  | entered => exact ⟨abreast.1.aside aside, aside.holder abreast.2⟩
  | stamped =>
    obtain ⟨quiet, inside, intent, known⟩ := abreast
    exact ⟨quiet.aside aside, aside.holder inside, intent, known.aside aside⟩
  | gathered =>
    obtain ⟨quiet, inside, intent, known, same⟩ := abreast
    refine ⟨quiet.aside aside, aside.holder inside, intent, known.aside aside, ?_⟩
    intro standing stands stamped
    rcases aside.file standing stands with still | fresh
    · exact same standing still stamped
    · rw [stamped] at fresh
      exact absurd fresh known.not_fresh
  | judged =>
    obtain ⟨unlooked, unwritten, inside, checked⟩ := abreast
    exact ⟨unlooked.aside aside, unwritten.aside aside, aside.holder inside,
      fun intent stamp stands => (checked intent stamp stands).aside inside aside⟩
  | moved =>
    obtain ⟨unlooked, unwritten, inside, checked⟩ := abreast
    exact ⟨unlooked.aside aside, unwritten.aside aside, aside.holder inside,
      checked.aside inside aside⟩
  | creating =>
    exact ⟨abreast.1.aside aside, abreast.2.1.aside aside, aside.holder abreast.2.2⟩
  | replacing =>
    obtain ⟨unlooked, unwritten, inside, lands⟩ := abreast
    refine ⟨unlooked.aside aside, unwritten.aside aside, aside.holder inside, ?_⟩
    intro standing bytes
    obtain ⟨more, grown, -, outside⟩ := aside.deeds
    rw [grown]
    exact Lands.append (lands standing bytes) (outside inside)
  | claimed =>
    exact ⟨abreast.1.aside aside, aside.holder abreast.2.1, Nat.lt_of_lt_of_le abreast.2.2 aside.size⟩
  | landed => exact ⟨abreast.1.aside aside, aside.holder abreast.2⟩
  | noting =>
    obtain ⟨unlooked, inside, glimpsed⟩ := abreast
    refine ⟨unlooked.aside aside, aside.holder inside, ?_⟩
    intro known same
    exact ⟨(glimpsed known same).1.aside aside, (glimpsed known same).2.aside aside⟩
  | handled => exact ⟨abreast.1.aside aside, abreast.2.aside aside⟩
  | showing =>
    obtain ⟨quiet, known, same⟩ := abreast
    refine ⟨quiet.aside aside, known.aside aside, ?_⟩
    intro standing stands stamped
    rcases aside.nodes _ standing stands with still | fresh
    · exact same standing still stamped
    · rw [stamped] at fresh
      exact absurd fresh known.not_fresh
  | noticing =>
    obtain ⟨unlooked, glimpsed, standing, member, same⟩ := abreast
    exact ⟨unlooked.aside aside, glimpsed.aside aside, standing, aside.minted member, same⟩
  | done => trivial

end Aside

section Asides

variable {world middle after : FileWorld ρ ι} {call other : ι}

theorem Aside.trans (first : Aside call world middle) (second : Aside call middle after) :
    Aside call world after where
  deeds := by
    obtain ⟨more, grown, others, outside⟩ := first.deeds
    obtain ⟨more', grown', others', outside'⟩ := second.deeds
    refine ⟨more ++ more', by rw [grown', grown, append_assoc], ?_, ?_⟩
    · intro deed member
      rcases mem_append.mp member with here | there
      · exact others deed here
      · exact others' deed there
    · intro inside deed member changes
      rcases mem_append.mp member with here | there
      · exact outside inside deed here changes
      · exact outside' (first.holder inside) deed there changes
  holder := fun inside => second.holder (first.holder inside)
  minted := fun _ member => second.minted (first.minted member)
  file := by
    intro standing stands
    rcases second.file standing stands with still | fresh
    · exact first.file standing still
    · exact Or.inr fun old member => fresh old (first.minted member)
  nodes := by
    intro node standing stands
    rcases second.nodes node standing stands with still | fresh
    · exact first.nodes node standing still
    · exact Or.inr fun old member => fresh old (first.minted member)
  size := Nat.le_trans first.size second.size

theorem aside_noted {deed : FileDeed ρ ι} (others : deed.caller ≠ some call)
    (outside : world.holder = some call → deed.change ≠ none → deed.Outside) :
    Aside call world (world.noted deed) where
  deeds := by
    refine ⟨[deed], rfl, ?_, ?_⟩
    · intro found member
      rw [mem_singleton.mp member]
      exact others
    · intro inside found member
      rw [mem_singleton.mp member]
      exact outside inside
  holder := id
  minted := fun _ member => member
  file := fun _ stands => Or.inl stands
  nodes := fun _ _ stands => Or.inl stands
  size := Nat.le_refl _

theorem aside_same (deeds : after.deeds = world.deeds) (nodes : after.nodes = world.nodes)
    (minted : after.minted = world.minted) (file : ∀ node, after.path = some node → world.path = some node)
    (holder : world.holder = some call → after.holder = some call) : Aside call world after where
  deeds := ⟨[], by rw [deeds, append_nil], fun _ member => absurd member not_mem_nil,
    fun _ _ member => absurd member not_mem_nil⟩
  holder := holder
  minted := by
    rw [minted]
    exact fun _ member => member
  file := by
    intro standing stands
    left
    obtain ⟨node, found, stood⟩ := bind_eq_some_iff.mp stands
    rw [nodes] at stood
    exact bind_eq_some_iff.mpr ⟨node, file node found, stood⟩
  nodes := by
    rw [nodes]
    exact fun _ _ stands => Or.inl stands
  size := by rw [nodes]

theorem aside_place {standing : Standing} (fresh : world.Fresh standing.stamp) :
    Aside call world (world.place standing) where
  deeds := ⟨[], (append_nil _).symm, fun _ member => absurd member not_mem_nil,
    fun _ _ member => absurd member not_mem_nil⟩
  holder := id
  minted := fun _ member => mem_cons_of_mem _ member
  file := by
    intro found stands
    right
    have same : some standing = some found := by
      rw [← stands]
      simp [FileWorld.standing, place]
    cases same
    exact fresh
  nodes := by
    intro node found stands
    by_cases inside : node < world.nodes.length
    · left
      simpa only [place, getElem?_append_left inside] using stands
    · right
      simp only [place, getElem?_append_right (Nat.le_of_not_lt inside)] at stands
      have last := mem_of_getElem? stands
      rw [mem_singleton.mp last]
      exact fresh
  size := by
    simp only [place, length_append]
    omega

theorem aside_fill {node : Nat} {standing : Standing} (fresh : world.Fresh standing.stamp) :
    Aside call world (world.fill node standing) := by
  have changed : ∀ (place : Nat) found, (world.nodes.set node standing)[place]? = some found →
      world.nodes[place]? = some found ∨ world.Fresh found.stamp := by
    intro place found stands
    by_cases same : node = place
    · right
      subst same
      have inside : node < world.nodes.length := by
        by_contra beyond
        rw [getElem?_eq_none (by rw [length_set]; omega)] at stands
        cases stands
      rw [getElem?_set_self inside] at stands
      cases stands
      exact fresh
    · left
      rwa [getElem?_set_ne same] at stands
  refine ⟨⟨[], (append_nil _).symm, fun _ member => absurd member not_mem_nil,
    fun _ _ member => absurd member not_mem_nil⟩, id, fun _ member => mem_cons_of_mem _ member,
    ?_, changed, ?_⟩
  · intro found stands
    obtain ⟨place, path, stood⟩ := bind_eq_some_iff.mp stands
    rcases changed place found stood with still | new
    · exact Or.inl (bind_eq_some_iff.mpr ⟨place, path, still⟩)
    · exact Or.inr new
  · simp only [fill, length_set]
    omega

end Asides

/-- What holds of the world between two steps, the calls apart. -/
structure Core [DecidableEq ρ] (start : Option Standing) (world : FileWorld ρ ι) : Prop where
  within : ∀ node, world.path = some node → node < world.nodes.length
  file : world.standing = fileAfter start world.deeds
  nodes : ∀ standing ∈ world.nodes, standing ∈ world.minted
  unique : ∀ one ∈ world.minted, ∀ two ∈ world.minted, one.stamp = two.stamp → one = two
  opened : ∀ standing, start = some standing → standing ∈ world.minted
  stood : ∀ standing ∈ world.minted, Stood start world.deeds standing
  named : ∀ deed ∈ world.deeds, ∀ stamp ∈ deed.stamps, world.Known stamp
  past : ∀ early late standing, world.deeds = early ++ late →
    fileAfter start early = some standing → standing ∈ world.minted
  always : Trace.Always (Due start) world.deeds
  seen : ∀ run, world.seen run = (lastLook run world.deeds).map (·.stamp)
  looks : ∀ run look, lastLook run world.deeds = some look →
    world.Glimpsed look.call look.stamp ∧ ∃ standing ∈ world.minted, standing.stamp = look.stamp ∧
      ∀ text, look.shown = some text → Utf8.decode standing.bytes = some text

section Cores

variable [DecidableEq ρ] {start : Option Standing} {world after : FileWorld ρ ι}

variable {deeds : List (FileDeed ρ ι)}

omit [DecidableEq ρ] in
theorem stood_append {standing : Standing}
    (stood : Stood start deeds standing) (more : List (FileDeed ρ ι)) :
    Stood start (deeds ++ more) standing :=
  stood.imp_right fun ⟨deed, member, left⟩ => ⟨deed, mem_append_left _ member, left⟩

omit [DecidableEq ρ] in
theorem left_of_change {deed : FileDeed ρ ι} {standing : Standing}
    (changes : deed.change = some (some standing)) : deed.left = some standing := by
  cases deed <;> cases changes <;> rfl

theorem Core.neverSeen (core : Core start world) {stamp : Stamp} (fresh : world.Fresh stamp) :
    NeverSeen start world.deeds stamp := by
  constructor
  · exact fun standing opened => fresh standing (core.opened standing opened)
  · intro deed member named
    obtain ⟨standing, minted, same⟩ := core.named deed member stamp named
    exact fresh standing minted same

theorem mem_of_lastLook {run : ρ} {look : Look ι}
    (last : lastLook run deeds = some look) :
    .looked run look.call look.stamp look.shown ∈ deeds := by
  induction deeds using List.reverseRecOn with
  | nil => cases last
  | append_singleton deeds deed ih =>
    rw [lastLook_concat] at last
    cases here : lookOf run deed with
    | none =>
      rw [here] at last
      exact mem_append_left _ (ih last)
    | some found =>
      rw [here] at last
      cases last
      apply mem_append_right
      rw [mem_singleton]
      cases deed with
      | looked other call stamp shown =>
        by_cases same : other = run
        · rw [lookOf, if_pos same] at here
          cases here
          rw [same]
        · rw [lookOf, if_neg same] at here
          cases here
      | _ => cases here

theorem Core.deed (core : Core start world) {deed : FileDeed ρ ι}
    (grown : after.deeds = world.deeds ++ [deed]) (seen : after.seen = world.seen)
    (looks : ∀ run, lookOf run deed = none)
    (glimpses : ∀ call stamp, deed = .glimpsed call stamp → world.Unlooked call)
    (minted : ∀ standing ∈ after.minted, standing ∈ world.minted ∨
      deed.left = some standing ∧ world.Fresh standing.stamp)
    (kept : world.minted ⊆ after.minted)
    (changed : ∀ standing, deed.change = some (some standing) → standing ∈ after.minted)
    (within : ∀ node, after.path = some node → node < after.nodes.length)
    (nodes : ∀ standing ∈ after.nodes, standing ∈ after.minted)
    (file : after.standing = deed.change.getD world.standing)
    (named : ∀ stamp ∈ deed.stamps, after.Known stamp) (due : Due start world.deeds deed) :
    Core start after where
  within := within
  file := by
    rw [file, grown, fileAfter_concat, core.file]
  nodes := nodes
  unique := by
    intro one first two second same
    rcases minted one first with old | ⟨new, fresh⟩
    · rcases minted two second with old' | ⟨new', fresh'⟩
      · exact core.unique one old two old' same
      · exact absurd same (fresh' one old)
    · rcases minted two second with old' | ⟨new', -⟩
      · exact absurd same.symm (fresh two old')
      · rw [new] at new'
        cases new'
        rfl
  opened := fun standing opened => kept (core.opened standing opened)
  stood := by
    intro standing member
    rw [grown]
    rcases minted standing member with old | ⟨new, -⟩
    · exact stood_append (core.stood standing old) _
    · exact Or.inr ⟨deed, by simp, new⟩
  named := by
    intro found member stamp names
    rw [grown] at member
    rcases mem_append.mp member with old | new
    · obtain ⟨standing, inside, same⟩ := core.named found old stamp names
      exact ⟨standing, kept inside, same⟩
    · rw [mem_singleton.mp new] at names
      exact named stamp names
  past := by
    intro early late standing split stood
    rw [grown] at split
    rcases eq_nil_or_concat late with rfl | ⟨rest, last, rfl⟩
    · rw [append_nil] at split
      rw [← split, fileAfter_concat] at stood
      cases changes : deed.change with
      | none =>
        rw [changes] at stood
        exact kept (core.past world.deeds [] standing (append_nil _).symm stood)
      | some left =>
        rw [changes] at stood
        obtain rfl : left = some standing := stood
        exact changed standing changes
    · rw [concat_eq_append, ← append_assoc] at split
      obtain ⟨split, -⟩ := append_inj' split rfl
      exact kept (core.past early rest standing split stood)
  always := by
    rw [grown]
    exact always_concat.mpr ⟨core.always, due⟩
  seen := by
    intro run
    rw [seen, grown, lastLook_concat, looks run, none_or]
    exact core.seen run
  looks := by
    intro run look last
    rw [grown, lastLook_concat, looks run, none_or] at last
    obtain ⟨⟨first, rest, split, final⟩, standing, inside, same⟩ := core.looks run look last
    refine ⟨⟨first, rest ++ [deed], by rw [grown, split, append_assoc, cons_append], ?_⟩,
      standing, kept inside, same⟩
    intro stamp member
    rcases mem_append.mp member with old | new
    · exact final stamp old
    · exact glimpses look.call stamp (mem_singleton.mp new).symm run look.stamp look.shown
        (mem_of_lastLook last)

end Cores

/-- The run whose call it is, until the call is over. -/
def run? : Flight ρ → Option ρ
  | .idle | .done _ => none
  | .waiting run _ | .entered run _ | .stamped run _ _ | .gathered run _ _ _ | .judged run _ _ _
  | .moved run _ _ _ | .creating run _ | .claimed run _ _ | .replacing run _ _ _
  | .landed run _ _ _ | .noting run _ _ _ _ | .opening run _ | .opened run _ _ | .handled run _ _ _
  | .showing run _ _ _ _ | .noticing run _ _ => some run

/-- What holds of the world between two steps. -/
structure Sound [DecidableEq ρ] (start : Option Standing) (world : FileWorld ρ ι) : Prop where
  core : Core start world
  abreast : ∀ call, world.Abreast start call (world.flights call)
  called : ∀ call run, run? (world.flights call) = some run → world.Called call run

/-- The same, while one call of a run is inside a step. -/
structure Apart [DecidableEq ρ] (start : Option Standing) (call : ι) (run : ρ)
    (world : FileWorld ρ ι) : Prop where
  core : Core start world
  abreast : ∀ other, other ≠ call → world.Abreast start other (world.flights other)
  called : ∀ other, other ≠ call → ∀ run, run? (world.flights other) = some run →
    world.Called other run
  own : world.Called call run

section Apart

variable [DecidableEq ρ] {start : Option Standing} {world after : FileWorld ρ ι} {call : ι} {run : ρ}

theorem Sound.apart (sound : Sound start world) (own : world.Called call run) :
    Apart start call run world :=
  ⟨sound.core, fun other _ => sound.abreast other, fun other _ => sound.called other, own⟩

variable (apart : Apart start call run world)

include apart

theorem Apart.step (core : Core start after)
    (flights : after.flights = world.flights) (kept : world.deeds ⊆ after.deeds)
    (aside : ∀ other, other ≠ call → Aside other world after) : Apart start call run after := by
  refine ⟨core, ?_, ?_, kept apart.own⟩
  · intro other apart_
    rw [flights]
    exact (apart.abreast other apart_).aside (aside other apart_)
  · intro other apart_ found
    rw [flights]
    exact fun own => (apart.called other apart_ found own).aside (aside other apart_)

theorem Apart.onto [DecidableEq ι] {flight : Flight ρ}
    (owned : run? flight = (run? flight).map fun _ => run)
    (abreast : world.Abreast start call flight) : Sound start (world.onto call flight) := by
  have same : ∀ other (found : Flight ρ), world.Abreast start other found →
      (world.onto call flight).Abreast start other found := by
    intro other found abreast
    cases found <;> exact abreast
  refine ⟨?_, ?_, ?_⟩
  · obtain ⟨within, file, nodes, unique, opened, stood, named, past, always, seen, looks⟩ := apart.core
    exact ⟨within, file, nodes, unique, opened, stood, named, past, always, seen, looks⟩
  · intro other
    by_cases own : other = call
    · subst own
      simp only [FileWorld.onto, if_true]
      exact same other flight abreast
    · simp only [FileWorld.onto, if_neg own]
      exact same other _ (apart.abreast other own)
  · intro other found
    by_cases own : other = call
    · subst own
      simp only [FileWorld.onto, if_true]
      intro mine
      rw [mine, map_some] at owned
      cases owned
      exact apart.own
    · simp only [FileWorld.onto, if_neg own]
      exact apart.called other own found

theorem Apart.holds {holder : Option ι}
    (others : ∀ other, other ≠ call → world.holder = some other → holder = some other) :
    Apart start call run { world with holder } := by
  obtain ⟨within, file, nodes, unique, opened, stood, named, past, always, seen, looks⟩ := apart.core
  refine apart.step ⟨within, file, nodes, unique, opened, stood, named, past, always, seen, looks⟩ rfl
    (fun _ member => member) ?_
  exact fun other own => aside_same rfl rfl rfl (fun _ found => found) (others other own)

theorem Apart.answers [DecidableEq ι]
    (answer : Except AxError FileAnswer) : Sound start (world.answers call answer) := by
  have held : Apart start call run
      { world with holder := if world.holder = some call then none else world.holder } := by
    apply apart.holds
    intro other own inside
    rw [inside, if_neg]
    intro same
    cases same
    exact own rfl
  exact held.onto rfl trivial

omit apart

variable {deed : FileDeed ρ ι}

theorem Apart.noted (apart : Apart start call run world) (own : deed.caller = some call)
    (still : deed.change = none) (looks : ∀ run, lookOf run deed = none)
    (glimpses : ∀ caller stamp, deed = .glimpsed caller stamp → world.Unlooked caller)
    (named : ∀ stamp ∈ deed.stamps, world.Known stamp) (due : Due start world.deeds deed) :
    Apart start call run (world.noted deed) := by
  have core := apart.core
  refine apart.step (core.deed rfl rfl looks glimpses (fun _ member => Or.inl member)
    (fun _ member => member) ?_ core.within core.nodes ?_ named due) rfl
    (subset_append_left _ _) ?_
  · intro standing changes
    rw [still] at changes
    cases changes
  · rw [still]
    rfl
  · intro other apart_
    apply aside_noted
    · rw [own]
      intro same
      cases same
      exact apart_ rfl
    · exact fun _ changes => absurd still changes

theorem Apart.look (apart : Apart start call run world) {stamp : Stamp}
    {shown : Option (List Char)} (glimpsed : world.Glimpsed call stamp)
    (read : ∃ standing ∈ world.minted, standing.stamp = stamp ∧
      ∀ text, shown = some text → Utf8.decode standing.bytes = some text) :
    Apart start call run (world.look call run stamp shown) := by
  have core := apart.core
  have grown : (world.look call run stamp shown).deeds =
      world.deeds ++ [.looked run call stamp shown] := rfl
  refine apart.step ⟨core.within, ?_, core.nodes, core.unique, core.opened,
    fun standing member => stood_append (core.stood standing member) _, ?_, ?_, ?_, ?_, ?_⟩ rfl
    (subset_append_left _ _) ?_
  · rw [grown, fileAfter_concat]
    exact core.file
  · intro deed member found names
    rw [grown] at member
    rcases mem_append.mp member with old | new
    · exact core.named deed old found names
    · rw [mem_singleton.mp new] at names
      rw [mem_singleton.mp names]
      obtain ⟨standing, minted, same, -⟩ := read
      exact ⟨standing, minted, same⟩
  · intro early late standing split stood
    rw [grown] at split
    rcases eq_nil_or_concat late with rfl | ⟨rest, last, rfl⟩
    · rw [append_nil] at split
      rw [← split, fileAfter_concat] at stood
      exact core.past world.deeds [] standing (append_nil _).symm stood
    · rw [concat_eq_append, ← append_assoc] at split
      obtain ⟨split, -⟩ := append_inj' split rfl
      exact core.past early rest standing split stood
  · rw [grown]
    obtain ⟨standing, minted, same, shows⟩ := read
    exact always_concat.mpr ⟨core.always, apart.own, glimpsed, standing,
      core.stood standing minted, same, shows⟩
  · intro other
    rw [grown, lastLook_concat, lookOf]
    by_cases own : run = other
    · subst own
      simp [FileWorld.look, FileWorld.noted]
    · simp only [FileWorld.look, FileWorld.noted, if_neg own, if_neg (Ne.symm own), none_or]
      exact core.seen other
  · intro other look last
    have kept : ∀ caller found, world.Glimpsed caller found →
        (world.look call run stamp shown).Glimpsed caller found := by
      rintro caller found ⟨first, rest, split, final⟩
      refine ⟨first, rest ++ [.looked run call stamp shown],
        by rw [grown, split, append_assoc, cons_append], ?_⟩
      intro seen member
      rcases mem_append.mp member with old | new
      · exact final seen old
      · cases mem_singleton.mp new
    rw [grown, lastLook_concat, lookOf] at last
    by_cases own : run = other
    · rw [if_pos own, some_or] at last
      cases last
      exact ⟨kept call stamp glimpsed, read⟩
    · rw [if_neg own, none_or] at last
      obtain ⟨glimpsed, known⟩ := core.looks other look last
      exact ⟨kept _ _ glimpsed, known⟩
  · intro other own
    have same : Aside other world
        { world with seen := fun found => if found = run then some stamp else world.seen found } :=
      aside_same rfl rfl rfl (fun _ found => found) id
    refine same.trans (aside_noted ?_ ?_)
    · intro caller
      cases caller
      exact own rfl
    · exact fun _ changes => absurd rfl changes

variable {standing : Standing}

theorem Core.writes (core : Core start world) (grown : after.deeds = world.deeds ++ [deed])
    (seen : after.seen = world.seen) (minted : after.minted = standing :: world.minted)
    (left : deed.left = some standing) (names : deed.stamps = [standing.stamp])
    (blind : deed.Blind)
    (fresh : world.Fresh standing.stamp)
    (within : ∀ node, after.path = some node → node < after.nodes.length)
    (nodes : ∀ found ∈ after.nodes, found ∈ world.nodes ∨ found = standing)
    (file : after.standing = deed.change.getD world.standing) (due : Due start world.deeds deed) :
    Core start after := by
  have here : standing ∈ after.minted := by
    rw [minted]
    exact mem_cons_self
  have kept : world.minted ⊆ after.minted := by
    rw [minted]
    exact subset_cons_self _ _
  refine core.deed grown seen blind.looks blind.unlooked ?_ kept ?_ within ?_ file ?_ due
  · intro found member
    rw [minted] at member
    rcases mem_cons.mp member with rfl | old
    · exact Or.inr ⟨left, fresh⟩
    · exact Or.inl old
  · intro found changes
    rw [left_of_change changes] at left
    cases left
    exact here
  · intro found member
    rcases nodes found member with old | rfl
    · exact kept (core.nodes found old)
    · exact here
  · intro stamp member
    rw [names, mem_singleton] at member
    exact ⟨standing, here, member.symm⟩

theorem Core.places (core : Core start world) (changes : deed.change = some (some standing))
    (names : deed.stamps = [standing.stamp]) (blind : deed.Blind)
    (fresh : world.Fresh standing.stamp) (due : Due start world.deeds deed) :
    Core start ((world.place standing).noted deed) := by
  refine core.writes rfl rfl rfl (left_of_change changes) names blind fresh ?_ ?_ ?_ due
  · intro node found
    cases found
    simp [FileWorld.noted, FileWorld.place]
  · intro found member
    simpa [FileWorld.noted, FileWorld.place] using member
  · rw [changes]
    simp [FileWorld.standing, FileWorld.noted, FileWorld.place]

theorem Apart.places (apart : Apart start call run world) (inside : world.Inside call)
    (own : deed.caller = some call) (changes : deed.change = some (some standing))
    (names : deed.stamps = [standing.stamp]) (blind : deed.Blind)
    (fresh : world.Fresh standing.stamp) (due : Due start world.deeds deed) :
    Apart start call run ((world.place standing).noted deed) := by
  refine apart.step (apart.core.places changes names blind fresh due) rfl
    (subset_append_left _ _) ?_
  intro other apart_
  refine (aside_place fresh).trans (aside_noted ?_ ?_)
  · rw [own]
    intro same
    cases same
    exact apart_ rfl
  · intro held
    have held : world.holder = some other := held
    rw [inside] at held
    cases held
    exact absurd rfl apart_

variable {node : Nat}

theorem Core.fills (core : Core start world) (left : deed.left = some standing)
    (names : deed.stamps = [standing.stamp]) (blind : deed.Blind)
    (file : (world.fill node standing).standing = deed.change.getD world.standing)
    (fresh : world.Fresh standing.stamp) (due : Due start world.deeds deed) :
    Core start ((world.fill node standing).noted deed) := by
  refine core.writes rfl rfl rfl left names blind fresh ?_ ?_ file due
  · intro place found
    simp only [FileWorld.noted, fill, length_set]
    exact core.within place found
  · exact fun found member => mem_or_eq_of_mem_set member

theorem Core.strays (core : Core start world) (elsewhere : world.path ≠ some node)
    (fresh : world.Fresh standing.stamp) :
    Core start ((world.fill node standing).noted (.strayed standing)) := by
  refine core.fills rfl rfl trivial ?_ fresh
    (core.neverSeen fresh)
  show world.path.bind _ = world.path.bind _
  cases found : world.path with
  | none => rfl
  | some place =>
    have apart : node ≠ place := by
      intro same
      rw [found, same] at elsewhere
      exact elsewhere rfl
    simp only [bind_some, fill]
    exact getElem?_set_ne apart

theorem Core.rewrites (core : Core start world) (here : world.path = some node)
    (changes : deed.change = some (some standing)) (names : deed.stamps = [standing.stamp])
    (blind : deed.Blind)
    (fresh : world.Fresh standing.stamp) (due : Due start world.deeds deed) :
    Core start ((world.fill node standing).noted deed) := by
  refine core.fills (left_of_change changes) names blind ?_ fresh due
  rw [changes]
  show world.path.bind (fun place => (world.nodes.set node standing)[place]?) = some standing
  rw [here, bind_some]
  exact getElem?_set_self (core.within node here)

theorem Core.removes (core : Core start world) (changes : deed.change = some none)
    (names : deed.stamps = []) (blind : deed.Blind) (due : Due start world.deeds deed) :
    Core start (noted { world with path := none } deed) := by
  refine core.deed rfl rfl blind.looks blind.unlooked (fun _ member => Or.inl member) (fun _ member => member) ?_ ?_ core.nodes ?_ ?_ due
  · intro standing same
    rw [changes] at same
    cases same
  · intro node found
    cases found
  · rw [changes]
    rfl
  · intro stamp member
    rw [names] at member
    cases member

theorem Apart.filled (apart : Apart start call run world) {request : EditRequest} {stamp : Stamp}
    (inside : world.Inside call) (fresh : world.Fresh stamp) :
    Apart start call run (world.filled call request node stamp) := by
  have others : ∀ other, other ≠ call → world.holder ≠ some other := by
    intro other own held
    rw [inside] at held
    cases held
    exact own rfl
  unfold FileWorld.filled
  by_cases here : world.path = some node
  · simp only [if_pos here]
    refine apart.step (apart.core.rewrites here rfl rfl trivial
      fresh (apart.core.neverSeen fresh)) rfl (subset_append_left _ _) ?_
    intro other own
    refine (aside_fill fresh).trans (aside_noted ?_ ?_)
    · intro same
      cases same
      exact own rfl
    · exact fun held => absurd held (others other own)
  · simp only [if_neg here]
    exact apart.step (apart.core.strays here fresh) rfl (subset_append_left _ _) fun other own =>
      (aside_fill fresh).trans (aside_noted (fun same => by cases same) fun _ same => absurd rfl same)

theorem Apart.withdraws (apart : Apart start call run world) (inside : world.Inside call) :
    Apart start call run (FileWorld.noted { world with path := none } (.withdrew call)) := by
  refine apart.step (apart.core.removes rfl rfl trivial
    trivial) rfl (subset_append_left _ _) ?_
  intro other own
  have gone : Aside other world { world with path := none } :=
    aside_same rfl rfl rfl (fun _ found => by cases found) id
  refine gone.trans (aside_noted ?_ ?_)
  · intro same
    cases same
    exact own rfl
  · intro held
    have held : world.holder = some other := held
    rw [inside] at held
    cases held
    exact absurd rfl own

theorem Apart.refuses [DecidableEq ι] (apart : Apart start call run world) {why : EditRefusal}
    (error : AxError) (moved : why ≠ .moved)
    (before : why ≠ .storage → world.Unwritten call ∧ world.Unlooked call) :
    Sound start (world.refuses call why error) := by
  refine Apart.answers (apart.noted rfl rfl (fun _ => rfl) ?_ ?_ ?_) _
  · intro caller stamp same
    cases same
  · intro stamp member
    cases member
  · exact ⟨fun early => (before early).1, fun early _ => (before early).2, fun same => absurd same moved⟩

end Apart

section Steps

variable [DecidableEq ρ] [DecidableEq ι] {start : Option Standing} {world after : FileWorld ρ ι}
  {call : ι} {run : ρ} {request : EditRequest} {args : Json} {platform : Platform}

omit [DecidableEq ρ] [DecidableEq ι] in
theorem Quiet.unlooked (quiet : world.Quiet call) : world.Unlooked call := by
  intro _ _ _ member
  obtain ⟨_, same⟩ := quiet _ member rfl
  cases same

omit [DecidableEq ρ] [DecidableEq ι] in
theorem Quiet.unwritten (quiet : world.Quiet call) : world.Unwritten call := by
  intro deed member own
  obtain ⟨_, rfl⟩ := quiet deed member own
  rfl

omit [DecidableEq ρ] [DecidableEq ι] in
theorem Quiet.before (quiet : world.Quiet call) : world.Unwritten call ∧ world.Unlooked call :=
  ⟨quiet.unwritten, quiet.unlooked⟩

variable {stamp : Stamp}

omit [DecidableEq ι] in
theorem Core.known (core : Core start world) (stands : world.stamp = some stamp) :
    world.Known stamp := by
  obtain ⟨standing, found, same⟩ := map_eq_some_iff.mp stands
  obtain ⟨node, -, stood⟩ := bind_eq_some_iff.mp found
  exact ⟨standing, core.nodes standing (mem_of_getElem? stood), same⟩

omit [DecidableEq ι] in
theorem Apart.glimpses (apart : Apart start call run world) (unlooked : world.Unlooked call)
    {stamp : Option Stamp} (known : ∀ found, stamp = some found → world.Known found) :
    Apart start call run (world.stamped call stamp) := by
  refine apart.noted rfl rfl (fun _ => rfl) ?_ ?_ trivial
  · intro caller found same
    cases same
    exact unlooked
  · intro found member
    exact known found (mem_toList.mp member)

omit [DecidableEq ι] in
theorem Unlooked.noted (unlooked : world.Unlooked call) {deed : FileDeed ρ ι}
    (looks : ∀ run, lookOf run deed = none) : (world.noted deed).Unlooked call := by
  intro run stamp shown member
  rcases mem_append.mp member with old | new
  · exact unlooked run stamp shown old
  · have none_ := looks run
    rw [← mem_singleton.mp new, lookOf, if_pos rfl] at none_
    cases none_

omit [DecidableEq ρ] [DecidableEq ι] in
theorem Unwritten.noted (unwritten : world.Unwritten call) {deed : FileDeed ρ ι}
    (still : deed.change = none) : (world.noted deed).Unwritten call := by
  exact forall_concat unwritten fun _ => still

theorem sound_hold (apart : Apart start call run world)
    (abreast : world.Abreast start call (.waiting run request))
    (stepped : world.hold call run request platform = some after) : Sound start after := by
  cases platform with
  | does =>
    simp only [hold] at stepped
    split at stepped
    · next free =>
        cases stepped
        refine (apart.holds ?_).onto rfl ⟨abreast, rfl⟩
        intro other _ held
        rw [free] at held
        cases held
    · cases stepped
  | _ => cases stepped

theorem sound_enter (apart : Apart start call run world)
    (abreast : world.Abreast start call (.entered run request))
    (stepped : world.enter call run request platform = some after) : Sound start after := by
  obtain ⟨quiet, inside⟩ := abreast
  have refused : ∀ why error, why ≠ .moved → Sound start (world.refuses call why error) :=
    fun _ error moved =>
      apart.refuses error moved (fun _ => quiet.before)
  cases intent : request.intent with
  | create =>
    simp only [enter, intent] at stepped
    cases platform with
    | does =>
      cases stepped
      refine apart.onto rfl ⟨quiet.unlooked, quiet.unwritten, inside, ?_⟩
      intro replaces
      rw [intent] at replaces
      cases replaces
    | refuses why =>
      cases stepped
      exact refused _ _ (by decide)
    | _ => cases stepped
  | replace =>
    cases limit : request.limit with
    | some refusal =>
      simp only [enter, intent, limit] at stepped
      cases stepped
      exact refused _ _ (by decide)
    | none =>
      simp only [enter, intent, limit] at stepped
      cases platform with
      | does =>
        simp only at stepped
        split at stepped
        · cases stepped
          exact apart.onto rfl
            ⟨quiet.unlooked, quiet.unwritten, inside, fun _ _ same => by cases same⟩
        · next before stands =>
            cases stepped
            exact apart.onto rfl ⟨quiet, inside, intent, apart.core.known stands⟩
      | refuses why =>
        cases stepped
        exact refused _ _ (by decide)
      | _ => cases stepped

variable {before : Stamp}

theorem sound_gather (apart : Apart start call run world)
    (abreast : world.Abreast start call (.stamped run request before))
    (stepped : world.gather call run request before platform = some after) : Sound start after := by
  obtain ⟨quiet, inside, intent, known⟩ := abreast
  cases platform with
  | does =>
    obtain ⟨standing, stands, made⟩ := map_eq_some_iff.mp stepped
    cases made
    refine apart.onto rfl ⟨quiet, inside, intent, known, ?_⟩
    intro found stands' _
    rw [stands] at stands'
    cases stands'
    rfl
  | refuses why =>
    cases stepped
    exact apart.refuses _ (by decide) (fun _ => quiet.before)
  | _ => cases stepped

variable {bytes : List UInt8}

theorem sound_compare (apart : Apart start call run world)
    (abreast : world.Abreast start call (.gathered run request before bytes))
    (stepped : world.compare call run request before bytes platform = some after) :
    Sound start after := by
  obtain ⟨quiet, inside, intent, known, same⟩ := abreast
  cases platform with
  | does =>
    have glimpsed := apart.glimpses quiet.unlooked (fun _ stands => apart.core.known stands)
    have unlooked : (world.stamped call world.stamp).Unlooked call :=
      quiet.unlooked.noted fun _ => rfl
    have unwritten : (world.stamped call world.stamp).Unwritten call := quiet.unwritten.noted rfl
    simp only [compare] at stepped
    split at stepped
    · cases stepped
      exact glimpsed.refuses _ (by decide) (fun _ => ⟨unwritten, unlooked⟩)
    · next stands =>
        split at stepped
        · cases stepped
          exact glimpsed.refuses _ (by decide) (fun _ => ⟨unwritten, unlooked⟩)
        · next text read =>
            cases stepped
            have stands : world.stamp = some before := not_not.mp stands
            refine glimpsed.onto rfl ⟨unlooked, unwritten, inside, ?_⟩
            intro _ stamp current
            obtain ⟨standing, found, stamped⟩ := map_eq_some_iff.mp current
            rw [stands] at current
            cases current
            refine ⟨world.deeds, [], standing, ?_, stamped, ?_, ?_, ?_, ?_⟩
            · rw [← stands]
              rfl
            · rw [← apart.core.file]
              exact found
            · rw [same standing found stamped]
              exact read
            · exact fun _ member => absurd member not_mem_nil
            · exact fun _ member => absurd member not_mem_nil
  | refuses why =>
    cases stepped
    exact apart.refuses _ (by decide) (fun _ => quiet.before)
  | _ => cases stepped

variable {text updated : List Char}

omit [DecidableEq ι] in
/-- The admission on which a replacement lands: its run last looked at the file it read. -/
theorem lands_of_checked (core : Core start world) (checked : world.Checked start call stamp text)
    (seen : world.seen run = some stamp) (made : request.updated text = .ok updated)
    {standing : Standing} (bytes : standing.bytes = Utf8.encode updated) :
    Lands start (world.deeds ++ [.admitted call]) call run request standing := by
  obtain ⟨early, late, old, check, rfl, stood, read, final, only⟩ := checked
  rw [core.seen run] at seen
  obtain ⟨look, last, same⟩ := map_eq_some_iff.mp seen
  obtain ⟨⟨first, rest, glimpse, none_⟩, shownAt, minted, stamped, shown⟩ := core.looks run look last
  rw [same] at glimpse stamped
  -- the look and the edit's own read are of one file
  have one : shownAt = old := core.unique shownAt minted old (core.past early _ old check stood) stamped
  refine ⟨world.deeds, [], early, late, first, rest, old, look, text, updated, rfl, check, stood, last,
    same, ?_, glimpse, none_, ?_, read, updated_replaces made, bytes⟩
  · intro said known
    have both := shown said known
    rw [one, read] at both
    cases both
    rfl
  · intro earlier deed later split changes past
    have inside : ∃ tail, world.deeds = earlier ++ deed :: tail := by
      rcases eq_nil_or_concat later with rfl | ⟨tail, end_, rfl⟩
      · obtain ⟨-, same⟩ := append_inj' split rfl
        cases same
        exact absurd rfl changes
      · rw [concat_eq_append, ← cons_append, ← append_assoc] at split
        obtain ⟨split, -⟩ := append_inj' split rfl
        exact ⟨tail, split⟩
    obtain ⟨tail, inside⟩ := inside
    -- a glimpse is no change, so the two places differ
    have elsewhere : ∀ {places rest_ : List (FileDeed ρ ι)} {caller glimpsed},
        world.deeds = places ++ .glimpsed caller glimpsed :: rest_ →
          places.length ≠ earlier.length := by
      intro places rest_ caller glimpsed whole same
      have both := place_same whole inside same
      rw [← both] at changes
      exact changes rfl
    have after : early.length ≤ earlier.length := by
      by_contra before
      -- a change between the look and the check would have left another stamp
      obtain ⟨middle, whole, -⟩ := place_before inside check (Nat.lt_of_not_le before)
      have known : ¬NeverSeen start earlier old.stamp := by
        intro never
        obtain ⟨between, same, -⟩ :=
          place_before glimpse inside (Nat.lt_of_le_of_ne past (elsewhere glimpse))
        apply never.2 (.glimpsed look.call (some old.stamp))
        · rw [same]
          simp
        · exact mem_singleton.mpr rfl
      have always : Trace.Always (Due start) (earlier ++ deed :: middle) := by
        rw [← whole]
        intro before step later_ split
        apply core.always before step (later_ ++ .glimpsed call (some old.stamp) :: late)
        rw [check, split, append_assoc, cons_append]
      rw [whole] at stood
      exact changes (still_of_known always stood known deed mem_cons_self)
    refine ⟨after, ?_⟩
    obtain ⟨between, -, rest_⟩ :=
      place_before check inside (Nat.lt_of_le_of_ne after (elsewhere check))
    have member : deed ∈ late := by
      rw [rest_]
      simp
    exact only deed member changes

theorem sound_judge (apart : Apart start call run world) {current : Option Stamp}
    (abreast : world.Abreast start call (.judged run request text current))
    (stepped : world.judge call run request text current platform = some after) :
    Sound start after := by
  obtain ⟨unlooked, unwritten, inside, checked⟩ := abreast
  have refused : ∀ why error, why ≠ .moved → Sound start (world.refuses call why error) :=
    fun _ error moved => apart.refuses error moved (fun _ => ⟨unwritten, unlooked⟩)
  cases platform with
  | does =>
    simp only [judge] at stepped
    cases intent : request.intent with
    | create =>
      cases current with
      | none =>
        simp only [intent, admission, admitOne] at stepped
        cases stepped
        exact apart.onto rfl ⟨unlooked, unwritten, inside⟩
      | some stamp =>
        simp only [intent, admission] at stepped
        cases stepped
        exact refused _ _ (by decide)
    | replace =>
      cases current with
      | none =>
        simp only [intent, admission] at stepped
        cases stepped
        exact refused _ _ (by decide)
      | some stamp =>
        have checked := checked intent stamp rfl
        cases seen : world.seen run with
        | none =>
          simp only [intent, seen, admission] at stepped
          cases stepped
          exact refused _ _ (by decide)
        | some looked =>
          by_cases same : looked = stamp
          · simp only [intent, seen, admission, if_pos same, admitOne] at stepped
            cases made : request.updated text with
            | error hits =>
              rw [made] at stepped
              cases stepped
              exact refused _ _ (by decide)
            | ok updated =>
              rw [made] at stepped
              cases stepped
              rw [same] at seen
              have noted : Apart start call run (world.noted (.admitted call)) :=
                apart.noted rfl rfl (fun _ => rfl) (fun _ _ glimpsed => by cases glimpsed)
                  (fun _ member => by cases member) trivial
              refine noted.onto rfl
                ⟨unlooked.noted fun _ => rfl, unwritten.noted rfl, inside, ?_⟩
              exact fun _ bytes => lands_of_checked apart.core checked seen made bytes
          · simp only [intent, seen, admission, if_neg same] at stepped
            cases stepped
            exact apart.onto rfl ⟨unlooked, unwritten, inside, checked⟩
  | _ => cases stepped

theorem sound_showMoved (apart : Apart start call run world) {current : Stamp}
    (abreast : world.Abreast start call (.moved run request text current))
    (stepped : world.showMoved call run request text current platform = some after) :
    Sound start after := by
  obtain ⟨unlooked, unwritten, inside, early, late, old, check, rfl, stood, read, final, -⟩ := abreast
  cases platform with
  | does =>
    cases stepped
    have minted := apart.core.past early _ old check stood
    have looked : Apart start call run (world.look call run old.stamp (some text)) := by
      refine apart.look ⟨early, late, check, final⟩ ⟨old, minted, rfl, ?_⟩
      rintro said ⟨⟩
      exact read
    refine Apart.answers (looked.noted rfl rfl (fun _ => rfl)
      (fun _ _ glimpsed => by cases glimpsed) (fun _ member => by cases member) ?_) _
    refine ⟨fun _ => unwritten.noted rfl, fun _ moved => absurd rfl moved, fun _ => ?_⟩
    exact ⟨world.deeds, early, late, run, old, text, rfl, apart.own, unlooked, check, stood, read⟩
  | _ => cases stepped

theorem sound_claim (apart : Apart start call run world)
    (abreast : world.Abreast start call (.creating run request))
    (stepped : world.claim call run request platform = some after) : Sound start after := by
  obtain ⟨unlooked, unwritten, inside⟩ := abreast
  cases platform with
  | mints stamp =>
    simp only [claim] at stepped
    cases path : world.path with
    | some node =>
      simp only [path, isSome_some, if_true] at stepped
      cases stepped
      exact apart.refuses _ (by decide) (fun _ => ⟨unwritten, unlooked⟩)
    | none =>
      simp only [path, isSome_none, Bool.false_eq_true, if_false] at stepped
      split at stepped
      · next fresh =>
          cases stepped
          have gone : fileAfter start world.deeds = none := by
            rw [← apart.core.file, FileWorld.standing, path]
            rfl
          have placed : Apart start call run
              ((world.place ⟨stamp, []⟩).noted (.claimed call ⟨stamp, []⟩)) :=
            apart.places inside rfl rfl rfl trivial fresh
              ⟨apart.core.neverSeen fresh, gone⟩
          refine placed.onto rfl ⟨unlooked.noted fun _ => rfl, inside, ?_⟩
          simp [FileWorld.noted, place]
      · cases stepped
  | storage error =>
    cases stepped
    exact apart.refuses _ (by decide) (fun never => absurd rfl never)
  | _ => cases stepped

variable {node : Nat}

omit [DecidableEq ι] in
theorem filled_unlooked (unlooked : world.Unlooked call) :
    (world.filled call request node stamp).Unlooked call := by
  unfold filled
  simp only
  split
  · exact Unlooked.noted unlooked fun _ => rfl
  · exact Unlooked.noted unlooked fun _ => rfl

omit [DecidableEq ρ] [DecidableEq ι] in
theorem filled_holder : (world.filled call request node stamp).holder = world.holder := by
  unfold filled
  simp only
  split <;> rfl

variable (apart : Apart start call run world)

include apart

theorem sound_create (abreast : world.Abreast start call (.claimed run request node))
    (stepped : world.create call run request node platform = some after) : Sound start after := by
  obtain ⟨unlooked, inside, -⟩ := abreast
  cases platform with
  | mints stamp =>
    simp only [create] at stepped
    split at stepped
    · next fresh =>
        cases stepped
        exact (apart.filled inside fresh).onto rfl
          ⟨filled_unlooked unlooked, filled_holder.trans inside⟩
    · cases stepped
  | mintsThenRefuses stamp error =>
    simp only [create] at stepped
    split at stepped
    · next fresh =>
        cases stepped
        exact (apart.filled inside fresh).refuses _ (by decide) (fun never => absurd rfl never)
    · cases stepped
  | storage error =>
    cases stepped
    exact (apart.withdraws inside).refuses _ (by decide) (fun never => absurd rfl never)
  | _ => cases stepped

theorem sound_land (abreast : world.Abreast start call (.replacing run request text updated))
    (stepped : world.land call run request text updated platform = some after) :
    Sound start after := by
  obtain ⟨unlooked, -, inside, lands⟩ := abreast
  have landed : ∀ stamp, world.Fresh stamp →
      Apart start call run (world.lands call run request ⟨stamp, Utf8.encode updated⟩) := by
    intro stamp fresh
    exact apart.places inside rfl rfl rfl trivial fresh
      ⟨apart.own, apart.core.neverSeen fresh, lands _ rfl⟩
  cases platform with
  | mints stamp =>
    simp only [land] at stepped
    split at stepped
    · next fresh =>
        cases stepped
        exact (landed stamp fresh).onto rfl
          ⟨Unlooked.noted unlooked fun _ => rfl, inside⟩
    · cases stepped
  | mintsThenRefuses stamp error =>
    simp only [land] at stepped
    split at stepped
    · next fresh =>
        cases stepped
        exact (landed stamp fresh).refuses _ (by decide) (fun never => absurd rfl never)
    · cases stepped
  | storage error =>
    cases stepped
    exact apart.refuses _ (by decide) (fun never => absurd rfl never)
  | _ => cases stepped

theorem sound_noteLanding (abreast : world.Abreast start call (.landed run request text updated))
    (stepped : world.noteLanding call run request text updated platform = some after) :
    Sound start after := by
  obtain ⟨unlooked, inside⟩ := abreast
  cases platform with
  | does =>
    cases stepped
    have glimpsed := apart.glimpses unlooked (fun _ stands => apart.core.known stands)
    refine glimpsed.onto rfl ⟨unlooked.noted fun _ => rfl, inside, ?_⟩
    intro known stands
    refine ⟨⟨world.deeds, [], ?_, fun _ member => absurd member not_mem_nil⟩, apart.core.known stands⟩
    rw [← stands]
    rfl
  | refuses why =>
    cases stepped
    exact apart.refuses _ (by decide) (fun never => absurd rfl never)
  | _ => cases stepped

theorem sound_note {stamp : Option Stamp}
    (abreast : world.Abreast start call (.noting run request text updated stamp))
    (stepped : world.note call run request text updated stamp platform = some after) :
    Sound start after := by
  obtain ⟨-, -, glimpsed⟩ := abreast
  cases platform with
  | does =>
    cases stepped
    cases stamp with
    | none => exact apart.answers _
    | some known =>
      obtain ⟨glimpsed, standing, minted, same⟩ := glimpsed known rfl
      exact (apart.look glimpsed ⟨standing, minted, same, fun _ shown => by cases shown⟩).answers _
  | _ => cases stepped

theorem sound_openRead (abreast : world.Abreast start call (.opening run args))
    (stepped : world.openRead call run args platform = some after) : Sound start after := by
  cases platform with
  | does =>
    obtain ⟨node, -, made⟩ := map_eq_some_iff.mp stepped
    cases made
    exact apart.onto rfl abreast
  | refuses why =>
    cases stepped
    exact apart.answers _
  | _ => cases stepped

theorem sound_handle (abreast : world.Abreast start call (.opened run args node))
    (stepped : world.handle call run args node platform = some after) : Sound start after := by
  cases platform with
  | does =>
    obtain ⟨standing, found, made⟩ := map_eq_some_iff.mp stepped
    cases made
    exact apart.onto rfl
      ⟨abreast, standing, apart.core.nodes standing (mem_of_getElem? found), rfl⟩
  | refuses why =>
    cases stepped
    exact apart.answers _
  | _ => cases stepped

theorem sound_readToEnd (abreast : world.Abreast start call (.handled run args node before))
    (stepped : world.readToEnd call run args node before platform = some after) :
    Sound start after := by
  cases platform with
  | does =>
    obtain ⟨standing, found, made⟩ := map_eq_some_iff.mp stepped
    cases made
    refine apart.onto rfl ⟨abreast.1, abreast.2, ?_⟩
    intro other found' _
    rw [found] at found'
    cases found'
    rfl
  | refuses why =>
    cases stepped
    exact apart.answers _
  | _ => cases stepped

theorem sound_showRead (abreast : world.Abreast start call (.showing run args node before bytes))
    (stepped : world.showRead call run args node before bytes platform = some after) :
    Sound start after := by
  obtain ⟨quiet, known, same⟩ := abreast
  cases platform with
  | does =>
    obtain ⟨standing, found, made⟩ := map_eq_some_iff.mp stepped
    have minted := apart.core.nodes standing (mem_of_getElem? found)
    have glimpsed : Apart start call run (world.stamped call (some standing.stamp)) := by
      apply apart.glimpses quiet.unlooked
      rintro stamp ⟨⟩
      exact ⟨standing, minted, rfl⟩
    subst made
    unfold showText
    split
    · exact glimpsed.answers _
    · exact glimpsed.answers _
    · next text request_ read _ =>
        split
        · next counts =>
            have unchanged : before = standing.stamp := by
              simp only [Bool.and_eq_true, decide_eq_true_eq] at counts
              exact counts.2
            refine glimpsed.onto rfl ⟨quiet.unlooked.noted fun _ => rfl, ?_, ?_⟩
            · exact ⟨world.deeds, [], rfl, fun _ member => absurd member not_mem_nil⟩
            · refine ⟨standing, minted, rfl, ?_⟩
              rw [same standing found unchanged.symm]
              exact read
        · exact glimpsed.answers _
  | refuses why =>
    cases stepped
    exact apart.answers _
  | _ => cases stepped

theorem sound_notice (abreast : world.Abreast start call (.noticing run text stamp))
    (stepped : world.notice call run text stamp platform = some after) : Sound start after := by
  obtain ⟨-, glimpsed, standing, minted, same, read⟩ := abreast
  cases platform with
  | does =>
    cases stepped
    refine (apart.look glimpsed ⟨standing, minted, same, ?_⟩).answers _
    rintro said ⟨⟩
    exact read
  | _ => cases stepped

omit apart

variable (sound : Sound start world)

include sound

theorem sound_go (stepped : world.go call platform = some after) :
    Sound start after := by
  have abreast := sound.abreast call
  have apart := fun run found => sound.apart (sound.called call run found)
  unfold go at stepped
  cases flight : world.flights call <;> rw [flight] at stepped abreast apart
  case idle | done => cases stepped
  case waiting => exact sound_hold (apart _ rfl) abreast stepped
  case entered => exact sound_enter (apart _ rfl) abreast stepped
  case stamped => exact sound_gather (apart _ rfl) abreast stepped
  case gathered => exact sound_compare (apart _ rfl) abreast stepped
  case judged => exact sound_judge (apart _ rfl) abreast stepped
  case moved => exact sound_showMoved (apart _ rfl) abreast stepped
  case creating => exact sound_claim (apart _ rfl) abreast stepped
  case claimed => exact sound_create (apart _ rfl) abreast stepped
  case replacing => exact sound_land (apart _ rfl) abreast stepped
  case landed => exact sound_noteLanding (apart _ rfl) abreast stepped
  case noting => exact sound_note (apart _ rfl) abreast stepped
  case opening => exact sound_openRead (apart _ rfl) abreast stepped
  case opened => exact sound_handle (apart _ rfl) abreast stepped
  case handled => exact sound_readToEnd (apart _ rfl) abreast stepped
  case showing => exact sound_showRead (apart _ rfl) abreast stepped
  case noticing => exact sound_notice (apart _ rfl) abreast stepped

omit [DecidableEq ι] in
theorem Sound.outside (core : Core start after)
    (flights : after.flights = world.flights) (aside : ∀ call, Aside call world after) :
    Sound start after := by
  refine ⟨core, ?_, ?_⟩
  · intro call
    rw [flights]
    exact (sound.abreast call).aside (aside call)
  · intro call run
    rw [flights]
    exact fun own => (sound.called call run own).aside (aside call)

variable {act : FileAct ρ ι}

omit [DecidableEq ι] in
theorem sound_outside (stepped : world.outside act = some after) : Sound start after := by
  have others : ∀ call left, (FileDeed.wrote left : FileDeed ρ ι).caller ≠ some call :=
    fun _ _ same => by cases same
  cases act with
  | rewrite node standing =>
    simp only [FileWorld.outside] at stepped
    split at stepped
    · next fits =>
        have fresh := fits.2
        cases stepped
        by_cases here : world.path = some node
        · rw [if_pos here]
          apply sound.outside
          · apply sound.core.rewrites here rfl rfl (by trivial) fresh
            rintro left ⟨⟩
            exact sound.core.neverSeen fresh
          · rfl
          · intro call
            exact (aside_fill fresh).trans (aside_noted (others call _) fun _ _ => ⟨_, rfl⟩)
        · rw [if_neg here]
          exact sound.outside (sound.core.strays here fresh) rfl fun call =>
            (aside_fill fresh).trans
              (aside_noted (fun same => by cases same) fun _ same => absurd rfl same)
    · cases stepped
  | replace standing =>
    simp only [FileWorld.outside] at stepped
    split at stepped
    · next fresh =>
        cases stepped
        apply sound.outside
        · apply sound.core.places rfl rfl (by trivial) fresh
          rintro left ⟨⟩
          exact sound.core.neverSeen fresh
        · rfl
        · intro call
          exact (aside_place fresh).trans (aside_noted (others call _) fun _ _ => ⟨_, rfl⟩)
    · cases stepped
  | remove =>
    cases stepped
    apply sound.outside
    · apply sound.core.removes rfl rfl (by trivial)
      rintro left ⟨⟩
    · rfl
    · intro call
      have gone : Aside call world { world with path := none } :=
        aside_same rfl rfl rfl (fun _ found => by cases found) id
      exact gone.trans (aside_noted (others call _) fun _ _ => ⟨_, rfl⟩)
  | _ => cases stepped

omit [DecidableEq ι] in
theorem Sound.calls (run : ρ) (idle : world.flights call = .idle) :
    Apart start call run (world.noted (.called call run)) ∧
      (world.noted (.called call run)).Quiet call := by
  have unmade : world.Unmade call := by
    have abreast := sound.abreast call
    rwa [idle] at abreast
  have others : ∀ other, other ≠ call → Aside other world (world.noted (.called call run)) := by
    intro other apart
    apply aside_noted
    · rintro ⟨⟩
      exact apart rfl
    · exact fun _ changes => absurd rfl changes
  refine ⟨⟨?_, ?_, ?_, mem_append_right _ mem_cons_self⟩, ?_⟩
  · have core := sound.core
    refine core.deed rfl rfl (fun _ => rfl) (fun _ _ same => by cases same)
      (fun _ member => Or.inl member) (fun _ member => member) (fun _ same => by cases same)
      core.within core.nodes rfl (fun _ member => by cases member) ?_
    exact fun other made => unmade _ made rfl
  · exact fun other apart => (sound.abreast other).aside (others other apart)
  · exact fun other apart found own => (sound.called other found own).aside (others other apart)
  · intro deed member own
    rcases mem_append.mp member with old | new
    · exact absurd own (unmade deed old)
    · exact ⟨run, mem_singleton.mp new⟩

theorem sound_step (stepped : world.step act = some after) : Sound start after := by
  cases act with
  | edit call run doors args =>
    simp only [step] at stepped
    split at stepped
    · next idle =>
        obtain ⟨apart, quiet⟩ := sound.calls run idle
        split at stepped
        · cases stepped
          exact apart.refuses _ (by decide) (fun _ => quiet.before)
        · cases stepped
          exact apart.onto rfl quiet
    · cases stepped
  | read call run args =>
    simp only [step] at stepped
    split at stepped
    · next idle =>
        obtain ⟨apart, quiet⟩ := sound.calls run idle
        cases stepped
        exact apart.onto rfl quiet
    · cases stepped
  | go call platform => exact sound_go sound stepped
  | rewrite | replace | remove =>
    simp only [step] at stepped
    exact sound_outside sound stepped

omit sound

omit [DecidableEq ι] in
theorem sound_opening (start : Option Standing) :
    Sound start (FileWorld.opening start : FileWorld ρ ι) := by
  refine ⟨⟨?_, ?_, ?_, ?_, ?_, ?_, ?_, ?_, always_nil, fun _ => rfl, ?_⟩, ?_, ?_⟩
  · cases start <;> simp [FileWorld.opening]
  · cases start <;> rfl
  · exact fun _ member => member
  · intro one first two second _
    have one_ : start = some one := mem_toList.mp first
    have two_ : start = some two := mem_toList.mp second
    exact some_inj.mp (one_.symm.trans two_)
  · exact fun _ opened => mem_toList.mpr opened
  · exact fun _ member => Or.inl (mem_toList.mp member)
  · exact fun _ member => absurd member not_mem_nil
  · intro early late standing split stood
    obtain ⟨rfl, -⟩ := append_eq_nil_iff.mp split.symm
    exact mem_toList.mpr stood
  · intro _ _ last
    cases last
  · exact fun _ _ member => absurd member not_mem_nil
  · intro _ _ own
    cases own

end Steps

def stampOf (number : Nat) : Stamp := ⟨number, (0, 0), 0, number⟩

/-- Doors that let every call through. -/
def openDoors : EditTool.Doors where
  mode := none
  withinCity := fun asked => .ok asked
  domain := fun _ => none
  link := fun _ => none
  replacing := fun _ => none

/-- The call replaces `a` by `c`. -/
def replaceA : Json :=
  .obj [("file_path", .str ['f']), ("old_string", .str ['a']), ("new_string", .str ['c'])]

/-- Steps the platform does. -/
def does (call : Nat) (steps : Nat) : List (FileAct Nat Nat) :=
  List.replicate steps (.go call .does)

/-- An edit of the file a run read is admitted, and somebody else writes `b` before it lands. -/
def admittedThenWritten : FileWorld Nat Nat :=
  (FileWorld.opening (some ⟨stampOf 0, [97]⟩)).play
    (.read 0 0 (.obj []) :: does 0 5 ++ .edit 1 0 openDoors replaceA :: does 1 5
      ++ [.replace ⟨stampOf 1, [98]⟩])

def landedOver : FileWorld Nat Nat := admittedThenWritten.play [.go 1 (.mints (stampOf 2))]

end FileWorld

end Sprawling
