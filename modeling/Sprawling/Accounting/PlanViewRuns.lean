import Sprawling.Accounting.PlanView
import Sprawling.Base.Machine

/-! The city's writes of its plans, the records they leave, the fold over those records and the
readers of the pages, in any order. -/

namespace Sprawling.PlanView

open List

/-- What `city::roadmap` answers for one building. -/
abbrev PlanFile := Except AxError (List Char)

/-- One step of a write. -/
inductive WriteStep where
  | append (line : LedgerLine)
  | replace (building : Address) (file : PlanFile)

/-- The writes of a plan file, with the data of the records they append. -/
inductive CityWrite where
  | landing (lines : List LedgerLine) (building : Address) (file : PlanFile)
  | putRange (building : Address) (file : PlanFile) (written : List (String × Json))
  | decideProposals (landed : Option (Address × PlanFile × List (String × Json)))
      (decided : List (List (String × Json)))
  | takeBack (building : Address) (file : PlanFile) (restored : List (String × Json))
  | restoreDiscard (building : Address) (file : PlanFile) (restored : List (String × Json))
  | putSpine (building : Address) (file : PlanFile) (written : List (String × Json))

/-- A record written for the city: it names no address. -/
def record (kind : EventKind) (data : List (String × Json)) : WriteStep :=
  .append { kind, addr := none, data }

namespace CityWrite

/-- The steps of a write. A landing's lines are on the ledger before its file is replaced; every
other write replaces first and records what landed. -/
def steps : CityWrite → List WriteStep
  | .landing lines building file => lines.map .append ++ [.replace building file]
  | .putRange building file written =>
    [.replace building file, record .documentWritten written]
  | .decideProposals landed decided =>
    (match landed with
      | some (building, file, written) =>
        [.replace building file, record .documentWritten written]
      | none => []) ++ decided.map (record .proposalDecided)
  | .takeBack building file restored => [.replace building file, record .fileRestored restored]
  | .restoreDiscard building file restored =>
    [.replace building file, record .discardRestored restored]
  | .putSpine building file written =>
    [.replace building file, record .spineDocumentWritten written]

end CityWrite

/-- One call of `plansOf` under way: what is still to be read, and what was read. -/
structure Reader where
  asks : List (Address × PlanAsk)
  fresh : List FreshPlan

/-- The city as a page's plans see it. -/
structure City where
  view : PlanView
  disk : Disk
  /-- How many lines the ledger holds. -/
  lines : Nat
  /-- The lines the view has not folded yet, oldest first. -/
  pending : List LedgerLine
  /-- The steps each write under way has still to take. -/
  writes : List (List WriteStep)
  readers : List Reader

/-- What happens to the city. -/
inductive Op where
  | begin (write : CityWrite)
  | next (write : Nat)
  | refuse (write : Nat)
  | apply
  | ask (addrs : List Address)
  | read (reader : Nat)
  | remember (reader : Nat)

namespace City

def refuse (city : City) (write : Nat) : City := { city with writes := city.writes.set write [] }

/-- Takes one write's next step. A ledger with no number left refuses the line. -/
def next (city : City) (write : Nat) : City :=
  match city.writes[write]? with
  | some (.append line :: rest) =>
    if city.lines + 1 < 2 ^ 64 then
      { city with
        lines := city.lines + 1
        pending := city.pending ++ [line]
        writes := city.writes.set write rest }
    else city.refuse write
  | some (.replace building file :: rest) =>
    { city with
      disk := Function.update city.disk building file
      writes := city.writes.set write rest }
  | some [] | none => city

/-- Folds the oldest line the view has not seen. -/
def apply (city : City) : City :=
  match city.pending with
  | [] => city
  | line :: rest => { city with view := city.view.apply line, pending := rest }

/-- One more building of a call is read off the disk. -/
def read (city : City) (reader : Nat) : City :=
  match city.readers[reader]? with
  | some { asks := (addr, ask) :: asks, fresh } =>
    { city with
      readers := city.readers.set reader
        { asks, fresh := fresh ++ ((ask.read city.disk addr).2).toList } }
  | some { asks := [], fresh := _ } | none => city

/-- A call that has read everything puts it back and ends. -/
def remember (city : City) (reader : Nat) : City :=
  match city.readers[reader]? with
  | some { asks := [], fresh } =>
    { city with
      view := fresh.foldl PlanView.remember city.view
      readers := city.readers.eraseIdx reader }
  | some { asks := _ :: _, fresh := _ } | none => city

def step (city : City) : Op → City
  | .begin write => { city with writes := city.writes ++ [write.steps] }
  | .next write => city.next write
  | .refuse write => city.refuse write
  | .apply => city.apply
  | .ask addrs =>
    { city with
      readers := city.readers ++
        [{ asks := addrs.map fun addr => (addr, city.view.ask addr), fresh := [] }] }
  | .read reader => city.read reader
  | .remember reader => city.remember reader

/-- A city whose view has folded the whole ledger, from the causes a snapshot kept. -/
def started (causes : OrdMap Address Causes) (history : List LedgerLine) (disk : Disk) : City :=
  { view := history.foldl PlanView.apply { PlanView.new with causes }
    disk
    lines := history.length
    pending := []
    writes := []
    readers := [] }

/-- No write is under way and every appended record has been applied. -/
def Quiet (city : City) : Prop := city.pending = [] ∧ ∀ write ∈ city.writes, write = []

/-- A page asking now is told what every file holds. -/
def ShowsFiles (city : City) : Prop :=
  ∀ addrs, (city.view.plansOf city.disk addrs).1 =
    addrs.map fun addr => (addr, describe (readPlan (city.disk addr)) city.view.causes[addr]?)

/-- Somebody keeps a reading of a building's plan: the view, or a call whose reading the view
would take back now. -/
def Keeps (city : City) (building : Address) (reading : Reading) : Prop :=
  city.view.read[building]? = some reading ∨
    ∃ reader ∈ city.readers, ∃ fresh ∈ reader.fresh, fresh.addr = building ∧
      fresh.askedAt = city.view.generation building ∧ fresh.reading = reading

end City

/-- The lines some steps have still to append. -/
def linesOf (steps : List WriteStep) : List LedgerLine :=
  steps.filterMap fun step =>
    match step with
    | .append line => some line
    | .replace _ _ => none

namespace City

/-- A line that reaches the building is still to be applied. -/
def Told (city : City) (building : Address) : Prop :=
  ∃ line ∈ city.pending ++ city.writes.flatMap linesOf, Reaches line building

/-- No reading that the disk has left behind waits for a line of this write alone. -/
def Dispensable (city : City) (write : Nat) : Prop :=
  ∀ building reading, city.Keeps building reading → reading ≠ readPlan (city.disk building) →
    (city.refuse write).Told building

/-- A file is replaced while nobody keeps a reading of another text of it, or while a line that
reaches the building is still to come. -/
def AllowedNext (city : City) (write : Nat) : Prop :=
  match city.writes[write]? with
  | some (.replace building file :: _) =>
    ∀ reading, city.Keeps building reading → reading = readPlan file ∨ city.Told building
  | some (.append _ :: _) => city.lines + 1 < 2 ^ 64 ∨ city.Dispensable write
  | some [] | none => True

/-- The steps after which a page can still be told the truth. -/
def Allowed (city : City) : Op → Prop
  | .next write => city.AllowedNext write
  | .refuse write => city.Dispensable write
  | .begin _ | .apply | .ask _ | .read _ | .remember _ => True

theorem mem_linesOf_set {writes : List (List WriteStep)} {write : Nat} {step : WriteStep}
    {rest : List WriteStep} {line : LedgerLine} (standing : writes[write]? = some (step :: rest))
    (member : line ∈ writes.flatMap linesOf) :
    step = .append line ∨ line ∈ (writes.set write rest).flatMap linesOf := by
  obtain ⟨steps, held, inside⟩ := mem_flatMap.mp member
  obtain ⟨place, found⟩ := mem_iff_getElem?.mp held
  have bound : write < writes.length := (List.getElem?_eq_some_iff.mp standing).1
  by_cases here : write = place
  · rw [← here, standing] at found
    cases found
    have moved : rest ∈ writes.set write rest := mem_set bound rest
    cases step with
    | append first =>
      rcases mem_cons.mp inside with same | later
      · exact .inl (congrArg WriteStep.append same.symm)
      · exact .inr (mem_flatMap.mpr ⟨rest, moved, later⟩)
    | replace building file => exact .inr (mem_flatMap.mpr ⟨rest, moved, inside⟩)
  · refine .inr (mem_flatMap.mpr ⟨steps, ?_, inside⟩)
    refine mem_iff_getElem?.mpr ⟨place, ?_⟩
    rw [getElem?_set_ne here]
    exact found

end City

def Generation.NotAfter (first second : Generation) : Prop := first = second ∨ first.Before second

theorem Generation.NotAfter.before {first second third : Generation}
    (one : first.NotAfter second) (two : second.Before third) : first.Before third := by
  rcases one with same | before
  · rw [same]
    exact two
  · exact before.trans two

namespace City

/-- What every step the city may take keeps. -/
structure Kept (city : City) : Prop where
  counted : ∃ bound, Within bound city.view ∧ bound + city.pending.length ≤ city.lines
  room : city.lines < 2 ^ 64
  asks : ∀ reader ∈ city.readers, ∀ addr causes askedAt,
    (addr, PlanAsk.unread causes askedAt) ∈ reader.asks →
      askedAt.NotAfter (city.view.generation addr)
  fresh : ∀ reader ∈ city.readers, ∀ fresh ∈ reader.fresh,
    fresh.askedAt.NotAfter (city.view.generation fresh.addr)
  told : ∀ building reading, city.Keeps building reading →
    reading ≠ readPlan (city.disk building) → city.Told building

namespace Kept

variable {city : City}

theorem showsFiles (kept : city.Kept) (quiet : city.Quiet) : city.ShowsFiles := by
  intro addrs
  show (addrs.map fun addr => (addr, (city.view.ask addr).read city.disk addr)).map
    (fun entry => (entry.1, entry.2.1)) = _
  rw [map_map]
  refine map_congr_left ?_
  intro addr _
  show (addr, ((city.view.ask addr).read city.disk addr).1) = _
  rw [read_ask]
  cases cached : city.view.read[addr]? with
  | none => rfl
  | some reading =>
    have same : reading = readPlan (city.disk addr) := by
      by_contra other
      obtain ⟨line, member, -⟩ := kept.told addr reading (.inl cached) other
      rcases mem_append.mp member with waiting | coming
      · rw [quiet.1] at waiting
        cases waiting
      · obtain ⟨steps, held, inside⟩ := mem_flatMap.mp coming
        rw [quiet.2 steps held] at inside
        cases inside
    rw [Option.getD_some, same]

theorem started (causes : OrdMap Address Causes) {history : List LedgerLine} (disk : Disk)
    (fits : history.length < 2 ^ 64) : (City.started causes history disk).Kept := by
  have folded : Within history.length (City.started causes history disk).view ∧
      ∀ addr : Address, (City.started causes history disk).view.read[addr]? = none := by
    unfold City.started
    induction history using List.reverseRecOn with
    | nil =>
      refine ⟨⟨Nat.le_refl 0, ?_⟩, fun addr => by simp [PlanView.new]⟩
      intro building count held
      simp [PlanView.new] at held
    | append_singleton history line ih =>
      rw [length_append, length_singleton] at fits ⊢
      obtain ⟨within, unread⟩ := ih (by omega)
      rw [foldl_append, foldl_cons, foldl_nil]
      refine ⟨within.apply fits line, ?_⟩
      intro addr
      rw [read_apply]
      split
      · rfl
      · exact unread addr
  refine ⟨⟨history.length, folded.1, Nat.le_refl _⟩, fits, ?_, ?_, ?_⟩
  · intro reader member
    cases member
  · intro reader member
    cases member
  · intro building reading keeps
    rcases keeps with cached | ⟨reader, member, -⟩
    · rw [folded.2] at cached
      cases cached
    · cases member

variable (kept : city.Kept)

include kept

theorem refuse {write : Nat} (allowed : city.Dispensable write) :
    (city.refuse write).Kept :=
  ⟨kept.counted, kept.room, kept.asks, kept.fresh, allowed⟩

theorem begin (write : CityWrite) : (city.step (.begin write)).Kept := by
  refine ⟨kept.counted, kept.room, kept.asks, kept.fresh, ?_⟩
  intro building reading keeps other
  obtain ⟨line, member, reaches⟩ := kept.told building reading keeps other
  refine ⟨line, ?_, reaches⟩
  show line ∈ city.pending ++ (city.writes ++ [write.steps]).flatMap linesOf
  rw [flatMap_append, ← append_assoc]
  exact mem_append_left _ member

theorem next {write : Nat} (allowed : city.AllowedNext write) :
    (city.next write).Kept := by
  unfold City.next
  unfold AllowedNext at allowed
  split
  · next line rest standing =>
      rw [standing] at allowed
      split
      · next fits =>
          obtain ⟨bound, within, counted⟩ := kept.counted
          refine ⟨⟨bound, within, ?_⟩, fits, kept.asks, kept.fresh, ?_⟩
          · show bound + (city.pending ++ [line]).length ≤ city.lines + 1
            rw [length_append, length_singleton]
            omega
          · intro building reading keeps other
            obtain ⟨found, member, reaches⟩ := kept.told building reading keeps other
            refine ⟨found, ?_, reaches⟩
            show found ∈ (city.pending ++ [line]) ++ _
            rw [append_assoc]
            rcases mem_append.mp member with waiting | coming
            · exact mem_append_left _ waiting
            · refine mem_append_right _ ?_
              rcases mem_linesOf_set standing coming with appended | later
              · cases appended
                exact mem_cons_self
              · exact mem_cons_of_mem _ later
      · next full => exact kept.refuse (allowed.resolve_left full)
  · next building file rest standing =>
      rw [standing] at allowed
      refine ⟨kept.counted, kept.room, kept.asks, kept.fresh, ?_⟩
      intro other reading keeps differs
      have told : city.Told other := by
        by_cases here : other = building
        · rw [here] at keeps differs ⊢
          refine (allowed reading keeps).resolve_left ?_
          intro same
          exact differs (by rw [same]; simp)
        · refine kept.told other reading keeps ?_
          intro same
          exact differs (by rw [same]; simp [here])
      obtain ⟨line, member, reaches⟩ := told
      refine ⟨line, ?_, reaches⟩
      rcases mem_append.mp member with waiting | coming
      · exact mem_append_left _ waiting
      · refine mem_append_right _ ?_
        rcases mem_linesOf_set standing coming with appended | later
        · cases appended
        · exact later
  · exact kept
  · exact kept

theorem apply : city.apply.Kept := by
  unfold City.apply
  split
  · exact kept
  · next line rest waiting =>
      obtain ⟨bound, within, counted⟩ := kept.counted
      rw [waiting, length_cons] at counted
      have room : bound + 1 < 2 ^ 64 := by
        have := kept.room
        omega
      have moves (addr : Address) := generation_apply within room line addr
      have onward {askedAt : Generation} {addr : Address}
          (before : askedAt.NotAfter (city.view.generation addr)) :
          askedAt.NotAfter ((city.view.apply line).generation addr) := by
        rcases moves addr with up | ⟨-, same⟩
        · exact .inr (before.before up)
        · rw [same]
          exact before
      have counted : bound + 1 + rest.length ≤ city.lines := by omega
      refine ⟨⟨bound + 1, within.apply room line, counted⟩, kept.room, ?_, ?_, ?_⟩
      · intro reader member addr causes askedAt asked
        exact onward (kept.asks reader member addr causes askedAt asked)
      · intro reader member fresh read
        exact onward (kept.fresh reader member fresh read)
      · intro building reading keeps other
        -- A reading kept after the fold was kept before it, by a line that does not reach it.
        have before : city.Keeps building reading ∧ ¬ Reaches line building := by
          rcases keeps with cached | ⟨reader, member, fresh, read, named, asked, same⟩
          · have cached : (city.view.apply line).read[building]? = some reading := cached
            rw [read_apply] at cached
            by_cases reached : Reaches line building
            · rw [if_pos reached] at cached
              cases cached
            · rw [if_neg reached] at cached
              exact ⟨.inl cached, reached⟩
          · have asked : fresh.askedAt = (city.view.apply line).generation building := asked
            rcases moves building with up | ⟨unreached, still⟩
            · have behind := (named ▸ kept.fresh reader member fresh read :
                fresh.askedAt.NotAfter (city.view.generation building)).before up
              exact absurd asked behind.ne
            · rw [still] at asked
              exact ⟨.inr ⟨reader, member, fresh, read, named, asked, same⟩, unreached⟩
        obtain ⟨found, member, reaches⟩ := kept.told building reading before.1 other
        rw [waiting, cons_append] at member
        rcases mem_cons.mp member with first | later
        · rw [first] at reaches
          exact absurd reaches before.2
        · exact ⟨found, later, reaches⟩

theorem ask (addrs : List Address) : (city.step (.ask addrs)).Kept := by
  refine ⟨kept.counted, kept.room, ?_, ?_, ?_⟩
  · intro reader member addr causes askedAt asked
    rcases mem_append.mp member with old | new
    · exact kept.asks reader old addr causes askedAt asked
    · rw [mem_singleton.mp new] at asked
      obtain ⟨named, -, same⟩ := mem_map.mp asked
      obtain ⟨rfl, unread⟩ := Prod.mk.inj same
      exact .inl (ask_eq_unread unread)
  · intro reader member fresh read
    rcases mem_append.mp member with old | new
    · exact kept.fresh reader old fresh read
    · rw [mem_singleton.mp new] at read
      cases read
  · intro building reading keeps other
    refine kept.told building reading ?_ other
    rcases keeps with cached | ⟨reader, member, fresh, read, rest⟩
    · exact .inl cached
    · rcases mem_append.mp member with old | new
      · exact .inr ⟨reader, old, fresh, read, rest⟩
      · rw [mem_singleton.mp new] at read
        cases read

theorem read (reader : Nat) : (city.read reader).Kept := by
  unfold City.read
  split
  · next addr ask asks fresh standing =>
      have held := mem_of_getElem? standing
      -- What is read now is the file's own plan, asked for no later than the fold stands.
      have new {one : FreshPlan} (member : one ∈ ((ask.read city.disk addr).2).toList) :
          one.askedAt.NotAfter (city.view.generation one.addr) ∧
            one.reading = readPlan (city.disk one.addr) := by
        obtain ⟨named, same, causes, unread⟩ := fresh_ask (Option.mem_toList.mp member)
        rw [named]
        refine ⟨?_, same⟩
        exact kept.asks _ held addr causes one.askedAt (unread ▸ mem_cons_self)
      refine ⟨kept.counted, kept.room, ?_, ?_, ?_⟩
      · intro other member
        rcases mem_or_eq_of_mem_set member with old | rfl
        · exact kept.asks other old
        · intro addr causes askedAt asked
          exact kept.asks _ held addr causes askedAt (mem_cons_of_mem _ asked)
      · intro other member one read
        rcases mem_or_eq_of_mem_set member with old | rfl
        · exact kept.fresh other old one read
        · rcases mem_append.mp read with old | now
          · exact kept.fresh _ held one old
          · exact (new now).1
      · intro building reading keeps other
        refine kept.told building reading ?_ other
        rcases keeps with cached | ⟨who, member, one, read, named, asked, same⟩
        · exact .inl cached
        · rcases mem_or_eq_of_mem_set member with old | rfl
          · exact .inr ⟨who, old, one, read, named, asked, same⟩
          · rcases mem_append.mp read with old | now
            · exact .inr ⟨_, held, one, old, named, asked, same⟩
            · refine absurd ?_ other
              rw [← same, (new now).2, named]
  · exact kept
  · exact kept

theorem remember (reader : Nat) : (city.remember reader).Kept := by
  unfold City.remember
  split
  · next fresh standing =>
      have held := mem_of_getElem? standing
      obtain ⟨bound, within, counted⟩ := kept.counted
      have generations := generation_remember city.view fresh
      obtain ⟨moved, movedAll⟩ := counts_remember city.view fresh
      refine ⟨⟨bound, ⟨movedAll ▸ within.all, moved ▸ within.one⟩, counted⟩, kept.room, ?_, ?_, ?_⟩
      · intro other member addr causes askedAt asked
        rw [generations]
        exact kept.asks other (mem_of_mem_eraseIdx member) addr causes askedAt asked
      · intro other member one read
        rw [generations]
        exact kept.fresh other (mem_of_mem_eraseIdx member) one read
      · intro building reading keeps other
        refine kept.told building reading ?_ other
        rcases keeps with cached | ⟨who, member, one, read, named, asked, same⟩
        · rcases read_remember cached with before | ⟨one, read, named, asked, same⟩
          · exact .inl before
          · exact .inr ⟨_, held, one, read, named, asked, same⟩
        · rw [generations] at asked
          exact .inr ⟨who, mem_of_mem_eraseIdx member, one, read, named, asked, same⟩
  · exact kept
  · exact kept

theorem step {op : Op} (allowed : city.Allowed op) : (city.step op).Kept :=
  match op, allowed with
  | .begin write, _ => kept.begin write
  | .next _, allowed => kept.next allowed
  | .refuse _, allowed => kept.refuse allowed
  | .apply, _ => kept.apply
  | .ask addrs, _ => kept.ask addrs
  | .read reader, _ => kept.read reader
  | .remember reader, _ => kept.remember reader

end Kept

/-- In every run whose replacements and refusals leave a line to come for each reading they put
out of date, a page that asks while nothing is under way is told what the files hold. -/
theorem plans_show_files {causes : OrdMap Address Causes} {history : List LedgerLine} {disk : Disk}
    {ops : List Op} (fits : history.length < 2 ^ 64)
    (meets : Machine.Meets City.step City.Allowed (City.started causes history disk) ops)
    (quiet : (ops.foldl City.step (City.started causes history disk)).Quiet) :
    (ops.foldl City.step (City.started causes history disk)).ShowsFiles := by
  have start : (City.started causes history disk).Kept := Kept.started causes disk fits
  have kept := Machine.run_keeps (fun _ _ kept allowed => kept.step allowed) start meets
  exact kept.showsFiles quiet

def lab : Address := ⟨"lab".toList, by decide⟩

/-- A plan of one step. -/
def onePlan : List Char :=
  ("| # | Item | Weight | Needs | Status | Evidence |\n" ++
    "|---|------|--------|-------|--------|----------|\n" ++
    "| 1 | groundwork | 1 |  | Not started |  |\n").toList

/-- A page reads the plan, and a person then saves another text over it. -/
def savedOver : List Op :=
  [.ask [lab], .read 0, .remember 0, .begin (.putRange lab (.ok "gone".toList) []), .next 0,
    .next 0, .apply]

theorem saved_plan_not_shown : ¬ ∀ (causes : OrdMap Address Causes) (history : List LedgerLine)
    (disk : Disk) (ops : List Op), history.length < 2 ^ 64 →
      (ops.foldl City.step (City.started causes history disk)).Quiet →
        (ops.foldl City.step (City.started causes history disk)).ShowsFiles := by
  intro always
  have shown := always ∅ [] (fun _ => .ok onePlan) savedOver (by decide)
    ⟨rfl, by intro write member; exact mem_singleton.mp member⟩ [lab]
  have rows := congrArg (fun answers => answers.map fun answer => answer.2.rows.length) shown
  revert rows
  delta onePlan savedOver
  simp only [String.toList_append]
  repeat rw [String.toList_ofList]
  decide +kernel

/-- A run in `lab` finishes the first step: its line, then the plan. -/
def finishedFirst : CityWrite :=
  .landing [{ kind := .roadmapFinished
              addr := some ⟨"lab/room1".toList, by decide⟩
              data := [("node", .str ['1'])] }] lab (.ok "gone".toList)

/-- The same page and a run's landing, whose line is folded after the file is replaced. -/
def landedOver : List Op :=
  [.ask [lab], .read 0, .remember 0, .begin finishedFirst, .next 0, .next 0, .apply]

theorem landed_plan_shown :
    (landedOver.foldl City.step (City.started ∅ [] fun _ => .ok onePlan)).Quiet ∧
      (landedOver.foldl City.step (City.started ∅ [] fun _ => .ok onePlan)).ShowsFiles := by
  have quiet : (landedOver.foldl City.step (City.started ∅ [] fun _ => .ok onePlan)).Quiet :=
    ⟨rfl, by intro write member; exact mem_singleton.mp member⟩
  have fits : ([] : List LedgerLine).length < 2 ^ 64 := by decide
  refine ⟨quiet, plans_show_files fits ?_ quiet⟩
  refine ⟨trivial, trivial, trivial, trivial, .inl (by decide), ?_, trivial, trivial⟩
  intro reading _
  exact .inr ⟨_, mem_cons_self, by decide⟩

end City

end Sprawling.PlanView
