import Mathlib.Data.List.MinMax
import Sprawling.Base.OrdMap
import Sprawling.Base.Since
import Sprawling.Base.Word

/-! Maps held to a size by taking entries out, and tickets that are honoured once while they live. -/

namespace OrdMap

variable {κ ν : Type}

/-- The first entry with the least reading. -/
def leastBy (reading : ν → Nat) (entries : List (κ × ν)) : Option κ :=
  (entries.argmin fun entry => reading entry.2).map Prod.fst

theorem leastBy_mem (reading : ν → Nat) {entries : List (κ × ν)} (some_entries : entries ≠ []) :
    ∃ entry ∈ entries, leastBy reading entries = some entry.1 := by
  cases found : entries.argmin fun entry => reading entry.2 with
  | none => exact absurd (List.argmin_eq_none.mp found) some_entries
  | some entry => exact ⟨entry, List.argmin_mem found, by rw [leastBy, found, Option.map_some]⟩

variable [Ord κ] [Std.TransOrd κ]

/-- Takes entries out, one pick after another, until fewer than `most` are left. -/
def evictWith (pick : OrdMap κ ν → Option κ) (most : Nat) : Nat → OrdMap κ ν → OrdMap κ ν
  | 0, map => map
  | fuel + 1, map =>
    if map.size < most then map
    else match pick map with
      | none => map
      | some key => evictWith pick most fuel (map.erase key)

/-- Each turn takes an entry out, so as many turns as there are entries are enough. -/
def evict (pick : OrdMap κ ν → Option κ) (most : Nat) (map : OrdMap κ ν) : OrdMap κ ν :=
  evictWith pick most map.size map

section Evicted

variable {pick : OrdMap κ ν → Option κ} {most : Nat} {map : OrdMap κ ν}

theorem size_evictWith_lt (some_room : 0 < most)
    (picks : ∀ map : OrdMap κ ν, map.size ≠ 0 → ∃ key ∈ map, pick map = some key) {fuel : Nat} (enough : map.size ≤ fuel) : (evictWith pick most fuel map).size < most := by
  induction fuel generalizing map with
  | zero =>
    rw [evictWith]
    omega
  | succ fuel ih =>
    rw [evictWith]
    by_cases few : map.size < most
    · rwa [if_pos few]
    · rw [if_neg few]
      obtain ⟨key, member, picked⟩ := picks map (by omega)
      rw [picked]
      have held : map.contains key = true := Std.ExtTreeMap.contains_iff_mem.mpr member
      apply ih
      rw [Std.ExtTreeMap.size_erase, if_pos held]
      omega

theorem size_evict_lt (some_room : 0 < most)
    (picks : ∀ map : OrdMap κ ν, map.size ≠ 0 → ∃ key ∈ map, pick map = some key) (map : OrdMap κ ν) :
    (evict pick most map).size < most :=
  size_evictWith_lt some_room picks le_rfl

theorem size_insert_le (map : OrdMap κ ν) (key : κ) (value : ν) :
    (map.insert key value).size ≤ map.size + 1 := by
  rw [Std.ExtTreeMap.size_insert]
  split <;> omega

variable [Std.LawfulEqOrd κ] [DecidableEq κ]

theorem get_evictWith {fuel : Nat} {key : κ} {value : ν}
    (kept : (evictWith pick most fuel map)[key]? = some value) : map[key]? = some value := by
  induction fuel generalizing map with
  | zero => exact kept
  | succ fuel ih =>
    rw [evictWith] at kept
    by_cases few : map.size < most
    · rwa [if_pos few] at kept
    · rw [if_neg few] at kept
      cases picked : pick map with
      | none => rwa [picked] at kept
      | some other =>
        rw [picked] at kept
        have before := ih kept
        rw [OrdMap.get_erase] at before
        split at before
        · cases before
        · exact before

theorem get_evict {key : κ} {value : ν}
    (kept : (evict pick most map)[key]? = some value) : map[key]? = some value :=
  get_evictWith kept

end Evicted

end OrdMap

namespace Sprawling

/-- Tickets still to be honoured, each with when it expires. -/
abbrev Tickets (κ : Type) [Ord κ] := OrdMap κ Nat

namespace Tickets

/-- What is done to a table of tickets. -/
inductive Move (κ : Type) where
  | issue (ticket : κ) (now : Nat)
  | redeem (ticket : κ) (now : Nat)
  | rest

variable {κ : Type} [Ord κ] [Std.TransOrd κ]

/-- Drops the ticket that expires first until fewer than `most` remain, so one more fits. -/
def evictOldest (most : Nat) (tickets : Tickets κ) : Tickets κ :=
  OrdMap.evict (fun tickets => OrdMap.leastBy id tickets.toList) most tickets

/-- A new ticket, after the expired ones and the oldest of a full table are dropped. -/
def issue (most lifetime : Nat) (tickets : Tickets κ) (ticket : κ) (now : Nat) : Tickets κ :=
  (evictOldest most (tickets.filter fun _ expires => now < expires)).insert ticket
    (Word.saturatingAdd Word.u64Values now lifetime)

/-- Takes a ticket out, and whether it was there and still lived. -/
def redeem (tickets : Tickets κ) (ticket : κ) (now : Nat) : Bool × Tickets κ :=
  match tickets[ticket]? with
  | none => (false, tickets)
  | some expires => (decide (now < expires), tickets.erase ticket)

def step (most lifetime : Nat) (tickets : Tickets κ) : Move κ → Tickets κ
  | .issue ticket now => tickets.issue most lifetime ticket now
  | .redeem ticket now => (tickets.redeem ticket now).2
  | .rest => tickets

/-- The table after moves that began with none. -/
def run (most lifetime : Nat) (moves : List (Move κ)) : Tickets κ :=
  moves.foldl (step most lifetime) ∅

variable {most lifetime : Nat}

theorem run_concat (moves : List (Move κ)) (move : Move κ) :
    run most lifetime (moves ++ [move]) = step most lifetime (run most lifetime moves) move := by
  rw [run, List.foldl_append, List.foldl_cons, List.foldl_nil, run]

variable [Std.LawfulEqOrd κ]

theorem size_evictOldest_lt (some_room : 0 < most) (tickets : Tickets κ) :
    (evictOldest most tickets).size < most := by
  apply OrdMap.size_evict_lt some_room
  intro map nonempty
  have some_entries : map.toList ≠ [] := by
    intro empty
    rw [← Std.ExtTreeMap.length_toList, empty] at nonempty
    exact nonempty rfl
  obtain ⟨⟨key, value⟩, member, picked⟩ := OrdMap.leastBy_mem id some_entries
  have held := Std.ExtTreeMap.mem_toList_iff_getElem?_eq_some.mp member
  exact ⟨key, (OrdMap.mem_iff_get map key).mpr ⟨value, held⟩, picked⟩

/-- No more than `most` tickets are kept. -/
theorem size_run_le (some_room : 0 < most) (moves : List (Move κ)) :
    (run most lifetime moves).size ≤ most := by
  induction moves using List.reverseRecOn with
  | nil => exact Nat.zero_le _
  | append_singleton moves move ih =>
    rw [run_concat]
    cases move with
    | issue ticket now =>
      have room := size_evictOldest_lt some_room
        ((run most lifetime moves).filter fun _ expires => decide (now < expires))
      have grown := OrdMap.size_insert_le (evictOldest most
        ((run most lifetime moves).filter fun _ expires => decide (now < expires))) ticket
        (Word.saturatingAdd Word.u64Values now lifetime)
      rw [step, issue]
      omega
    | redeem ticket now =>
      rw [step, redeem]
      cases (run most lifetime moves)[ticket]? with
      | none => exact ih
      | some expires => exact Nat.le_trans Std.ExtTreeMap.size_erase_le ih
    | rest => exact ih

variable [DecidableEq κ]

theorem issued_since (moves : List (Move κ)) {ticket : κ} {expires : Nat}
    (held : (run most lifetime moves)[ticket]? = some expires) :
    Since
      (fun _ move => ∃ now, move = .issue ticket now ∧
        expires = Word.saturatingAdd Word.u64Values now lifetime)
      (fun _ move => ∀ now, move ≠ .redeem ticket now) moves := by
  induction moves using List.reverseRecOn with
  | nil => simp [run] at held
  | append_singleton moves move ih =>
    rw [run_concat] at held
    rw [Since.concat_iff]
    cases move with
    | issue other now =>
      rw [step, issue, OrdMap.get_insert] at held
      split at held
      · rename_i same
        exact .inl ⟨now, by rw [same], (Option.some.inj held).symm⟩
      · have kept := OrdMap.get_evict held
        rw [Std.ExtTreeMap.getElem?_filter'] at kept
        exact .inr ⟨ih (Option.eq_some_of_filter_eq_some kept), fun _ impossible => nomatch impossible⟩
    | redeem other now =>
      rw [step, redeem] at held
      cases found : (run most lifetime moves)[other]? with
      | none =>
        rw [found] at held
        refine .inr ⟨ih held, ?_⟩
        rintro time same
        cases same
        rw [held] at found
        cases found
      | some expires' =>
        rw [found] at held
        simp only [OrdMap.get_erase] at held
        split at held
        · cases held
        · rename_i apart
          refine .inr ⟨ih held, ?_⟩
          rintro time same
          cases same
          exact apart rfl
    | rest => exact .inr ⟨ih held, fun _ impossible => nomatch impossible⟩

/-- What is honoured was issued, lives, and has not been presented since it was issued. -/
theorem honoured_since (moves : List (Move κ)) {ticket : κ} {now : Nat}
    (honoured : ((run most lifetime moves).redeem ticket now).1 = true) :
    Since
      (fun _ move => ∃ issued, move = .issue ticket issued ∧ now < issued + lifetime)
      (fun _ move => ∀ now, move ≠ .redeem ticket now) moves := by
  rw [redeem] at honoured
  cases found : (run most lifetime moves)[ticket]? with
  | none =>
    rw [found] at honoured
    cases honoured
  | some expires =>
    rw [found] at honoured
    have alive : now < expires := of_decide_eq_true honoured
    refine (issued_since moves found).imp ?_ fun _ _ _ calm => calm
    rintro before move - ⟨issued, rfl, rfl⟩
    have bounded := Nat.min_le_left (issued + lifetime) (Word.u64Values - 1)
    exact ⟨issued, rfl, Nat.lt_of_lt_of_le alive bounded⟩

end Tickets

end Sprawling
