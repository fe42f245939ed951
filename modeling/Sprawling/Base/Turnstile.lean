import Sprawling.Base.Trace

/-! A line of those who joined and have neither entered nor been turned away, as a log tells it. -/

namespace Turnstile

open List

variable {κ : Type} [DecidableEq κ]

inductive Event (κ : Type) where
  | joins (key : κ)
  | enters (key : κ)
  | turnedAway (key : κ)
deriving DecidableEq

def serve (line : List κ) : Event κ → List κ
  | .joins key => line ++ [key]
  | .enters key | .turnedAway key => line.erase key

def line (log : List (Event κ)) : List κ := log.foldl serve []

/-- What an event asks of who waits before it: who joins does not wait yet, and who enters or is turned
away does. -/
def Owed (line : List κ) : Event κ → Prop
  | .joins key => key ∉ line
  | .enters key | .turnedAway key => key ∈ line

/-- Everybody who joins enters or is turned away once at most, and nobody else is. -/
def Once (log : List (Event κ)) : Prop := Trace.Always (fun before => Owed (line before)) log

/-- Nobody enters before somebody who joined earlier and waits still. -/
def InTurn (log : List (Event κ)) : Prop :=
  Trace.Always (fun before event => ∀ key, event = .enters key → (line before).head? = some key) log

variable {log : List (Event κ)} {event : Event κ} {key : κ}

theorem line_concat : line (log ++ [event]) = serve (line log) event := by
  rw [line, foldl_append]
  rfl

theorem once_concat : Once (log ++ [event]) ↔ Once log ∧ Owed (line log) event := Trace.always_concat

theorem inTurn_concat : InTurn (log ++ [event]) ↔
    InTurn log ∧ ∀ key, event = .enters key → (line log).head? = some key := Trace.always_concat

theorem joins (apart : key ∉ line log) :
    line (log ++ [.joins key]) = line log ++ [key] ∧ (Once (log ++ [.joins key]) ↔ Once log) ∧
      (InTurn (log ++ [.joins key]) ↔ InTurn log) := by
  refine ⟨line_concat, ?_, ?_⟩
  · rw [once_concat, and_iff_left]
    exact apart
  · rw [inTurn_concat, and_iff_left]
    rintro _ impossible
    cases impossible

def settled (key : κ) (entered : Bool) : Event κ := if entered then .enters key else .turnedAway key

/-- Those at the head of the line leave it in turn. -/
theorem settle {heads : List (κ × Bool)} {rest : List κ}
    (waits : line log = heads.map Prod.fst ++ rest) :
    line (log ++ heads.map fun head => settled head.1 head.2) = rest ∧
      (Once (log ++ heads.map fun head => settled head.1 head.2) ↔ Once log) ∧
        (InTurn (log ++ heads.map fun head => settled head.1 head.2) ↔ InTurn log) := by
  induction heads generalizing log with
  | nil => simpa using waits
  | cons head heads ih =>
    rw [map_cons, cons_append] at waits
    have served : line (log ++ [settled head.1 head.2]) = heads.map Prod.fst ++ rest := by
      rw [line_concat, waits]
      cases head.2 <;> exact erase_cons_head _ _
    have owed : Owed (line log) (settled head.1 head.2) := by
      rw [waits]
      cases head.2 <;> exact mem_cons_self
    have turn : ∀ key, settled head.1 head.2 = .enters key → (line log).head? = some key := by
      rintro key same
      rw [waits]
      cases entered : head.2 with
      | false =>
        rw [entered] at same
        cases same
      | true =>
        rw [entered] at same
        cases same
        rfl
    obtain ⟨lined, once, turns⟩ := ih served
    rw [map_cons, append_cons]
    refine ⟨lined, ?_, ?_⟩
    · rw [once, once_concat, and_iff_left owed]
    · rw [turns, inTurn_concat, and_iff_left turn]

/-- Who enters on joining does so in turn when nobody waits. -/
theorem enters_at_once (apart : key ∉ line log) :
    line (log ++ [.joins key, .enters key]) = line log ∧
      (Once (log ++ [.joins key, .enters key]) ↔ Once log) ∧
        (InTurn (log ++ [.joins key, .enters key]) ↔ InTurn log ∧ line log = []) := by
  obtain ⟨joined, once, turns⟩ := joins apart
  rw [append_cons]
  refine ⟨?_, ?_, ?_⟩
  · rw [line_concat, joined]
    change (line log ++ [key]).erase key = line log
    rw [erase_append_right _ apart, erase_cons_head, append_nil]
  · rw [once_concat, once, and_iff_left]
    rw [joined]
    exact mem_append_right _ mem_cons_self
  · rw [inTurn_concat, turns, joined]
    refine and_congr_right fun _ => ?_
    constructor
    · intro turn
      have first := turn key rfl
      cases waits : line log with
      | nil => rfl
      | cons head rest =>
        rw [waits] at first
        cases first
        rw [waits] at apart
        exact absurd mem_cons_self apart
    · rintro nobody other same
      cases same
      rw [nobody]
      rfl

end Turnstile
