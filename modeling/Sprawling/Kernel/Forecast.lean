import Mathlib.Data.List.DropRight
import Mathlib.Data.List.Infix
import Sprawling.Base.Text

/-! What a command is suspected to discard, read off its text before it runs. -/

namespace Sprawling

open List

/-- A command, by what runs it. -/
inductive ExecArm where
  | program (path : List Char) (args : List (List Char))
  | python (code : List Char)
  | shell (text : List Char)

inductive DiscardForecast where
  | clear
  | suspected (pattern : List Char)
deriving DecidableEq

namespace DiscardForecast

/-- What either kind of text is suspected for. -/
def suspectSnippetsText : List (List Char) :=
  ["rm ".toList, "rmdir".toList, "-delete".toList, "git reset --hard".toList, "git clean".toList]

def suspectSnippetsPython : List (List Char) :=
  ["os.remove".toList, "shutil.rmtree".toList, "os.unlink".toList]

/-- The last part of a path, without the ending of a program file. -/
def programBasename (path : List Char) : List Char :=
  let name := path.rtakeWhile fun c => c ≠ '/' ∧ c ≠ '\\'
  if ".exe".toList <:+ name then name.take (name.length - 4) else name

/-- Reads a command whole, and answers the first pattern it is suspected for. -/
def forecast : ExecArm → DiscardForecast
  | .program path args =>
    let base := programBasename path
    if base ∈ ["rm".toList, "rmdir".toList, "del".toList] then .suspected base
    else
      let joined := [' '].intercalate args
      if base = "git".toList ∧ ("reset --hard".toList <:+: joined ∨ "clean".toList <:+: joined) then
        .suspected ("git ".toList ++ joined)
      else if base = "find".toList ∧ "-delete".toList ∈ args then .suspected "find -delete".toList
      else .clear
  | .python code =>
    match (suspectSnippetsText ++ suspectSnippetsPython).find? fun pattern => pattern <:+: code with
    | some pattern => .suspected pattern
    | none =>
      if "open(".toList <:+: code ∧ ("'w'".toList <:+: code ∨ "\"w\"".toList <:+: code) then
        .suspected "open(..., 'w')".toList
      else .clear
  | .shell text =>
    match suspectSnippetsText.find? fun pattern => pattern <:+: text with
    | some pattern => .suspected pattern
    | none =>
      if '>' ∈ text ∧ ¬">>".toList <:+: text then .suspected "> truncation".toList else .clear

def Suspects (arm : ExecArm) : Prop := forecast arm ≠ .clear

instance (arm : ExecArm) : Decidable (Suspects arm) := inferInstanceAs (Decidable (_ ≠ _))

/-- The text holds a snippet. -/
def Spoken (snippets : List (List Char)) (text : List Char) : Prop :=
  ∃ snippet ∈ snippets, snippet <:+: text

def Appends (text : List Char) : Prop := ['>', '>'] <:+: text

/-- The text holds a mark that is not next to another. -/
def Truncates (text : List Char) : Prop :=
  ∃ before after, text = before ++ '>' :: after ∧ before.getLast? ≠ some '>' ∧ after.head? ≠ some '>'

variable {snippets : List (List Char)}

theorem Spoken.of_infix {text whole : List Char}
    (spoken : Spoken snippets text) (held : text <:+: whole) : Spoken snippets whole := by
  obtain ⟨snippet, listed, here⟩ := spoken
  exact ⟨snippet, listed, here.trans held⟩

variable {text : List Char}

theorem find_snippet :
    (snippets.find? fun snippet => snippet <:+: text) = none ↔ ¬Spoken snippets text := by
  simp [Spoken]

theorem suspects_python {code : List Char} :
    Suspects (.python code) ↔ Spoken (suspectSnippetsText ++ suspectSnippetsPython) code ∨
      ("open(".toList <:+: code ∧ ("'w'".toList <:+: code ∨ "\"w\"".toList <:+: code)) := by
  rw [Suspects, forecast]
  split
  next pattern found =>
    have spoken := mt find_snippet.mpr (ne_of_eq_of_ne found (Option.some_ne_none pattern))
    exact iff_of_true nofun (.inl (not_not.mp spoken))
  next silent =>
    have unspoken := find_snippet.mp silent
    split
    next opened => exact iff_of_true nofun (.inr opened)
    next closed => exact iff_of_false (not_not_intro rfl) (not_or_intro unspoken closed)

theorem suspects_shell :
    Suspects (.shell text) ↔ Spoken suspectSnippetsText text ∨ ('>' ∈ text ∧ ¬Appends text) := by
  rw [Suspects, forecast]
  split
  next pattern found =>
    have spoken := mt find_snippet.mpr (ne_of_eq_of_ne found (Option.some_ne_none pattern))
    exact iff_of_true nofun (.inl (not_not.mp spoken))
  next silent =>
    have unspoken := find_snippet.mp silent
    split
    next truncates => exact iff_of_true nofun (.inr truncates)
    next kept => exact iff_of_false (not_not_intro rfl) (not_or_intro unspoken kept)

/-! ### Texts joined -/

theorem suspects_python_of_inside {code whole : List Char} (held : code <:+: whole)
    (suspected : Suspects (.python code)) : Suspects (.python whole) := by
  rw [suspects_python] at suspected ⊢
  rcases suspected with spoken | ⟨opened, mode⟩
  · exact .inl (spoken.of_infix held)
  · exact .inr ⟨opened.trans held, mode.imp (·.trans held) (·.trans held)⟩

theorem pair_infix_cons {mark c : Char} :
    [mark, mark] <:+: c :: text ↔ (c = mark ∧ text.head? = some mark) ∨ [mark, mark] <:+: text := by
  rw [infix_cons_iff, cons_prefix_cons]
  cases text with
  | nil => simp
  | cons next rest => simp [cons_prefix_cons, eq_comm]

theorem pair_infix_joined {mark : Char} {separator : List Char} (apart : separator ≠ [])
    (plain : mark ∉ separator) (first second : List Char) :
    [mark, mark] <:+: first ++ separator ++ second ↔
      [mark, mark] <:+: first ∨ [mark, mark] <:+: second := by
  have behind : [mark, mark] <:+: separator ++ second ↔ [mark, mark] <:+: second := by
    clear apart
    induction separator with
    | nil => rfl
    | cons c separator ih =>
      have other : c ≠ mark := fun same => plain (same ▸ mem_cons_self)
      rw [cons_append, pair_infix_cons, ih fun member => plain (mem_cons_of_mem _ member)]
      simp [other]
  have ahead : (separator ++ second).head? ≠ some mark := by
    cases separator with
    | nil => exact absurd rfl apart
    | cons c separator => exact fun same => plain (Option.some.inj same ▸ mem_cons_self)
  rw [append_assoc]
  induction first with
  | nil =>
    rw [nil_append, behind]
    simp
  | cons c first ih =>
    have same : (first ++ (separator ++ second)).head? = some mark ↔ first.head? = some mark := by
      cases first with
      | nil => simpa using ahead
      | cons next first => rfl
    rw [cons_append, pair_infix_cons, pair_infix_cons, same, or_assoc]
    exact or_congr_right ih

theorem suspects_shell_joined {text other whole : List Char} (suspected : Suspects (.shell text))
    (held : text <:+: whole) (joined : Appends whole ↔ Appends text ∨ Appends other) :
    Suspects (.shell whole) ↔ Spoken suspectSnippetsText whole ∨ ¬Appends other := by
  rw [suspects_shell] at suspected ⊢
  refine or_congr_right' fun unspoken => ?_
  obtain ⟨marked, alone⟩ := suspected.resolve_left fun spoken => unspoken (spoken.of_infix held)
  rw [joined, and_iff_right (held.subset marked), not_or, and_iff_right alone]

theorem suspects_truncates (truncates : Truncates text) :
    Suspects (.shell text) ↔ Spoken suspectSnippetsText text ∨ ¬Appends text := by
  obtain ⟨before, after, rfl, -⟩ := truncates
  rw [suspects_shell, and_iff_right (mem_append_right _ mem_cons_self)]

/-- What joining a command to another leaves of its suspicion. -/
theorem suspects_joined :
    (∀ code separator other, Suspects (.python code) →
      Suspects (.python (code ++ separator ++ other)) ∧
      Suspects (.python (other ++ separator ++ code))) ∧
    (∀ text separator other, separator ≠ [] → '>' ∉ separator → Suspects (.shell text) →
      (Suspects (.shell (text ++ separator ++ other)) ↔
        Spoken suspectSnippetsText (text ++ separator ++ other) ∨ ¬Appends other) ∧
      (Suspects (.shell (other ++ separator ++ text)) ↔
        Spoken suspectSnippetsText (other ++ separator ++ text) ∨ ¬Appends other)) ∧
    ∀ text, Truncates text →
      (Suspects (.shell text) ↔ Spoken suspectSnippetsText text ∨ ¬Appends text) := by
  have first (text separator other : List Char) : text <:+: text ++ separator ++ other :=
    (append_assoc text _ _).symm ▸ infix_append' [] text _
  have last (text separator other : List Char) : text <:+: other ++ separator ++ text :=
    (suffix_append _ _).isInfix
  refine ⟨fun code separator other suspected => ?_, fun text separator other apart plain suspected => ?_,
    fun text => suspects_truncates⟩
  · exact ⟨suspects_python_of_inside (first code separator other) suspected,
      suspects_python_of_inside (last code separator other) suspected⟩
  · exact ⟨suspects_shell_joined suspected (first text separator other)
        (pair_infix_joined apart plain text other),
      suspects_shell_joined suspected (last text separator other)
        ((pair_infix_joined apart plain other text).trans or_comm)⟩

theorem suspects_joined_semicolon : Suspects (.shell "ls > a; ls > b".toList) :=
  have alone : ¬Appends " ls > b".toList := by
    unfold Appends
    decide
  (suspects_joined.2.1 "ls > a".toList [';'] " ls > b".toList (by decide) (by decide) (by decide)).1.mpr
    (.inr alone)

/-- A truncation is hidden by an append in another command, and by one in its own text. -/
theorem not_suspects_joined :
    ¬((∀ text other, Suspects (.shell text) → Suspects (.shell (text ++ [';'] ++ other))) ∨
      ∀ text, Truncates text → Suspects (.shell text)) := by
  rintro (joins | truncates)
  · exact absurd (joins "ls > a".toList "ls >> b".toList (by decide)) (by decide)
  · have here : Truncates "ls > a; ls >> b".toList :=
      ⟨"ls ".toList, " a; ls >> b".toList, rfl, by decide, by decide⟩
    exact absurd (truncates _ here) (by decide)

end DiscardForecast

end Sprawling
