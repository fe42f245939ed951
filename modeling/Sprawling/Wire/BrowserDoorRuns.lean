import Sprawling.Wire.BrowserDoor

/-! What the door for a browser keeps over every run of its codes and nonces: each is judged or honoured
at most once. -/

namespace Sprawling

open Digest Text Trace Since

namespace Reception

namespace BrowserDoor

variable {hash : List UInt8 → B3Hash} {browsers : List PairedBrowser} {entropy : Vector UInt8 32}

variable (hash browsers entropy) in
def run (history : List Move) : BrowserDoor := history.foldl (step hash) (new browsers entropy)

theorem run_concat (history : List Move) (move : Move) :
    run hash browsers entropy (history ++ [move]) =
      (run hash browsers entropy history).step hash move := by
  rw [run, List.foldl_append, List.foldl_cons, List.foldl_nil, run]

/-! ### Open codes and nonces -/

variable (hash) in
/-- What a move does to the open codes. -/
def openMove : Move → Tickets.Move B3Hash
  | .issueOpenCode entropy now => .issue (hash (Utf8.encode (writeHex entropy.toList))) now
  | .redeemOpenCode code now => .redeem (hash (Utf8.encode (trim code))) now
  | _ => .rest

/-- What a move does to the nonces. -/
def nonceMove : Move → Tickets.Move (List Char)
  | .challenge entropy now => .issue (writeHex entropy.toList) now
  | .takeNonce nonce now => .redeem nonce now
  | _ => .rest

section Tables

variable (hash) (door : BrowserDoor)

theorem guess_cases (word : List Char) (now : Nat) (entropy : Vector UInt8 32) :
    (now < door.nextGuess ∧ door.guess hash word now entropy = (.tooSoon, door)) ∨
      door.nextGuess ≤ now ∧ (door.guess hash word now entropy).1 ≠ .tooSoon ∧
      (door.guess hash word now entropy).2 = { door with
        code := codeOf entropy
        nextGuess := Word.saturatingAdd Word.u64Values now guessIntervalMs } := by
  rw [guess]
  by_cases soon : now < door.nextGuess
  · exact .inl ⟨soon, if_pos soon⟩
  · rw [if_neg soon]
    refine .inr ⟨Nat.le_of_not_lt soon, ?_, rfl⟩
    cases verify hash (some (trim word)) (hash (Utf8.encode door.code)) <;>
    · intro impossible
      cases impossible

theorem openCodes_step (move : Move) : (door.step hash move).openCodes =
    Tickets.step openCodesMax openCodeLifetimeMs door.openCodes (openMove hash move) := by
  cases move with
  | guess word now entropy =>
    rcases door.guess_cases hash word now entropy with ⟨-, same⟩ | ⟨-, -, made⟩
    · rw [step, same]
      rfl
    · rw [step, made]
      rfl
  | openSession device entropy now =>
    rw [step, openSession]
    cases door.browsers[device]? <;> rfl
  | _ => rfl

theorem nonces_step (move : Move) : (door.step hash move).nonces =
    Tickets.step noncesMax nonceLifetimeMs door.nonces (nonceMove move) := by
  cases move with
  | guess word now entropy =>
    rcases door.guess_cases hash word now entropy with ⟨-, same⟩ | ⟨-, -, made⟩
    · rw [step, same]
      rfl
    · rw [step, made]
      rfl
  | openSession device entropy now =>
    rw [step, openSession]
    cases door.browsers[device]? <;> rfl
  | _ => rfl

end Tables

theorem openCodes_run (history : List Move) : (run hash browsers entropy history).openCodes =
    Tickets.run openCodesMax openCodeLifetimeMs (history.map (openMove hash)) := by
  induction history using List.reverseRecOn with
  | nil => rfl
  | append_singleton history move ih =>
    rw [run_concat, openCodes_step, ih, List.map_append, List.map_singleton, Tickets.run_concat]

theorem nonces_run (history : List Move) : (run hash browsers entropy history).nonces =
    Tickets.run noncesMax nonceLifetimeMs (history.map nonceMove) := by
  induction history using List.reverseRecOn with
  | nil => rfl
  | append_singleton history move ih =>
    rw [run_concat, nonces_step hash, ih, List.map_append, List.map_singleton, Tickets.run_concat]

/-- The texts a move has digested, and the token it presents. -/
def Move.texts : Move → List (List Char)
  | .issueOpenCode entropy _ => [writeHex entropy.toList]
  | .redeemOpenCode code _ => [trim code]
  | .openSession _ entropy _ => [writeHex entropy.toList]
  | .seat presented _ => [presented]
  | _ => []

/-- The entropy an open code is made of. -/
def Move.openEntropy : Move → Option (Vector UInt8 16)
  | .issueOpenCode entropy _ => some entropy
  | _ => none

/-- The entropy a nonce is made of. -/
def Move.nonceEntropy : Move → Option (Vector UInt8 32)
  | .challenge entropy _ => some entropy
  | _ => none

/-- The entropy a session token is made of. -/
def Move.tokenEntropy : Move → Option (Vector UInt8 32)
  | .openSession _ entropy _ => some entropy
  | _ => none

/-- The entropy a guess that is judged makes the next pairing code of. -/
def Move.guessEntropy : Move → Option (Vector UInt8 32)
  | .guess _ _ entropy => some entropy
  | _ => none

variable {width : Nat}

theorem writeHex_vector_injective {first second : Vector UInt8 width}
    (same : writeHex first.toList = writeHex second.toList) : first = second :=
  Vector.toList_inj.mp (writeHex_injective same)

variable (hash) in
/-- The digests of some texts tell the texts apart, and a history presents no others. -/
structure Apart (texts : Set (List Char)) (history : List Move) : Prop where
  digests : Set.InjOn (fun text => hash (Utf8.encode text)) texts
  reads : ∀ move ∈ history, ∀ text ∈ move.texts, text ∈ texts

section Tables

variable {texts : Set (List Char)} {history : List Move}

/-- A code that is honoured was issued, lives, and has not been presented since. -/
theorem openCode_since (apart : Apart hash texts history) {before after : List Move} {code : List Char}
    {now : Nat} (place : history = before ++ .redeemOpenCode code now :: after) {digest : B3Hash}
    (honoured : ((run hash browsers entropy before).redeemOpenCode hash code now).1 = some digest) :
    Since
      (fun _ move => ∃ made issued, move = .issueOpenCode made issued ∧
        writeHex made.toList = trim code ∧ now < issued + openCodeLifetimeMs)
      (fun _ move => ∀ code' now', move = .redeemOpenCode code' now' → trim code' ≠ trim code)
      before := by
  have redeemed : ((run hash browsers entropy before).openCodes.redeem
      (hash (Utf8.encode (trim code))) now).1 = true := by
    by_contra refused
    rw [redeemOpenCode, Bool.not_eq_true] at *
    simp [refused] at honoured
  rw [openCodes_run] at redeemed
  have presented : trim code ∈ texts := apart.reads (.redeemOpenCode code now)
    (place ▸ List.mem_append_right _ List.mem_cons_self) _ (List.mem_singleton_self _)
  refine (Tickets.honoured_since _ redeemed).of_map.imp ?_ ?_
  · rintro past move member ⟨issued, made, lives⟩
    have inside : move ∈ history := place ▸ List.mem_append_left _ member
    cases move with
    | issueOpenCode entropy' now' =>
      injection made with same clock
      have text := apart.digests (apart.reads _ inside _ (List.mem_singleton_self _)) presented same
      exact ⟨entropy', now', rfl, text, clock ▸ lives⟩
    | _ => cases made
  · rintro past move - calm code' now' rfl same
    apply calm now'
    rw [openMove, same]

theorem nodup_spelled {entropy : Move → Option (Vector UInt8 width)}
    (distinct : (history.filterMap entropy).Nodup) :
    (history.filterMap fun move => (entropy move).map fun made => writeHex made.toList).Nodup := by
  have spelled : (history.filterMap fun move =>
      (entropy move).map fun made => writeHex made.toList) =
        (history.filterMap entropy).map fun made => writeHex made.toList :=
    List.map_filterMap.symm
  rw [spelled]
  exact distinct.map fun _ _ => writeHex_vector_injective

variable {first rest second later : List Move} {now now' : Nat}

/-- An open code is honoured at most once. -/
theorem openCode_once (apart : Apart hash texts history)
    (distinct : (history.filterMap Move.openEntropy).Nodup)
    {code code' : List Char} {digest digest' : B3Hash}
    (here : history = first ++ .redeemOpenCode code now :: rest)
    (honoured : ((run hash browsers entropy first).redeemOpenCode hash code now).1 = some digest)
    (there : history = second ++ .redeemOpenCode code' now' :: later)
    (again : ((run hash browsers entropy second).redeemOpenCode hash code' now').1 = some digest')
    (same : trim code = trim code') : ¬first.length < second.length := by
  have since {before after : List Move} {presented : List Char} {now : Nat} {digest : B3Hash}
      (place : history = before ++ .redeemOpenCode presented now :: after)
      (honoured : ((run hash browsers entropy before).redeemOpenCode hash presented now).1 = some digest)
      (spelt : trim presented = trim code) :
      Since (fun _ move => (move.openEntropy.map fun made => writeHex made.toList) =
          some (trim code))
        (fun _ move => ¬∃ code' now', move = .redeemOpenCode code' now' ∧
          trim code' = trim code) before := by
    refine (openCode_since apart place honoured).imp ?_ ?_
    · rintro past move - ⟨made, issued, rfl, text, -⟩
      rw [Move.openEntropy, Option.map_some, text, spelt]
    · rintro past move - calm ⟨code', now', redeemed, text⟩
      exact calm code' now' redeemed (text.trans spelt.symm)
  exact spent_once (nodup_spelled distinct) here there ⟨code, now, rfl, rfl⟩
    (since here honoured rfl) (since there again same.symm)

variable {nonce : List Char}

/-- A nonce that is honoured was issued, lives, and has not been presented since. -/
theorem nonce_since {before : List Move} {now : Nat}
    (honoured : ((run hash browsers entropy before).takeNonce nonce now).1 = true) :
    Since
      (fun _ move => ∃ made issued, move = .challenge made issued ∧
        writeHex made.toList = nonce ∧ now < issued + nonceLifetimeMs)
      (fun _ move => ∀ now', move ≠ .takeNonce nonce now') before := by
  have redeemed : ((run hash browsers entropy before).nonces.redeem nonce now).1 = true := honoured
  rw [nonces_run] at redeemed
  refine (Tickets.honoured_since _ redeemed).of_map.imp ?_ ?_
  · rintro past move - ⟨issued, made, lives⟩
    cases move with
    | challenge entropy' now' =>
      injection made with same clock
      exact ⟨entropy', now', rfl, same, clock ▸ lives⟩
    | _ => cases made
  · rintro past move - calm now' rfl
    exact calm now' rfl

/-- A nonce is honoured at most once. -/
theorem nonce_once (distinct : (history.filterMap Move.nonceEntropy).Nodup)
    (here : history = first ++ .takeNonce nonce now :: rest)
    (honoured : ((run hash browsers entropy first).takeNonce nonce now).1 = true)
    (there : history = second ++ .takeNonce nonce now' :: later)
    (again : ((run hash browsers entropy second).takeNonce nonce now').1 = true) :
    ¬first.length < second.length := by
  have since {before : List Move} {now : Nat}
      (honoured : ((run hash browsers entropy before).takeNonce nonce now).1 = true) :
      Since (fun _ move => (move.nonceEntropy.map fun made => writeHex made.toList) = some nonce)
        (fun _ move => ¬∃ now', move = .takeNonce nonce now') before := by
    refine (nonce_since honoured).imp ?_ ?_
    · rintro past move - ⟨made, issued, rfl, text, -⟩
      rw [Move.nonceEntropy, Option.map_some, text]
    · rintro past move - calm ⟨now', taken⟩
      exact calm now' taken
  exact spent_once (nodup_spelled distinct) here there ⟨now, rfl⟩ (since honoured) (since again)

end Tables

/-! ### The pairing code -/

variable (hash browsers entropy) in
/-- A move that is a guess the door judges. -/
def Judged (before : List Move) (move : Move) : Prop :=
  ∃ word now made, move = .guess word now made ∧
    ((run hash browsers entropy before).guess hash word now made).1 ≠ .tooSoon

variable (hash browsers entropy) in
/-- The code shown after a history was made of some entropy and has not been judged since: it is the
one the door began with, or a judged guess made it. -/
structure Shown (made : Vector UInt8 32) (history : List Move) : Prop where
  spells : (run hash browsers entropy history).code = codeOf made
  unjudged : (made = entropy ∧ Trace.Always (fun before move => ¬Judged hash browsers entropy before move) history) ∨
    Since (fun before move => Judged hash browsers entropy before move ∧ move.guessEntropy = some made)
      (fun before move => ¬Judged hash browsers entropy before move) history

section Guesses

variable {history : List Move}

theorem code_step {door : BrowserDoor} {move : Move} (other : move.guessEntropy = none) :
    (door.step hash move).code = door.code ∧ (door.step hash move).nextGuess = door.nextGuess := by
  cases move with
  | guess => cases other
  | openSession device entropy now =>
    rw [step, openSession]
    cases door.browsers[device]? <;> exact ⟨rfl, rfl⟩
  | _ => exact ⟨rfl, rfl⟩

/-- A move leaves the code and the next moment to guess, or is a guess the door judges. -/
theorem judged_or_kept (before : List Move) (move : Move) :
    (¬Judged hash browsers entropy before move ∧
      (run hash browsers entropy (before ++ [move])).code = (run hash browsers entropy before).code ∧
      (run hash browsers entropy (before ++ [move])).nextGuess =
        (run hash browsers entropy before).nextGuess) ∨
    ∃ word now made, move = .guess word now made ∧ Judged hash browsers entropy before move ∧
      (run hash browsers entropy before).nextGuess ≤ now ∧
      (run hash browsers entropy (before ++ [move])).code = codeOf made ∧
      (run hash browsers entropy (before ++ [move])).nextGuess =
        Word.saturatingAdd Word.u64Values now guessIntervalMs := by
  rw [run_concat]
  cases guessed : move.guessEntropy with
  | none =>
    refine .inl ⟨?_, code_step guessed⟩
    rintro ⟨word, now, made, rfl, -⟩
    cases guessed
  | some made =>
    cases move with
    | guess word now made' =>
      rcases (run hash browsers entropy before).guess_cases hash word now made' with
        ⟨-, same⟩ | ⟨due, judged, made⟩
      · refine .inl ⟨?_, ?_⟩
        · rintro ⟨word', now', made', one, judged⟩
          cases one
          rw [same] at judged
          exact judged rfl
        · rw [step, same]
          exact ⟨rfl, rfl⟩
      · refine .inr ⟨word, now, made', rfl, ⟨word, now, made', rfl, judged⟩, due, ?_, ?_⟩
        · rw [step, made]
        · rw [step, made]
    | _ => cases guessed

theorem shown (history : List Move) : ∃ made, Shown hash browsers entropy made history := by
  induction history using List.reverseRecOn with
  | nil => exact ⟨entropy, rfl, .inl ⟨rfl, always_nil⟩⟩
  | append_singleton history move ih =>
    rcases @judged_or_kept hash browsers entropy history move with
      ⟨calm, same, -⟩ | ⟨word, now, made, rfl, judged, -, spells, -⟩
    · obtain ⟨made, spells, unjudged⟩ := ih
      refine ⟨made, same.trans spells, ?_⟩
      rcases unjudged with ⟨start, never⟩ | since
      · exact .inl ⟨start, always_concat.mpr ⟨never, calm⟩⟩
      · exact .inr (concat_iff.mpr (.inr ⟨since, calm⟩))
    · exact ⟨made, spells, .inr (concat_iff.mpr (.inl ⟨judged, rfl⟩))⟩

variable {made : Vector UInt8 32}

/-- A pairing code is judged at most once. -/
theorem judged_once (distinct : (entropy :: history.filterMap Move.guessEntropy).Nodup)
    {first rest second later : List Move} {one other : Move}
    (here : history = first ++ one :: rest) (judged : Judged hash browsers entropy first one)
    (there : history = second ++ other :: later) (old : Shown hash browsers entropy made first)
    (new : Shown hash browsers entropy made second) : ¬first.length < second.length := by
  intro earlier
  obtain ⟨middle, joined, -⟩ := place_before here there earlier
  rw [List.nodup_cons] at distinct
  have made_by : Since (fun _ move => move.guessEntropy = some made)
      (fun before move => ¬Judged hash browsers entropy before move) second := by
    rcases new.unjudged with ⟨-, never⟩ | since
    · exact absurd judged (never first one middle joined)
    · exact since.imp (fun _ _ _ happened => happened.2) fun _ _ _ calm => calm
  rcases old.unjudged with ⟨rfl, -⟩ | since
  · obtain ⟨before, move, after, split, guessed, -⟩ := made_by
    apply distinct.1
    rw [there, split]
    exact List.mem_filterMap.mpr ⟨move, by simp, guessed⟩
  · exact spent_once distinct.2 here there judged
      (since.imp (fun _ _ _ happened => happened.2) fun _ _ _ calm => calm) made_by earlier

/-- The next moment to guess lies an interval behind every judged guess, as far as the clock goes. -/
theorem judged_before {before after : List Move} {word : List Char} {now : Nat} (place : history = before ++ .guess word now made :: after)
    (judged : Judged hash browsers entropy before (.guess word now made)) :
    Word.saturatingAdd Word.u64Values now guessIntervalMs ≤ (run hash browsers entropy history).nextGuess := by
  induction history using List.reverseRecOn generalizing after with
  | nil => simp at place
  | append_singleton history move ih =>
    rcases @judged_or_kept hash browsers entropy history move with
      ⟨calm, -, same⟩ | ⟨word', now', made', rfl, -, due, -, next⟩
    · rcases place_concat place with ⟨rfl, rfl, rfl⟩ | ⟨shorter, rfl, rfl⟩
      · exact absurd judged calm
      · rw [same]
        exact ih rfl
    · rw [next]
      rcases place_concat place with ⟨rfl, one, rfl⟩ | ⟨shorter, rfl, rfl⟩
      · cases one
        exact le_rfl
      · have earlier := ih rfl
        unfold Word.saturatingAdd at earlier ⊢
        omega

end Guesses

end BrowserDoor

end Reception

end Sprawling
