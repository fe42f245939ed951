import Sprawling.RemoteAccess.Confirm

/-! What the guard keeps over every run of requests and answers: one guess a request, spaced and counted,
and nothing once it has locked. -/

namespace Sprawling

open Word

namespace RemoteAccess

namespace Confirm

variable {υ : Type} {hash : List UInt8 → B3Hash} {lower : Char → List Char}

variable (hash lower) in
def run (history : List (Operation υ)) : Confirm υ := history.foldl (step hash lower) new

theorem run_concat (history : List (Operation υ)) (op : Operation υ) :
    run hash lower (history ++ [op]) = (run hash lower history).step hash lower op := by
  rw [run, List.foldl_append, List.foldl_cons, List.foldl_nil, run]

theorem run_append (first second : List (Operation υ)) :
    run hash lower (first ++ second) = second.foldl (step hash lower) (run hash lower first) := by
  rw [run, List.foldl_append, run]

/-! ### What one operation makes of a guard -/

section Steps

variable {guard : Confirm υ}

theorem request_locked (locks : guard.locked = true) (verb : υ) (entropy : Vector UInt8 5)
    (expires : Nat) : guard.request hash verb entropy expires = (.error Miss.locked.refusal, guard) := by
  rw [request, if_pos locks]

theorem request_open (unlocked : guard.locked = false) (verb : υ) (entropy : Vector UInt8 5)
    (expires : Nat) : guard.request hash verb entropy expires = (.ok (shown entropy), { guard with
      pending := some ⟨verb, hash (Utf8.encode (encode entropy.toList)), expires⟩ }) := by
  rw [request, if_neg (Bool.eq_false_iff.mp unlocked)]

theorem confirm_locked (locks : guard.locked = true) (answer : List Char) (now : Nat) :
    guard.confirm hash lower answer now = (.error .locked, guard) := by
  rw [confirm, if_pos locks]

theorem confirm_cases (guard : Confirm υ) (answer : List Char) (now : Nat) :
    (¬guard.Reads now ∧ (∃ miss, miss ≠ .wrong ∧
      guard.confirm hash lower answer now = (.error miss, guard))) ∨
    (guard.Reads now ∧ ∃ pending, guard.pending = some pending ∧
      pending.code = hash (Utf8.encode (canonical lower answer)) ∧ now < pending.expires ∧
      guard.confirm hash lower answer now =
        (.ok pending.verb, { pending := none, last := some now, misses := 0 })) ∨
    (guard.Reads now ∧ guard.confirm hash lower answer now = (.error .wrong,
      { pending := none, last := some now, misses := Word.saturatingAdd u32Values guard.misses 1 })) := by
  by_cases locks : guard.locked = true
  · exact .inl ⟨fun reads => absurd (reads.1.symm.trans locks) (by decide), .locked, by decide,
      confirm_locked locks answer now⟩
  · by_cases spaces : guard.spaced now = true
    · have reads : guard.Reads now := ⟨Bool.eq_false_iff.mpr locks, spaces⟩
      have kept : ¬¬guard.spaced now = true := not_not_intro spaces
      cases waits : guard.pending with
      | none =>
        refine .inr (.inr ⟨reads, ?_⟩)
        rw [confirm, if_neg locks, if_neg kept, waits]
      | some pending =>
        by_cases good : pending.code = hash (Utf8.encode (canonical lower answer)) ∧ now < pending.expires
        · refine .inr (.inl ⟨reads, pending, rfl, good.1, good.2, ?_⟩)
          rw [confirm, if_neg locks, if_neg kept, waits]
          exact if_pos good
        · refine .inr (.inr ⟨reads, ?_⟩)
          rw [confirm, if_neg locks, if_neg kept, waits]
          exact if_neg good
    · refine .inl ⟨fun reads => spaces reads.2, .tooSoon, by decide, ?_⟩
      rw [confirm, if_neg locks, if_pos spaces]

theorem step_locked (locks : guard.locked = true) (op : Operation υ) :
    guard.step hash lower op = guard := by
  cases op with
  | request verb entropy expires => rw [step, request_locked locks]
  | confirm answer now => rw [step, confirm_locked locks]

theorem foldl_locked (locks : guard.locked = true) (ops : List (Operation υ)) :
    ops.foldl (step hash lower) guard = guard := by
  induction ops with
  | nil => rfl
  | cons op ops ih => rw [List.foldl_cons, step_locked locks, ih]

end Steps

variable (hash lower) in
/-- Whether the operation is an answer that is read and does no verb. -/
def missed (guard : Confirm υ) : Operation υ → Bool
  | .confirm answer now =>
    match (guard.confirm hash lower answer now).1 with
    | .error .wrong => true
    | _ => false
  | .request .. => false

variable (hash lower) in
/-- The operation is an answer that does its verb. -/
def Hands (guard : Confirm υ) (verb : υ) : Operation υ → Prop
  | .confirm answer now => (guard.confirm hash lower answer now).1 = .ok verb
  | .request .. => False

variable (hash lower) in
/-- How many answers of some operations are read and miss. -/
def missesIn : Confirm υ → List (Operation υ) → Nat
  | _, [] => 0
  | guard, op :: rest =>
    (if guard.missed hash lower op then 1 else 0) + missesIn (guard.step hash lower op) rest

variable {guard : Confirm υ}

theorem misses_step (bounded : guard.misses ≤ confirmMissesMax) (op : Operation υ)
    (undone : ∀ verb, ¬guard.Hands hash lower verb op) :
    (guard.step hash lower op).misses = guard.misses + (if guard.missed hash lower op then 1 else 0) ∧
      (guard.step hash lower op).misses ≤ confirmMissesMax := by
  cases op with
  | request verb entropy expires =>
    have same : (guard.step hash lower (.request verb entropy expires)).misses = guard.misses := by
      rw [step, request]
      split <;> rfl
    rw [same]
    exact ⟨rfl, bounded⟩
  | confirm answer now =>
    rcases @confirm_cases _ hash lower guard answer now with
      ⟨-, miss, unread, same⟩ | ⟨-, pending, -, -, -, done⟩ | ⟨reads, wrong⟩
    · have unmissed : guard.missed hash lower (.confirm answer now) = false := by
        rw [missed, same]
        cases miss with
        | wrong => exact absurd rfl unread
        | tooSoon | locked => rfl
      rw [step, same, unmissed]
      exact ⟨rfl, bounded⟩
    · exact absurd (congrArg Prod.fst done) (undone pending.verb)
    · have counted : guard.missed hash lower (.confirm answer now) = true := by rw [missed, wrong]
      have open_ : ¬confirmMissesMax ≤ guard.misses := of_decide_eq_false reads.1
      have room : confirmMissesMax < u32Values := by decide
      have grown := saturatingAdd_of_lt (show guard.misses + 1 < u32Values by omega)
      rw [step, wrong, counted, if_pos rfl]
      exact ⟨grown, grown.trans_le (by omega)⟩

theorem misses_run (bounded : guard.misses ≤ confirmMissesMax)
    {ops : List (Operation υ)}
    (undone : ∀ first op rest, ops = first ++ op :: rest →
      ∀ verb, ¬(first.foldl (step hash lower) guard).Hands hash lower verb op) :
    guard.misses + guard.missesIn hash lower ops ≤ confirmMissesMax := by
  induction ops generalizing guard with
  | nil => exact bounded
  | cons op ops ih =>
    obtain ⟨grown, still⟩ := misses_step bounded op (undone [] op ops rfl)
    have rest := ih still fun first other rest split => undone (op :: first) other rest (by rw [split]; rfl)
    rw [missesIn]
    omega

theorem misses_bounded (guard : Confirm υ) (bounded : guard.misses ≤ confirmMissesMax)
    (op : Operation υ) : (guard.step hash lower op).misses ≤ confirmMissesMax := by
  by_cases undone : ∀ verb, ¬guard.Hands hash lower verb op
  · exact (misses_step bounded op undone).2
  · cases op with
    | request => exact absurd (fun _ => not_false) undone
    | confirm answer now =>
      rw [step]
      rcases @confirm_cases _ hash lower guard answer now with
        ⟨-, miss, -, same⟩ | ⟨-, _, -, -, -, done⟩ | ⟨-, wrong⟩
      · rw [same]
        exact bounded
      · rw [done]
        exact Nat.zero_le _
      · refine absurd (fun verb handed => ?_) undone
        rw [Hands, wrong] at handed
        cases handed

/-! ### Runs -/

section Runs

variable {history : List (Operation υ)}

variable (hash lower) in
/-- An answer that the guard reads. -/
def Read (before : List (Operation υ)) (op : Operation υ) : Prop :=
  ∃ answer now, op = .confirm answer now ∧ (run hash lower before).Reads now

variable {pending : Pending υ}

theorem waits_since (unlocked : (run hash lower history).locked = false)
    (waits : (run hash lower history).pending = some pending) :
    ∃ entropy, pending.code = hash (Utf8.encode (encode entropy.toList)) ∧
      Since (fun _ op => op = .request pending.verb entropy pending.expires)
        (fun before op => (∀ verb entropy expires, op ≠ .request verb entropy expires) ∧
          ¬Read hash lower before op) history := by
  induction history using List.reverseRecOn with
  | nil => cases waits
  | append_singleton history op ih =>
    have before : (run hash lower history).locked = false := by
      by_contra locks
      rw [run_concat, step_locked (Bool.not_eq_false _ ▸ locks)] at unlocked
      exact locks unlocked
    cases op with
    | request verb entropy expires =>
      rw [run_concat, step, request_open before] at waits
      cases waits
      exact ⟨entropy, rfl, Since.concat_iff.mpr (.inl rfl)⟩
    | confirm answer now =>
      rw [run_concat, step] at waits
      rcases @confirm_cases _ hash lower (run hash lower history) answer now with
        ⟨unread, miss, -, same⟩ | ⟨-, _, -, -, -, done⟩ | ⟨-, missed⟩
      · rw [same] at waits
        obtain ⟨entropy, code, since⟩ := ih before waits
        refine ⟨entropy, code, Since.concat_iff.mpr (.inr ⟨since, nofun, ?_⟩)⟩
        rintro ⟨answer', now', one, reads⟩
        cases one
        exact unread reads
      · rw [done] at waits
        cases waits
      · rw [missed] at waits
        cases waits

theorem last_since {first middle : List (Operation υ)} {answer : List Char} {now : Nat}
    (reads : (run hash lower first).Reads now) :
    ∃ last, (run hash lower (first ++ .confirm answer now :: middle)).last = some last ∧
      (last = now ∨ ∃ answer', .confirm answer' last ∈ middle) := by
  induction middle using List.reverseRecOn with
  | nil =>
    rw [run_concat, step]
    rcases @confirm_cases _ hash lower (run hash lower first) answer now with
      ⟨unread, -⟩ | ⟨-, _, -, -, -, done⟩ | ⟨-, missed⟩
    · exact absurd reads unread
    · exact ⟨now, by rw [done], .inl rfl⟩
    · exact ⟨now, by rw [missed], .inl rfl⟩
  | append_singleton middle op ih =>
    obtain ⟨last, held, since⟩ := ih
    have kept : last = now ∨ ∃ answer', .confirm answer' last ∈ middle ++ [op] :=
      since.imp_right fun ⟨answer', member⟩ => ⟨answer', List.mem_append_left _ member⟩
    rw [← List.cons_append, ← List.append_assoc, run_concat]
    cases op with
    | request verb entropy expires =>
      refine ⟨last, ?_, kept⟩
      rw [step, request]
      split <;> exact held
    | confirm answer' now' =>
      have given : .confirm answer' now' ∈ middle ++ [.confirm answer' now'] :=
        List.mem_append_right _ List.mem_cons_self
      rw [step]
      rcases @confirm_cases _ hash lower (run hash lower (first ++ .confirm answer now :: middle))
        answer' now' with ⟨-, miss, -, same⟩ | ⟨-, _, -, -, -, done⟩ | ⟨-, missed⟩
      · exact ⟨last, by rw [same, held], kept⟩
      · exact ⟨now', by rw [done], .inr ⟨answer', given⟩⟩
      · exact ⟨now', by rw [missed], .inr ⟨answer', given⟩⟩

/-- When an operation is an answer, the time it comes at. -/
def Operation.time : Operation υ → Option Nat
  | .confirm _ now => some now
  | .request .. => none

variable {first middle : List (Operation υ)}

theorem reads_spaced {answer : List Char} {now now' : Nat}
    (reads : (run hash lower first).Reads now)
    (again : (run hash lower (first ++ .confirm answer now :: middle)).Reads now')
    (clock : (now :: (middle.filterMap Operation.time ++ [now'])).Pairwise (· ≤ ·)) :
    now + confirmSpacingMs ≤ now' ∨ u64Values - 1 ≤ now' := by
  obtain ⟨last, held, since⟩ := @last_since _ _ _ _ middle answer _ reads
  rw [List.pairwise_cons, List.pairwise_append] at clock
  have order : now ≤ last ∧ last ≤ now' := by
    rcases since with rfl | ⟨answer', member⟩
    · exact ⟨le_rfl, clock.1 now' (by simp)⟩
    · have given : last ∈ middle.filterMap Operation.time := List.mem_filterMap.mpr ⟨_, member, rfl⟩
      exact ⟨clock.1 last (List.mem_append_left _ given), clock.2.2.2 last given now' (by simp)⟩
  have spaces := again.2
  rw [spaced, held, Option.all_some, Bool.or_eq_true, decide_eq_true_iff, decide_eq_true_iff] at spaces
  unfold Word.saturatingAdd at spaces
  omega

theorem requested_between {one : Operation υ} {now' : Nat}
    (read : Read hash lower first one)
    (again : (run hash lower (first ++ one :: middle)).Reads now')
    (waits : (run hash lower (first ++ one :: middle)).pending = some pending) :
    ∃ entropy, .request pending.verb entropy pending.expires ∈ middle := by
  obtain ⟨entropy, -, since⟩ := waits_since again.1 waits
  obtain ⟨-, _, member, rfl⟩ := since.from_loud fun calm => calm.2 read
  rcases List.mem_cons.mp member with same | later
  · obtain ⟨answer, now, answers, -⟩ := read
    cases same.trans answers
  · exact ⟨entropy, later⟩

theorem run_misses_le (history : List (Operation υ)) :
    (run hash lower history).misses ≤ confirmMissesMax := by
  induction history using List.reverseRecOn with
  | nil => exact Nat.zero_le _
  | append_singleton history op ih =>
    rw [run_concat]
    exact misses_bounded _ ih op

end Runs

/-! ### The code shown and the code typed -/

variable {c : Char}

theorem mem_of_symbol {value : UInt32} (member : c ∈ symbol value) : c ∈ alphabet := by
  rw [symbol, Option.mem_toList] at member
  exact List.mem_of_getElem? member

theorem mem_of_drain {buffer : UInt32} {held : Nat} (member : c ∈ (drain buffer held).1) :
    c ∈ alphabet := by
  induction held using Nat.strongRecOn with
  | _ held ih =>
    unfold drain at member
    split at member
    · rename_i held'
      rcases List.mem_append.mp member with here | later
      · exact mem_of_symbol here
      · exact ih held' (by omega) later
    · cases member

theorem mem_of_encode {bytes : List UInt8} (member : c ∈ encode bytes) : c ∈ alphabet := by
  have pushed (encoder : Encoder) (plain : ∀ c ∈ encoder.out, c ∈ alphabet) :
      ∀ c ∈ (bytes.foldl Encoder.push encoder).out, c ∈ alphabet := by
    clear member
    induction bytes generalizing encoder with
    | nil => exact plain
    | cons byte bytes ih =>
      refine ih (encoder.push byte) fun c member => ?_
      rw [Encoder.push] at member
      rcases List.mem_append.mp member with here | later
      · exact plain c here
      · exact mem_of_drain later
  have all := pushed ⟨[], 0, 0⟩ (fun c member => nomatch member)
  rw [encode] at member
  split at member
  · rcases List.mem_append.mp member with here | last
    · exact all c here
    · exact mem_of_symbol last
  · exact all c member

def LowersSymbols (lower : Char → List Char) : Prop := ∀ c ∈ alphabet, lower c = [c]

theorem symbol_plain (member : c ∈ alphabet) :
    (!Text.isWhitespace c && decide (c ≠ '-')) = true := by
  have checked : alphabet.all (fun c => !Text.isWhitespace c && decide (c ≠ '-')) = true := by
    decide +kernel
  exact List.all_eq_true.mp checked c member

theorem canonical_of_symbols (lowers : LowersSymbols lower) {text : List Char}
    (plain : ∀ c ∈ text, c ∈ alphabet) : canonical lower text = text := by
  have kept : text.filter (fun c => !Text.isWhitespace c && decide (c ≠ '-')) = text :=
    List.filter_eq_self.mpr fun c member => symbol_plain (plain c member)
  rw [canonical, kept]
  induction text with
  | nil => rfl
  | cons c text ih =>
    rw [List.flatMap_cons, lowers c (plain c List.mem_cons_self), ih _ _]
    · rfl
    · exact fun other member => plain other (List.mem_cons_of_mem _ member)
    · exact List.filter_eq_self.mpr fun other member =>
        symbol_plain (plain other (List.mem_cons_of_mem _ member))

theorem filter_intercalate {p : Char → Bool} {glue : List Char} (taken : glue.filter p = [])
    (parts : List (List Char)) : (glue.intercalate parts).filter p = parts.flatten.filter p := by
  induction parts with
  | nil => rfl
  | cons part parts ih =>
    cases parts with
    | nil => rw [List.intercalate_singleton, List.flatten_cons, List.flatten_nil, List.append_nil]
    | cons next parts =>
      have behind : (part :: next :: parts).flatten = part ++ (next :: parts).flatten := rfl
      rw [List.intercalate_cons_cons, List.filter_append, List.filter_append, taken, ih, behind,
        List.filter_append, List.append_nil]

theorem canonical_shown (lowers : LowersSymbols lower) (entropy : Vector UInt8 5) :
    canonical lower (shown entropy) = encode entropy.toList := by
  have bare : canonical lower (shown entropy) = canonical lower (encode entropy.toList) := by
    rw [canonical, shown, filter_intercalate (by decide),
      Lines.flatten_chunks _ _ _ (by decide) (Nat.lt_succ_self _), canonical]
  rw [bare, canonical_of_symbols lowers fun _ => mem_of_encode]

/-! ### What the guard promises -/

/-- The code of a request, or what an answer is read as. -/
def Operation.text (lower : Char → List Char) : Operation υ → List Char
  | .request _ entropy _ => encode entropy.toList
  | .confirm answer _ => canonical lower answer

/-- Digests tell the texts of a history apart. -/
def Apart (hash : List UInt8 → B3Hash) (lower : Char → List Char) (history : List (Operation υ)) : Prop :=
  Set.InjOn (fun text => hash (Utf8.encode text)) {text | ∃ op ∈ history, op.text lower = text}

variable {answer : List Char}

theorem reads_of_hands {now : Nat} {verb : υ}
    (hands : (guard.confirm hash lower answer now).1 = .ok verb) :
    guard.Reads now ∧ ∃ pending, guard.pending = some pending ∧ pending.verb = verb := by
  rcases @confirm_cases _ hash lower guard answer now with
    ⟨-, miss, -, same⟩ | ⟨reads, pending, waits, -, -, done⟩ | ⟨-, missed⟩
  · rw [same] at hands
    cases hands
  · rw [done] at hands
    cases hands
    exact ⟨reads, pending, waits, rfl⟩
  · rw [missed] at hands
    cases hands

theorem hands_since {history : List (Operation υ)} (lowers : LowersSymbols lower)
    {now : Nat} {verb : υ} (apart : Apart hash lower (history ++ [.confirm answer now]))
    (hands : ((run hash lower history).confirm hash lower answer now).1 = .ok verb) :
    ∃ entropy expires, canonical lower answer = canonical lower (shown entropy) ∧ now < expires ∧
      Since (fun _ op => op = .request verb entropy expires)
        (fun before op => (∀ verb entropy expires, op ≠ .request verb entropy expires) ∧
          ¬Read hash lower before op) history := by
  rcases @confirm_cases _ hash lower (run hash lower history) answer now with
    ⟨-, miss, -, same⟩ | ⟨reads, pending, waits, matched, early, done⟩ | ⟨-, missed⟩
  · rw [same] at hands
    cases hands
  · rw [done] at hands
    cases hands
    obtain ⟨entropy, code, since⟩ := waits_since reads.1 waits
    refine ⟨entropy, pending.expires, ?_, early, since⟩
    rw [canonical_shown lowers]
    have asked : .request pending.verb entropy pending.expires ∈ history := by
      obtain ⟨before, _, after, rfl, rfl, -⟩ := since
      exact List.mem_append_right _ List.mem_cons_self
    exact apart ⟨_, List.mem_append_right _ List.mem_cons_self, rfl⟩
      ⟨_, List.mem_append_left _ asked, rfl⟩ (matched.symm.trans code)
  · rw [missed] at hands
    cases hands

variable (hash lower) in
/-- What holds of the guard over a history of requests and answers: a verb is done for the code of the
latest request, before it expires; an answer read ends that request; answers read are spaced and the
misses among them bounded; a guard that has locked stays locked and refuses. -/
structure Guarded (history : List (Operation υ)) : Prop where
  hands : ∀ before answer now after verb, history = before ++ .confirm answer now :: after →
    ((run hash lower before).confirm hash lower answer now).1 = .ok verb →
    ∃ entropy expires, canonical lower answer = canonical lower (shown entropy) ∧ now < expires ∧
      Since (fun _ op => op = .request verb entropy expires)
        (fun before op => (∀ verb entropy expires, op ≠ .request verb entropy expires) ∧
          ¬Read hash lower before op) before
  handsOnce : ∀ first answer now middle answer' now' rest verb verb',
    history = (first ++ .confirm answer now :: middle) ++ .confirm answer' now' :: rest →
    ((run hash lower first).confirm hash lower answer now).1 = .ok verb →
    ((run hash lower (first ++ .confirm answer now :: middle)).confirm hash lower answer' now').1 =
      .ok verb' →
    ∃ entropy expires, .request verb' entropy expires ∈ middle
  readOnce : ∀ first one middle other rest,
    history = (first ++ one :: middle) ++ other :: rest → Read hash lower first one →
    Read hash lower (first ++ one :: middle) other →
    (run hash lower (first ++ one :: middle)).pending ≠ none →
    ∃ verb entropy expires, .request verb entropy expires ∈ middle
  spaced : ∀ first answer now middle answer' now' rest,
    history = (first ++ .confirm answer now :: middle) ++ .confirm answer' now' :: rest →
    (run hash lower first).Reads now →
    (run hash lower (first ++ .confirm answer now :: middle)).Reads now' →
    (now :: (middle.filterMap Operation.time ++ [now'])).Pairwise (· ≤ ·) →
    now + confirmSpacingMs ≤ now' ∨ u64Values - 1 ≤ now'
  misses : ∀ first stretch rest, history = first ++ stretch ++ rest →
    (∀ before op after verb, stretch = before ++ op :: after →
      ¬(run hash lower (first ++ before)).Hands hash lower verb op) →
    (run hash lower first).missesIn hash lower stretch ≤ confirmMissesMax
  locks : ∀ first rest, history = first ++ rest → (run hash lower first).locked = true →
    run hash lower history = run hash lower first ∧
      (∀ verb entropy expires, ((run hash lower history).request hash verb entropy expires).1 =
        .error Miss.locked.refusal) ∧
      ∀ answer now, ((run hash lower history).confirm hash lower answer now).1 = .error .locked

/-- Where digests tell the texts in play apart, every run of the guard is guarded. -/
theorem confirm_guarded {history : List (Operation υ)} (lowers : LowersSymbols lower)
    (apart : Apart hash lower history) : Guarded hash lower history where
  hands before answer now after verb place handed := by
    refine hands_since lowers (apart.mono ?_) handed
    rintro text ⟨op, member, rfl⟩
    refine ⟨op, ?_, rfl⟩
    rw [place]
    rcases List.mem_append.mp member with earlier | here
    · exact List.mem_append_left _ earlier
    · rw [List.mem_singleton.mp here]
      exact List.mem_append_right _ List.mem_cons_self
  handsOnce first answer now middle answer' now' rest verb verb' _ handed again := by
    obtain ⟨reads, -⟩ := reads_of_hands handed
    obtain ⟨reads', pending, waits, rfl⟩ := reads_of_hands again
    obtain ⟨entropy, asked⟩ := requested_between ⟨answer, now, rfl, reads⟩ reads' waits
    exact ⟨entropy, _, asked⟩
  readOnce first one middle other rest _ read again waiting := by
    obtain ⟨pending, waits⟩ := Option.ne_none_iff_exists'.mp waiting
    obtain ⟨answer, now, -, reads⟩ := again
    obtain ⟨entropy, asked⟩ := requested_between read reads waits
    exact ⟨_, entropy, _, asked⟩
  spaced first answer now middle answer' now' rest _ reads again clock := reads_spaced reads again clock
  misses first stretch rest _ undone := by
    have bounded := misses_run (run_misses_le first) fun before op after split verb => by
      rw [← run_append]
      exact undone before op after verb split
    exact (Nat.le_add_left _ _).trans bounded
  locks first rest place locked := by
    have still : run hash lower history = run hash lower first := by
      rw [place, run_append, foldl_locked locked]
    rw [still]
    exact ⟨rfl, fun verb entropy expires => congrArg Prod.fst (request_locked locked verb entropy expires),
      fun answer now => congrArg Prod.fst (confirm_locked locked answer now)⟩

/-- The digest of eight letters, and of nothing else. -/
def lettersDigest (bytes : List UInt8) : B3Hash :=
  if bytes = List.replicate 8 97 then
    ⟨[0xb1, 0xe5, 0x7b, 0xac, 0xea, 0xfd, 0xc3, 0xb0, 0x3a, 0xb5, 0x18,
      0x9c, 0xb2, 0x45, 0x75, 0x77, 0x99, 0x87, 0x4f, 0xbf, 0xd1, 0x5a,
      0x57, 0x3f, 0xc7, 0x8f, 0xaa, 0x13, 0x6d, 0x2d, 0x3e, 0x8a], rfl⟩
  else ⟨List.replicate 32 0, Digest.zeros_sized⟩

/-- A code asked for and typed back in capitals. -/
def typing : List (Operation Unit) :=
  [.request () (Vector.replicate 5 0) 9, .confirm "AAAA AAAA".toList 5]

theorem lowersSymbols_toLower : LowersSymbols fun c => [c.toLower] := by
  have checked : alphabet.all (fun c => c.toLower == c) = true := by decide +kernel
  exact fun c member => congrArg (fun other => [other]) (eq_of_beq (List.all_eq_true.mp checked c member))

theorem apart_typing : Apart lettersDigest (fun c => [c.toLower]) typing := by
  refine (Set.injOn_singleton _ (List.replicate 8 'a')).mono ?_
  rintro text ⟨op, member, rfl⟩
  rcases List.mem_cons.mp member with rfl | member
  · exact (show encode (Vector.replicate 5 (0 : UInt8)).toList = _ by decide +kernel)
  · rw [List.mem_singleton.mp member]
    exact (show canonical (fun c => [c.toLower]) "AAAA AAAA".toList = _ by decide +kernel)

theorem guarded_typing : Guarded lettersDigest (fun c => [c.toLower]) typing :=
  confirm_guarded lowersSymbols_toLower apart_typing

/-- At the end of the clock answers are read without a pause. -/
theorem confirm_not_spaced : ¬∀ (hash : List UInt8 → B3Hash) (lower : Char → List Char)
    (history : List (Operation Unit)) first answer now middle answer' now' rest,
    history = (first ++ .confirm answer now :: middle) ++ .confirm answer' now' :: rest →
    (run hash lower first).Reads now →
    (run hash lower (first ++ .confirm answer now :: middle)).Reads now' →
    (now :: (middle.filterMap Operation.time ++ [now'])).Pairwise (· ≤ ·) →
    now + confirmSpacingMs ≤ now' := by
  intro always
  let last := u64Values - 1
  have spaced := always lettersDigest (fun c => [c.toLower]) [.confirm [] last, .confirm [] last]
    [] [] last [] [] last [] rfl ⟨by decide, by decide⟩ ⟨by decide, by decide⟩ (by decide)
  have pause : 0 < confirmSpacingMs := by decide
  omega

end Confirm

end RemoteAccess

end Sprawling
