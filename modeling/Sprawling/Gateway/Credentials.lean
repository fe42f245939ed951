import Sprawling.Gateway.Normalise

/-! Which credentials an accepted URL can still carry: those that a fragment brings in front of the first
question mark, which is where the query is split off. -/

namespace Sprawling

open List Text Secret

namespace Normalise

open Reach

variable {entered locator : List Char} {hint : DialectHint} {presets : HostDefaults}
  {normalised : Normalised}

/-- The pairs of the text after the first question mark or hash. -/
def pairs (locator : List Char) : List (List Char) :=
  ((locator.dropWhile fun c => !opensSuffix c).drop 1).splitOnP dividesPairs

/-- Nothing is written before the host, and no pair is named as a credential or holds one. -/
structure Clean (locator : List Char) : Prop where
  host : '@' ∉ locator.takeWhile fun c => !endsAuthority c
  pairs : ∀ pair ∈ pairs locator, carriesCredential pair = false

/-- The pairs of the text after the first hash that begin before the first question mark, when the hash
comes first. -/
def unexamined (locator : List Char) : List (List Char) :=
  match splitOnce '?' locator with
  | none => []
  | some (address, query) =>
    match splitOnce '#' address with
    | none => []
    | some (_, fragment) =>
      ((fragment ++ '?' :: query).splitOnP dividesPairs).take
        (fragment.splitOnP dividesPairs).length

example : unexamined ['h', '?', 'v'] = [] := by decide +kernel

/-! ### A question mark in front of a pair makes no difference -/

theorem not_isPrefixOf_question {marker : String} (listed : marker ∈ credentialNameMarkers)
    (text : Bytes) : (Ascii.bytes marker).isPrefixOf (63 :: text) = false := by
  have first : ∀ marker ∈ credentialNameMarkers,
      (Ascii.bytes marker).head?.any (· != 63) = true := by decide +kernel
  have some_first := first marker listed
  cases same : Ascii.bytes marker with
  | nil => simp [same] at some_first
  | cons byte rest =>
    have apart : (byte == 63) = false := by simpa [same] using some_first
    simp [isPrefixOf_cons_cons, apart]

theorem namesACredential_question (name : Bytes) :
    namesACredential (63 :: name) = namesACredential name := by
  have lower : Ascii.toLower 63 = 63 := by decide
  unfold namesACredential
  rw [Bool.eq_iff_iff, any_eq_true, any_eq_true]
  refine exists_congr fun marker => and_congr_right fun listed => ?_
  rw [map_cons, lower, Secret.contains, tails_cons, any_cons,
    not_isPrefixOf_question listed, Bool.false_or, Secret.contains]

theorem carriesCredential_question (pair : List Char) :
    carriesCredential ('?' :: pair) = carriesCredential pair := by
  have apart : '?' ≠ '=' := by decide
  have encoded : ∀ name : List Char, Utf8.encode ('?' :: name) = 63 :: Utf8.encode name := by
    intro name
    rw [← singleton_append, Utf8.encode_append]
    rfl
  unfold carriesCredential
  rw [splitOnce, if_neg apart]
  cases splitOnce '=' pair with
  | none => simp only [Option.map_none, Option.getD_none, encoded, namesACredential_question]
  | some sides => simp only [Option.map_some, Option.getD_some, encoded, namesACredential_question]

theorem carriesCredential_nil : carriesCredential [] = false := by
  decide +kernel

theorem carriesCredential_of_mem_splitOnP {query pair : List Char}
    (listed : pair ∈ query.splitOnP dividesPairs) (carries : carriesCredential pair = true) :
    ∃ other ∈ (query.dropWhile opensSuffix).splitOnP dividesPairs, carriesCredential other = true := by
  induction query generalizing pair with
  | nil => exact ⟨pair, listed, carries⟩
  | cons c query ih =>
    by_cases opens : opensSuffix c = true
    · rw [dropWhile_cons_of_pos opens]
      rw [splitOnP_cons_eq_if_modifyHead] at listed
      split at listed
      · rcases mem_cons.mp listed with rfl | listed
        · rw [carriesCredential_nil] at carries
          cases carries
        · exact ih listed carries
      · next undivided =>
          have question : c = '?' := by
            simp only [opensSuffix, Bool.or_eq_true, decide_eq_true_eq] at opens
            simp only [dividesPairs, Bool.or_eq_true, decide_eq_true_eq, not_or] at undivided
            exact opens.resolve_right undivided.2
          subst question
          cases cut : query.splitOnP dividesPairs with
          | nil => exact absurd cut (splitOnP_ne_nil _ _)
          | cons first others =>
            rw [cut, modifyHead_cons, mem_cons] at listed
            rcases listed with rfl | listed
            · rw [carriesCredential_question] at carries
              exact ih (by simp [cut]) carries
            · exact ih (by simp [cut, listed]) carries
    · rw [dropWhile_cons_of_neg opens]
      exact ⟨pair, listed, carries⟩

variable {mark : Char}

theorem clean_of_examined {query : List Char} (opens : opensSuffix mark = true)
    (examined : queryCarriesCredential (mark :: query) = false) :
    ∀ pair ∈ query.splitOnP dividesPairs, carriesCredential pair = false := by
  intro pair listed
  rw [queryCarriesCredential, dropWhile_cons_of_pos opens, any_eq_false] at examined
  rw [Bool.eq_false_iff]
  intro carries
  obtain ⟨other, found, again⟩ := carriesCredential_of_mem_splitOnP listed carries
  exact examined other found again

/-! ### Where the pairs stand -/

theorem drop_splitOnP_append {α : Type} (p : α → Bool) (first second : List α) :
    ((first ++ second).splitOnP p).drop (first.splitOnP p).length = (second.splitOnP p).tail := by
  induction first with
  | nil => rw [nil_append, splitOnP_nil, length_singleton, drop_one]
  | cons item first ih =>
    rw [cons_append, splitOnP_cons_eq_if_modifyHead, splitOnP_cons_eq_if_modifyHead]
    split
    · rw [length_cons, drop_succ_cons, ih]
    · rw [length_modifyHead]
      cases cut : first.splitOnP p with
      | nil => exact absurd cut (splitOnP_ne_nil _ _)
      | cons head others =>
        rw [cut] at ih
        cases whole : (first ++ second).splitOnP p with
        | nil => exact absurd whole (splitOnP_ne_nil _ _)
        | cons one more =>
          rw [whole] at ih
          exact ih

variable {address : List Char}

theorem pairs_append (plain : ∀ c ∈ address, opensSuffix c = false) (opens : opensSuffix mark = true) (rest : List Char) :
    pairs (address ++ mark :: rest) = rest.splitOnP dividesPairs := by
  have skipped : (address ++ mark :: rest).dropWhile (fun c => !opensSuffix c) = mark :: rest := by
    rw [dropWhile_append_of_pos fun c member => by simp [plain c member],
      dropWhile_cons_of_neg (by simp [opens])]
  rw [pairs, skipped]
  rfl

theorem opensSuffix_eq_false (unasked : '?' ∉ address) (plain : '#' ∉ address) :
    ∀ c ∈ address, opensSuffix c = false := by
  intro c member
  have first : c ≠ '?' := fun same => unasked (same ▸ member)
  have second : c ≠ '#' := fun same => plain (same ▸ member)
  simp [opensSuffix, first, second]

theorem unexamined_of_unasked (unasked : '?' ∉ locator) : unexamined locator = [] := by
  rw [unexamined, splitOnce_eq_none.mpr unasked]

/-- An accepted URL is clean when the pairs nobody looked at are. -/
theorem clean_iff (accepted : normalise entered hint presets = .ok normalised) :
    Clean (readScheme entered).2 ↔
      ∀ pair ∈ unexamined (readScheme entered).2, carriesCredential pair = false := by
  obtain ⟨clean, -⟩ := normalise_eq_ok.mp accepted
  obtain ⟨unnamed, examined⟩ := refuseCredentials_eq_ok.mp clean
  obtain ⟨cut, whole⟩ := splitSuffix_cut (readScheme entered).2
  generalize (readScheme entered).2 = locator at *
  have host : '@' ∉ locator.takeWhile fun c => !endsAuthority c := by
    rw [whole, takeWhile_authority cut]
    exact fun member => unnamed ((List.takeWhile_prefix _).subset member)
  have only_pairs : Clean locator ↔ ∀ pair ∈ pairs locator, carriesCredential pair = false :=
    ⟨Clean.pairs, Clean.mk host⟩
  rw [only_pairs]
  generalize (splitSuffix locator).1 = address at *
  generalize (splitSuffix locator).2 = suffix at *
  subst whole
  cases cut with
  | whole unasked plain =>
    have none_marked := opensSuffix_eq_false unasked plain
    have skipped : address.dropWhile (fun c => !opensSuffix c) = [] :=
      dropWhile_eq_nil_iff.mpr fun c member => by simp [none_marked c member]
    simp [unexamined_of_unasked unasked, pairs, skipped, carriesCredential_nil]
  | query unasked query =>
    have later := clean_of_examined (by decide) examined
    have asked : splitOnce '?' (address ++ '?' :: query) = some (address, query) :=
      Text.splitOnce_eq_some.mpr ⟨rfl, unasked⟩
    cases marked : splitOnce '#' address with
    | none =>
      have plain := opensSuffix_eq_false unasked (splitOnce_eq_none.mp marked)
      simp only [unexamined, asked, marked, pairs_append plain (show opensSuffix '?' = true from rfl)]
      exact ⟨fun _ pair impossible => absurd impossible not_mem_nil, fun _ => later⟩
    | some sides =>
      obtain ⟨front, fragment⟩ := sides
      obtain ⟨rfl, unmarked⟩ := Text.splitOnce_eq_some.mp marked
      have plain : ∀ c ∈ front, opensSuffix c = false :=
        opensSuffix_eq_false (fun member => unasked (by simp [member])) unmarked
      have listed : pairs (front ++ '#' :: fragment ++ '?' :: query) =
          (fragment ++ '?' :: query).splitOnP dividesPairs := by
        rw [append_assoc, cons_append, pairs_append plain rfl]
      have behind := drop_splitOnP_append dividesPairs fragment ('?' :: query)
      simp only [listed, unexamined, asked, marked]
      constructor
      · intro every pair early
        exact every pair (mem_of_mem_take early)
      · intro early pair member
        rw [← take_append_drop (fragment.splitOnP dividesPairs).length
          ((fragment ++ '?' :: query).splitOnP dividesPairs)] at member
        rcases mem_append.mp member with member | member
        · exact early pair member
        · have undivided : dividesPairs '?' = false := by decide
          rw [behind, splitOnP_cons_eq_if_modifyHead, undivided, if_neg Bool.false_ne_true,
            tail_modifyHead] at member
          exact later pair (mem_of_mem_tail member)
  | @fragment unasked plain fragment later =>
    have unasked_whole : '?' ∉ address ++ '#' :: fragment := by
      simp only [mem_append, mem_cons, not_or]
      exact ⟨unasked, by decide, later⟩
    have clean_pairs := clean_of_examined (by decide) examined
    simp only [unexamined_of_unasked unasked_whole,
      pairs_append (opensSuffix_eq_false unasked plain) (show opensSuffix '#' = true from rfl)]
    exact ⟨fun _ pair impossible => absurd impossible not_mem_nil, fun _ => clean_pairs⟩

example : carriesCredential ['v', '=', '1'] = false := by decide +kernel

def unlisted : HostDefaults := ⟨fun _ _ => none, fun _ => none⟩

def versionInQuery : List Char := ['h', '?', 'v', '=', '1', '#', 'f']

theorem clean_iff_versionInQuery : Clean (readScheme versionInQuery).2 :=
  (@clean_iff versionInQuery .chat unlisted ⟨https ++ colonSlashes ++ versionInQuery, .chat⟩
    (by decide +kernel)).mpr (by decide)

def keyInFragment : List Char := ['h', '#', 't', 'o', 'k', 'e', 'n', '=', 'a', '?', 'v', '=', '1']

/-- A key in a fragment with a question mark behind it is accepted, and the base URL holds it. -/
theorem not_clean :
    normalise keyInFragment .chat unlisted =
        .ok ⟨https ++ colonSlashes ++ keyInFragment, .chat⟩ ∧
      (∃ pair ∈ pairs (readScheme keyInFragment).2, carriesCredential pair = true) ∧
      ¬Clean (readScheme keyInFragment).2 := by
  have listed : ['t', 'o', 'k', 'e', 'n', '=', 'a', '?', 'v', '=', '1'] ∈
      pairs (readScheme keyInFragment).2 := by decide
  have carries : carriesCredential ['t', 'o', 'k', 'e', 'n', '=', 'a', '?', 'v', '=', '1'] = true := by
    decide +kernel
  refine ⟨by decide +kernel, ⟨_, listed, carries⟩, fun clean => ?_⟩
  have none_carried := clean.pairs _ listed
  rw [carries] at none_carried
  cases none_carried

end Normalise

end Sprawling
